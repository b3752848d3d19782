import Dialect.Proofs.Comment.Settled

/-!
# Splices

A splice of a text copies slices of it in order, leaves the rest out, and may insert
characters that belong to no comment mark.  Two copied characters touch only where
they touched in the text, because something is inserted wherever something is left
out.  So a splice of a settled text is settled.

Compiled statements are splices.  A table declaration is put together from the names
of its source, and the clock calls of other statements are written over.
-/

namespace Dialect
namespace Comment

/-- A character of no comment mark. -/
def isInert (c : Char) : Bool := c ≠ '-' && c ≠ '*' && c ≠ '/'

/-- `Spliced touching s t` holds when `t` is a splice of `s`.  When `touching` is true,
the first character of `s` touches the last character written, so it is not left
out before something is inserted. -/
inductive Spliced : Bool → Text → Text → Prop where
  | stop {touching s} : Spliced touching s []
  | copy {touching c s t} : Spliced true s t → Spliced touching (c :: s) (c :: t)
  | insert {touching c s t} : isInert c = true → Spliced false s t → Spliced touching s (c :: t)
  | skip {c s t} : Spliced false s t → Spliced false (c :: s) t

namespace Spliced

section Building

variable {touching : Bool} {s t u m : Text}

theorem loosen (h : Spliced true s t) : Spliced touching s t := by
  cases h with
  | stop => exact stop
  | copy h => exact copy h
  | insert hc h => exact insert hc h

theorem skips (u : Text) (h : Spliced false s t) : Spliced false (u ++ s) t := by
  induction u with
  | nil => exact h
  | cons c u ih => exact skip ih

theorem copies (u : Text) (h : Spliced true s t) : Spliced true (u ++ s) (u ++ t) := by
  induction u with
  | nil => exact h
  | cons c u ih => exact copy ih

theorem refl (s : Text) : Spliced touching s s := by
  simpa using (copies s (stop (s := []))).loosen

theorem inserts (hm : m.all isInert = true) (h : Spliced false s t) :
    Spliced false s (m ++ t) := by
  induction m with
  | nil => exact h
  | cons c m ih =>
    rw [List.all_cons, Bool.and_eq_true] at hm
    exact insert hm.1 (ih hm.2)

theorem inserts_of_ne_nil (hne : m ≠ []) (hm : m.all isInert = true) (h : Spliced false s t) :
    Spliced touching s (m ++ t) := by
  cases m with
  | nil => exact absurd rfl hne
  | cons c m =>
    rw [List.all_cons, Bool.and_eq_true] at hm
    exact insert hm.1 (inserts hm.2 h)

/-- A splice without its first character is a splice of what it is not made from. -/
theorem drop {c : Char} (h : Spliced touching s (c :: t)) : Spliced false s t := by
  generalize ht : c :: t = u at h
  induction h with
  | stop => contradiction
  | copy h =>
    obtain ⟨rfl, rfl⟩ := List.cons.inj ht
    exact skip (loosen h)
  | insert hc h =>
    obtain ⟨rfl, rfl⟩ := List.cons.inj ht
    exact h
  | skip h ih => exact skip (ih ht)

theorem drops (m : Text) (h : Spliced false s (m ++ t)) : Spliced false s t := by
  induction m with
  | nil => exact h
  | cons c m ih => exact ih h.drop

theorem slice (u : Text) (hne : m ≠ []) (hm : m.all isInert = true) (h : Spliced false s t) :
    Spliced touching (u ++ s) (u ++ (m ++ t)) :=
  loosen (copies u (inserts_of_ne_nil hne hm h))

end Building

section Settling

variable {a b c : Char} {touching : Bool} {s t : Text}

/-- A mark across the seam to a splice stands across the seam to the text as well. -/
theorem pair_prefix (hb : isInert b = false) (h : Spliced true s t) (hp : [a, b] <+: c :: t) :
    [a, b] <+: c :: s := by
  rw [pair_prefix_cons] at hp ⊢
  refine ⟨hp.1, ?_⟩
  cases h with
  | stop => simp at hp
  | copy h => exact hp.2
  | insert hi h =>
    rw [Option.some.inj hp.2, hb] at hi
    contradiction

theorem not_pair_isInfix (ha : isInert a = false) (hb : isInert b = false)
    (h : Spliced touching s t) (hs : ¬ [a, b] <:+: s) : ¬ [a, b] <:+: t := by
  induction h with
  | stop => simp
  | copy h ih =>
    rw [List.infix_cons_iff, not_or] at hs ⊢
    exact ⟨fun hp => hs.1 (h.pair_prefix hb hp), ih hs.2⟩
  | insert hi h ih =>
    rw [pair_infix_cons, not_or]
    refine ⟨?_, ih hs⟩
    rintro ⟨rfl, _⟩
    rw [ha] at hi
    contradiction
  | skip h ih => exact ih fun hp => hs (List.infix_cons hp)

theorem settled (h : Spliced touching s t) (hs : Settled s) : Settled t := by
  refine ⟨h.not_pair_isInfix (by decide) (by decide) hs.line, fun u hu => ?_⟩
  induction h with
  | stop => simp at hu
  | @copy _ c s t h ih =>
    rcases List.suffix_cons_iff.mp hu with he | hu
    · -- The opener is copied, so everything behind it is a splice of what stood behind it.
      obtain ⟨rfl, rfl⟩ := List.cons.inj he
      cases h with
      | copy h => exact h.not_pair_isInfix (by decide) (by decide) (hs.block _ List.suffix_rfl)
      | insert hi h => exact absurd hi (by decide)
    · exact ih (hs.of_isInfix (List.suffix_cons _ _).isInfix) hu
  | insert hi h ih =>
    rcases List.suffix_cons_iff.mp hu with he | hu
    · rw [← (List.cons.inj he).1] at hi
      exact absurd hi (by decide)
    · exact ih hs hu
  | skip h ih => exact ih (hs.of_isInfix (List.suffix_cons _ _).isInfix) hu

end Settling
end Spliced
end Comment
end Dialect
