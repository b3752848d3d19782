import Dialect.Proofs.Comment.Scanner
import Dialect.Proofs.Text

/-!
# Where the characters of a text without comments come from

A character that removal writes is copied from a place of the text, or it is a space that
was inserted.  The places that are not copied are those inside comments.  Places are
copied in order, and two characters that touch in what is written, neither of them a
space, touched in the text.  So removal joins no words that a comment kept apart.
-/

namespace Dialect
namespace Comment

/-! ## Places inside comments -/

/-- `comment` is a whole comment when `rest` stands behind it. -/
inductive IsComment : Text → Text → Prop where
  | line {inside rest : Text} :
    '\n' ∉ inside → (∀ c ∈ rest.head?, c = '\n') → IsComment ('-' :: '-' :: inside) rest
  | block {inside rest : Text} :
    ¬ ['*', '/'] <:+: inside → IsComment ('/' :: '*' :: (inside ++ ['*', '/'])) rest

def BeginsComment (s : Text) : Prop :=
  ∃ comment rest, s = comment ++ rest ∧ IsComment comment rest

/-- A reading from the left passes over a comment as a whole, and where no comment begins
over one character.  The place `p` of `s` is inside a comment that the reading passes
over. -/
inductive InComment : Text → Nat → Prop where
  | inside {comment rest : Text} {p : Nat} :
    IsComment comment rest → p < comment.length → InComment (comment ++ rest) p
  | behind {comment rest : Text} {p : Nat} :
    IsComment comment rest → InComment rest p → InComment (comment ++ rest) (comment.length + p)
  | past {c : Char} {s : Text} {p : Nat} :
    ¬ BeginsComment (c :: s) → InComment s p → InComment (c :: s) (p + 1)

section Places

variable {comment comment' rest rest' s t : Text} {c : Char} {p : Nat}

theorem IsComment.unique (h : IsComment comment rest) (h' : IsComment comment' rest')
    (same : comment ++ rest = comment' ++ rest') : comment = comment' ∧ rest = rest' := by
  cases h with
  | @line inside rest hn hr =>
    cases h' with
    | @line inside' rest' hn' hr' =>
      simp only [List.cons_append, List.cons.injEq, true_and] at same
      have run {t u : Text} (ht : '\n' ∉ t) (hu : ∀ c ∈ u.head?, c = '\n') :
          (t ++ u).takeWhile (· ≠ '\n') = t :=
        takeWhile_run (fun c hc => decide_eq_true fun e => ht (e ▸ hc))
          fun c hc => decide_eq_false (not_not_intro (hu c hc))
      have inner : inside = inside' := by rw [← run hn hr, same, run hn' hr']
      rw [inner, List.append_cancel_left_eq] at same
      exact ⟨by rw [inner], same⟩
    | block => simp at same
  | @block inside rest hn =>
    cases h' with
    | line => simp at same
    | @block inside' rest' hn' =>
      have begins : Scanner.BeginsBlock ('/' :: '*' :: (inside ++ '*' :: '/' :: rest)) inside rest :=
        ⟨rfl, hn⟩
      have begins' : Scanner.BeginsBlock ('/' :: '*' :: (inside ++ '*' :: '/' :: rest)) inside'
          rest' := ⟨by simpa using same, hn'⟩
      obtain ⟨rfl, rfl⟩ := begins.unique begins'
      exact ⟨rfl, rfl⟩

theorem inComment_behind_iff (h : IsComment comment rest) :
    InComment (comment ++ rest) (comment.length + p) ↔ InComment rest p := by
  refine ⟨fun hin => ?_, .behind h⟩
  generalize hs : comment ++ rest = s at hin
  generalize hq : comment.length + p = q at hin
  cases hin with
  | inside h' hlt =>
    obtain ⟨rfl, rfl⟩ := h.unique h' hs
    omega
  | behind h' hin =>
    obtain ⟨rfl, rfl⟩ := h.unique h' hs
    rwa [Nat.add_left_cancel hq]
  | past none => exact absurd ⟨comment, rest, hs.symm, h⟩ none

theorem not_inComment_zero (h : ¬ BeginsComment s) : ¬ InComment s 0 := by
  generalize hp : 0 = p
  intro hin
  cases hin with
  | inside h' => exact h ⟨_, _, rfl, h'⟩
  | behind h' => exact h ⟨_, _, rfl, h'⟩
  | past => exact absurd hp (Nat.succ_ne_zero _).symm

theorem inComment_succ_iff (h : ¬ BeginsComment (c :: s)) :
    InComment (c :: s) (p + 1) ↔ InComment s p := by
  refine ⟨fun hin => ?_, .past h⟩
  generalize hs : c :: s = t at hin
  generalize hq : p + 1 = q at hin
  cases hin with
  | inside h' => exact absurd ⟨_, _, hs, h'⟩ h
  | behind h' => exact absurd ⟨_, _, hs, h'⟩ h
  | past _ hin =>
    obtain ⟨rfl, rfl⟩ := List.cons.inj hs
    rwa [Nat.add_right_cancel hq]

theorem line_eq_append (s : Text) : '-' :: '-' :: s =
    ('-' :: '-' :: s.takeWhile (· ≠ '\n')) ++ s.dropWhile (· ≠ '\n') := by
  simp only [List.cons_append, List.takeWhile_append_dropWhile]

theorem isComment_line (s : Text) :
    IsComment ('-' :: '-' :: s.takeWhile (· ≠ '\n')) (s.dropWhile (· ≠ '\n')) := by
  refine .line (fun hn => ?_) fun c hc => ?_
  · have := List.all_eq_true.mp List.all_takeWhile _ hn
    simp at this
  · simpa using head?_dropWhile_eq_false c hc

theorem Scanner.BeginsBlock.exists_isComment {inside : Text} (h : BeginsBlock s inside rest) :
    ∃ comment, s = comment ++ rest ∧ IsComment comment rest :=
  ⟨'/' :: '*' :: (inside ++ ['*', '/']), by simpa using h.1, .block h.2⟩

theorem beginsComment_iff : BeginsComment s ↔
    ['-', '-'] <+: s ∨ ∃ inside rest, Scanner.BeginsBlock s inside rest := by
  constructor
  · rintro ⟨comment, rest, rfl, h⟩
    cases h with
    | @line inside => exact Or.inl ⟨inside ++ rest, rfl⟩
    | @block inside _ hn => exact Or.inr ⟨inside, rest, by simp, hn⟩
  · rintro (⟨s, rfl⟩ | ⟨inside, rest, h⟩)
    · exact ⟨_, _, line_eq_append s, isComment_line s⟩
    · obtain ⟨comment, whole, h⟩ := h.exists_isComment
      exact ⟨comment, rest, whole, h⟩

end Places

/-! ## Signs -/

/-- A character that is written. -/
structure Sign where
  char : Char
  /-- The place that the character was copied from, unless it was inserted. -/
  origin : Option Nat

/-- The signs say where the characters come from that are written for the first `n` places
of `s`. -/
structure Provenance (s : Text) (n : Nat) (signs : List Sign) : Prop where
  copied : ∀ x ∈ signs, ∀ p ∈ x.origin, p < n ∧ s[p]? = some x.char
  inserted : ∀ x ∈ signs, x.origin = none → x.char = ' '
  first : ∀ x ∈ signs.head?, x.origin ≠ none
  /-- An inserted space stands behind a copied character that is no space, in the place of a
  comment. -/
  single : ∀ x y, [x, y] <:+: signs → y.origin = none →
    isSpace x.char = false ∧ ∃ p, x.origin = some p ∧ InComment s (p + 1)
  increasing : (signs.filterMap Sign.origin).Pairwise (· < ·)
  kept : ∀ p < n, p ∈ signs.filterMap Sign.origin ↔ ¬ InComment s p
  adjacent : ∀ x y, [x, y] <:+: signs → isSpace x.char = false → isSpace y.char = false →
    ∃ p, x.origin = some p ∧ y.origin = some (p + 1)

section Signs

variable {s : Text} {n m : Nat} {c : Char} {signs : List Sign}

theorem pair_infix_concat {α : Type} {x y z : α} {l : List α} :
    [x, y] <:+: l ++ [z] ↔ (l.getLast? = some x ∧ y = z) ∨ [x, y] <:+: l := by
  rw [List.infix_concat_iff, List.suffix_concat_iff, ← List.singleton_suffix_iff_getLast?_eq_some]
  refine or_congr_left ?_
  constructor
  · rintro (h | ⟨t, h, ht⟩)
    · simp at h
    · have cut : [x] ++ [y] = t ++ [z] := h
      obtain ⟨rfl, hz⟩ := List.append_inj' cut rfl
      exact ⟨ht, List.singleton_inj.mp hz⟩
  · rintro ⟨h, rfl⟩
    exact Or.inr ⟨[x], rfl, h⟩

namespace Provenance

theorem lt_of_mem {p : Nat} (h : Provenance s n signs) (hp : p ∈ signs.filterMap Sign.origin) :
    p < n := by
  obtain ⟨x, hx, hxp⟩ := List.mem_filterMap.mp hp
  exact (h.copied x hx p hxp).1

/-- Nothing is written for the places of a comment. -/
theorem skip (h : Provenance s n signs) (hnm : n ≤ m)
    (hc : ∀ p, n ≤ p → p < m → InComment s p) : Provenance s m signs := by
  refine ⟨fun x hx p hp => ?_, h.inserted, h.first, h.single, h.increasing, fun p hp => ?_,
    h.adjacent⟩
  · obtain ⟨hlt, hchar⟩ := h.copied x hx p hp
    exact ⟨Nat.lt_of_lt_of_le hlt hnm, hchar⟩
  · rcases Nat.lt_or_ge p n with hpn | hpn
    · exact h.kept p hpn
    · refine iff_of_false (fun hmem => ?_) (not_not_intro (hc p hpn hp))
      exact absurd (h.lt_of_mem hmem) (Nat.not_lt.mpr hpn)

theorem insert (h : Provenance s n signs) (hlast : ∃ x ∈ signs.getLast?,
      isSpace x.char = false ∧ ∃ p, x.origin = some p ∧ InComment s (p + 1)) :
    Provenance s n (signs ++ [⟨' ', none⟩]) := by
  obtain ⟨last, hlast, behind⟩ := hlast
  have origins : (signs ++ [Sign.mk ' ' none]).filterMap Sign.origin =
      signs.filterMap Sign.origin := by
    simp
  constructor
  · intro x hx p hp
    rcases List.mem_append.mp hx with hx | hx
    · exact h.copied x hx p hp
    · rw [List.mem_singleton.mp hx] at hp
      contradiction
  · intro x hx ho
    rcases List.mem_append.mp hx with hx | hx
    · exact h.inserted x hx ho
    · rw [List.mem_singleton.mp hx]
  · intro x hx
    cases signs with
    | nil => simp at hlast
    | cons y signs => exact h.first x hx
  · intro x y hxy ho
    rcases pair_infix_concat.mp hxy with ⟨hl, rfl⟩ | hxy
    · obtain rfl : last = x := Option.some.inj (hlast.symm.trans hl)
      exact behind
    · exact h.single x y hxy ho
  · rw [origins]
    exact h.increasing
  · rw [origins]
    exact h.kept
  · intro x y hxy hx hy
    rcases pair_infix_concat.mp hxy with ⟨_, rfl⟩ | hxy
    · exact absurd hy (by decide)
    · exact h.adjacent x y hxy hx hy

theorem copy (h : Provenance s n signs) (hchar : s[n]? = some c) (hc : ¬ InComment s n)
    (hlast : ∀ x ∈ signs.getLast?, isSpace x.char = false → isSpace c = false →
      ∃ p, x.origin = some p ∧ p + 1 = n) :
    Provenance s (n + 1) (signs ++ [⟨c, some n⟩]) := by
  have origins : (signs ++ [Sign.mk c (some n)]).filterMap Sign.origin =
      signs.filterMap Sign.origin ++ [n] := by
    simp
  constructor
  · intro x hx p hp
    rcases List.mem_append.mp hx with hx | hx
    · obtain ⟨hlt, hp⟩ := h.copied x hx p hp
      exact ⟨Nat.lt_succ_of_lt hlt, hp⟩
    · rw [List.mem_singleton.mp hx] at hp ⊢
      obtain rfl := Option.some.inj hp
      exact ⟨Nat.lt_succ_self n, hchar⟩
  · intro x hx ho
    rcases List.mem_append.mp hx with hx | hx
    · exact h.inserted x hx ho
    · rw [List.mem_singleton.mp hx] at ho
      contradiction
  · intro x hx
    cases signs with
    | nil => simp [← Option.some.inj hx]
    | cons y signs => exact h.first x hx
  · intro x y hxy ho
    rcases pair_infix_concat.mp hxy with ⟨_, rfl⟩ | hxy
    · contradiction
    · exact h.single x y hxy ho
  · rw [origins, List.pairwise_append]
    refine ⟨h.increasing, List.pairwise_singleton _ _, fun p hp q hq => ?_⟩
    rw [List.mem_singleton.mp hq]
    exact h.lt_of_mem hp
  · intro p hp
    rw [origins, List.mem_append, List.mem_singleton]
    rcases Nat.lt_succ_iff_lt_or_eq.mp hp with hlt | rfl
    · rw [← h.kept p hlt, or_iff_left (Nat.ne_of_lt hlt)]
    · exact iff_of_true (Or.inr rfl) hc
  · intro x y hxy hx hy
    rcases pair_infix_concat.mp hxy with ⟨hl, rfl⟩ | hxy
    · obtain ⟨p, hp, rfl⟩ := hlast x hl hx hy
      exact ⟨p, hp, rfl⟩
    · exact h.adjacent x y hxy hx hy

end Provenance
end Signs

/-! ## Runs of the scanner -/

open Scanner

/-- The scanner has come to the end of `read`, and the signs are what it has written. -/
structure Accounted (s read : Text) (σ : Scanner) (signs : List Sign) : Prop where
  whole : s = read ++ σ.rest
  written : signs.map Sign.char = σ.written
  provenance : Provenance s read.length signs
  ahead : ∀ p, InComment s (read.length + p) ↔ InComment σ.rest p
  /-- Only comments have been passed over since the last sign was written. -/
  behind : ∀ x ∈ signs.getLast?, ∀ p ∈ x.origin, p + 1 = read.length ∨ InComment s (p + 1)
  /-- Two characters that touch across the place of the scanner touch in the text. -/
  seam : ∀ x ∈ signs.getLast?, ∀ c ∈ σ.rest.head?, isSpace x.char = false → isSpace c = false →
    ∃ p, x.origin = some p ∧ p + 1 = read.length

section Runs

variable {s read comment rest written : Text} {σ τ : Scanner} {signs : List Sign} {c : Char}

theorem IsComment.length_pos (h : IsComment comment rest) : 0 < comment.length := by
  cases h <;> exact Nat.succ_pos _

theorem getLast?_written (h : signs.map Sign.char = written) :
    written.getLast? = signs.getLast?.map Sign.char := by
  rw [← h, List.getLast?_map]

/-- The places of a comment are accounted for without a sign. -/
theorem Accounted.skip (h : Accounted s read ⟨written, comment ++ rest⟩ signs)
    (hc : IsComment comment rest) :
    Provenance s (read ++ comment).length signs ∧
      (∀ p, InComment s ((read ++ comment).length + p) ↔ InComment rest p) ∧
      ∀ x ∈ signs.getLast?, ∀ p ∈ x.origin, InComment s (p + 1) := by
  have inside {p : Nat} (hp : p < comment.length) : InComment s (read.length + p) :=
    (h.ahead p).mpr (.inside hc hp)
  rw [List.length_append]
  refine ⟨h.provenance.skip (Nat.le_add_right _ _) fun p hp hlt => ?_, fun p => ?_,
    fun x hx p hp => ?_⟩
  · obtain ⟨q, rfl⟩ := Nat.exists_eq_add_of_le hp
    exact inside (Nat.add_lt_add_iff_left.mp hlt)
  · rw [Nat.add_assoc, h.ahead]
    exact inComment_behind_iff hc
  · rcases h.behind x hx p hp with here | hin
    · rw [here]
      exact inside hc.length_pos
    · exact hin

/-- Over a comment that keeps no two characters apart nothing is written. -/
theorem Accounted.pass (h : Accounted s read ⟨written, comment ++ rest⟩ signs)
    (hc : IsComment comment rest) (apart : ¬ Touching written rest) :
    Accounted s (read ++ comment) ⟨written, rest⟩ signs := by
  obtain ⟨provenance, ahead, behind⟩ := h.skip hc
  refine ⟨?_, h.written, provenance, ahead, fun x hx p hp => Or.inr (behind x hx p hp),
    fun x hx c hc hspace hspace' => ?_⟩
  · rw [h.whole, List.append_assoc]
  · refine absurd ⟨⟨x.char, ?_, hspace⟩, c, hc, hspace'⟩ apart
    rw [getLast?_written h.written, Option.mem_def.mp hx]
    rfl

/-- Over a comment that keeps two characters apart a space is written. -/
theorem Accounted.space (h : Accounted s read ⟨written, comment ++ rest⟩ signs)
    (hc : IsComment comment rest) (touching : Touching written rest) :
    Accounted s (read ++ comment) ⟨written ++ [' '], rest⟩ (signs ++ [⟨' ', none⟩]) := by
  obtain ⟨provenance, ahead, behind⟩ := h.skip hc
  obtain ⟨x, hx, hspace⟩ : ∃ x ∈ signs.getLast?, isSpace x.char = false := by
    obtain ⟨c, hlast, hspace⟩ := touching.1
    rw [getLast?_written h.written] at hlast
    obtain ⟨x, hx, rfl⟩ := Option.map_eq_some_iff.mp hlast
    exact ⟨x, hx, hspace⟩
  have origin : ∃ p, x.origin = some p ∧ InComment s (p + 1) := by
    cases ho : x.origin with
    | none =>
      rw [h.provenance.inserted x (List.mem_of_getLast? hx) ho] at hspace
      exact absurd hspace (by decide)
    | some p => exact ⟨p, rfl, behind x hx p ho⟩
  have last : ∀ y ∈ (signs ++ [Sign.mk ' ' none]).getLast?, y = ⟨' ', none⟩ := by
    intro y hy
    rw [List.getLast?_concat] at hy
    exact (Option.some.inj hy).symm
  refine ⟨?_, by simp [h.written], provenance.insert ⟨x, hx, hspace, origin⟩, ahead,
    fun y hy p hp => ?_, fun y hy _ _ hspace => ?_⟩
  · rw [h.whole, List.append_assoc]
  · rw [last y hy] at hp
    contradiction
  · rw [last y hy] at hspace
    exact absurd hspace (by decide)

/-- Where no comment begins one character is written. -/
theorem Accounted.copy (h : Accounted s read ⟨written, c :: rest⟩ signs)
    (hc : ¬ BeginsComment (c :: rest)) :
    Accounted s (read ++ [c]) ⟨written ++ [c], rest⟩ (signs ++ [⟨c, some read.length⟩]) := by
  have hchar : s[read.length]? = some c := by
    rw [h.whole, List.getElem?_append_right (Nat.le_refl _), Nat.sub_self]
    rfl
  have outside : ¬ InComment s read.length := by
    have here := h.ahead 0
    rw [Nat.add_zero] at here
    exact fun hin => not_inComment_zero hc (here.mp hin)
  have last : ∀ x ∈ (signs ++ [Sign.mk c (some read.length)]).getLast?,
      x.origin = some read.length := by
    intro x hx
    rw [List.getLast?_concat] at hx
    rw [← Option.some.inj hx]
  have length : (read ++ [c]).length = read.length + 1 := by
    rw [List.length_append, List.length_singleton]
  refine ⟨?_, by simp [h.written], ?_, fun p => ?_, fun x hx p hp => ?_, fun x hx _ _ _ _ => ?_⟩
  · rw [h.whole, List.append_assoc]
    rfl
  · rw [length]
    exact h.provenance.copy hchar outside
      fun x hx hspace hspace' => h.seam x hx c rfl hspace hspace'
  · rw [length, Nat.add_assoc, Nat.add_comm 1, h.ahead]
    exact inComment_succ_iff hc
  · rw [last x hx] at hp
    rw [← Option.some.inj hp, length]
    exact Or.inl rfl
  · rw [length]
    exact ⟨read.length, last x hx, rfl⟩

theorem Accounted.step (h : Accounted s read σ signs) (hstep : Step σ τ) :
    ∃ read' signs', Accounted s read' τ signs' := by
  cases hstep with
  | @line written t =>
    -- A line feed is what comes next, if anything does.
    have apart : ¬ Touching written (t.dropWhile (· ≠ '\n')) := by
      rintro ⟨_, c, hc, hspace⟩
      have feed : c = '\n' := by simpa using head?_dropWhile_eq_false c hc
      rw [feed] at hspace
      exact absurd hspace (by decide)
    rw [line_eq_append] at h
    exact ⟨_, _, h.pass (isComment_line t) apart⟩
  | spacedBlock hb touching =>
    obtain ⟨comment, rfl, hc⟩ := hb.exists_isComment
    exact ⟨_, _, h.space hc touching⟩
  | block hb apart =>
    obtain ⟨comment, rfl, hc⟩ := hb.exists_isComment
    exact ⟨_, _, h.pass hc apart⟩
  | @copy written t c hl hb =>
    have none : ¬ BeginsComment (c :: t) := by
      rw [beginsComment_iff]
      rintro (hline | ⟨inside, rest, hblock⟩)
      · exact hl hline
      · exact hb inside rest hblock
    exact ⟨_, _, h.copy none⟩

theorem accounted_start (s : Text) : Accounted s [] ⟨[], s⟩ [] where
  whole := rfl
  written := rfl
  provenance := ⟨by simp, by simp, by simp, by simp, by simp, by simp, by simp⟩
  ahead p := by simp
  behind := by simp
  seam := by simp

theorem exists_accounted_of_runs (h : Relation.ReflTransGen Step ⟨[], s⟩ σ) :
    ∃ read signs, Accounted s read σ signs := by
  induction h with
  | refl => exact ⟨[], [], accounted_start s⟩
  | tail _ hstep ih =>
    obtain ⟨read, signs, h⟩ := ih
    exact h.step hstep

end Runs

/-- Each character that removal writes is copied, at increasing places, or is one inserted
space.  The places that are not copied are those inside comments, and two characters that
touch and are no spaces are copied from places that touch. -/
theorem exists_provenance (s : Text) :
    ∃ signs, signs.map Sign.char = remove s ∧ Provenance s s.length signs := by
  have start : outcome ⟨[], s⟩ = remove s := by
    rw [remove, removeAfter_eq_scan]
    rfl
  obtain ⟨read, signs, h⟩ := exists_accounted_of_runs (runs_to_outcome ⟨[], s⟩)
  have whole : s = read := by simpa using h.whole
  refine ⟨signs, by rw [h.written, start], ?_⟩
  have provenance := h.provenance
  rwa [← whole] at provenance

end Comment
end Dialect
