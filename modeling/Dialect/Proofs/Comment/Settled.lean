import Dialect.Proofs.Comment.Scan
import Dialect.Proofs.Text
import Mathlib.Algebra.GroupWithZero.Nat

/-!
# Texts without comments

A settled text holds no line comment and no closed block comment, though it may
hold a `/*` that is never closed.  Removal leaves a settled text and does nothing to
one.

A removed comment brings characters together that stood apart.  They never make a
new mark, because a line comment leaves its line feed behind and a block comment
leaves a space wherever two characters would touch.
-/

namespace Dialect
namespace Comment

/-- No `--`, and behind a `/*` no `*/`.  A `*/` that shares its star with the `/*`
does not close it. -/
structure Settled (s : Text) : Prop where
  line : ¬ ['-', '-'] <:+: s
  block : ∀ t, '/' :: '*' :: t <:+ s → ¬ ['*', '/'] <:+: t

theorem Settled.of_isInfix {s t : Text} (hs : Settled s) (h : t <:+: s) : Settled t := by
  obtain ⟨u, v, rfl⟩ := h
  refine ⟨fun hl => hs.line (hl.trans ⟨u, v, rfl⟩), fun w hw hb => ?_⟩
  obtain ⟨x, rfl⟩ := hw
  refine hs.block (w ++ v) ⟨u ++ x, by simp⟩ ?_
  exact hb.trans (List.infix_append_left)

/-- The mark `ab` does not stand across the seam between the last character written
and the text that comes. -/
def Apart (a b : Char) (last : Option Char) (s : Text) : Prop :=
  ∀ c ∈ last, ∀ d ∈ s.head?, ¬ (c = a ∧ d = b)

section Seams

variable {a b c : Char} {last : Option Char} {s : Text}

theorem separator_cases (last next : Option Char) :
    separator last next = [' '] ∨
      separator last next = [] ∧ ∀ c ∈ last, ∀ d ∈ next, isSpace c = true ∨ isSpace d = true := by
  unfold separator
  split
  · exact Or.inl rfl
  · next h =>
    refine Or.inr ⟨rfl, fun c hc d hd => ?_⟩
    rw [Option.mem_def.mp hc, Option.mem_def.mp hd] at h
    simpa [Classical.or_iff_not_imp_left] using h

theorem apart_of_spaces (ha : isSpace a = false) (hb : isSpace b = false)
    (h : ∀ c ∈ last, ∀ d ∈ s.head?, isSpace c = true ∨ isSpace d = true) : Apart a b last s := by
  rintro c hc d hd ⟨rfl, rfl⟩
  rcases h c hc d hd with h | h
  · rw [ha] at h; contradiction
  · rw [hb] at h; contradiction

theorem apart_lineFeed (hb : isSpace b = false) (s : Text) :
    Apart a b last (s.dropWhile (· ≠ '\n')) := by
  rintro c hc d hd ⟨_, rfl⟩
  have hn := head?_dropWhile_eq_false d hd
  simp only [ne_eq, decide_not, Bool.not_eq_eq_eq_not, Bool.not_false, decide_eq_true_eq] at hn
  rw [hn] at hb
  contradiction

theorem apart_scan (ha : isSpace a = false) (hb : isSpace b = false) (h : Apart a b last s) :
    Apart a b last (scan last s) := by
  fun_induction scan last s with
  | case1 last => exact h
  | case2 last s ih => exact ih (apart_lineFeed hb s)
  | case3 last s inside rest hc kept ih =>
    rcases separator_cases last rest.head? with hk | ⟨hk, spaces⟩
    · rintro c hc d hd ⟨_, rfl⟩
      simp only [kept, hk, List.cons_append, List.head?_cons, Option.mem_def,
        Option.some.injEq] at hd
      rw [← hd] at hb
      contradiction
    · have := ih
      simp only [kept, hk, lastOf, List.getLast?_nil, Option.none_or, List.nil_append] at this ⊢
      exact this (apart_of_spaces ha hb spaces)
  | case4 last s hc ih => exact h
  | case5 last c s hl hb ih => exact h

theorem not_pair_prefix_scan (ha : isSpace a = false) (hb : isSpace b = false)
    (h : ¬ [a, b] <+: c :: s) : ¬ [a, b] <+: c :: scan (some c) s := by
  have seam : Apart a b (some c) s := by
    rintro d hd e he ⟨rfl, rfl⟩
    rw [← Option.some.inj hd] at h
    exact h (pair_prefix_cons.mpr ⟨rfl, he⟩)
  rw [pair_prefix_cons]
  rintro ⟨rfl, hd⟩
  exact apart_scan ha hb seam c rfl b hd ⟨rfl, rfl⟩

end Seams

section Removal

variable {last : Option Char} {s inside rest : Text}

theorem close_infix_of_cut? (h : cut? "*/" s = some (inside, rest)) : ['*', '/'] <:+: s := by
  rw [eq_append_of_cut? h]
  exact List.infix_append _ _ _

theorem not_line_infix_scan (last : Option Char) (s : Text) :
    ¬ ['-', '-'] <:+: scan last s := by
  fun_induction scan last s with
  | case1 last => simp
  | case2 last s ih => exact ih
  | case3 last s inside rest hc kept ih =>
    rcases separator_cases last rest.head? with hk | ⟨hk, _⟩
    · simp only [kept, hk] at ih ⊢
      rw [List.cons_append, pair_infix_cons]
      exact not_or.mpr ⟨by simp, ih⟩
    · simp only [kept, hk] at ih ⊢
      exact ih
  | case4 last s hc ih =>
    rw [pair_infix_cons]
    exact not_or.mpr ⟨by simp, ih⟩
  | case5 last c s hl hb ih =>
    rw [List.infix_cons_iff]
    exact not_or.mpr
      ⟨not_pair_prefix_scan (by decide) (by decide) (not_pair_prefix_cons hl), ih⟩

/-- Where nothing closes a comment, removal makes nothing that does. -/
theorem not_close_infix_scan (h : ¬ ['*', '/'] <:+: s) : ¬ ['*', '/'] <:+: scan last s := by
  fun_induction scan last s with
  | case1 last => exact h
  | case2 last s ih =>
    refine ih fun hs => h (hs.trans ?_)
    exact (List.dropWhile_suffix _).isInfix.trans ⟨['-', '-'], [], by simp⟩
  | case3 last s inside rest hc kept ih =>
    exact absurd ((close_infix_of_cut? hc).trans ⟨['/', '*'], [], by simp⟩) h
  | case4 last s hc ih =>
    rw [pair_infix_cons, not_or] at h ⊢
    exact ⟨by simp, ih h.2⟩
  | case5 last c s hl hb ih =>
    rw [List.infix_cons_iff, not_or] at h ⊢
    exact ⟨not_pair_prefix_scan (by decide) (by decide) h.1, ih h.2⟩

theorem not_close_infix_of_suffix_scan {t : Text} (h : '/' :: '*' :: t <:+ scan last s) :
    ¬ ['*', '/'] <:+: t := by
  fun_induction scan last s with
  | case1 last => simp at h
  | case2 last s ih => exact ih h
  | case3 last s inside rest hc kept ih =>
    refine ih ?_
    rcases separator_cases last rest.head? with hk | ⟨hk, _⟩
    · simp only [kept, hk, List.cons_append, List.nil_append] at h ⊢
      exact (List.suffix_cons_iff.mp h).resolve_left (by simp)
    · simp only [kept, hk] at h ⊢
      exact h
  | case4 last s hc ih =>
    rcases List.suffix_cons_iff.mp h with h | h
    · have rest : scan (some '/') ('*' :: s) = '*' :: scan (some '*') s := by
        rw [scan]
        · simp
        · simp
      rw [rest] at h
      obtain rfl : t = scan (some '*') s := by simpa using h
      exact not_close_infix_scan ((cut?_eq_none_iff (by simp)).mp hc)
    · exact ih h
  | case5 last c s hl hb ih =>
    rcases List.suffix_cons_iff.mp h with h | h
    · exfalso
      refine not_pair_prefix_scan (by decide) (by decide) (not_pair_prefix_cons hb) ?_
      exact ⟨t, h⟩
    · exact ih h

theorem settled_remove (s : Text) : Settled (remove s) := by
  rw [remove, removeAfter_eq_scan]
  exact ⟨not_line_infix_scan none s, fun _ h => not_close_infix_of_suffix_scan h⟩

theorem scan_of_settled (h : Settled s) : scan last s = s := by
  fun_induction scan last s with
  | case1 last => rfl
  | case2 last s ih => exact absurd (List.infix_append' [] ['-', '-'] s) h.line
  | case3 last s inside rest hc kept ih =>
    exact absurd (close_infix_of_cut? hc) (h.block s List.suffix_rfl)
  | case4 last s hc ih => rw [ih (h.of_isInfix (List.suffix_cons _ _).isInfix)]
  | case5 last c s hl hb ih => rw [ih (h.of_isInfix (List.suffix_cons _ _).isInfix)]

theorem remove_of_settled (h : Settled s) : remove s = s := by
  rw [remove, removeAfter_eq_scan, scan_of_settled h]

end Removal

/-! ## Size -/

section Size

variable {weight : Char → Nat}

theorem sum_separator_le (h : weight ' ' ≤ weight '*') (last next : Option Char) :
    ((separator last next).map weight).sum ≤ weight '*' := by
  unfold separator
  split
  · simpa using h
  · simp

/-- Removal makes no text heavier, because a space is the only thing that it writes and a
block comment has a star to pay for it. -/
theorem sum_scan_le (h : weight ' ' ≤ weight '*') (last : Option Char) (s : Text) :
    ((scan last s).map weight).sum ≤ (s.map weight).sum := by
  fun_induction scan last s with
  | case1 => simp
  | case2 last s ih =>
    have whole := congrArg (fun t : Text => (t.map weight).sum)
      (List.takeWhile_append_dropWhile (p := (· ≠ '\n')) (l := s))
    simp only [List.map_append, List.sum_append] at whole
    simp only [List.map_cons, List.sum_cons]
    omega
  | case3 last s inside rest hc kept ih =>
    have inserted := sum_separator_le h last rest.head?
    have mark : ("*/" : Text) = ['*', '/'] := rfl
    rw [eq_append_of_cut? hc, mark]
    simp only [kept, List.map_append, List.map_cons, List.map_nil, List.sum_append, List.sum_cons,
      List.sum_nil] at ih ⊢
    omega
  | case4 last s hc ih =>
    simp only [List.map_cons, List.sum_cons] at ih ⊢
    omega
  | case5 last c s hl hb ih =>
    simp only [List.map_cons, List.sum_cons]
    omega

theorem length_remove_le (s : Text) : (remove s).length ≤ s.length := by
  have count (t : Text) : (t.map fun _ => 1).sum = t.length := by
    rw [List.map_const', List.sum_replicate_nat, Nat.mul_one]
  rw [remove, removeAfter_eq_scan, ← count, ← count]
  exact sum_scan_le (Nat.le_refl 1) none s

theorem utf8Size_remove_le (s : Text) :
    ((remove s).map Char.utf8Size).sum ≤ (s.map Char.utf8Size).sum := by
  rw [remove, removeAfter_eq_scan]
  exact sum_scan_le (Nat.le_refl 1) none s

end Size

/-- No closer stands behind the two characters of an opener, wherever the opener stands. -/
theorem Settled.not_close_prefix_drop {s : Text} {p q : Nat} (h : Settled s)
    (hp : ['/', '*'] <+: s.drop p) (hq : p + 2 ≤ q) : ¬ ['*', '/'] <+: s.drop q := by
  obtain ⟨t, ht⟩ := hp
  have suffix : ['/', '*'] ++ t <:+ s := ht ▸ List.drop_suffix p s
  have behind : s.drop q = t.drop (q - (p + 2)) := by
    obtain ⟨k, rfl⟩ := Nat.exists_eq_add_of_le hq
    rw [Nat.add_sub_cancel_left, Nat.add_assoc, ← List.drop_drop, ← ht, ← List.drop_drop]
    rfl
  intro hc
  rw [behind] at hc
  exact h.block t suffix (hc.isInfix.trans (List.drop_suffix _ _).isInfix)

/-- A text whose comments are removed has no line comment and no closed block comment, is
no longer than before, in characters and in bytes, and is left as it is by a second
removal. -/
theorem remove_leaves_no_comment (s : Text) :
    ¬ ['-', '-'] <:+: remove s ∧
      (∀ p q, ['/', '*'] <+: (remove s).drop p → p + 2 ≤ q → ¬ ['*', '/'] <+: (remove s).drop q) ∧
      (remove s).length ≤ s.length ∧
      ((remove s).map Char.utf8Size).sum ≤ (s.map Char.utf8Size).sum ∧
      remove (remove s) = remove s := by
  have settled := settled_remove s
  exact ⟨settled.line, fun p q hp hq => settled.not_close_prefix_drop hp hq, length_remove_le s,
    utf8Size_remove_le s, remove_of_settled settled⟩

end Comment
end Dialect
