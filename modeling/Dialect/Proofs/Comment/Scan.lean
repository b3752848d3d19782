import Dialect.Comment

/-!
# Comments, one character at a time

Removal cuts a text at its comment openers.  A scanner that decides at each
character removes the same comments, and its recursion has one case for each thing
that can stand at the front of a text.  What removal does to a text is proved along
that recursion.
-/

namespace Dialect

/-! ## Marks of two characters -/

section Marks

variable {a b c : Char} {s t w : Text}

theorem pair_prefix_cons : [a, b] <+: c :: s ↔ c = a ∧ s.head? = some b := by
  cases s with
  | nil => simp
  | cons d s => simp [List.cons_prefix_cons, eq_comm]

theorem pair_infix_cons :
    [a, b] <:+: c :: s ↔ (c = a ∧ s.head? = some b) ∨ [a, b] <:+: s := by
  rw [List.infix_cons_iff, pair_prefix_cons]

theorem not_pair_prefix_cons (h : ∀ t, c = a → s = b :: t → False) : ¬ [a, b] <+: c :: s := by
  rw [pair_prefix_cons]
  rintro ⟨hc, hs⟩
  obtain ⟨t, ht⟩ := List.head?_eq_some_iff.mp hs
  exact h t hc ht

theorem pair_infix_append_cons (ha : a ≠ c) (hb : b ≠ c) :
    [a, b] <:+: s ++ c :: t ↔ [a, b] <:+: s ∨ [a, b] <:+: t := by
  induction s with
  | nil => simp [pair_infix_cons, ha.symm]
  | cons d s ih =>
    rw [List.cons_append, pair_infix_cons, pair_infix_cons, ih, or_assoc]
    cases s with
    | nil => simp [hb.symm]
    | cons e s => rfl

/-- Characters of which none is in a mark do not make one with a text. -/
theorem pair_infix_append_left (hw : ∀ c ∈ w, a ≠ c ∧ b ≠ c) :
    [a, b] <:+: w ++ s ↔ [a, b] <:+: s := by
  induction w with
  | nil => rfl
  | cons c w ih =>
    obtain ⟨ha, hb⟩ := hw c List.mem_cons_self
    have cut : [a, b] <:+: c :: (w ++ s) ↔ [a, b] <:+: w ++ s := by
      simpa using pair_infix_append_cons (s := []) ha hb
    rw [List.cons_append, cut, ih fun d hd => hw d (List.mem_cons_of_mem c hd)]

theorem pair_infix_append_right (hw : ∀ c ∈ w, a ≠ c ∧ b ≠ c) :
    [a, b] <:+: s ++ w ↔ [a, b] <:+: s := by
  cases w with
  | nil => rw [List.append_nil]
  | cons c w =>
    obtain ⟨ha, hb⟩ := hw c List.mem_cons_self
    have none : ¬ [a, b] <:+: w := by
      intro h
      exact (hw a (List.mem_cons_of_mem c (h.subset List.mem_cons_self))).1 rfl
    rw [pair_infix_append_cons ha hb, or_iff_left none]

end Marks

theorem cut?_eq_none_iff {mark : Text} (hm : mark ≠ []) {s : Text} :
    cut? mark s = none ↔ ¬ mark <:+: s := by
  induction s with
  | nil => simp [cut?, hm]
  | cons c s ih =>
    rw [cut?, List.infix_cons_iff, ← List.isPrefixOf_iff_prefix]
    by_cases h : mark.isPrefixOf (c :: s) = true
    · simp [h]
    · rw [if_neg h, Option.map_eq_none_iff, ih]
      simp [h]

theorem cut?_cons (mark : Text) {s : Text} {c : Char} (h : ¬ mark <+: c :: s) :
    cut? mark (c :: s) = (cut? mark s).map fun (before, after) => (c :: before, after) := by
  rw [cut?, if_neg fun hp => h (List.isPrefixOf_iff_prefix.mp hp)]

theorem cut?_append {mark before after s : Text} (h : cut? mark s = some (before, after))
    (t : Text) : cut? mark (s ++ t) = some (before, after ++ t) := by
  induction s generalizing before with
  | nil => simp [cut?] at h
  | cons c s ih =>
    by_cases hp : mark <+: c :: s
    · have hp' : mark <+: c :: s ++ t := hp.trans (List.prefix_append _ _)
      rw [cut?, if_pos (List.isPrefixOf_iff_prefix.mpr hp)] at h
      obtain ⟨rfl, rfl⟩ := Prod.mk.inj (Option.some.inj h)
      rw [List.cons_append] at hp'
      rw [List.cons_append, cut?, if_pos (List.isPrefixOf_iff_prefix.mpr hp'), ← List.cons_append,
        List.drop_append_of_le_length hp.length_le]
    · rw [cut?_cons mark hp] at h
      obtain ⟨⟨before', after'⟩, hc, he⟩ := Option.map_eq_some_iff.mp h
      obtain ⟨rfl, rfl⟩ := Prod.mk.inj he
      -- The mark stands in `s`, so it is too short to reach into `t`.
      have short := length_of_cut? hc
      have hp' : ¬ mark <+: c :: (s ++ t) := by
        intro hm
        refine hp (List.prefix_of_prefix_length_le hm (List.prefix_append (c :: s) t) ?_)
        simp only [List.length_cons]
        omega
      rw [List.cons_append, cut?_cons mark hp', ih hc]
      rfl

namespace Comment

theorem cut?_close {c : Text} (h : ¬ ['*', '/'] <:+: c) (b : Text) :
    cut? "*/" (c ++ '*' :: '/' :: b) = some (c, b) := by
  induction c with
  | nil => rfl
  | cons d c ih =>
    rw [List.infix_cons_iff, not_or] at h
    have front : ¬ ['*', '/'] <+: d :: (c ++ '*' :: '/' :: b) := by
      have hd := h.1
      rw [pair_prefix_cons] at hd ⊢
      cases c with
      | nil => simp
      | cons e c => exact hd
    rw [List.cons_append, cut?_cons "*/" front, ih h.2]
    rfl

/-- The nearest `*/` is the one with no other before it. -/
theorem cut?_close_eq_some_iff {s inside rest : Text} :
    cut? "*/" s = some (inside, rest) ↔
      s = inside ++ '*' :: '/' :: rest ∧ ¬ ['*', '/'] <:+: inside := by
  constructor
  · intro h
    have mark : ("*/" : Text) = ['*', '/'] := rfl
    have whole : s = inside ++ '*' :: '/' :: rest := by simpa [mark] using eq_append_of_cut? h
    refine ⟨whole, fun earlier => ?_⟩
    have found : cut? "*/" inside ≠ none :=
      fun none => (cut?_eq_none_iff (by decide)).mp none earlier
    obtain ⟨⟨before, after⟩, hb⟩ := Option.ne_none_iff_exists'.mp found
    have first := cut?_append hb ('*' :: '/' :: rest)
    rw [← whole, h] at first
    obtain ⟨rfl, _⟩ := Prod.mk.inj (Option.some.inj first)
    have short := length_of_cut? hb
    simp only [mark, List.length_cons, List.length_nil] at short
    omega
  · rintro ⟨rfl, h⟩
    exact cut?_close h rest

section Removal

variable {last : Option Char} {s before after inside rest : Text} {c : Char}

theorem removeAfter_of_none (h : opening? s = none) : removeAfter last s = s := by
  rw [removeAfter]
  split <;> simp_all

theorem removeAfter_of_line (h : opening? s = some ⟨before, .line, after⟩) :
    removeAfter last s =
      before ++ removeAfter (lastOf last before) (after.dropWhile (· ≠ '\n')) := by
  rw [removeAfter]
  split <;> simp_all

theorem removeAfter_of_closed (h : opening? s = some ⟨before, .block, after⟩)
    (hc : cut? "*/" after = some (inside, rest)) :
    removeAfter last s =
      before ++ separator (lastOf last before) rest.head? ++
        removeAfter (lastOf last (before ++ separator (lastOf last before) rest.head?)) rest := by
  rw [removeAfter]
  split
  · simp_all
  · simp_all
  · next h' =>
    rw [h] at h'
    cases h'
    split
    · next hc' =>
      rw [hc] at hc'
      cases hc'
      rfl
    · simp_all

theorem removeAfter_of_unclosed (h : opening? s = some ⟨before, .block, after⟩)
    (hc : cut? "*/" after = none) :
    removeAfter last s = before ++ ['/', '*'] ++ removeAfter (some '*') after := by
  rw [removeAfter]
  split
  · simp_all
  · simp_all
  · next h' =>
    rw [h] at h'
    cases h'
    split
    · simp_all
    · rfl

theorem opening?_line (s : Text) : opening? ('-' :: '-' :: s) = some ⟨[], .line, s⟩ := by
  have hline : cut? "--" ('-' :: '-' :: s) = some ([], s) := by
    simp [cut?]
  rw [opening?, hline, cut?_cons "/*" (by simp)]
  cases cut? "/*" ('-' :: s) <;> simp

theorem opening?_block (s : Text) : opening? ('/' :: '*' :: s) = some ⟨[], .block, s⟩ := by
  have hblock : cut? "/*" ('/' :: '*' :: s) = some ([], s) := by
    simp [cut?]
  rw [opening?, hblock, cut?_cons "--" (by simp)]
  cases cut? "--" ('*' :: s) <;> simp

theorem opening?_cons (hl : ¬ ['-', '-'] <+: c :: s) (hb : ¬ ['/', '*'] <+: c :: s) :
    opening? (c :: s) = (opening? s).map fun o => { o with before := c :: o.before } := by
  rw [opening?, opening?, cut?_cons "--" hl, cut?_cons "/*" hb]
  cases cut? "--" s with
  | none => cases cut? "/*" s <;> rfl
  | some l =>
    cases cut? "/*" s with
    | none => rfl
    | some b =>
      simp only [Option.map_some, List.length_cons, Nat.add_lt_add_iff_right]
      split <;> rfl

theorem lastOf_cons (last : Option Char) (c : Char) (s : Text) :
    lastOf last (c :: s) = lastOf (some c) s := by
  simp only [lastOf, List.getLast?_cons]
  cases s.getLast? <;> rfl

theorem removeAfter_cons (hl : ¬ ['-', '-'] <+: c :: s) (hb : ¬ ['/', '*'] <+: c :: s) :
    removeAfter last (c :: s) = c :: removeAfter (some c) s := by
  have ho := opening?_cons hl hb
  cases hs : opening? s with
  | none =>
    rw [hs] at ho
    rw [removeAfter_of_none ho, removeAfter_of_none hs]
  | some o =>
    rw [hs] at ho
    obtain ⟨before, style, after⟩ := o
    cases style with
    | line =>
      rw [removeAfter_of_line ho, removeAfter_of_line hs, lastOf_cons]
      rfl
    | block =>
      cases hc : cut? "*/" after with
      | none =>
        rw [removeAfter_of_unclosed ho hc, removeAfter_of_unclosed hs hc]
        rfl
      | some cut =>
        rw [removeAfter_of_closed ho hc, removeAfter_of_closed hs hc]
        simp only [List.cons_append, lastOf_cons]

/-- A text without openers is written as it is, unless an opener stands across its end. -/
theorem removeAfter_append (hl : ¬ ['-', '-'] <:+: s) (hb : ¬ ['/', '*'] <:+: s)
    (hs : ∀ c ∈ s.getLast?, c ≠ '-' ∧ c ≠ '/') (t : Text) :
    removeAfter last (s ++ t) = s ++ removeAfter (lastOf last s) t := by
  induction s generalizing last with
  | nil => rfl
  | cons c s ih =>
    rw [List.infix_cons_iff, not_or] at hl hb
    have seam {a b : Char} (ha : ∀ d ∈ (c :: s).getLast?, d ≠ a) (h : ¬ [a, b] <+: c :: s) :
        ¬ [a, b] <+: c :: (s ++ t) := by
      rw [pair_prefix_cons] at h ⊢
      cases s with
      | nil =>
        rintro ⟨rfl, _⟩
        exact ha c rfl rfl
      | cons d s => exact h
    have tail : ∀ d ∈ s.getLast?, d ≠ '-' ∧ d ≠ '/' := by
      intro d hd
      refine hs d ?_
      rw [List.getLast?_cons, Option.mem_def.mp hd]
      rfl
    rw [List.cons_append, removeAfter_cons (seam (fun d hd => (hs d hd).1) hl.1)
      (seam (fun d hd => (hs d hd).2) hb.1), ih hl.2 hb.2 tail, lastOf_cons]
    rfl

end Removal

/-- Remove the comments of `s` one character at a time, where `last` is the
character written before. -/
def scan (last : Option Char) (s : Text) : Text :=
  match s with
  | [] => []
  | '-' :: '-' :: s => scan last (s.dropWhile (· ≠ '\n'))
  | '/' :: '*' :: s =>
    match _h : cut? "*/" s with
    | some (_, rest) =>
      let kept := separator last rest.head?
      kept ++ scan (lastOf last kept) rest
    | none => '/' :: scan (some '/') ('*' :: s)
  | c :: s => c :: scan (some c) s
termination_by s.length
decreasing_by
  · have := (List.dropWhile_sublist (· ≠ '\n') (l := s)).length_le
    simp only [List.length_cons]
    omega
  · have := length_of_cut? _h
    simp only [List.length_cons]
    omega
  · simp
  · simp

theorem removeAfter_eq_scan (last : Option Char) (s : Text) : removeAfter last s = scan last s := by
  fun_induction scan last s with
  | case1 last => exact removeAfter_of_none rfl
  | case2 last s ih =>
    rw [removeAfter_of_line (opening?_line s), ← ih]
    rfl
  | case3 last s inside rest hc kept ih =>
    rw [removeAfter_of_closed (opening?_block s) hc, ← ih]
    rfl
  | case4 last s hc ih =>
    rw [removeAfter_of_unclosed (opening?_block s) hc, ← ih,
      removeAfter_cons (by simp) (by simp)]
    rfl
  | case5 last c s hl hb ih =>
    rw [removeAfter_cons (not_pair_prefix_cons hl) (not_pair_prefix_cons hb), ih]

end Comment
end Dialect
