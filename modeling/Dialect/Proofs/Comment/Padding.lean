import Dialect.Proofs.Comment.Settled

/-!
# Space around comments

Space at the ends of a text does not take part in the removal of its comments.  In front
it is written before anything else, and of what is written before a comment only
whether it is a space counts.  Behind, it may fall into a line comment or follow a
block comment, and what is left of it in either case is space at the end.
-/

namespace Dialect

section Padding

variable {a b c : Char} {last : Option Char} {s w : Text}

theorem pair_infix_spaces_append (ha : isSpace a = false) (hb : isSpace b = false)
    (hw : ∀ c ∈ w, isSpace c = true) : [a, b] <:+: w ++ s ↔ [a, b] <:+: s :=
  pair_infix_append_left fun c hc => ⟨ne_of_isSpace (hw c hc) ha, ne_of_isSpace (hw c hc) hb⟩

theorem pair_infix_append_spaces (ha : isSpace a = false) (hb : isSpace b = false)
    (hw : ∀ c ∈ w, isSpace c = true) : [a, b] <:+: s ++ w ↔ [a, b] <:+: s :=
  pair_infix_append_right fun c hc => ⟨ne_of_isSpace (hw c hc) ha, ne_of_isSpace (hw c hc) hb⟩

/-- A mark without space in it is not cut by trimming. -/
theorem pair_infix_trim (ha : isSpace a = false) (hb : isSpace b = false) (s : Text) :
    [a, b] <:+: trim s ↔ [a, b] <:+: s := by
  obtain ⟨front, back, hs, _, hfront, hback⟩ := eq_append_trim s
  constructor
  · exact fun h => h.trans (trim_isInfix s)
  · intro h
    rw [hs, pair_infix_append_spaces ha hb hback, pair_infix_spaces_append ha hb hfront] at h
    exact h

theorem not_pair_prefix_append (hb : isSpace b = false) (hw : ∀ c ∈ w, isSpace c = true)
    (h : ¬ [a, b] <+: c :: s) : ¬ [a, b] <+: c :: (s ++ w) := by
  rw [pair_prefix_cons] at h ⊢
  rintro ⟨rfl, hd⟩
  cases s with
  | cons d s => exact h ⟨rfl, hd⟩
  | nil => exact ne_of_isSpace (hw b (List.mem_of_mem_head? hd)) hb rfl

/-- A line that ends in the text ends where it did, and a line that does not goes on
into the spaces. -/
theorem exists_dropWhile_append (p : Char → Bool) (hw : ∀ c ∈ w, isSpace c = true) (s : Text) :
    ∃ t, (∀ c ∈ t, isSpace c = true) ∧ (s ++ w).dropWhile p = s.dropWhile p ++ t := by
  rw [List.dropWhile_append]
  split
  · next he =>
    refine ⟨w.dropWhile p, fun c hc => hw c ((List.dropWhile_suffix _).subset hc), ?_⟩
    rw [List.isEmpty_iff.mp he, List.nil_append]
  · exact ⟨w, hw, rfl⟩

namespace Comment

/-! ## Space in front -/

/-- Of the character written before, only whether it is a space counts. -/
theorem removeAfter_eq_scan_of_any (last : Option Char) (s : Text) :
    ∀ last' : Option Char, last'.any (! isSpace ·) = last.any (! isSpace ·) →
      removeAfter last' s = scan last s := by
  fun_induction scan last s with
  | case1 last => exact fun _ _ => removeAfter_of_none rfl
  | case2 last s ih =>
    intro last' h
    rw [removeAfter_of_line (opening?_line s)]
    exact ih last' h
  | case3 last s inside rest hc kept ih =>
    intro last' h
    have same : separator last' rest.head? = kept := by
      simp only [kept, separator, h]
    have written : (lastOf last' kept).any (! isSpace ·) = (lastOf last kept).any (! isSpace ·) := by
      unfold lastOf
      cases kept.getLast? with
      | none => exact h
      | some c => rfl
    rw [removeAfter_of_closed (opening?_block s) hc]
    show separator last' rest.head? ++
      removeAfter (lastOf last' (separator last' rest.head?)) rest = _
    rw [same, ih _ written]
  | case4 last s hc ih =>
    intro last' _
    rw [removeAfter_of_unclosed (opening?_block s) hc, ← ih _ rfl,
      removeAfter_cons (by simp) (by simp)]
    rfl
  | case5 last c s hl hb ih =>
    intro last' _
    rw [removeAfter_cons (not_pair_prefix_cons hl) (not_pair_prefix_cons hb), ih _ rfl]

theorem removeAfter_spaces_append (hw : ∀ c ∈ w, isSpace c = true) (s : Text) :
    removeAfter last (w ++ s) = w ++ removeAfter (lastOf last w) s := by
  have apart {a b : Char} (ha : isSpace a = false) : ¬ [a, b] <:+: w := by
    intro h
    rw [hw a (h.subset List.mem_cons_self)] at ha
    contradiction
  have ends : ∀ c ∈ w.getLast?, c ≠ '-' ∧ c ≠ '/' := by
    intro c hc
    have space := hw c (List.mem_of_getLast? hc)
    exact ⟨(ne_of_isSpace space (by decide)).symm, (ne_of_isSpace space (by decide)).symm⟩
  exact removeAfter_append (apart (by decide)) (apart (by decide)) ends s

theorem remove_spaces_append (hw : ∀ c ∈ w, isSpace c = true) (s : Text) :
    remove (w ++ s) = w ++ remove s := by
  have written : (lastOf none w).any (! isSpace ·) = false := by
    rw [lastOf, Option.or_none]
    cases hl : w.getLast? with
    | none => rfl
    | some c => simp [hw c (List.mem_of_getLast? hl)]
  rw [remove, removeAfter_spaces_append hw, removeAfter_eq_scan_of_any none s _ written, remove,
    removeAfter_eq_scan]

/-! ## Space behind -/

theorem separator_append (hw : ∀ c ∈ w, isSpace c = true) (last : Option Char) (s : Text) :
    separator last (s ++ w).head? = separator last s.head? := by
  cases s with
  | cons c s => rfl
  | nil =>
    cases w with
    | nil => rfl
    | cons c w => simp [separator, hw c List.mem_cons_self]

/-- What is written for spaces behind a text is written behind it, and is made of
spaces. -/
theorem exists_removeAfter_append (last : Option Char) (s : Text) :
    ∀ w : Text, (∀ c ∈ w, isSpace c = true) →
      ∃ t, (∀ c ∈ t, isSpace c = true) ∧ removeAfter last (s ++ w) = scan last s ++ t := by
  fun_induction scan last s with
  | case1 last =>
    intro w hw
    refine ⟨w, hw, ?_⟩
    have behind : removeAfter (lastOf last w) [] = [] := removeAfter_of_none rfl
    have kept : removeAfter last (w ++ []) = w ++ removeAfter (lastOf last w) [] :=
      removeAfter_spaces_append hw []
    rwa [behind, List.append_nil] at kept
  | case2 last s ih =>
    intro w hw
    obtain ⟨t, ht, hd⟩ := exists_dropWhile_append (· ≠ '\n') hw s
    obtain ⟨u, hu, h⟩ := ih t ht
    refine ⟨u, hu, ?_⟩
    rw [List.cons_append, List.cons_append, removeAfter_of_line (opening?_line _), hd]
    exact h
  | case3 last s inside rest hc kept ih =>
    intro w hw
    obtain ⟨u, hu, h⟩ := ih w hw
    refine ⟨u, hu, ?_⟩
    have same : separator last (rest ++ w).head? = kept := separator_append hw last rest
    rw [List.cons_append, List.cons_append,
      removeAfter_of_closed (opening?_block _) (cut?_append hc w)]
    show separator last (rest ++ w).head? ++
      removeAfter (lastOf last (separator last (rest ++ w).head?)) (rest ++ w) = _
    rw [same, h, List.append_assoc]
  | case4 last s hc ih =>
    intro w hw
    have hc' : cut? "*/" (s ++ w) = none := by
      have same : ['*', '/'] <:+: s ++ w ↔ ['*', '/'] <:+: s :=
        pair_infix_append_spaces (by decide) (by decide) hw
      rw [cut?_eq_none_iff (by simp)] at hc ⊢
      exact fun h => hc (same.mp h)
    obtain ⟨u, hu, h⟩ := ih w hw
    refine ⟨u, hu, ?_⟩
    rw [List.cons_append, List.cons_append, removeAfter_of_unclosed (opening?_block _) hc']
    rw [List.cons_append, removeAfter_cons (by simp) (by simp)] at h
    rw [List.cons_append, ← h]
    rfl
  | case5 last c s hl hb ih =>
    intro w hw
    obtain ⟨u, hu, h⟩ := ih w hw
    refine ⟨u, hu, ?_⟩
    rw [List.cons_append, removeAfter_cons
      (not_pair_prefix_append (by decide) hw (not_pair_prefix_cons hl))
      (not_pair_prefix_append (by decide) hw (not_pair_prefix_cons hb)), h]
    rfl

/-- Spaces around a text leave spaces around what removal leaves of it. -/
theorem exists_remove_padded {v : Text} (hv : ∀ c ∈ v, isSpace c = true)
    (hw : ∀ c ∈ w, isSpace c = true) (s : Text) :
    ∃ t, (∀ c ∈ t, isSpace c = true) ∧ remove (v ++ s ++ w) = v ++ remove s ++ t := by
  obtain ⟨t, ht, h⟩ := exists_removeAfter_append none s w hw
  refine ⟨t, ht, ?_⟩
  rw [List.append_assoc, remove_spaces_append hv, remove, h, remove, removeAfter_eq_scan,
    List.append_assoc]

end Comment
end Padding
end Dialect
