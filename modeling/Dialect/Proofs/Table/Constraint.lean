import Dialect.Proofs.Text
import Dialect.Table.Constraint
import Mathlib.Data.List.Induction

/-!
# Constraint words among the words of a text

Which constraints are collected depends only on which words are there.  Neither their
order nor how often they come counts for that, and taking `PRIMARY KEY` as one phrase
does not add to it.  The order of the words is the order of the constraints, where only the
first of several words for one constraint counts.
-/

namespace Dialect

section Words

variable {w s : Text}

theorem words_spaces_append (hs : ∀ c ∈ s, isSpace c = true) (t : Text) :
    words (s ++ t) = words t := by
  induction s with
  | nil => rfl
  | cons c s ih =>
    have cut := words_append_cons (hs c List.mem_cons_self) [] (s ++ t)
    rw [words_nil, List.nil_append, List.nil_append] at cut
    rw [List.cons_append, cut, ih fun d hd => hs d (List.mem_cons_of_mem c hd)]

theorem words_word (hne : w ≠ []) (hw : ∀ c ∈ w, isSpace c = false) : words w = [w] := by
  rw [words, List.splitOnP_eq_singleton hw]
  simp [hne]

theorem words_word_append (hne : w ≠ []) (hw : ∀ c ∈ w, isSpace c = false)
    (hs : ∀ c ∈ s.head?, isSpace c = true) : words (w ++ s) = w :: words s := by
  cases s with
  | nil => rw [List.append_nil, words_word hne hw, words_nil]
  | cons c s =>
    have hc := hs c rfl
    have behind := words_append_cons hc [] s
    rw [List.nil_append, words_nil, List.nil_append] at behind
    rw [words_append_cons hc, words_word hne hw, behind]
    rfl

end Words

namespace Constraint

variable {c d : Constraint} {found : List Constraint} {w : Text} {ws : List Text}

theorem mem_add : d ∈ add found c ↔ d ∈ found ∨ d = c := by
  unfold add
  split
  · next hc =>
    constructor
    · exact Or.inl
    · rintro (h | rfl)
      · exact h
      · exact hc
  · simp

theorem mem_addWord : d ∈ addWord found w ↔ d ∈ found ∨ ofWord? w = some d := by
  unfold addWord
  cases ofWord? w with
  | none => simp
  | some c =>
    rw [Option.elim_some, mem_add, Option.some.injEq, eq_comm (a := d)]

theorem mem_collectInto :
    d ∈ collectInto found ws ↔ d ∈ found ∨ ∃ w ∈ ws, ofWord? w = some d := by
  fun_induction collectInto found ws with
  | case1 => simp
  | case2 found word => simp [mem_addWord]
  | case3 found word next rest h ih =>
    obtain ⟨rfl, rfl⟩ := h
    have hp : ofWord? "PRIMARY" = some primary := ofWord?_name primary
    have hk : ofWord? "KEY" = some key := ofWord?_name key
    rw [ih, mem_add, mem_add]
    simp only [List.mem_cons, exists_eq_or_imp, hp, hk, Option.some.injEq]
    rw [eq_comm (a := primary), eq_comm (a := key), or_assoc, or_assoc]
  | case4 found word next rest h ih =>
    rw [ih, mem_addWord]
    simp only [List.mem_cons, exists_eq_or_imp, or_assoc]

theorem foldl_add_addWord (found : List Constraint) (w : Text) (ws : List Text) :
    (ws.filterMap ofWord?).foldl add (addWord found w) =
      ((w :: ws).filterMap ofWord?).foldl add found := by
  unfold addWord
  cases h : ofWord? w with
  | none => rw [List.filterMap_cons_none h, Option.elim_none]
  | some c => rw [List.filterMap_cons_some h, Option.elim_some, List.foldl_cons]

/-- Taking `PRIMARY KEY` as one phrase collects what taking its words one by one does. -/
theorem collectInto_eq_foldl (found : List Constraint) (ws : List Text) :
    collectInto found ws = (ws.filterMap ofWord?).foldl add found := by
  fun_induction collectInto found ws with
  | case1 => rfl
  | case2 found word => exact foldl_add_addWord found word []
  | case3 found word next rest h ih =>
    obtain ⟨rfl, rfl⟩ := h
    exact ih
  | case4 found word next rest h ih => rw [ih, foldl_add_addWord]

/-- The constraints that the words of a text name, in order and as often as it names
them. -/
def named (s : Text) : List Constraint := (words s).filterMap fun w => ofWord? (upper w)

theorem collect_eq_foldl (s : Text) : collect s = (named s).foldl add [] := by
  rw [collect, collectInto_eq_foldl, List.filterMap_map]
  rfl

theorem add_eraseDups (cs : List Constraint) (c : Constraint) :
    add cs.eraseDups c = (cs ++ [c]).eraseDups := by
  rw [List.eraseDups_append, add]
  by_cases hc : c ∈ cs
  · rw [if_pos (List.mem_eraseDups.mpr hc)]
    simp [List.removeAll, hc]
  · rw [if_neg fun h => hc (List.mem_eraseDups.mp h)]
    simp [List.removeAll, hc, List.eraseDups_cons]

theorem foldl_add_eq_eraseDups (cs : List Constraint) : cs.foldl add [] = cs.eraseDups := by
  induction cs using List.reverseRecOn with
  | nil => rfl
  | append_singleton cs c ih =>
    rw [List.foldl_append, ih, List.foldl_cons, List.foldl_nil, add_eraseDups]

theorem collectInto_eq_foldl_addWord (found : List Constraint) (ws : List Text) :
    collectInto found ws = ws.foldl addWord found := by
  rw [collectInto_eq_foldl]
  induction ws generalizing found with
  | nil => rfl
  | cons w ws ih => rw [← foldl_add_addWord, ih, List.foldl_cons]

theorem ofWord?_eq_some_iff (hc : c ≠ autoIncrement) : ofWord? w = some c ↔ w = c.name := by
  constructor
  · intro h
    unfold ofWord? at h
    split at h
    · exact absurd (Option.some.inj h).symm hc
    · have := List.find?_some h
      exact (of_decide_eq_true this).symm
  · rintro rfl
    exact ofWord?_name c

/-- A constraint is collected when its word is there, in any case. -/
theorem contains_collect (hc : c ≠ autoIncrement) (s : Text) :
    (collect s).contains c = (words s).any fun w => upper w = c.name := by
  rw [Bool.eq_iff_iff, List.contains_iff_mem, collect, mem_collectInto, List.any_eq_true]
  simp only [List.not_mem_nil, false_or, ofWord?_eq_some_iff hc, decide_eq_true_eq]
  constructor
  · rintro ⟨_, hmem, hw⟩
    obtain ⟨w, hw', rfl⟩ := List.mem_map.mp hmem
    exact ⟨w, hw', hw⟩
  · rintro ⟨w, hw', hw⟩
    exact ⟨upper w, List.mem_map_of_mem hw', hw⟩

/-- The constraints of a text are those that its words name, each of them once and in the
order in which they are first named.  Taking `PRIMARY KEY` as one phrase collects what taking
its words one by one does, whatever has been found before it and comes behind it. -/
theorem collect_first_named (s : Text) :
    (collect s).Nodup ∧ collect s = (named s).eraseDups ∧
      ∀ found ws, collectInto found ws = ws.foldl addWord found := by
  refine ⟨nodup_collectInto List.nodup_nil _, ?_, collectInto_eq_foldl_addWord⟩
  rw [collect_eq_foldl, foldl_add_eq_eraseDups]

/-- Phrases that overlap, and both spellings of an automatic increment. -/
example : collect "key Primary PRIMARY KEY AutoIncrement\u2003KEY not, auto_increment" =
    [.key, .primary, .autoIncrement] := by decide +kernel

end Constraint
end Dialect
