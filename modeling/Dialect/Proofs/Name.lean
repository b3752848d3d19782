import Dialect.Name
import Dialect.Proofs.Nesting

/-!
# Written names

The names that are read off the front of a text are exactly the written names.  A
written name is read whole when no character of a bare name comes after it.
-/

namespace Dialect

def enclosers : List (Char × Char) := [('\x22', '\x22'), ('\x60', '\x60'), ('[', ']')]

inductive IsName : Text → Prop where
  | enclosed {opener closer : Char} {inside : Text} :
    (opener, closer) ∈ enclosers → closer ∉ inside → IsName (opener :: inside ++ [closer])
  | bare {name : Text} : name ≠ [] → (∀ c ∈ name, continuesName c = true) → IsName name

section Reading

variable {opener closer c : Char} {s inside name rest : Text}

theorem enclosed?_closed (h : closer ∉ inside) (rest : Text) :
    enclosed? opener closer (opener :: (inside ++ closer :: rest)) =
      some (opener :: inside ++ [closer], rest) := by
  rw [enclosed?, if_pos rfl, takeWhile_ne h, dropWhile_ne h]

theorem enclosed?_unclosed (h : closer ∉ s) (c : Char) :
    enclosed? opener closer (c :: s) = none := by
  rw [enclosed?, dropWhile_ne_self h]
  split <;> rfl

theorem enclosed?_eq_none (h : s.head? ≠ some opener) : enclosed? opener closer s = none := by
  cases s with
  | nil => rfl
  | cons c s => 
    have hc : c ≠ opener := fun e => h (by rw [e]; rfl)
    simp only [enclosed?, if_neg hc]

theorem exists_of_enclosed? (h : enclosed? opener closer s = some (name, rest)) :
    ∃ inside, name = opener :: inside ++ [closer] ∧ closer ∉ inside := by
  cases s with
  | nil => simp [enclosed?] at h
  | cons c s =>
    by_cases hc : c = opener
    · subst hc
      by_cases hm : closer ∈ s
      · obtain ⟨inside, tail, rfl, hn⟩ := List.eq_append_cons_of_mem hm
        rw [enclosed?_closed hn, Option.some.injEq, Prod.mk.injEq] at h
        exact ⟨inside, h.1.symm, hn⟩
      · rw [enclosed?_unclosed hm] at h
        contradiction
    · simp [enclosed?, hc] at h

theorem bareName?_append (hne : name ≠ []) (hall : ∀ c ∈ name, continuesName c = true)
    (hrest : ∀ c ∈ rest.head?, continuesName c = false) :
    bareName? (name ++ rest) = some (name, rest) := by
  rw [bareName?, takeWhile_run hall hrest, dropWhile_run hall hrest]
  simp [hne]

theorem leadingName?_enclosed (ho : (opener, closer) ∈ enclosers) (hn : closer ∉ inside)
    (rest : Text) : leadingName? (opener :: (inside ++ closer :: rest)) =
      some (opener :: inside ++ [closer], rest) := by
  have closed : enclosed? opener closer (opener :: (inside ++ closer :: rest)) =
      some (opener :: inside ++ [closer], rest) := enclosed?_closed hn rest
  have skip {o c : Char} (hd : opener ≠ o) :
      enclosed? o c (opener :: (inside ++ closer :: rest)) = none :=
    enclosed?_eq_none (by simpa using hd)
  simp only [enclosers, List.mem_cons, Prod.mk.injEq, List.not_mem_nil, or_false] at ho
  rcases ho with ⟨rfl, rfl⟩ | ⟨rfl, rfl⟩ | ⟨rfl, rfl⟩
  · rw [leadingName?, closed, Option.some_or]
  · rw [leadingName?, skip (by decide), closed, Option.none_or, Option.some_or]
  · rw [leadingName?, skip (by decide), skip (by decide), closed, Option.none_or, Option.none_or,
      Option.some_or]

theorem leadingName?_append (h : IsName name) (hrest : ∀ c ∈ rest.head?, continuesName c = false) :
    leadingName? (name ++ rest) = some (name, rest) := by
  cases h with
  | @enclosed opener closer inside ho hn =>
    rw [List.append_assoc]
    exact leadingName?_enclosed ho hn rest
  | bare hne hall =>
    have skip {o c : Char} (ho : continuesName o = false) :
        enclosed? o c (name ++ rest) = none := by
      apply enclosed?_eq_none
      intro he
      obtain ⟨d, tail, rfl⟩ := List.exists_cons_of_ne_nil hne
      rw [hall o (by simpa using Or.inl (Option.some.inj he).symm)] at ho
      contradiction
    rw [leadingName?, skip (by decide), skip (by decide), skip (by decide),
      bareName?_append hne hall hrest]
    rfl

/-- A name that is read is enclosed, or it is the longest run of the characters of bare
names. -/
theorem cases_of_leadingName? (h : leadingName? s = some (name, rest)) :
    (∃ opener closer inside, (opener, closer) ∈ enclosers ∧ closer ∉ inside ∧
      name = opener :: inside ++ [closer]) ∨
    (name ≠ [] ∧ s.takeWhile continuesName = name ∧ s.dropWhile continuesName = rest) := by
  simp only [leadingName?, Option.or_eq_some_iff] at h
  have enclosed {o c : Char} (ho : (o, c) ∈ enclosers) (h : enclosed? o c s = some (name, rest)) :
      ∃ opener closer inside, (opener, closer) ∈ enclosers ∧ closer ∉ inside ∧
        name = opener :: inside ++ [closer] := by
    obtain ⟨inside, hname, hn⟩ := exists_of_enclosed? h
    exact ⟨o, c, inside, ho, hn, hname⟩
  rcases h with h | ⟨_, h | ⟨_, h | ⟨_, h⟩⟩⟩
  · exact Or.inl (enclosed (by decide) h)
  · exact Or.inl (enclosed (by decide) h)
  · exact Or.inl (enclosed (by decide) h)
  · simp only [bareName?, Option.ite_none_left_eq_some, Option.some.injEq, Prod.mk.injEq,
      List.isEmpty_iff] at h
    exact Or.inr ⟨h.2.1 ▸ h.1, h.2⟩

theorem isName_of_leadingName? (h : leadingName? s = some (name, rest)) : IsName name := by
  rcases cases_of_leadingName? h with ⟨opener, closer, inside, ho, hn, rfl⟩ | ⟨hne, rfl, _⟩
  · exact .enclosed ho hn
  · exact .bare hne fun c hc => List.all_eq_true.mp List.all_takeWhile c hc

/-- A name that is read with text behind it is read with more text behind that. -/
theorem leadingName?_append_right (h : leadingName? s = some (name, rest)) (hne : rest ≠ [])
    (t : Text) : leadingName? (s ++ t) = some (name, rest ++ t) := by
  rw [← append_of_leadingName? h, List.append_assoc]
  rcases cases_of_leadingName? h with ⟨opener, closer, inside, ho, hn, rfl⟩ | ⟨_, _, rfl⟩
  · rw [List.append_assoc]
    exact leadingName?_enclosed ho hn (rest ++ t)
  · refine leadingName?_append (isName_of_leadingName? h) ?_
    obtain ⟨d, u, hd⟩ := List.exists_cons_of_ne_nil hne
    have front := head?_dropWhile_eq_false (p := continuesName) (s := s)
    rw [hd] at front ⊢
    exact front

theorem leadingName?_eq_self_iff : leadingName? name = some (name, []) ↔ IsName name := by
  constructor
  · exact isName_of_leadingName?
  · intro h
    have whole : leadingName? (name ++ []) = some (name, []) := leadingName?_append h (by simp)
    rwa [List.append_nil] at whole

end Reading

/-! ## Names among other text -/

section Places

variable {k : Nat} {c : Char} {s name : Text}

theorem IsName.ne_nil (h : IsName name) : name ≠ [] := by
  cases h with
  | enclosed => simp
  | bare hne => exact hne

theorem isPlain_of_continuesName (h : continuesName c = true) : Reading.isPlain c = true := by
  have none : ['\x27', '\x22', '\x60', '(', ')', ','].all (! continuesName ·) = true := by decide
  apply Reading.isPlain_of_not_mem
  intro hm
  have hc := List.all_eq_true.mp none c hm
  rw [h] at hc
  contradiction

theorem isPlain_of_continuesWord (h : continuesWord c = true) : Reading.isPlain c = true :=
  isPlain_of_continuesName (by simp [continuesName, h])

theorem isSpace_of_continuesName (h : continuesName c = true) : isSpace c = false := by
  apply Bool.eq_false_iff.mpr
  intro hs
  have hw := continuesWord_of_isSpace hs
  simp only [continuesName, hw, Bool.false_or, decide_eq_true_eq] at h
  subst h
  exact absurd hs (by decide)

theorem not_continuesWord_of_encloser {opener closer : Char} (h : (opener, closer) ∈ enclosers) :
    continuesWord opener = false := by
  have none : ∀ p ∈ enclosers, continuesWord p.1 = false := by decide
  exact none _ h

theorem leadingWord_of_leadingName? {rest : Text} (h : leadingName? s = some (name, rest)) :
    leadingWord name = leadingWord s := by
  have whole := append_of_leadingName? h
  rcases cases_of_leadingName? h with ⟨opener, closer, inside, ho, _, rfl⟩ | ⟨_, _, hr⟩
  · have hc := not_continuesWord_of_encloser ho
    rw [← whole, leadingWord_eq_nil (by simpa using hc), leadingWord_eq_nil (by simpa using hc)]
  · cases hrest : rest with
    | nil => rw [← whole, hrest, List.append_nil]
    | cons c u =>
      have hc : continuesName c = false :=
        head?_dropWhile_eq_false c (by rw [hr, hrest]; rfl)
      simp only [continuesName, Bool.or_eq_false_iff] at hc
      rw [← whole, hrest, leadingWord_append_cons hc.1]

/-- A name that begins with a word goes on with a dot, if it goes on. -/
theorem IsName.head?_afterWord (h : IsName name) (hw : leadingWord name ≠ []) :
    ∀ c ∈ (afterWord name).head?, c = '.' := by
  intro c hc
  cases h with
  | enclosed ho hn =>
    exact absurd (leadingWord_eq_nil (by simpa using not_continuesWord_of_encloser ho)) hw
  | bare hne hall =>
    have hname := hall c ((List.dropWhile_suffix _).subset (List.mem_of_mem_head? hc))
    have hword := Dialect.head?_afterWord name c hc
    simpa [continuesName, hword] using hname

theorem continuesName_of_isSpace (h : isSpace c = true) : continuesName c = false := by
  apply Bool.eq_false_iff.mpr
  intro hc
  rw [isSpace_of_continuesName hc] at h
  contradiction

theorem isSpace_of_encloser {opener closer : Char} (h : (opener, closer) ∈ enclosers) :
    isSpace opener = false ∧ isSpace closer = false := by
  have none : ∀ p ∈ enclosers, isSpace p.1 = false ∧ isSpace p.2 = false := by decide
  exact none _ h

theorem IsName.trimmed (h : IsName name) : Trimmed name := by
  cases h with
  | @enclosed opener closer inside ho hn =>
    have last : (opener :: inside ++ [closer]).getLast? = some closer := List.getLast?_concat
    constructor
    · intro c hc
      rw [← Option.some.inj hc]
      exact (isSpace_of_encloser ho).1
    · intro c hc
      rw [← Option.some.inj (last.symm.trans hc)]
      exact (isSpace_of_encloser ho).2
  | bare hne hall =>
    constructor
    · exact fun c hc => isSpace_of_continuesName (hall c (List.mem_of_mem_head? hc))
    · exact fun c hc => isSpace_of_continuesName (hall c (List.mem_of_getLast? hc))

theorem IsName.head?_append (h : IsName name) (s : Text) :
    ∀ c ∈ (name ++ s).head?, isSpace c = false := by
  obtain ⟨d, t, rfl⟩ := List.exists_cons_of_ne_nil h.ne_nil
  exact h.trimmed.head

open Reading

/-- Only brackets let what stands in a name be read as anything else. -/
theorem IsName.sealed (h : IsName name) (hb : name.head? ≠ some '[') : Sealed 0 name := by
  cases h with
  | enclosed ho hn =>
    simp only [enclosers, List.mem_cons, Prod.mk.injEq, List.not_mem_nil, or_false] at ho
    rcases ho with ⟨rfl, rfl⟩ | ⟨rfl, rfl⟩ | ⟨rfl, rfl⟩
    · exact sealed_of_quoted (by decide) hn
    · exact sealed_of_quoted (by decide) hn
    · exact absurd rfl hb
  | bare _ hall => exact sealed_of_plain fun c hc => isPlain_of_continuesName (hall c hc)

theorem exists_run_of_not_quote (h : ∀ c ∈ s, isQuote c = false) (d : Nat) :
    ∃ k, run ⟨none, d⟩ s = ⟨none, k⟩ := by
  induction s generalizing d with
  | nil => exact ⟨d, rfl⟩
  | cons c s ih =>
    have rest := ih fun e he => h e (List.mem_cons_of_mem c he)
    simp only [run_cons, step, h c List.mem_cons_self, Bool.false_eq_true, if_false]
    repeat' split
    all_goals exact rest _

/-- A name that is cut out of a list leaves groups open at most inside its brackets. -/
theorem IsName.exists_sealed (h : IsName name)
    (hq : name.head? = some '[' → ∀ c ∈ name, isQuote c = false)
    (hclosing : start.Avoids (.closing 0) name) (hcomma : start.Avoids (.comma 0) name) :
    ∃ k, Sealed k name := by
  by_cases hb : name.head? = some '['
  · obtain ⟨k, hrun⟩ := exists_run_of_not_quote (hq hb) 0
    exact ⟨k, ⟨hclosing, hrun⟩, hcomma⟩
  · exact ⟨0, h.sealed hb⟩

end Places
end Dialect
