import Dialect.Proofs.Table.Source
import Dialect.Proofs.Table.Constraint

/-!
# Constraints of two words

`PRIMARY KEY` and `NOT NULL` are two words each, and the words of a declaration are
collected one by one, without their places.  Two words that stand next to each other give
the constraint that they spell.  So do the same two words when each of them belongs to
something else, as in `DEFAULT NULL CHECK (a IS NOT 5)`, because what is collected does not
tell them apart.
-/

namespace Dialect

namespace Column

/-- The text behind a type and its arguments, or all of it when no type begins it. -/
def afterType (s : Text) : Text := ((type? s).map Prod.snd).getD s

/-- The words behind the type and its arguments, in capitals. -/
def laterWords (declaration : Text) : List Text :=
  match leadingName? declaration with
  | some (_, rest) => (words (afterType (skipBlanks rest))).map upper
  | none => []

section Words

variable {declaration : Text} {col : Column} {c : Constraint}

theorem constraints_eq (h : ofText? declaration = some col) :
    col.constraints = Constraint.collectInto [] (laterWords declaration) := by
  simp only [ofText?, Option.bind_eq_bind, Option.bind_eq_some_iff] at h
  obtain ⟨⟨name, rest⟩, hname, h⟩ := h
  have behind : ((type? (skipBlanks rest)).getD ([], skipBlanks rest)).2 =
      afterType (skipBlanks rest) := by
    unfold afterType
    cases type? (skipBlanks rest) <;> rfl
  obtain rfl := Option.some.inj h
  simp only [laterWords, hname, Constraint.collect, behind]

theorem mem_constraints_iff (hc : c ≠ .autoIncrement) (h : ofText? declaration = some col) :
    c ∈ col.constraints ↔ c.name ∈ laterWords declaration := by
  rw [constraints_eq h, Constraint.mem_collectInto]
  simp [Constraint.ofWord?_eq_some_iff hc]

end Words

/-! ## What is rendered -/

theorem primaryKey_infix_iff (col : Column) :
    (" PRIMARY KEY" : Text) <:+: col.attributes ↔ col.isPrimaryKey = true := by
  cases h : col.isPrimaryKey with
  | true =>
    refine iff_of_true ?_ rfl
    rw [attributes, h, if_pos rfl, List.append_assoc]
    exact List.infix_append _ _ _
  | false =>
    refine iff_of_false (fun infix_ => ?_) Bool.false_ne_true
    -- No other attribute has the letter.
    have none : 'K' ∉ col.attributes := by
      rw [attributes, h]
      cases col.storageType <;> cases col.isNotNull <;> cases col.isUnique <;> decide
    exact none (infix_.subset (by decide))

theorem notNull_infix_iff (col : Column) :
    (" NOT NULL" : Text) <:+: col.attributes ↔ col.isNotNull = true := by
  cases h : col.isNotNull with
  | true =>
    refine iff_of_true ?_ rfl
    rw [attributes, h, if_pos rfl]
    exact List.infix_append _ _ _
  | false =>
    refine iff_of_false (fun infix_ => ?_) Bool.false_ne_true
    -- The other attributes have the letter once at most.
    have once : col.attributes.count 'L' ≤ 1 := by
      rw [attributes, h]
      cases col.storageType <;> cases col.isPrimaryKey <;> cases col.isUnique <;> decide
    have twice : (" NOT NULL" : Text).count 'L' = 2 := by decide
    have bound := infix_.sublist.count_le 'L'
    omega

/-! ## Words apart -/

/-- Both words are there, and nowhere does the second one follow the first. -/
def Scattered (v w : Text) (ws : List Text) : Prop := v ∈ ws ∧ w ∈ ws ∧ ¬ [v, w] <:+: ws

theorem mem_and_mem_iff {v w : Text} {ws : List Text} :
    v ∈ ws ∧ w ∈ ws ↔ [v, w] <:+: ws ∨ Scattered v w ws := by
  constructor
  · rintro ⟨hv, hw⟩
    by_cases h : [v, w] <:+: ws
    · exact Or.inl h
    · exact Or.inr ⟨hv, hw, h⟩
  · rintro (h | ⟨hv, hw, _⟩)
    · exact ⟨h.subset (by simp), h.subset (by simp)⟩
    · exact ⟨hv, hw⟩

theorem contains_and_contains_iff {declaration : Text} {col : Column} {c d : Constraint}
    (hc : c ≠ .autoIncrement) (hd : d ≠ .autoIncrement) (h : ofText? declaration = some col) :
    (col.constraints.contains c && col.constraints.contains d) = true ↔
      [c.name, d.name] <:+: laterWords declaration ∨
        Scattered c.name d.name (laterWords declaration) := by
  rw [Bool.and_eq_true, List.contains_iff_mem, List.contains_iff_mem, mem_constraints_iff hc h,
    mem_constraints_iff hd h, mem_and_mem_iff]

/-- A column is rendered with a constraint of two words when the words follow each other in
its declaration, and also when they are scattered over it, and never else. -/
theorem phrases_of_declaration {declaration : Text} {col : Column}
    (h : ofText? declaration = some col) :
    col.render = col.name ++ col.attributes ∧
      ((" PRIMARY KEY" : Text) <:+: col.attributes ↔
        [("PRIMARY" : Text), "KEY"] <:+: laterWords declaration ∨
          Scattered "PRIMARY" "KEY" (laterWords declaration)) ∧
      ((" NOT NULL" : Text) <:+: col.attributes ↔
        [("NOT" : Text), "NULL"] <:+: laterWords declaration ∨
          Scattered "NOT" "NULL" (laterWords declaration)) := by
  refine ⟨col.render_eq, ?_, ?_⟩
  · rw [primaryKey_infix_iff, isPrimaryKey]
    exact contains_and_contains_iff (by decide) (by decide) h
  · rw [notNull_infix_iff, isNotNull]
    exact contains_and_contains_iff (by decide) (by decide) h

/-- The key is declared, and the column is not null although null is its default. -/
theorem phrases_of_declaration_default :
    ofText? "a int primary key default null check (a is not 0)" =
        some ⟨"a", "int", [.primary, .key, .null, .not]⟩ ∧
      (" PRIMARY KEY" : Text) <:+: attributes ⟨"a", "int", [.primary, .key, .null, .not]⟩ ∧
      (" NOT NULL" : Text) <:+: attributes ⟨"a", "int", [.primary, .key, .null, .not]⟩ := by
  have read : ofText? "a int primary key default null check (a is not 0)" =
      some ⟨"a", "int", [.primary, .key, .null, .not]⟩ := by decide +kernel
  have later : laterWords "a int primary key default null check (a is not 0)" =
      [("PRIMARY" : Text), "KEY", "DEFAULT", "NULL", "CHECK", "(A", "IS", "NOT", "0)"] := by
    decide +kernel
  obtain ⟨_, primaryKey, notNull⟩ := phrases_of_declaration read
  rw [later] at primaryKey notNull
  refine ⟨read, primaryKey.mpr (Or.inl ?_), notNull.mpr (Or.inr ⟨?_, ?_, ?_⟩)⟩ <;> decide

/-- Neither constraint has its words next to each other in these declarations. -/
theorem phrases_of_scattered_words :
    (¬ ∀ declaration col, ofText? declaration = some col →
      ((" NOT NULL" : Text) <:+: col.attributes ↔
        [("NOT" : Text), "NULL"] <:+: laterWords declaration)) ∧
    ¬ ∀ declaration col, ofText? declaration = some col →
      ((" PRIMARY KEY" : Text) <:+: col.attributes ↔
        [("PRIMARY" : Text), "KEY"] <:+: laterWords declaration) := by
  constructor
  · intro h
    have adjacent := (h "a INT DEFAULT NULL CHECK (a IS NOT 5)" ⟨"a", "INT", [.null, .not]⟩
      (by decide +kernel)).mp (by decide +kernel)
    exact absurd adjacent (by decide +kernel)
  · intro h
    have adjacent := (h "b INT PRIMARY UNIQUE KEY" ⟨"b", "INT", [.primary, .unique, .key]⟩
      (by decide +kernel)).mp (by decide +kernel)
    exact absurd adjacent (by decide +kernel)

end Column
end Dialect
