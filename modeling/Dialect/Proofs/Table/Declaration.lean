import Dialect.Proofs.Table.Constraint
import Dialect.Proofs.Table.Heading
import Dialect.Table.ColumnList

/-!
# Column declarations

A column declaration with the freedom that its grammar leaves.  It is read as one
column, whose name and type stand in it as they are and whose constraints are those
that its words name.
-/

namespace Dialect

open Reading

/-- The words that say something about a column. -/
def constraintWords : List Text :=
  ["PRIMARY", "KEY", "NOT", "NULL", "UNIQUE", "AUTO_INCREMENT", "AUTOINCREMENT"]

/-- The words that make a clause of the piece that they begin. -/
def clauseWords : List Text := ["PRIMARY", "FOREIGN", "CONSTRAINT", "CHECK"]

theorem Entry.not_mem_clauseWords {piece : Text} (h : constrainsTable piece = false) :
    upper (leadingWord piece) ∉ clauseWords := by
  unfold constrainsTable at h
  simp only [Bool.or_eq_false_iff, List.any_eq_false, decide_eq_true_eq] at h
  intro hm
  simp only [clauseWords, List.mem_cons, List.not_mem_nil, or_false] at hm
  rcases hm with hm | hm | hm | hm <;> exact h.1 _ (by decide) hm.symm

structure Arguments where
  space : SpaceRun
  inside : Text
  balanced : Balanced inside

/-- A constraint word with the space in front of it. -/
structure Phrase where
  space : SpaceRun
  space_ne : space.1 ≠ []
  word : Text
  known : upper word ∈ constraintWords

structure Declaration where
  name : Text
  whole : leadingName? name = some (name, [])
  /-- Brackets do not hide what stands in them, so it must not matter to a list. -/
  bracketed : name.head? = some '[' → Sealed 0 name
  gap : BlankRun
  type : Text
  type_ne : type ≠ []
  type_word : type.all continuesWord = true
  isType : Column.isNonTypeWord type = false
  no_clause : upper (leadingWord name) ∉ clauseWords
  /-- `UNIQUE KEY` and `UNIQUE INDEX` begin a clause as well. -/
  no_unique : upper (leadingWord name) = "UNIQUE" → upper type ≠ "KEY" ∧ upper type ≠ "INDEX"
  arguments : Option Arguments
  phrases : List Phrase

namespace Arguments

def text (a : Arguments) : Text := a.space.1 ++ '(' :: (a.inside ++ [')'])

theorem getLast?_text (a : Arguments) : ∀ c ∈ a.text.getLast?, isSpace c = false := by
  have last : a.text.getLast? = some ')' := by
    rw [text, ← List.cons_append, ← List.append_assoc, List.getLast?_concat]
  intro c hc
  rw [last] at hc
  rw [← Option.some.inj hc]
  decide

end Arguments

namespace Phrase

def text (p : Phrase) : Text := p.space.1 ++ p.word

theorem continuesWord_word (p : Phrase) : ∀ c ∈ p.word, continuesWord c = true := by
  have all : ∀ k ∈ constraintWords, k.all continuesWord = true := by decide
  exact continuesWord_of_upper_eq rfl (all _ p.known)

theorem word_ne_nil (p : Phrase) : p.word ≠ [] := by
  intro h
  have known := p.known
  rw [h] at known
  exact absurd known (by decide)

theorem isSpace_word (p : Phrase) : ∀ c ∈ p.word, isSpace c = false := by
  intro c hc
  exact isSpace_of_continuesWord (p.continuesWord_word c hc)

theorem head?_text (p : Phrase) (s : Text) : ∀ c ∈ (p.text ++ s).head?, isSpace c = true := by
  rw [text, List.append_assoc]
  exact head?_append_of_forall p.space_ne p.space.all _

theorem head?_flatMap (ps : List Phrase) :
    ∀ c ∈ (ps.flatMap text).head?, isSpace c = true := by
  cases ps with
  | nil => simp
  | cons p ps =>
    rw [List.flatMap_cons]
    exact p.head?_text _

theorem head?_trimStart_flatMap (ps : List Phrase) :
    (trimStart (ps.flatMap text)).head? ≠ some '(' := by
  cases ps with
  | nil => decide
  | cons p ps =>
    have hw : ∀ c ∈ (p.word ++ ps.flatMap text).head?, continuesWord c = true :=
      head?_append_of_forall p.word_ne_nil p.continuesWord_word _
    have cut : trimStart (p.space.1 ++ (p.word ++ ps.flatMap text)) =
        p.word ++ ps.flatMap text :=
      trimStart_append p.space.all fun c hc => isSpace_of_continuesWord (hw c hc)
    rw [List.flatMap_cons, text, List.append_assoc, cut]
    intro he
    exact absurd (hw '(' he) (by decide)

theorem getLast?_flatMap (ps : List Phrase) :
    ∀ c ∈ (ps.flatMap text).getLast?, isSpace c = false := by
  induction ps with
  | nil => simp
  | cons p ps ih =>
    rw [List.flatMap_cons]
    refine getLast?_append_not_space ?_ ih
    rw [text, getLast?_append_of_ne_nil p.word_ne_nil]
    exact fun c hc => p.isSpace_word c (List.mem_of_getLast? hc)

theorem words_flatMap (ps : List Phrase) : words (ps.flatMap text) = ps.map word := by
  induction ps with
  | nil => exact words_nil
  | cons p ps ih =>
    rw [List.flatMap_cons, text, List.append_assoc, words_spaces_append p.space.all,
      words_word_append p.word_ne_nil p.isSpace_word (head?_flatMap ps), ih]
    rfl

end Phrase

namespace Declaration

def text (d : Declaration) : Text :=
  d.name ++ (d.gap.1 ++ (d.type ++
    (d.arguments.elim [] Arguments.text ++ d.phrases.flatMap Phrase.text)))

/-- Whether a constraint word stands in the declaration, in any case. -/
def mentions (d : Declaration) (word : String) : Bool :=
  d.phrases.any fun p => upper p.word = word

/-- What SQLite takes for the declaration. -/
def rendered (d : Declaration) : Text :=
  d.name ++ [' '] ++ (StorageType.ofDeclared d.type).name ++
    (if d.mentions "PRIMARY" && d.mentions "KEY" then " PRIMARY KEY" else "") ++
    (if d.mentions "NOT" && d.mentions "NULL" then " NOT NULL" else "") ++
    (if d.mentions "UNIQUE" then " UNIQUE" else "")

def column (d : Declaration) : Column :=
  { name := d.name, declaredType := d.type,
    constraints := Constraint.collectInto [] (d.phrases.map fun p => upper p.word) }

section Reading

variable (d : Declaration)

theorem constraints_column :
    d.column.constraints = Constraint.collect (d.phrases.flatMap Phrase.text) := by
  rw [Constraint.collect, Phrase.words_flatMap, List.map_map]
  rfl

theorem contains_column {c : Constraint} (hc : c ≠ .autoIncrement) (word : String)
    (hw : c.name = word.toList) : d.column.constraints.contains c = d.mentions word := by
  rw [constraints_column, Constraint.contains_collect hc, Phrase.words_flatMap, List.any_map, hw]
  rfl

theorem render_column : d.column.render = d.rendered := by
  have primaryKey : d.column.isPrimaryKey = (d.mentions "PRIMARY" && d.mentions "KEY") := by
    rw [Column.isPrimaryKey, d.contains_column (by decide) "PRIMARY" rfl,
      d.contains_column (by decide) "KEY" rfl]
  have notNull : d.column.isNotNull = (d.mentions "NOT" && d.mentions "NULL") := by
    rw [Column.isNotNull, d.contains_column (by decide) "NOT" rfl,
      d.contains_column (by decide) "NULL" rfl]
  have unique : d.column.isUnique = d.mentions "UNIQUE" := by
    rw [Column.isUnique, d.contains_column (by decide) "UNIQUE" rfl]
  rw [Column.render, primaryKey, notNull, unique]
  rfl

/-! ### The parts of the text -/

theorem continuesWord_type : ∀ c ∈ d.type, continuesWord c = true :=
  List.all_eq_true.mp d.type_word

theorem isName : IsName d.name := leadingName?_eq_self_iff.mp d.whole

theorem sealed_name : Sealed 0 d.name := by
  by_cases hb : d.name.head? = some '['
  · exact d.bracketed hb
  · exact d.isName.sealed hb

def rest : Text := d.arguments.elim [] Arguments.text ++ d.phrases.flatMap Phrase.text

theorem text_eq : d.text = d.name ++ (d.gap.1 ++ (d.type ++ d.rest)) := rfl

theorem sealed_rest : Sealed 0 d.rest := by
  have arguments : Sealed 0 (d.arguments.elim [] Arguments.text) := by
    cases d.arguments with
    | none => exact sealed_of_plain (by simp)
    | some a =>
      exact sealed_append (sealed_of_plain fun c hc => isPlain_of_isSpace (a.space.all c hc))
        (sealed_group a.balanced)
  refine sealed_append arguments (sealed_of_plain fun c hc => ?_)
  obtain ⟨p, _, hc⟩ := List.mem_flatMap.mp hc
  rcases List.mem_append.mp hc with hs | hw
  · exact isPlain_of_isSpace (p.space.all c hs)
  · exact isPlain_of_continuesWord (p.continuesWord_word c hw)

theorem sealed_text : Sealed 0 d.text := by
  have gap : Sealed 0 d.gap.1 :=
    sealed_of_plain fun c hc => isPlain_of_isSpace (isSpace_of_isBlank (d.gap.all c hc))
  have type : Sealed 0 d.type :=
    sealed_of_plain fun c hc => isPlain_of_continuesWord (d.continuesWord_type c hc)
  exact sealed_append d.sealed_name (sealed_append gap (sealed_append type d.sealed_rest))

theorem head?_rest : ∀ c ∈ d.rest.head?, continuesWord c = false := by
  intro c hc
  unfold rest at hc
  cases ha : d.arguments with
  | none =>
    rw [ha] at hc
    exact continuesWord_of_isSpace (Phrase.head?_flatMap d.phrases c hc)
  | some a =>
    rw [ha, Option.elim_some, Arguments.text, List.append_assoc] at hc
    rcases Heading.head?_spaces a.space _ c hc with hs | rfl
    · exact continuesWord_of_isSpace hs
    · decide

theorem afterArguments_rest : Column.afterArguments d.rest = d.phrases.flatMap Phrase.text := by
  unfold rest Column.afterArguments
  cases d.arguments with
  | none =>
    rw [Option.elim_none, List.nil_append,
      group?_eq_none_of_head (Phrase.head?_trimStart_flatMap d.phrases)]
  | some a =>
    have cut : trimStart (a.space.1 ++
        '(' :: (a.inside ++ ')' :: d.phrases.flatMap Phrase.text)) =
        '(' :: (a.inside ++ ')' :: d.phrases.flatMap Phrase.text) :=
      trimStart_append a.space.all (by simp; decide)
    simp only [Option.elim_some, Arguments.text, List.append_assoc, List.cons_append,
      List.nil_append]
    rw [cut, group?_of_balanced a.balanced]

theorem head?_type (s : Text) : ∀ c ∈ (d.type ++ s).head?, continuesWord c = true :=
  head?_append_of_forall d.type_ne d.continuesWord_type s

theorem ofText?_text : Column.ofText? d.text = some d.column := by
  have name : leadingName? d.text = some (d.name, d.gap.1 ++ (d.type ++ d.rest)) := by
    refine leadingName?_append d.isName (head?_append_of_forall d.gap.2.1 (fun c hc => ?_) _)
    exact continuesName_of_isSpace (isSpace_of_isBlank (d.gap.all c hc))
  have gap : skipBlanks (d.gap.1 ++ (d.type ++ d.rest)) = d.type ++ d.rest :=
    skipBlanks_append d.gap.all fun c hc => isBlank_of_continuesWord (d.head?_type _ c hc)
  have type : Column.type? (d.type ++ d.rest) = some (d.type, d.phrases.flatMap Phrase.text) := by
    rw [Column.type?, leadingWord_append d.continuesWord_type d.head?_rest,
      afterWord_append d.continuesWord_type d.head?_rest, d.isType, d.afterArguments_rest]
    simp [d.type_ne]
  simp only [Column.ofText?, name, gap, type, Option.bind_eq_bind, Option.bind_some,
    Option.getD_some]
  rw [← d.constraints_column]
  rfl

theorem leadingWord_text : leadingWord d.text = leadingWord d.name := by
  obtain ⟨c, t, ht⟩ := List.exists_cons_of_ne_nil d.gap.2.1
  have hc := continuesWord_of_isBlank (d.gap.all c (ht ▸ List.mem_cons_self))
  rw [text_eq, ht, List.cons_append, leadingWord_append_cons hc]

theorem afterWord_text :
    afterWord d.text = afterWord d.name ++ (d.gap.1 ++ (d.type ++ d.rest)) := by
  obtain ⟨c, t, ht⟩ := List.exists_cons_of_ne_nil d.gap.2.1
  have hc := continuesWord_of_isBlank (d.gap.all c (ht ▸ List.mem_cons_self))
  rw [text_eq, ht, List.cons_append, afterWord_append_cons hc]

/-- Behind the word that begins a name comes the type, or the name goes on with a dot. -/
theorem next_text (hword : leadingWord d.name ≠ []) :
    (trimStart (afterWord d.text)).head? ≠ some '(' ∧
      (leadingWord (trimStart (afterWord d.text)) = d.type ∨
        leadingWord (trimStart (afterWord d.text)) = []) := by
  rw [afterWord_text]
  cases ha : afterWord d.name with
  | nil =>
    have cut : trimStart (d.gap.1 ++ (d.type ++ d.rest)) = d.type ++ d.rest := by
      refine trimStart_append (fun c hc => isSpace_of_isBlank (d.gap.all c hc)) fun c hc => ?_
      exact isSpace_of_continuesWord (d.head?_type d.rest c hc)
    rw [List.nil_append, cut]
    constructor
    · intro he
      exact absurd (d.head?_type d.rest '(' he) (by decide)
    · exact Or.inl (leadingWord_append d.continuesWord_type d.head?_rest)
  | cons e u =>
    obtain rfl := d.isName.head?_afterWord hword e (by rw [ha]; rfl)
    rw [List.cons_append, trimStart_cons, if_neg (by decide)]
    constructor
    · simp
    · exact Or.inr (leadingWord_eq_nil (by simp; decide))

theorem constrainsTable_text : Entry.constrainsTable d.text = false := by
  have clause : (["PRIMARY", "FOREIGN", "CONSTRAINT", "CHECK"].any
      fun w : String => w.toList = upper (leadingWord d.name)) = false := by
    have h := d.no_clause
    simp only [clauseWords, List.mem_cons, List.not_mem_nil, or_false, not_or] at h
    simp only [List.any_cons, List.any_nil, Bool.or_false, Bool.or_eq_false_iff,
      decide_eq_false_iff_not]
    exact ⟨Ne.symm h.1, Ne.symm h.2.1, Ne.symm h.2.2.1, Ne.symm h.2.2.2⟩
  unfold Entry.constrainsTable
  simp only [leadingWord_text, clause, Bool.false_or, Bool.and_eq_false_iff,
    Bool.or_eq_false_iff, decide_eq_false_iff_not]
  by_cases hu : upper (leadingWord d.name) = "UNIQUE"
  · have hword : leadingWord d.name ≠ [] := by
      intro he
      rw [he] at hu
      contradiction
    obtain ⟨bare, hnext | hnext⟩ := d.next_text hword
    · rw [hnext]
      exact Or.inr ⟨⟨bare, (d.no_unique hu).1⟩, (d.no_unique hu).2⟩
    · rw [hnext]
      exact Or.inr ⟨⟨bare, by decide⟩, by decide⟩
  · exact Or.inl hu

theorem getLast?_rest : ∀ c ∈ d.rest.getLast?, isSpace c = false := by
  refine getLast?_append_not_space ?_ (Phrase.getLast?_flatMap d.phrases)
  cases d.arguments with
  | none => simp
  | some a => exact a.getLast?_text

theorem trimmed_text : Trimmed d.text := by
  refine ⟨d.isName.head?_append _, ?_⟩
  have type : ∀ c ∈ (d.gap.1 ++ d.type).getLast?, isSpace c = false := by
    intro c hc
    rw [getLast?_append_of_ne_nil d.type_ne] at hc
    exact isSpace_of_continuesWord (d.continuesWord_type c (List.mem_of_getLast? hc))
  rw [text_eq, ← List.append_assoc d.gap.1]
  exact getLast?_append_not_space d.isName.trimmed.last
    (getLast?_append_not_space type d.getLast?_rest)

theorem ofPiece_text : Entry.ofPiece d.text = .column d.column := by
  rw [Entry.ofPiece, constrainsTable_text, ofText?_text]
  rfl

end Reading
end Declaration
end Dialect
