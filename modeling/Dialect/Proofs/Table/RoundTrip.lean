import Dialect.Proofs.Table.Layout

/-!
# Reading rendered tables

A rendered table is one of the layouts of a table declaration, so it is read back.  The
name of each storage type stands in the place of a declared type, and the constraints
that SQLite takes in the place of all that were declared.
-/

namespace Dialect

open Reading

theorem Constraint.upper_name (c : Constraint) : upper c.name = c.name := by
  cases c <;> decide

theorem Constraint.known_name (c : Constraint) : upper c.name ∈ constraintWords := by
  cases c <;> decide

def Constraint.phrase (c : Constraint) : Phrase where
  space := .one
  space_ne := List.cons_ne_nil _ _
  word := c.name
  known := c.known_name

/-- The name of a storage type can stand for a declared type. -/
theorem StorageType.isType_name (t : StorageType) : t.name ≠ [] ∧
    t.name.all continuesWord = true ∧ Column.isNonTypeWord t.name = false ∧
    upper t.name ≠ "KEY" ∧ upper t.name ≠ "INDEX" := by
  cases t <;> decide

namespace Column

def renderedConstraints (col : Column) : List Constraint :=
  (if col.isPrimaryKey then [.primary, .key] else []) ++
    (if col.isNotNull then [.not, .null] else []) ++
    (if col.isUnique then [.unique] else [])

def canonical (col : Column) : Column :=
  { name := col.name, declaredType := col.storageType.name,
    constraints := col.renderedConstraints }

/-- The name is read whole, begins no clause, and hides no part of a list. -/
structure Readable (col : Column) : Prop where
  whole : leadingName? col.name = some (col.name, [])
  no_clause : upper (leadingWord col.name) ∉ clauseWords
  bracketed : col.name.head? = some '[' → Sealed 0 col.name

variable {col : Column}

def declaration (h : col.Readable) : Declaration where
  name := col.name
  whole := h.whole
  bracketed := h.bracketed
  gap := .one
  type := col.storageType.name
  type_ne := col.storageType.isType_name.1
  type_word := col.storageType.isType_name.2.1
  isType := col.storageType.isType_name.2.2.1
  no_clause := h.no_clause
  no_unique := fun _ => col.storageType.isType_name.2.2.2
  arguments := none
  phrases := col.renderedConstraints.map Constraint.phrase

theorem text_declaration (h : col.Readable) : (declaration h).text = col.render := by
  have constraints : (col.renderedConstraints.map Constraint.phrase).flatMap Phrase.text =
      (if col.isPrimaryKey then " PRIMARY KEY" else "").toList ++
        ((if col.isNotNull then " NOT NULL" else "").toList ++
          (if col.isUnique then " UNIQUE" else "").toList) := by
    unfold renderedConstraints
    cases col.isPrimaryKey <;> cases col.isNotNull <;> cases col.isUnique <;> decide
  simp only [Declaration.text, declaration, BlankRun.one, Option.elim_none, List.nil_append,
    constraints, render, List.append_assoc]

theorem collectInto_renderedConstraints (col : Column) :
    Constraint.collectInto [] (col.renderedConstraints.map Constraint.name) =
      col.renderedConstraints := by
  unfold renderedConstraints
  cases col.isPrimaryKey <;> cases col.isNotNull <;> cases col.isUnique <;> decide

theorem column_declaration (h : col.Readable) : (declaration h).column = col.canonical := by
  have upper : (fun p : Phrase => upper p.word) ∘ Constraint.phrase = Constraint.name :=
    funext Constraint.upper_name
  simp only [Declaration.column, declaration, canonical, List.map_map, upper,
    collectInto_renderedConstraints]

theorem render_canonical (col : Column) : col.canonical.render = col.render := by
  have flags : col.canonical.isPrimaryKey = col.isPrimaryKey ∧
      col.canonical.isNotNull = col.isNotNull ∧ col.canonical.isUnique = col.isUnique := by
    unfold canonical renderedConstraints
    cases col.isPrimaryKey <;> cases col.isNotNull <;> cases col.isUnique <;> exact ⟨rfl, rfl, rfl⟩
  have type : col.canonical.storageType = col.storageType := StorageType.ofDeclared_name _
  unfold render
  rw [flags.1, flags.2.1, flags.2.2, type, canonical]

end Column

theorem exists_listing {cols : List Column} (hne : cols ≠ []) (h : ∀ col ∈ cols, col.Readable) :
    ∃ l : Listing, l.text = List.intercalate ",\n    ".toList (cols.map Column.render) ∧
      l.declarations.map Declaration.column = cols.map Column.canonical :=
  Listing.exists_text_eq ⟨"\n    ".toList, by decide⟩ hne fun col hcol =>
    ⟨Column.declaration (h col hcol), Column.text_declaration _, Column.column_declaration _⟩

namespace Table

def canonical (t : Table) : Table := { t with columns := t.columns.map Column.canonical }

def heading (t : Table) : Heading where
  create := ⟨"CREATE".toList, rfl⟩
  afterCreate := .one
  table := ⟨"TABLE".toList, rfl⟩
  afterTable := .one
  guard := if t.ifNotExists then
      some {
        ifWord := ⟨"IF".toList, rfl⟩
        afterIf := .one
        notWord := ⟨"NOT".toList, rfl⟩
        afterNot := .one
        existsWord := ⟨"EXISTS".toList, rfl⟩
        afterExists := .one }
    else none

theorem text_heading (t : Table) : t.heading.text =
    "CREATE TABLE ".toList ++ (if t.ifNotExists then "IF NOT EXISTS " else "").toList := by
  unfold Table.heading
  cases t.ifNotExists <;> decide

/-- What stands between the parentheses of a rendered table. -/
def body (t : Table) : Text :=
  "\n    " ++ (List.intercalate ",\n    ".toList (t.columns.map Column.render) ++ "\n".toList)

theorem render_eq (t : Table) :
    t.render = t.heading.text ++ (t.name ++ ([' '] ++ '(' :: (t.body ++ [')']))) := by
  unfold render body
  simp only [text_heading, List.append_assoc]
  rfl

theorem render_ne_nil (t : Table) : t.render ≠ [] := by
  rw [render_eq]
  intro h
  have parts := List.append_eq_nil_iff.mp (List.append_eq_nil_iff.mp h).2
  simp at parts

theorem ofText?_render_of_readable (t : Table) (hne : t.columns ≠ [])
    (hname : leadingName? t.name = some (t.name, [])) (h : ∀ col ∈ t.columns, col.Readable) :
    Table.ofText? t.render = some t.canonical := by
  obtain ⟨columns, htext, hcolumns⟩ := exists_listing hne h
  let layout : Layout :=
    { heading := t.heading, name := t.name, whole := hname, beforeList := .one,
      opening := ⟨"\n    ".toList, by decide⟩, columns, closing := ⟨"\n".toList, by decide⟩ }
  have text : layout.text = t.render := by
    rw [render_eq, body, ← htext]
    rfl
  have table : layout.table = t.canonical := by
    have guard : t.heading.guard.isSome = t.ifNotExists := by
      unfold Table.heading
      cases t.ifNotExists <;> rfl
    simp only [layout, Layout.table, guard, hcolumns, canonical]
  rw [← text, ← table, ← List.append_nil layout.text]
  exact layout.ofText?_text []

/-- Reading undoes rendering, for any declared types and any constraints. -/
theorem ofText?_render (t : Table) (hne : t.columns ≠ [])
    (hname : leadingName? t.name = some (t.name, []))
    (hcolumns : ∀ col ∈ t.columns, leadingName? col.name = some (col.name, []) ∧
      upper (leadingWord col.name) ∉ clauseWords ∧
      (col.name.head? = some '[' →
        ∀ c ∈ col.name, c ∉ ['\x27', '\x22', '\x60', '(', ')', ','])) :
    Table.ofText? t.render = some t.canonical := by
  have readable : ∀ col ∈ t.columns, col.Readable := by
    intro col hcol
    obtain ⟨hwhole, hclause, hbracket⟩ := hcolumns col hcol
    exact ⟨hwhole, hclause,
      fun hb => sealed_of_plain fun c hc => isPlain_of_not_mem (hbracket hb c hc)⟩
  exact ofText?_render_of_readable t hne hname readable

/-- A table called `IF` with a quoted comma, a bracketed name and a half pair. -/
def queue : Table where
  name := "IF"
  ifNotExists := true
  columns := [⟨"\x22a,(\x22", "varchar (9", [.unique, .key, .autoIncrement, .primary, .unique]⟩,
    ⟨"[b c]", "", [.not, .null]⟩, ⟨"unique", "Bool", [.not, .key]⟩]

theorem ofText?_render_queue : Table.ofText? queue.render =
    some ⟨"IF", true, [⟨"\x22a,(\x22", "TEXT", [.primary, .key, .unique]⟩,
      ⟨"[b c]", "TEXT", [.not, .null]⟩, ⟨"unique", "INTEGER", []⟩]⟩ := by
  have canonical : queue.canonical =
      ⟨"IF", true, [⟨"\x22a,(\x22", "TEXT", [.primary, .key, .unique]⟩,
        ⟨"[b c]", "TEXT", [.not, .null]⟩, ⟨"unique", "INTEGER", []⟩]⟩ := by decide +kernel
  rw [← canonical]
  refine ofText?_render queue (by decide) (by decide +kernel) ?_
  have bracketed : "[b c]".toList.all
      (fun c => c ∉ ['\x27', '\x22', '\x60', '(', ')', ',']) = true := by decide +kernel
  intro col hcol
  simp only [queue, List.mem_cons, List.not_mem_nil, or_false] at hcol
  rcases hcol with rfl | rfl | rfl
  · exact ⟨by decide +kernel, by decide +kernel, fun h => absurd h (by decide)⟩
  · exact ⟨by decide +kernel, by decide +kernel,
      fun _ c hc => of_decide_eq_true (List.all_eq_true.mp bracketed c hc)⟩
  · exact ⟨by decide +kernel, by decide +kernel, fun h => absurd h (by decide)⟩

theorem render_canonical (t : Table) : t.canonical.render = t.render := by
  have columns : t.canonical.columns.map Column.render = t.columns.map Column.render := by
    simp only [canonical, List.map_map, Function.comp_def, Column.render_canonical]
  unfold render
  rw [columns, canonical]

/-! ## Names with open groups

Brackets may hold parentheses, and a bracketed name that opens more of them than it
closes leaves the column list open when the rendered table is read. -/

theorem exists_leaves {cols : List Column} (h : ∀ col ∈ cols, ∃ k, Sealed k col.name) :
    ∃ k, Leaves k (List.intercalate ",\n    ".toList (cols.map Column.render)) ∧
      (k = 0 → ∀ col ∈ cols, Sealed 0 col.name) := by
  induction cols with
  | nil => exact ⟨0, leaves_nil, fun _ => by simp⟩
  | cons col cols ih =>
    obtain ⟨j, hj⟩ := h col List.mem_cons_self
    have column : Leaves j col.render := by
      rw [Column.render_eq]
      exact leaves_append hj.toLeaves (sealed_of_plain col.isPlain_attributes).toLeaves
    obtain ⟨k, hk, zero⟩ := ih fun c hc => h c (List.mem_cons_of_mem col hc)
    have separator : Leaves 0 ",\n    ".toList := ⟨by decide, by decide⟩
    cases cols with
    | nil =>
      refine ⟨j, ?_, ?_⟩
      · rw [List.map_singleton, List.intercalate_singleton]
        exact column
      · rintro rfl
        simpa using hj
    | cons next cols =>
      refine ⟨j + (0 + k), ?_, ?_⟩
      · rw [List.map_cons, List.map_cons, List.intercalate_cons_cons, List.append_assoc,
          ← List.map_cons]
        exact leaves_append column (leaves_append separator hk)
      · intro hz c hc
        have hj0 : j = 0 := by omega
        have hk0 : k = 0 := by omega
        rcases List.mem_cons.mp hc with rfl | hc
        · exact hj0 ▸ hj
        · exact zero hk0 c hc

theorem ofText?_render_of_leaves {t : Table} {k : Nat}
    (hname : leadingName? t.name = some (t.name, [])) (h : Leaves k t.body) (hk : k ≠ 0) :
    Table.ofText? t.render = none := by
  have header : Outline.header? t.render =
      some (t.heading.guard.isSome, t.name, [' '] ++ '(' :: (t.body ++ [')'])) := by
    rw [render_eq]
    exact t.heading.header?_text (leadingName?_eq_self_iff.mp hname) .one (t.body ++ [')'])
  have cut : trimStart ([' '] ++ '(' :: (t.body ++ [')'])) = '(' :: (t.body ++ [')']) :=
    trimStart_append (by simp; decide) (by simp; decide)
  simp only [ofText?, Outline.ofText?, header, Option.bind_eq_bind, Option.bind_some, cut,
    group?_of_leaves h hk, Option.bind_none]

/-- A rendered table that is read at all is rendered as before. -/
theorem render_of_ofText?_render {t u : Table} (hne : t.columns ≠ [])
    (hname : leadingName? t.name = some (t.name, []))
    (h : ∀ col ∈ t.columns, leadingName? col.name = some (col.name, []) ∧
      upper (leadingWord col.name) ∉ clauseWords ∧ ∃ k, Sealed k col.name)
    (hu : Table.ofText? t.render = some u) : u.render = t.render := by
  obtain ⟨k, hk, zero⟩ := exists_leaves fun col hcol => (h col hcol).2.2
  -- Names that leave groups open make the list as a whole leave groups open, since no name
  -- closes what another one has opened.
  by_cases hk0 : k = 0
  · have readable : ∀ col ∈ t.columns, col.Readable := by
      intro col hcol
      exact ⟨(h col hcol).1, (h col hcol).2.1, fun _ => zero hk0 col hcol⟩
    rw [ofText?_render_of_readable t hne hname readable] at hu
    rw [← Option.some.inj hu, render_canonical]
  · have front : Leaves 0 "\n    ".toList := ⟨by decide, by decide⟩
    have back : Leaves 0 "\n".toList := ⟨by decide, by decide⟩
    have body : Leaves (0 + (k + 0)) t.body := leaves_append front (leaves_append hk back)
    rw [ofText?_render_of_leaves hname body (by omega)] at hu
    contradiction

theorem names_of_source {s : Text} {t : Table} (h : Table.ofText? s = some t)
    (hquote : ∀ col ∈ t.columns, col.name.head? = some '[' → ∀ c ∈ col.name, isQuote c = false) :
    ∀ col ∈ t.columns, leadingName? col.name = some (col.name, []) ∧
      upper (leadingWord col.name) ∉ clauseWords ∧ ∃ k, Sealed k col.name := by
  intro col hcol
  obtain ⟨_, _, body, _, _, _, balanced, hcolumns, _⟩ := exists_source h
  obtain ⟨piece, hp, hclause, hread⟩ := ColumnList.exists_piece (hcolumns ▸ hcol)
  obtain ⟨rest, hname⟩ := Column.exists_of_ofText? hread
  have isName : IsName col.name := isName_of_leadingName? hname
  refine ⟨leadingName?_eq_self_iff.mpr isName, ?_, ?_⟩
  · rw [leadingWord_of_leadingName? hname]
    exact Entry.not_mem_clauseWords hclause
  · obtain ⟨hclosing, hcomma⟩ := avoids_of_mem_outermostPieces balanced.contained hp
    rw [← append_of_leadingName? hname, avoids_append] at hclosing hcomma
    exact isName.exists_sealed (hquote col hcol) hclosing.1 hcomma.1

end Table
end Dialect
