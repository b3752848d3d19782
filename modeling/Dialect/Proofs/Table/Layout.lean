import Dialect.Compilation
import Dialect.Proofs.Comment.Scan
import Dialect.Proofs.Table.Declaration
import Dialect.Proofs.Table.Source

/-!
# Layouts of a table declaration

A layout is a whole table declaration with the freedom that its grammar leaves: any
case, any spacing, any number of column declarations.  It is read as one table, which
has every declared column in order, and its compilation depends on the names, the type
words and the constraint words alone.
-/

namespace Dialect

open Reading

/-! ## Lists of declarations -/

inductive Listing where
  | last (d : Declaration)
  | next (d : Declaration) (before after : SpaceRun) (l : Listing)

namespace Listing

def text : Listing → Text
  | last d => d.text
  | next d before after l => d.text ++ (before.1 ++ ',' :: (after.1 ++ l.text))

def declarations : Listing → List Declaration
  | last d => [d]
  | next d _ _ l => d :: l.declarations

theorem sealed_padded (d : Declaration) (a b : SpaceRun) : Sealed 0 (a.1 ++ (d.text ++ b.1)) := by
  have spaces (s : SpaceRun) : Sealed 0 s.1 :=
    sealed_of_plain fun c hc => isPlain_of_isSpace (s.all c hc)
  exact sealed_append (spaces a) (sealed_append d.sealed_text (spaces b))

theorem columns_padded (d : Declaration) (a b : SpaceRun) :
    ColumnList.columns (a.1 ++ (d.text ++ b.1)) = [d.column] := by
  have piece : trim (a.1 ++ (d.text ++ b.1)) = d.text := by
    rw [← List.append_assoc]
    exact trim_append a.all b.all d.trimmed_text
  have hne : d.text ≠ [] := by
    intro he
    exact d.isName.ne_nil (List.append_eq_nil_iff.mp he).1
  rw [ColumnList.columns, ColumnList.entries, outermostPieces_of_avoids (sealed_padded d a b).comma,
    piece, List.filter_cons_of_pos (by simpa using hne), List.filter_nil, List.map_singleton,
    d.ofPiece_text]
  rfl

theorem balanced_text (l : Listing) (a b : SpaceRun) : Balanced (a.1 ++ (l.text ++ b.1)) := by
  induction l generalizing a with
  | last d => exact (sealed_padded d a b).toLeaves
  | next d before after l ih =>
    have comma : Leaves 0 [','] := ⟨by decide, rfl⟩
    have split : a.1 ++ ((next d before after l).text ++ b.1) =
        (a.1 ++ (d.text ++ before.1)) ++ ([','] ++ (after.1 ++ (l.text ++ b.1))) := by
      simp [text]
    rw [split]
    exact leaves_append (sealed_padded d a before).toLeaves (leaves_append comma (ih after))

/-- A list is cut at the commas between its declarations and nowhere else. -/
theorem columns_text (l : Listing) (a b : SpaceRun) :
    ColumnList.columns (a.1 ++ (l.text ++ b.1)) = l.declarations.map Declaration.column := by
  -- The space in front of the list varies, because each comma leaves its own behind it.
  induction l generalizing a with
  | last d => exact columns_padded d a b
  | next d before after l ih =>
    have split : a.1 ++ ((next d before after l).text ++ b.1) =
        (a.1 ++ (d.text ++ before.1)) ++ ',' :: (after.1 ++ (l.text ++ b.1)) := by
      simp [text]
    rw [split, ColumnList.columns_append (sealed_padded d a before).run, columns_padded, ih after]
    rfl

/-- A list that is written without space in front of its commas. -/
theorem exists_text_eq {α : Type} {l : List α} {text : α → Text} {column : α → Column}
    (gap : SpaceRun) (hne : l ≠ [])
    (h : ∀ a ∈ l, ∃ d : Declaration, d.text = text a ∧ d.column = column a) :
    ∃ listing : Listing, listing.text = List.intercalate (',' :: gap.1) (l.map text) ∧
      listing.declarations.map Declaration.column = l.map column := by
  induction l with
  | nil => exact absurd rfl hne
  | cons a l ih =>
    obtain ⟨d, htext, hcolumn⟩ := h a List.mem_cons_self
    cases l with
    | nil =>
      refine ⟨.last d, ?_, ?_⟩
      · rw [Listing.text, htext, List.map_singleton, List.intercalate_singleton]
      · rw [declarations, List.map_singleton, List.map_singleton, hcolumn]
    | cons b l =>
      obtain ⟨rest, ht, hd⟩ := ih (by simp) fun c hc => h c (List.mem_cons_of_mem a hc)
      refine ⟨.next d .none gap rest, ?_, ?_⟩
      · rw [List.map_cons, List.map_cons, List.intercalate_cons_cons, ← List.map_cons, ← ht,
          Listing.text, htext, List.append_assoc]
        rfl
      · rw [declarations, List.map_cons, hd, hcolumn, ← List.map_cons]

end Listing

/-! ## Whole declarations -/

structure Layout where
  heading : Heading
  name : Text
  whole : leadingName? name = some (name, [])
  beforeList : SpaceRun
  opening : SpaceRun
  columns : Listing
  closing : SpaceRun

namespace Layout

variable (l : Layout)

def body : Text := l.opening.1 ++ (l.columns.text ++ l.closing.1)

def text : Text := l.heading.text ++ (l.name ++ (l.beforeList.1 ++ '(' :: (l.body ++ [')'])))

def table : Table :=
  { name := l.name, ifNotExists := l.heading.guard.isSome,
    columns := l.columns.declarations.map Declaration.column }

def rendered : Text :=
  "CREATE TABLE " ++ (if l.heading.guard.isSome then "IF NOT EXISTS " else "") ++ l.name ++
    " (\n    " ++
    List.intercalate ",\n    ".toList (l.columns.declarations.map Declaration.rendered) ++ "\n)"

theorem render_table : l.table.render = l.rendered := by
  have columns : l.table.columns.map Column.render =
      l.columns.declarations.map Declaration.rendered := by
    simp only [table, List.map_map, Function.comp_def, Declaration.render_column]
  unfold Table.render rendered
  rw [columns, table]

theorem text_append (tail : Text) :
    l.text ++ tail =
      l.heading.text ++ (l.name ++ (l.beforeList.1 ++ '(' :: (l.body ++ ')' :: tail))) := by
  simp [text]

/-- A layout is read as its table, whatever comes after the column list. -/
theorem ofText?_text (tail : Text) : Table.ofText? (l.text ++ tail) = some l.table := by
  have isName : IsName l.name := leadingName?_eq_self_iff.mp l.whole
  have balanced : Balanced l.body := l.columns.balanced_text l.opening l.closing
  have cut : trimStart (l.beforeList.1 ++ '(' :: (l.body ++ ')' :: tail)) =
      '(' :: (l.body ++ ')' :: tail) :=
    trimStart_append l.beforeList.all (by simp; decide)
  have columns : ColumnList.columns l.body = l.columns.declarations.map Declaration.column :=
    l.columns.columns_text l.opening l.closing
  have hne : l.columns.declarations ≠ [] := by
    cases l.columns <;> simp [Listing.declarations]
  rw [text_append, Table.ofText?, Outline.ofText?, l.heading.header?_text isName]
  simp [cut, group?_of_balanced balanced, columns, hne, table]

theorem getLast?_text : l.text.getLast? = some ')' := by
  simp only [text, ← List.cons_append, ← List.append_assoc]
  exact List.getLast?_concat

theorem text_ne_nil : l.text ≠ [] := by
  intro he
  have last := l.getLast?_text
  rw [he] at last
  contradiction

theorem trimmed_text : Trimmed l.text := by
  constructor
  · exact l.heading.head?_text _
  · intro c hc
    rw [getLast?_text] at hc
    rw [← Option.some.inj hc]
    decide

theorem kind_text (tail : Text) : Kind.ofText (l.text ++ tail) = .createTable := by
  rw [text_append]
  exact l.heading.kind_text _

theorem compilation_text {raw lead tail : Text} (hlead : ∀ c ∈ lead, isSpace c = true)
    (hraw : Comment.remove raw = lead ++ (l.text ++ tail)) :
    Compilation.ofText raw = ⟨l.rendered, .createTable, .adapted⟩ := by
  have statement : Statement.ofText raw = ⟨l.text ++ trimEnd tail, .createTable⟩ := by
    rw [Statement.ofText, hraw, trim_append_right hlead l.text_ne_nil l.trimmed_text, l.kind_text]
  simp [Compilation.ofText, statement, Statement.adapt, l.ofText?_text, l.render_table]

theorem remove_text_append (hl : ¬ ['-', '-'] <:+: l.text) (hb : ¬ ['/', '*'] <:+: l.text)
    (tail : Text) : ∃ rest, Comment.remove (l.text ++ tail) = l.text ++ rest := by
  refine ⟨_, Comment.removeAfter_append hl hb ?_ tail⟩
  intro c hc
  rw [getLast?_text] at hc
  rw [← Option.some.inj hc]
  decide

/-- The compilation of a layout is its table in canonical form.  Its comments may stand
anywhere, as long as the layout is what their removal leaves in front of a tail, and a
layout without comment marks is compiled so whatever comes after it. -/
theorem compilation_of_layout :
    (∀ raw lead tail : Text, (∀ c ∈ lead, isSpace c = true) →
        Comment.remove raw = lead ++ (l.text ++ tail) →
        Compilation.ofText raw = ⟨l.rendered, .createTable, .adapted⟩) ∧
      (¬ ['-', '-'] <:+: l.text → ¬ ['/', '*'] <:+: l.text → ∀ tail : Text,
        Compilation.ofText (l.text ++ tail) = ⟨l.rendered, .createTable, .adapted⟩) := by
  constructor
  · intro raw lead tail hlead hraw
    exact l.compilation_text hlead hraw
  · intro hl hb tail
    obtain ⟨rest, hrest⟩ := l.remove_text_append hl hb tail
    have whole : Comment.remove (l.text ++ tail) = [] ++ (l.text ++ rest) := hrest
    exact l.compilation_text (by simp) whole

def notes : Layout where
  heading :=
    { create := ⟨"Create".toList, by decide +kernel⟩, afterCreate := ⟨['\t', ' '], by decide⟩
      table := ⟨"tablE".toList, by decide +kernel⟩, afterTable := .one
      guard := none }
  name := "notes"
  whole := by decide +kernel
  beforeList := .none
  opening := ⟨['\n'], by decide⟩
  columns := .next
    { name := "id", whole := by decide +kernel, bracketed := fun h => absurd h (by decide)
      gap := .one
      type := "INT", type_ne := by decide, type_word := by decide +kernel
      isType := by decide +kernel
      no_clause := by decide +kernel, no_unique := by decide +kernel
      arguments := some { space := .none, inside := "11", balanced := ⟨by decide, by decide⟩ }
      phrases := [⟨.one, by decide, "primary", by decide +kernel⟩,
        ⟨⟨[' ', ' '], by decide⟩, by decide, "Key", by decide +kernel⟩] }
    .none .one
    (.last
      { name := "\x60at\x60", whole := by decide +kernel, bracketed := fun h => absurd h (by decide)
        gap := .one
        type := "datetime", type_ne := by decide, type_word := by decide +kernel
        isType := by decide +kernel
        no_clause := by decide +kernel, no_unique := by decide +kernel
        arguments := none
        phrases := [] })
  closing := .one

theorem compilation_notes :
    Compilation.ofText
        "Create\t tablE notes(\nid INT(11) primary  Key, \x60at\x60 datetime ) -- all of them" =
      ⟨"CREATE TABLE notes (\n    id INTEGER PRIMARY KEY,\n    \x60at\x60 TEXT\n)", .createTable,
        .adapted⟩ := by
  have text :
      "Create\t tablE notes(\nid INT(11) primary  Key, \x60at\x60 datetime ) -- all of them" =
        notes.text ++ " -- all of them".toList := by
    decide +kernel
  have rendered : notes.rendered =
      "CREATE TABLE notes (\n    id INTEGER PRIMARY KEY,\n    \x60at\x60 TEXT\n)".toList := by
    decide +kernel
  rw [text, ← rendered]
  exact notes.compilation_of_layout.2 (by decide +kernel) (by decide +kernel) " -- all of them"

end Layout
end Dialect
