import Dialect.Proofs.Offset.Nesting
import Dialect.Table.Basic

/-!
# Table declarations at byte offsets

The parts of a table declaration that are cut out at byte offsets are its column list,
the pieces of the list, the arguments of a type and the first word of a piece.  Names,
keywords and blanks are read off the front of a text, and what a reading leaves is the end
of the text, so that no offset is needed.
-/

namespace Dialect
namespace Offset

/-- The body of a declaration is the inside of the group behind its name. -/
def outline? (s : String) : Except SliceFault (Option Outline) :=
  match Outline.header? s.toList with
  | none => return none
  | some (ifNotExists, name, rest) => do
    let trimmed := String.ofList (trimStart rest)
    if trimmed.toList.head? ≠ some '(' then return none
    match matchingClose? trimmed with
    | none => return none
    | some close => return some { name, ifNotExists, body := (← slice trimmed 1 close).toList }

/-- The text after an argument list in parentheses, or all of it. -/
def afterArguments (s : String) : Except SliceFault String := do
  let trimmed := String.ofList (trimStart s.toList)
  if trimmed.toList.head? ≠ some '(' then return s
  match matchingClose? trimmed with
  | none => return s
  | some close => sliceFrom trimmed (close + 1)

def constrainsTable (piece : String) : Except SliceFault Bool := do
  let first := upper (← sliceTo piece (wordEnd piece)).toList
  let rest := trimStart (← sliceFrom piece (wordEnd piece)).toList
  let next := upper (leadingWord rest)
  return ["PRIMARY", "FOREIGN", "CONSTRAINT", "CHECK"].any (fun w => w.toList = first) ||
    first = "UNIQUE" && (rest.head? = some '(' || next = "KEY" || next = "INDEX")

def type? (s : Text) : Except SliceFault (Option (Text × Text)) := do
  let word := leadingWord s
  if word.isEmpty || Column.isNonTypeWord word then return none
  return some (word, (← afterArguments (String.ofList (afterWord s))).toList)

def column? (declaration : String) : Except SliceFault (Option Column) :=
  match leadingName? declaration.toList with
  | none => return none
  | some (name, afterName) => do
    let rest := skipBlanks afterName
    let (declaredType, rest) := (← type? rest).getD ([], rest)
    return some { name, declaredType, constraints := Constraint.collect rest }

def entry (piece : String) : Except SliceFault Entry := do
  if ← constrainsTable piece then return .dropped piece.toList
  match ← column? piece with
  | some col => return .column col
  | none => return .dropped piece.toList

def columns (body : String) : Except SliceFault (List Column) := do
  return (← (← outermostPieces body).mapM entry).filterMap Entry.column?

def table? (s : String) : Except SliceFault (Option Table) := do
  let some outline ← outline? s | return none
  let columns ← columns (String.ofList outline.body)
  if columns.isEmpty then return none
  return some { name := outline.name, ifNotExists := outline.ifNotExists, columns }

theorem afterArguments_eq (s : String) :
    afterArguments s = .ok (String.ofList (Column.afterArguments s.toList)) := by
  unfold afterArguments Column.afterArguments
  by_cases h : (trimStart s.toList).head? = some '('
  · obtain ⟨none, group⟩ | ⟨close, inside, rest, found, group, _, after⟩ :=
      matchingClose?_cases (s := String.ofList (trimStart s.toList)) (by simpa using h)
    · rw [String.toList_ofList] at group
      simp [h, none, group]
    · rw [String.toList_ofList] at group
      simp [h, found, group, after]
  · simp [h, group?_eq_none_of_head h]

theorem outline?_eq (s : String) : outline? s = .ok (Outline.ofText? s.toList) := by
  unfold outline? Outline.ofText?
  cases Outline.header? s.toList with
  | none => rfl
  | some header =>
    obtain ⟨ifNotExists, name, rest⟩ := header
    by_cases h : (trimStart rest).head? = some '('
    · obtain ⟨none, group⟩ | ⟨close, inside, after, found, group, body, _⟩ :=
        matchingClose?_cases (s := String.ofList (trimStart rest)) (by simpa using h)
      · rw [String.toList_ofList] at group
        simp [h, none, group]
      · rw [String.toList_ofList] at group
        simp [h, found, group, body]
    · simp [h, group?_eq_none_of_head h]

theorem constrainsTable_eq (piece : String) :
    constrainsTable piece = .ok (Entry.constrainsTable piece.toList) := by
  simp only [constrainsTable, sliceTo_wordEnd, sliceFrom_wordEnd, ok_bind, String.toList_ofList]
  rfl

theorem type?_eq (s : Text) : type? s = .ok (Column.type? s) := by
  simp only [type?, afterArguments_eq, ok_bind, pure_eq_ok, String.toList_ofList, Column.type?]
  split <;> rfl

theorem column?_eq (declaration : String) :
    column? declaration = .ok (Column.ofText? declaration.toList) := by
  unfold column? Column.ofText?
  cases leadingName? declaration.toList with
  | none => rfl
  | some name => simp [type?_eq]

theorem entry_eq (piece : String) : entry piece = .ok (Entry.ofPiece piece.toList) := by
  unfold entry Entry.ofPiece
  rw [constrainsTable_eq, column?_eq]
  cases Entry.constrainsTable piece.toList with
  | true => rfl
  | false => cases Column.ofText? piece.toList <;> rfl

theorem columns_eq (body : String) : columns body = .ok (ColumnList.columns body.toList) := by
  rw [columns, outermostPieces_eq, ok_bind, mapM_ok entry_eq, ok_bind, List.map_map, pure_eq_ok,
    ColumnList.columns, ColumnList.entries]
  simp only [Function.comp_def, String.toList_ofList]

theorem table?_eq (s : String) : table? s = .ok (Table.ofText? s.toList) := by
  unfold table? Table.ofText?
  rw [outline?_eq]
  cases Outline.ofText? s.toList with
  | none => rfl
  | some outline =>
    simp only [ok_bind, columns_eq, String.toList_ofList, Option.bind_eq_bind, Option.bind_some]
    split <;> rfl

end Offset
end Dialect
