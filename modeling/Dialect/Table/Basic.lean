import Dialect.Statement
import Dialect.Table.ColumnList

/-!
# Table declarations

A table declaration is `CREATE TABLE`, perhaps `IF NOT EXISTS`, a name and a
column list in parentheses.  What comes after the list does not count.
-/

namespace Dialect

/-- A table declaration whose column list is not read yet. -/
structure Outline where
  name : Text
  ifNotExists : Bool
  body : Text
  deriving DecidableEq, Repr

namespace Outline

/-- The text after `IF NOT EXISTS` and the blanks behind it. -/
def afterIfNotExists? (s : Text) : Option Text := do
  let afterIf ← afterBlanks? (← afterKeyword? "IF" s)
  let afterNot ← afterBlanks? (← afterKeyword? "NOT" afterIf)
  afterBlanks? (← afterKeyword? "EXISTS" afterNot)

/-- The flag and the name of a declaration, and the text after the name. -/
def header? (s : Text) : Option (Bool × Text × Text) := do
  let rest ← afterBlanks? (← afterCreateTable? s)
  match afterIfNotExists? rest with
  | some rest => (leadingName? rest).map (true, ·)
  | none => (leadingName? rest).map (false, ·)

def ofText? (s : Text) : Option Outline := do
  let (ifNotExists, name, rest) ← header? s
  let (body, _) ← group? (trimStart rest)
  return { name, ifNotExists, body }

end Outline

structure Table where
  name : Text
  ifNotExists : Bool
  columns : List Column
  deriving DecidableEq, Repr

namespace Table

/-- The table that a text without comments declares.  A table has a column. -/
def ofText? (s : Text) : Option Table := do
  let outline ← Outline.ofText? s
  let columns := ColumnList.columns outline.body
  if columns.isEmpty then none
  else some { name := outline.name, ifNotExists := outline.ifNotExists, columns }

/-- The declaration with each column on its own line. -/
def render (t : Table) : Text :=
  "CREATE TABLE " ++ (if t.ifNotExists then "IF NOT EXISTS " else "") ++ t.name ++ " (\n    " ++
    List.intercalate ",\n    ".toList (t.columns.map Column.render) ++ "\n)"

end Table
end Dialect
