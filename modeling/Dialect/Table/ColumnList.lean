import Dialect.Table.Column

/-!
# Column lists

The text between the parentheses of a table declaration is cut at its outermost
commas.  Each piece declares a column or is dropped: a constraint on the table as
a whole, or a text that does not begin with a name.
-/

namespace Dialect

inductive Entry where
  | column (col : Column)
  | dropped (clause : Text)
  deriving DecidableEq, Repr

namespace Entry

/-- Whether a piece constrains the table instead of declaring a column.  `UNIQUE`
may also name a column, and then neither a parenthesis nor `KEY` or `INDEX` comes
after it. -/
def constrainsTable (piece : Text) : Bool :=
  let first := upper (leadingWord piece)
  let rest := trimStart (afterWord piece)
  let next := upper (leadingWord rest)
  ["PRIMARY", "FOREIGN", "CONSTRAINT", "CHECK"].any (fun w => w.toList = first) ||
    first = "UNIQUE" && (rest.head? = some '(' || next = "KEY" || next = "INDEX")

def ofPiece (piece : Text) : Entry :=
  if constrainsTable piece then .dropped piece
  else match Column.ofText? piece with
    | some col => .column col
    | none => .dropped piece

def column? : Entry → Option Column
  | column col => some col
  | dropped _ => none

end Entry

namespace ColumnList

/-- The entries of a column list, in order. -/
def entries (body : Text) : List Entry := (outermostPieces body).map Entry.ofPiece

/-- The columns of a column list, in order. -/
def columns (body : Text) : List Column := (entries body).filterMap Entry.column?

end ColumnList

end Dialect
