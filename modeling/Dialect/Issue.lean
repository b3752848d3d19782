import Dialect.Calendar
import Dialect.Compilation

/-!
# Issues

An issue points at a place where the compiled statement differs from what was
written, or where what was written looks wrong.  Issues never change the compiled
statement.
-/

namespace Dialect

inductive Level where
  | error
  | warning
  | info
  deriving DecidableEq, Repr

namespace Level

def name : Level → Text
  | error => "error"
  | warning => "warning"
  | info => "info"

end Level

/-- What an issue is about. -/
inductive Finding where
  | emptyStatement
  | unclosedComment
  | unbalancedParentheses
  | columnListMissing
  | noColumns
  | clauseDropped (clause : Text)
  /-- An automatic increment on a column that is a primary key, or is not. -/
  | autoIncrementDropped (primaryKey : Bool)
  | primaryWithoutKey
  | notADate (literal : Text)
  deriving DecidableEq, Repr

namespace Finding

def level : Finding → Level
  | emptyStatement => .error
  | clauseDropped _ | autoIncrementDropped _ => .info
  | _ => .warning

def message : Finding → Text
  | emptyStatement => Fault.emptyStatement.message
  | unclosedComment => "Unterminated block comment left in statement"
  | unbalancedParentheses => "Unbalanced parentheses"
  | columnListMissing =>
    "CREATE TABLE statement missing column definitions; returned unmodified"
  | noColumns => "CREATE TABLE statement has no columns; returned unmodified"
  | clauseDropped clause => "Table-level clause dropped: " ++ clause
  | autoIncrementDropped true =>
    "AUTO_INCREMENT dropped; INTEGER PRIMARY KEY already auto-assigns"
  | autoIncrementDropped false =>
    "AUTO_INCREMENT dropped; only INTEGER PRIMARY KEY columns auto-assign"
  | primaryWithoutKey => "PRIMARY without KEY is ignored"
  | notADate literal => "'" ++ literal ++ "' is not a valid calendar date"

end Finding

/-- A finding on the statement, or on the column of a name. -/
structure Issue where
  column : Option Text
  finding : Finding
  deriving DecidableEq, Repr

namespace Issue

def level (i : Issue) : Level := i.finding.level

def message (i : Issue) : Text := i.finding.message

def onStatement (f : Finding) : Issue := { column := none, finding := f }

def onColumn (col : Column) (f : Finding) : Issue := { column := some col.name, finding := f }

end Issue

namespace Column

def issues (col : Column) : List Issue :=
  (if col.constraints.contains .autoIncrement then
    [.onColumn col (.autoIncrementDropped col.isPrimaryKey)] else []) ++
  (if col.constraints.contains .primary && ! col.constraints.contains .key then
    [.onColumn col .primaryWithoutKey] else [])

end Column

namespace Entry

def issues : Entry → List Issue
  | column col => col.issues
  | dropped clause => [.onStatement (.clauseDropped clause)]

end Entry

/-- Every other element, beginning with the first. -/
def everyOther {α : Type} : List α → List α
  | [] => []
  | [a] => [a]
  | a :: _ :: rest => a :: everyOther rest

namespace Statement

/-- The issues of a table declaration.  When it has no columns, nothing else is
said about it. -/
def tableIssues (s : Statement) : List Issue :=
  match Outline.ofText? s.text with
  | none => [.onStatement .columnListMissing]
  | some outline =>
    let entries := ColumnList.entries outline.body
    if entries.any (·.column?.isSome) then entries.flatMap Entry.issues
    else [.onStatement .noColumns]

/-- The pieces of a statement that an odd number of apostrophes stands before. -/
def literals (s : Statement) : List Text := everyOther ((s.text.splitOn '\x27').drop 1)

/-- The issues of an insertion, one for each literal that is written like a date
and is none. -/
def insertionIssues (s : Statement) : List Issue :=
  let dates := s.literals.filter Calendar.hasDateShape
  (dates.filter (! Calendar.isDateText ·)).map fun literal => .onStatement (.notADate literal)

def kindIssues (s : Statement) : List Issue :=
  match s.kind with
  | .createTable => s.tableIssues
  | .insert => s.insertionIssues
  | .other => []

end Statement

/-- The issues of a raw text, in the order in which they are reported.  An empty
statement has no other issue. -/
def issues (raw : Text) : List Issue :=
  let statement := Statement.ofText raw
  if statement.text.isEmpty then [.onStatement .emptyStatement]
  else
    (if Comment.hasUnclosed raw then [.onStatement .unclosedComment] else []) ++
    (if statement.text.count '(' ≠ statement.text.count ')' then
      [.onStatement .unbalancedParentheses] else []) ++
    statement.kindIssues

end Dialect
