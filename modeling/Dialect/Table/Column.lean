import Dialect.Name
import Dialect.Nesting
import Dialect.StorageType
import Dialect.Table.Constraint

/-!
# Columns

A column declaration is a name, then perhaps a type with arguments in
parentheses, then the rest of the text, in which only constraint words count.  A
column is written back with its storage type and with those constraints that
SQLite takes from it, in a fixed order.
-/

namespace Dialect

structure Column where
  /-- As written, quotes included. -/
  name : Text
  /-- As written, without arguments, and empty when the declaration has none. -/
  declaredType : Text
  /-- In the order in which they are first seen. -/
  constraints : List Constraint
  deriving DecidableEq, Repr

namespace Column

/-- The words that begin a constraint, so that they are no type. -/
def nonTypeWords : List String :=
  ["PRIMARY", "NOT", "NULL", "UNIQUE", "AUTO_INCREMENT", "AUTOINCREMENT", "DEFAULT",
   "REFERENCES", "CHECK", "CONSTRAINT", "COLLATE"]

def isNonTypeWord (word : Text) : Bool :=
  nonTypeWords.any fun w => w.toList = upper word

/-- The text after an argument list in parentheses, or all of it when none
begins it. -/
def afterArguments (s : Text) : Text :=
  match group? (trimStart s) with
  | some (_, rest) => rest
  | none => s

/-- The type that begins a text, and the text after its arguments. -/
def type? (s : Text) : Option (Text × Text) :=
  let word := leadingWord s
  if word.isEmpty || isNonTypeWord word then none
  else some (word, afterArguments (afterWord s))

/-- The column that a text declares, if the text begins with a name. -/
def ofText? (declaration : Text) : Option Column := do
  let (name, afterName) ← leadingName? declaration
  let rest := skipBlanks afterName
  let (declaredType, rest) := (type? rest).getD ([], rest)
  return { name, declaredType, constraints := Constraint.collect rest }

/-- Both `PRIMARY` and `KEY` are there. -/
def isPrimaryKey (col : Column) : Bool :=
  col.constraints.contains .primary && col.constraints.contains .key

/-- Both `NOT` and `NULL` are there. -/
def isNotNull (col : Column) : Bool :=
  col.constraints.contains .not && col.constraints.contains .null

def isUnique (col : Column) : Bool := col.constraints.contains .unique

def storageType (col : Column) : StorageType := StorageType.ofDeclared col.declaredType

/-- The declaration that SQLite takes.  Automatic increments are left out, because
an integer primary key has them already. -/
def render (col : Column) : Text :=
  col.name ++ [' '] ++ col.storageType.name ++
    (if col.isPrimaryKey then " PRIMARY KEY" else "") ++
    (if col.isNotNull then " NOT NULL" else "") ++
    (if col.isUnique then " UNIQUE" else "")

end Column
end Dialect
