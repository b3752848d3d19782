import Dialect.Text.Word

/-!
# Storage types

SQLite stores a column as text, a real, an integer or a blob.  A declared type is
looked up by its first word, without its arguments and in any case, and a type
that is not listed is stored as text.  The name of a storage type is listed as
itself, so a compiled column compiles to itself.
-/

namespace Dialect

inductive StorageType where
  | text
  | real
  | integer
  | blob
  deriving DecidableEq, Repr

namespace StorageType

def name : StorageType → Text
  | text => "TEXT"
  | real => "REAL"
  | integer => "INTEGER"
  | blob => "BLOB"

/-- The declared types that have a storage type, by family.  Dates and times are
stored as ISO 8601 text. -/
def table : List (String × StorageType) :=
  [("VARCHAR", text), ("CHAR", text), ("NVARCHAR", text), ("NCHAR", text), ("TEXT", text),
   ("LONGTEXT", text), ("MEDIUMTEXT", text), ("TINYTEXT", text),
   ("INT", integer), ("INTEGER", integer), ("BIGINT", integer), ("SMALLINT", integer),
   ("TINYINT", integer), ("MEDIUMINT", integer), ("YEAR", integer), ("BOOLEAN", integer),
   ("BOOL", integer),
   ("DECIMAL", real), ("NUMERIC", real), ("FLOAT", real), ("DOUBLE", real), ("REAL", real),
   ("DATE", text), ("DATETIME", text), ("TIMESTAMP", text), ("TIME", text),
   ("BLOB", blob), ("LONGBLOB", blob), ("MEDIUMBLOB", blob), ("TINYBLOB", blob),
   ("BINARY", blob), ("VARBINARY", blob)]

/-- The first word of a declared type before its arguments, in capitals. -/
def baseName (declared : Text) : Text :=
  upper ((words (declared.takeWhile (· ≠ '('))).headD [])

def ofDeclared (declared : Text) : StorageType :=
  match table.find? fun entry => entry.1.toList = baseName declared with
  | some (_, type) => type
  | none => text

/-- The listed types in the order of their names. -/
def catalog : List (String × StorageType) :=
  table.mergeSort fun a b => a.1 ≤ b.1

theorem ofDeclared_name (t : StorageType) : ofDeclared t.name = t := by
  cases t <;> decide +kernel

end StorageType
end Dialect
