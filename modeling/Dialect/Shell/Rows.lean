import Dialect.Json

/-!
# Rows

What a database gives back: rows of values by their storage class, and the rows that
describe the columns of a table.  A result set has the columns of its first row, so
without rows it has none.
-/

namespace Dialect

/-- A value of a row, by its storage class. -/
inductive Value where
  | null
  | integer (n : Int)
  /-- The shortest numeral of a real, if the real is finite. -/
  | real (numeral : Option Text)
  /-- The characters of a text, if its bytes are valid UTF-8. -/
  | text (s : Option Text)
  | blob (bytes : List UInt8)
  deriving DecidableEq, Repr

/-- A real that is not finite and a text that is not valid UTF-8 are printed like a
missing value. -/
def Value.json : Value → Json
  | null => .null
  | integer n => .ofInt n
  | real numeral => numeral.elim .null .number
  | text s => .ofOption s
  | blob bytes => .list (bytes.map fun byte => .ofInt byte.toNat)

structure Row where
  columns : List Text
  values : List Value
  deriving DecidableEq, Repr

structure ResultSet where
  columns : List Text
  rows : List (List Json)

def ResultSet.ofRows (rows : List Row) : ResultSet where
  columns := (rows.head?.map Row.columns).getD []
  rows := rows.map fun row => row.values.map Value.json

/-- What a statement came to. -/
inductive Answer where
  | rows (set : ResultSet)
  | affected (count : Nat)

/-- What a database knows of a column, with a flag and a place in the primary key that
are zero when the column has neither. -/
structure ColumnRow where
  position : Int
  name : Text
  type : Text
  notNull : Int
  defaultValue : Option Text
  primaryKey : Int
  deriving DecidableEq, Repr

structure ColumnInfo where
  position : Int
  name : Text
  type : Text
  notNull : Bool
  defaultValue : Option Text
  primaryKey : Bool
  deriving DecidableEq, Repr

def ColumnInfo.ofRow (row : ColumnRow) : ColumnInfo where
  position := row.position
  name := row.name
  type := row.type
  notNull := row.notNull ≠ 0
  defaultValue := row.defaultValue
  primaryKey := 0 < row.primaryKey

end Dialect
