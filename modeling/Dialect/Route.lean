import Dialect.Compilation

/-!
# Routes

A statement either produces rows or affects some.  Its first word decides which.
-/

namespace Dialect

inductive Route where
  | rows
  | affected
  deriving DecidableEq, Repr

namespace Route

/-- The words that begin a statement with a result set. -/
def rowWords : List String := ["SELECT", "WITH", "PRAGMA", "VALUES", "EXPLAIN"]

/-- The route of a compiled statement. -/
def ofSql (sql : Text) : Route :=
  let first := upper (leadingWord (trimStart sql))
  if rowWords.any fun w => w.toList = first then rows else affected

/-- The route of a raw text, unless it compiles to nothing. -/
def ofText (raw : Text) : Except Fault Route :=
  (Compilation.ofNonemptyText raw).map fun c => ofSql c.sql

end Route
end Dialect
