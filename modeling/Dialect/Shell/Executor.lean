import Dialect.Shell.Rows
import Dialect.Table.Basic

/-!
# Executors

What a session asks of a database, and a scratch database in memory that takes
table declarations and nothing else.
-/

namespace Dialect

/-- What opens databases and runs compiled statements on them.  A call that fails
does so in the executor's own words. -/
structure Executor where
  Connection : Type
  connect : Text → Except Text Connection
  /-- Run a statement for its rows. -/
  fetch : Connection → Text → Connection × Except Text (List Row)
  /-- Run a statement for the number of rows that it affects. -/
  execute : Connection → Text → Connection × Except Text Nat
  /-- The names of the tables, sorted. -/
  tableNames : Connection → Except Text (List Text)
  /-- The columns of a table, of which there are none when there is no such table. -/
  tableColumns : Connection → Text → Except Text (List ColumnRow)

namespace Executor

/-- A table's name without its quotes. -/
def unquoted (name : Text) : Text :=
  match name with
  | '\x22' :: inner | '\x60' :: inner | '[' :: inner => inner.dropLast
  | _ => name

/-- Add a table to the declared ones, which are told apart by their names in
capitals. -/
def declare (declared : List Text) (sql : Text) : List Text × Except Text Nat :=
  match Table.ofText? sql with
  | none => (declared, .error "not a table declaration")
  | some table =>
    let name := unquoted table.name
    if declared.all fun other => upper other ≠ upper name then (name :: declared, .ok 0)
    else if table.ifNotExists then (declared, .ok 0)
    else (declared, .error ("table " ++ table.name ++ " already exists"))

/-- A database in memory that is empty when it is connected to. -/
def scratch : Executor where
  Connection := List Text
  connect url :=
    if url = "sqlite::memory:" then .ok [] else .error "unable to open database file"
  fetch declared _ := (declared, .error "not a table declaration")
  execute := declare
  tableNames declared := .ok (declared.mergeSort fun a b => String.ofList a ≤ String.ofList b)
  tableColumns _ _ := .ok []

end Executor
end Dialect
