import Dialect.Clock
import Dialect.Fault
import Dialect.Table.Basic

/-!
# Compilation

A table declaration is read and written back in SQLite's words, or kept when its
column list cannot be found.  An insertion passes as it stands.  In every other
statement the clock calls are replaced.  Compiling never fails.  An empty text
compiles to an empty statement, which is refused only where a statement is needed.
-/

namespace Dialect

/-- What was done to a statement. -/
inductive Treatment where
  | adapted
  | passed
  /-- A table declaration that could not be read, and needs a look by hand. -/
  | kept
  deriving DecidableEq, Repr

namespace Treatment

def name : Treatment → Text
  | adapted => "rewritten"
  | passed => "passthrough"
  | kept => "fallback"

end Treatment

structure Compilation where
  sql : Text
  kind : Kind
  treatment : Treatment
  deriving DecidableEq, Repr

/-- An insertion as SQLite takes it, which is as it stands.  An ISO 8601 date
literal is already what a text column stores for a date. -/
def passInsertion (s : Text) : Text := s

namespace Statement

/-- The text that SQLite takes for a statement, and what was done to it. -/
def adapt (s : Statement) : Text × Treatment :=
  match s.kind with
  | .createTable =>
    match Table.ofText? s.text with
    | some table => (table.render, .adapted)
    | none => (s.text, .kept)
  | .insert => (passInsertion s.text, .passed)
  | .other => (Clock.adapt s.text, .adapted)

end Statement

namespace Compilation

def ofText (raw : Text) : Compilation :=
  let statement := Statement.ofText raw
  let (sql, treatment) := statement.adapt
  { sql, kind := statement.kind, treatment }

/-- Whether nothing but space is left of the statement. -/
def isEmpty (c : Compilation) : Bool := (trim c.sql).isEmpty

/-- The compilation of a raw text, unless it is empty. -/
def ofNonemptyText (raw : Text) : Except Fault Compilation :=
  let compilation := ofText raw
  if compilation.isEmpty then .error .emptyStatement else .ok compilation

end Compilation

/-- The statement that SQLite takes for a raw text. -/
def compile (raw : Text) : Text := (Compilation.ofText raw).sql

/-- Whether a text holds a statement, and the message of the fault if it does
not. -/
structure Verdict where
  valid : Bool
  message : Option Text
  deriving DecidableEq, Repr

def Verdict.ofText (raw : Text) : Verdict :=
  match Compilation.ofNonemptyText raw with
  | .ok _ => { valid := true, message := none }
  | .error fault => { valid := false, message := some fault.message }

/-- The SQLite functions that a statement may count on, in the order in which they
are shown. -/
def knownFunctions : List String :=
  ["COUNT", "SUM", "AVG", "MIN", "MAX", "UPPER", "LOWER", "LENGTH", "SUBSTR", "datetime", "date",
   "time"]

end Dialect
