import Dialect.Text.Blank

/-!
# TOML values

A document is a table.  Each table below it remembers how it came about, because
that decides what may still be added to it.  Numbers with a fraction and dates are
kept as they are written.
-/

namespace Dialect
namespace Toml

/-- How a table came about. -/
inductive Origin where
  /-- A header named it. -/
  | header
  /-- A header named something inside it. -/
  | implied
  /-- A dotted key named something inside it. -/
  | dotted
  /-- It is written in braces. -/
  | inline
  deriving DecidableEq, Repr

inductive Value where
  | string (s : Text)
  | boolean (b : Bool)
  | integer (n : Int)
  | float (written : Text)
  | moment (written : Text)
  | array (values : List Value)
  | table (origin : Origin) (fields : List (Text × Value))
  /-- An array of tables, each begun by a header.  Only the latest can still
  grow. -/
  | tables (earlier : List (List (Text × Value))) (latest : List (Text × Value))

/-- The fields of a table in the order in which they are named. -/
abbrev Fields := List (Text × Value)

namespace Fields

def get? (fields : Fields) (key : Text) : Option Value :=
  (fields.find? fun field => field.1 = key).map Prod.snd

/-- Put a value in the place of the one that a key has. -/
def replace (fields : Fields) (key : Text) (value : Value) : Fields :=
  fields.map fun field => if field.1 = key then (key, value) else field

/-- Change the table that a path of keys leads to, given how it came about.  Keys
on the way that name nothing yet become tables.  Dotted keys do not lead into a
table that has a header, and nothing leads into a table in braces. -/
def update? (viaDots : Bool) (change : Origin → Fields → Option Fields) :
    List Text → Origin → Fields → Option Fields
  | [], origin, fields => change origin fields
  | key :: path, _, fields =>
    match fields.get? key with
    | none => do
      let origin := if viaDots then .dotted else .implied
      let inner ← update? viaDots change path origin []
      return fields ++ [(key, .table origin inner)]
    | some (.table origin inner) => do
      if origin = .inline ∨ viaDots ∧ origin = .header then none
      let inner ← update? viaDots change path origin inner
      return fields.replace key (.table origin inner)
    | some (.tables earlier latest) => do
      let latest ← update? viaDots change path .header latest
      return fields.replace key (.tables earlier latest)
    | some _ => none

/-- Give a new key its value, below a dotted path that may be empty. -/
def assign? (path : List Text) (key : Text) (value : Value) (fields : Fields) :
    Option Fields :=
  let change (origin : Origin) (fields : Fields) : Option Fields :=
    if ¬ path.isEmpty ∧ origin ≠ .dotted then none
    else if (fields.get? key).isSome then none
    else some (fields ++ [(key, value)])
  update? true change path .header fields

/-- Begin the table that a header names. -/
def openTable? (path : List Text) (key : Text) (fields : Fields) : Option Fields :=
  let change (_ : Origin) (fields : Fields) : Option Fields :=
    match fields.get? key with
    | none => some (fields ++ [(key, .table .header [])])
    | some (.table .implied inner) => some (fields.replace key (.table .header inner))
    | some _ => none
  update? false change path .header fields

/-- Begin one more table in the array of tables that a header names. -/
def openItem? (path : List Text) (key : Text) (fields : Fields) : Option Fields :=
  let change (_ : Origin) (fields : Fields) : Option Fields :=
    match fields.get? key with
    | none => some (fields ++ [(key, .tables [] [])])
    | some (.tables earlier latest) =>
      some (fields.replace key (.tables (earlier ++ [latest]) []))
    | some _ => none
  update? false change path .header fields

end Fields
end Toml
end Dialect
