import Dialect.Issue
import Dialect.Settings
import Dialect.Shell.Rows

/-!
# Reports

The text of each result in either format, with the line feed that ends it.  Rows are
laid out as a table, each column as wide as the widest of its name and its cells.
-/

namespace Dialect
namespace Report

def line (s : Text) : Text := s ++ ['\n']

def lines (ls : List Text) : Text := ls.flatMap line

def json (j : Json) : Text := line j.pretty

def compilation (format : Format) (c : Compilation) : Text :=
  match format with
  | .text => line c.sql
  | .json =>
    json (.object [("sql", .string c.sql), ("kind", .string c.kind.name),
      ("outcome", .string c.treatment.name)])

def verdict (format : Format) (v : Verdict) : Text :=
  match format with
  | .text => line (if v.valid then "✓ valid" else "✗ " ++ v.message.getD [])
  | .json => json (.object [("valid", .boolean v.valid), ("message", .ofOption v.message)])

def issueLine (i : Issue) : Text :=
  match i.column with
  | some column => i.level.name ++ ": [" ++ column ++ "] " ++ i.message
  | none => i.level.name ++ ": " ++ i.message

def issueObject (i : Issue) : Json :=
  .object [("level", .string i.level.name), ("column", .ofOption i.column),
    ("message", .string i.message)]

def issues (format : Format) (found : List Issue) : Text :=
  match format with
  | .text => if found.isEmpty then line "✓ No issues" else lines (found.map issueLine)
  | .json => json (.list (found.map issueObject))

/-- A row of two columns, the first of them twelve characters wide. -/
def row (first second : Text) : Text := first.rightpad 12 ' ' ++ [' '] ++ second

def types (format : Format) : Text :=
  match format with
  | .text =>
    let rows := StorageType.catalog.map fun (name, type) => row name.toList type.name
    lines (row "Declared" "SQLite" :: List.replicate 24 '─' :: rows)
  | .json =>
    json (.object (StorageType.catalog.map fun (name, type) =>
      (name.toList, .string type.name)))

def functions (format : Format) : Text :=
  match format with
  | .text => lines (knownFunctions.map String.toList)
  | .json => json (.list (knownFunctions.map fun name => .string name.toList))

/-- The text of a value in a table. -/
def cell : Json → Text
  | .null => "NULL"
  | .string s => s
  | value => value.compact

/-- Widths that a row fits in as well. -/
def widen : List Nat → List Text → List Nat
  | width :: widths, cell :: cells => max width cell.length :: widen widths cells
  | widths, _ => widths

def widths (columns : List Text) (rows : List (List Text)) : List Nat :=
  rows.foldl widen (columns.map List.length)

/-- The line of a row, with its cells filled up to their widths. -/
def tableRow (widths : List Nat) (cells : List Text) : Text :=
  List.intercalate " │ ".toList
    (List.zipWith (fun cell width => cell.rightpad width ' ') cells widths)

def separator (widths : List Nat) : Text :=
  List.intercalate "─┼─".toList (widths.map fun width => List.replicate width '─')

/-- The lines of a table: the names of its columns, a separator and the rows. -/
def tableLines (set : ResultSet) : List Text :=
  let rows := set.rows.map fun row => row.map cell
  let widths := widths set.columns rows
  [tableRow widths set.columns, separator widths] ++ rows.map (tableRow widths)

def table (set : ResultSet) : Text :=
  if set.rows.isEmpty then line "(no results)"
  else lines (tableLines set) ++ line [] ++
    line (set.rows.length.repr.toList ++ " row(s) returned".toList)

def resultSet (set : ResultSet) : Json :=
  .object [("columns", .list (set.columns.map .string)), ("rows", .list (set.rows.map .list))]

def answer (format : Format) (a : Answer) : Text :=
  match a, format with
  | .rows set, .text => table set
  | .rows set, .json => json (.object [("rows", resultSet set)])
  | .affected count, .text => line ("✓ " ++ count.repr.toList ++ " rows affected")
  | .affected count, .json => json (.object [("affected", .ofInt count)])

def columnFlags (c : ColumnInfo) : List Text :=
  [("PRIMARY KEY", c.primaryKey), ("NOT NULL", c.notNull)].filterMap fun (flag, holds) =>
    if holds then some flag.toList else none

/-- The line of a column in the description of its table. -/
def columnLine (c : ColumnInfo) : Text :=
  c.position.repr.toList.rightpad 3 ' ' ++ [' '] ++ c.name.rightpad 20 ' ' ++ [' '] ++
    c.type.rightpad 8 ' ' ++ [' '] ++ List.intercalate [' '] (columnFlags c)

def columnObject (c : ColumnInfo) : Json :=
  .object [("cid", .ofInt c.position), ("name", .string c.name), ("type", .string c.type),
    ("not_null", .boolean c.notNull), ("default", .ofOption c.defaultValue),
    ("primary_key", .boolean c.primaryKey)]

def columns (format : Format) (infos : List ColumnInfo) : Text :=
  match format with
  | .text => lines (infos.map columnLine)
  | .json => json (.list (infos.map columnObject))

end Report
end Dialect
