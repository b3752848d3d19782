import Dialect.Fault
import Dialect.Toml.Document

/-!
# Settings

Settings come from a TOML file and are changed by what the command line adds.  A
change that names no value leaves the setting as it is, and verbosity can only be
turned on.
-/

namespace Dialect

/-- How results are printed. -/
inductive Format where
  | text
  | json
  deriving DecidableEq, Repr, Inhabited

namespace Format

def name : Format → Text
  | text => "text"
  | json => "json"

def ofName? (name : Text) : Option Format := [text, json].find? fun f => f.name = name

end Format

structure Settings where
  databaseUrl : Option Text
  format : Format
  verbose : Bool
  deriving DecidableEq, Repr

/-- One change to the settings. -/
inductive Change where
  | database (url : Option Text)
  | format (format : Option Format)
  | verbose (on : Bool)
  deriving DecidableEq, Repr

namespace Settings

/-- The settings where nothing is set. -/
def default : Settings := { databaseUrl := none, format := .text, verbose := false }

def change (s : Settings) : Change → Settings
  | .database url => { s with databaseUrl := url.or s.databaseUrl }
  | .format format => { s with format := format.getD s.format }
  | .verbose on => { s with verbose := s.verbose || on }

/-- The string that a field must hold if it is there. -/
def stringField? (fields : Toml.Fields) (key : Text) : Option (Option Text) :=
  match fields.get? key with
  | none => some none
  | some (.string s) => some (some s)
  | some _ => none

def booleanField? (fields : Toml.Fields) (key : Text) : Option (Option Bool) :=
  match fields.get? key with
  | none => some none
  | some (.boolean b) => some (some b)
  | some _ => none

/-- The format that a field names.  A table with one field names the format by the
field's key, if the field holds nothing. -/
def formatField? (fields : Toml.Fields) (key : Text) : Option (Option Format) :=
  match fields.get? key with
  | none => some none
  | some (.string s) => (Format.ofName? s).map some
  | some (.table _ [(name, .array [])]) => (Format.ofName? name).map some
  | some (.table _ [(name, .table _ [])]) => (Format.ofName? name).map some
  | some _ => none

/-- The settings in the fields of a document.  Fields of other names do not
count. -/
def ofFields? (fields : Toml.Fields) : Option Settings := do
  let databaseUrl ← stringField? fields "database_url"
  let format ← formatField? fields "format"
  let verbose ← booleanField? fields "verbose"
  return { databaseUrl, format := format.getD default.format,
           verbose := verbose.getD default.verbose }

def ofToml (document : Text) : Except Fault Settings :=
  match Toml.parse? document >>= ofFields? with
  | some settings => .ok settings
  | none => .error (.settings "not a settings document")

end Settings
end Dialect
