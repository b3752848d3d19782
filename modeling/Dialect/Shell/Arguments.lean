import Dialect.Settings

/-!
# Arguments

The words of a command line name a command and options.  Options may come before
or after the name of the command, and an option after it counts more than the same
option before it.  On either side an option is given at most once.  Behind `--`
every word is taken as it stands.
-/

namespace Dialect

/-- Where the text of a statement comes from. -/
structure Source where
  /-- The text itself, where `-` stands for standard input. -/
  sql : Option Text
  /-- The path of a file, where `-` stands for standard input. -/
  file : Option Text
  deriving DecidableEq, Repr

inductive Command where
  | overview
  | compile (source : Source)
  | validate (source : Source)
  | lint (source : Source)
  | types
  | functions
  | exec (source : Source)
  | tables
  | schema (table : Text)
  | repl
  deriving DecidableEq, Repr

/-- The options that every command takes. -/
structure Flags where
  format : Option Format
  verbose : Bool
  database : Option Text
  config : Option Text
  deriving DecidableEq, Repr

/-- What a command line asks for. -/
inductive Request where
  | run (command : Command) (flags : Flags)
  | version
  | help
  | misuse
  deriving DecidableEq, Repr

namespace Arguments

/-- The names that a command line may call a command by. -/
inductive Verb where
  | compile
  | validate
  | lint
  | types
  | functions
  | exec
  | tables
  | schema
  | repl
  | help
  deriving DecidableEq, Repr

namespace Verb

def name : Verb → Text
  | compile => "compile"
  | validate => "validate"
  | lint => "lint"
  | types => "types"
  | functions => "functions"
  | exec => "exec"
  | tables => "tables"
  | schema => "schema"
  | repl => "repl"
  | help => "help"

def ofName? (word : Text) : Option Verb :=
  [compile, validate, lint, types, functions, exec, tables, schema, repl, help].find?
    fun v => v.name = word

def takesSource : Verb → Bool
  | compile | validate | lint | exec => true
  | _ => false

end Verb

/-- Which words may come on one side of the command's name. -/
structure Form where
  /-- Whether the command may be named and the version asked for. -/
  isOuter : Bool
  takesFile : Bool
  takesPlainWord : Bool

namespace Form

def outer : Form := { isOuter := true, takesFile := false, takesPlainWord := true }

def ofVerb (v : Verb) : Form :=
  { isOuter := false, takesFile := v.takesSource, takesPlainWord := v.takesSource || v = .schema }

end Form

/-- The options that take a value. -/
inductive Setting where
  | format
  | database
  | config
  | file
  deriving DecidableEq, Repr

namespace Setting

def name : Setting → Text
  | format => "format"
  | database => "database-url"
  | config => "config"
  | file => "file"

def ofName? (form : Form) (name : Text) : Option Setting :=
  let offered := [format, database, config] ++ if form.takesFile then [file] else []
  offered.find? fun o => o.name = name

end Setting

/-- What the words on one side of the command's name have given so far. -/
structure Found where
  format : Option Format
  verbose : Bool
  database : Option Text
  config : Option Text
  file : Option Text
  plainWord : Option Text
  deriving DecidableEq, Repr

namespace Found

def nothing : Found :=
  { format := none, verbose := false, database := none, config := none, file := none,
    plainWord := none }

/-- Give an option its value.  It must not have one, and a path is not empty. -/
def set? (found : Found) (setting : Setting) (value : Text) : Option Found :=
  match setting with
  | .format => do
    let format ← Format.ofName? value
    if found.format.isSome then none else some { found with format := some format }
  | .database =>
    if found.database.isSome then none else some { found with database := some value }
  | .config =>
    if found.config.isSome || value.isEmpty then none else some { found with config := some value }
  | .file =>
    if found.file.isSome || value.isEmpty then none else some { found with file := some value }

def setVerbose? (found : Found) : Option Found :=
  if found.verbose then none else some { found with verbose := true }

def setPlainWord? (found : Found) (form : Form) (word : Text) : Option Found :=
  if found.plainWord.isSome || ! form.takesPlainWord then none
  else some { found with plainWord := some word }

def source (found : Found) : Source := { sql := found.plainWord, file := found.file }

end Found

/-- The shape of one word. -/
inductive Shape where
  | separator
  | long (name : Text) (value : Option Text)
  | short (letters : Text)
  | plain

def Shape.ofWord : Text → Shape
  | ['-', '-'] => .separator
  | '-' :: '-' :: s =>
    .long (s.takeWhile (· ≠ '=')) (if s.contains '=' then some ((s.dropWhile (· ≠ '=')).drop 1)
      else none)
  | ['-'] => .plain
  | '-' :: letters => .short letters
  | _ => .plain

/-- What an option word comes to. -/
inductive Step where
  | taken (found : Found)
  /-- The value of an option, which is the next word. -/
  | awaiting (found : Found) (setting : Setting)
  | version
  | help
  | misuse

namespace Step

def ofOption : Option Found → Step
  | some found => .taken found
  | none => .misuse

def ofLong (form : Form) (found : Found) (name : Text) (value : Option Text) : Step :=
  match Setting.ofName? form name, value with
  | some setting, some value => .ofOption (found.set? setting value)
  | some setting, none => .awaiting found setting
  | none, some _ => .misuse
  | none, none =>
    if name = "verbose" then .ofOption found.setVerbose?
    else if name = "help" then .help
    else if name = "version" ∧ form.isOuter then .version
    else .misuse

/-- Letters are options one after another.  What comes behind the `f` is the
format, perhaps after an equals sign. -/
def ofLetters (form : Form) (found : Found) : Text → Step
  | [] => .taken found
  | 'v' :: letters =>
    match found.setVerbose? with
    | some found => ofLetters form found letters
    | none => .misuse
  | ['f'] => .awaiting found .format
  | 'f' :: '=' :: value => .ofOption (found.set? .format value)
  | 'f' :: value => .ofOption (found.set? .format value)
  | 'h' :: _ => .help
  | 'V' :: _ => if form.isOuter then .version else .misuse
  | _ => .misuse

end Step

/-- Where the words on one side of the command's name lead. -/
inductive Side where
  | done (found : Found)
  | command (found : Found) (verb : Verb) (rest : List Text)
  | version
  | help
  | misuse

namespace Side

/-- The words behind `--`. -/
def ofPlainWords (form : Form) (found : Found) (words : List Text) : Side :=
  match words.foldlM (fun found word => found.setPlainWord? form word) found with
  | some found => .done found
  | none => .misuse

def ofWords (form : Form) (found : Found) : List Text → Side
  | [] => .done found
  | word :: rest =>
    match if form.isOuter then Verb.ofName? word else none with
    | some verb => .command found verb rest
    | none =>
      let step := match Shape.ofWord word with
        | .separator => none
        | .long name value => some (Step.ofLong form found name value)
        | .short letters => some (Step.ofLetters form found letters)
        | .plain => some (Step.ofOption (found.setPlainWord? form word))
      match step with
      | none => ofPlainWords form found rest
      | some (.taken found) => ofWords form found rest
      | some (.awaiting found setting) =>
        match rest with
        | value :: rest =>
          match Shape.ofWord value, found.set? setting value with
          | .plain, some found => ofWords form found rest
          | _, _ => .misuse
        | [] => .misuse
      | some .version => .version
      | some .help => .help
      | some .misuse => .misuse

end Side

def command? (verb : Verb) (found : Found) : Option Command :=
  match verb with
  | .compile => some (.compile found.source)
  | .validate => some (.validate found.source)
  | .lint => some (.lint found.source)
  | .types => some .types
  | .functions => some .functions
  | .exec => some (.exec found.source)
  | .tables => some .tables
  | .schema => found.plainWord.map .schema
  | .repl => some .repl
  | .help => none

/-- The options of both sides.  What the inner side does not give comes from the
outer. -/
def flags (outer inner : Found) : Flags :=
  { format := inner.format.or outer.format
    verbose := inner.verbose || outer.verbose
    database := inner.database.or outer.database
    config := inner.config.or outer.config }

/-- What the words of a command line ask for. -/
def request (words : List Text) : Request :=
  match Side.ofWords .outer .nothing words with
  | .done found =>
    let command := match found.plainWord with
      | some sql => .compile { sql := some sql, file := none }
      | none => .overview
    .run command (flags found .nothing)
  | .command _ .help _ => .help
  | .command outer verb rest =>
    match Side.ofWords (.ofVerb verb) .nothing rest with
    | .done inner =>
      match command? verb inner with
      | some command => .run command (flags outer inner)
      | none => .misuse
    | .help => .help
    | _ => .misuse
  | .version => .version
  | .help => .help
  | .misuse => .misuse

end Arguments
end Dialect
