import Dialect.Route
import Dialect.Shell.Conversation
import Dialect.Shell.Executor
import Dialect.Shell.Surroundings

/-!
# Sessions

A command line run to its end, as a function of its words, of what surrounds it
and of the executor.  Settings are resolved first, and a settings file that cannot
be used ends every command.  Being verbose adds lines to the error stream only.
-/

namespace Dialect
namespace Session

/-- The message of a fault and of what caused it.  An input fault is its own
cause. -/
def account (f : Fault) : Text :=
  match f with
  | .io detail => f.message ++ ": " ++ detail
  | _ => f.message

/-- Go on with the text of a statement. -/
def reading (world : Surroundings) (source : Source) (next : Text → Transcript) :
    Transcript :=
  match source.read world with
  | .ok text => next text
  | .error message => .failure message

/-- Go on with the database of the settings. -/
def connecting (executor : Executor) (settings : Settings)
    (next : executor.Connection → Transcript) : Transcript :=
  match settings.databaseUrl with
  | none =>
    .failure ("No database URL. Use --database-url, set LITEQL_DATABASE_URL, or add " ++
      "database_url to liteql.toml")
  | some url =>
    .withNoteIf settings.verbose ("Connecting to: " ++ url) <|
      match executor.connect url with
      | .ok db => next db
      | .error detail => .failure (account (.connection detail))

/-- Run a compiled statement on its route, for its rows or for the number of rows that it
affects. -/
def run (executor : Executor) (db : executor.Connection) (sql : Text) :
    Route → executor.Connection × Except Text Answer
  | .rows =>
    let (db, rows) := executor.fetch db sql
    (db, rows.map fun rows => .rows (.ofRows rows))
  | .affected =>
    let (db, count) := executor.execute db sql
    (db, count.map .affected)

/-- Compile a text and execute it, unless it is empty. -/
def execute (executor : Executor) (db : executor.Connection) (text : Text) :
    executor.Connection × Except Fault Answer :=
  match Compilation.ofNonemptyText text with
  | .error fault => (db, .error fault)
  | .ok compilation =>
    let (db, answer) := run executor db compilation.sql (.ofSql compilation.sql)
    (db, answer.mapError .execution)

def overview : Text :=
  "liteql: generic SQL in, SQLite out\n\nUsage: liteql <SQL> [OPTIONS]\n\nTry: liteql --help\n"

def version : Text := "liteql 0.3.0\n"

def compiled (settings : Settings) (text : Text) : Transcript :=
  let compilation := Compilation.ofText text
  let report := Transcript.print (Report.compilation settings.format compilation)
  match settings.format with
  | .json => report
  | .text =>
    .withNoteIf settings.verbose ("Kind: " ++ compilation.kind.name) <|
      .withNoteIf (compilation.treatment = .kept)
        "⚠ Column list not found; statement returned unmodified. Review it by hand." report

def validated (settings : Settings) (text : Text) : Transcript :=
  let verdict := Verdict.ofText text
  .failingIf (! verdict.valid) (.print (Report.verdict settings.format verdict))

def linted (settings : Settings) (text : Text) : Transcript :=
  let found := issues text
  .failingIf (found.any (·.level = .error)) (.print (Report.issues settings.format found))

def executed (executor : Executor) (settings : Settings) (db : executor.Connection)
    (text : Text) : Transcript :=
  .withNoteIf settings.verbose ("Compiled: " ++ compile text) <|
    match (execute executor db text).2 with
    | .ok answer => .print (Report.answer settings.format answer)
    | .error fault => .failure (account fault)

def tableNames (executor : Executor) (db : executor.Connection) : Transcript :=
  match executor.tableNames db with
  | .ok names => .print (Report.lines names)
  | .error detail => .failure (account (.execution detail))

def tableColumns (executor : Executor) (settings : Settings) (db : executor.Connection)
    (table : Text) : Transcript :=
  match executor.tableColumns db table with
  | .ok [] => .failure ("Table '" ++ table ++ "' not found")
  | .ok rows => .print (Report.columns settings.format (rows.map .ofRow))
  | .error detail => .failure (account (.execution detail))

/-- The answer to a statement of a conversation with a database. -/
def executeAnswer (executor : Executor) (format : Format) (db : executor.Connection)
    (text : Text) : executor.Connection × Transcript :=
  let (db, answer) := execute executor db text
  (db, match answer with
    | .ok answer => .print (Report.answer format answer)
    | .error fault => .withNoteIf true ("✗ " ++ fault.message) (.print []))

/-- A conversation over the lines of standard input. -/
def conversation (executor : Executor) (settings : Settings) (stdin : Text) : Transcript :=
  let ls := Conversation.lines stdin
  if settings.databaseUrl.isNone then Conversation.compiling settings.format ls
  else
    connecting executor settings fun db =>
      .print (Conversation.banner true) ++
        Conversation.answers settings.format (executeAnswer executor settings.format) db ls

/-- The transcript of a command under settings. -/
def ofCommand (executor : Executor) (world : Surroundings) (settings : Settings) :
    Command → Transcript
  | .overview => .print overview
  | .compile source => reading world source (compiled settings)
  | .validate source => reading world source (validated settings)
  | .lint source => reading world source (linted settings)
  | .types => .print (Report.types settings.format)
  | .functions => .print (Report.functions settings.format)
  | .exec source =>
    reading world source fun text =>
      connecting executor settings fun db => executed executor settings db text
  | .tables => connecting executor settings (tableNames executor)
  | .schema table =>
    connecting executor settings fun db => tableColumns executor settings db table
  | .repl => conversation executor settings world.stdin

/-- The transcript of a request.  A misuse has exit code 2. -/
def ofRequest (executor : Executor) (world : Surroundings) : Request → Transcript
  | .version => .print version
  | .help => .print overview
  | .misuse => { code := 2, stdout := [], stderr := "error: unexpected arguments\n" }
  | .run command flags =>
    match Settings.resolve world flags with
    | .ok settings => ofCommand executor world settings command
    | .error fault => .failure ("loading config: " ++ account fault)

/-- The transcript of a command line. -/
def ofWords (executor : Executor) (world : Surroundings) (words : List Text) : Transcript :=
  ofRequest executor world (Arguments.request words)

/-- The source of a command's statement. -/
def source? : Command → Option Source
  | .compile source | .validate source | .lint source | .exec source => some source
  | _ => none

/-- Whether a request reads standard input. -/
def readsStdin : Request → Bool
  | .run .repl _ => true
  | .run command _ =>
    match source? command with
    | some { file := some path, .. } => path = "-"
    | some { sql, .. } => sql = some "-".toList
    | none => false
  | _ => false

/-- The files that a request may read. -/
def paths (userDirectory : Option Text) : Request → List Text
  | .run command flags =>
    let settings := match flags.config with
      | some path => [path]
      | none => Settings.places userDirectory
    settings ++ ((source? command).bind Source.file).toList
  | _ => []

end Session
end Dialect
