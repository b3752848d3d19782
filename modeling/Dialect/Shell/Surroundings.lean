import Dialect.Shell.Arguments
import Dialect.Shell.Files

/-!
# Surroundings

What a command finds around it, and what it takes from there: the settings it runs
with and the text of its statement.
-/

namespace Dialect

structure Surroundings where
  stdin : Text
  files : Files
  /-- The directory of the user's own settings. -/
  userDirectory : Option Text
  /-- The database that the environment names. -/
  database : Option Text
  /-- Files that are there and cannot be read, each with the reason. -/
  unreadable : List (Text × Text) := []
  /-- How a settings document is read. -/
  readDocument : Text → Except Fault Settings := Settings.ofToml

namespace Surroundings

/-- The content of the file at a path, or why it cannot be had. -/
def read (world : Surroundings) (path : Text) : Except Text Text :=
  match world.unreadable.lookup path with
  | some reason => .error reason
  | none => (world.files.read path).mapError ReadFault.message

/-- Whether a file is at a path, readable or not. -/
def hasFile (world : Surroundings) (path : Text) : Bool :=
  (world.unreadable.lookup path).isSome || (world.files.read path).toBool

end Surroundings

namespace Settings

/-- The places of a settings file, in the order in which they are tried. -/
def places (userDirectory : Option Text) : List Text :=
  let own := userDirectory.map fun directory => directory ++ "/liteql/config.toml".toList
  "liteql.toml".toList :: own.toList

def ofFile (world : Surroundings) (path : Text) : Except Fault Settings :=
  match world.read path with
  | .ok document => world.readDocument document
  | .error reason => .error (.io reason)

/-- The settings of the file that is asked for.  When none is asked for, those of
the first settings file that is there, and where there is none, nothing set. -/
def base (world : Surroundings) (asked : Option Text) : Except Fault Settings :=
  match asked with
  | some path => ofFile world path
  | none =>
    match (places world.userDirectory).find? fun path => world.hasFile path with
    | some path => ofFile world path
    | none => .ok default

/-- The settings that a command runs with.  The options count more than the
environment, and the environment more than the file. -/
def resolve (world : Surroundings) (flags : Flags) : Except Fault Settings :=
  (base world flags.config).map fun settings =>
    [.database (flags.database.or world.database), .format flags.format,
      .verbose flags.verbose].foldl change settings

end Settings

namespace Source

/-- The text of a statement.  A file counts more than a text, and a hyphen in the
place of either stands for standard input. -/
def read (world : Surroundings) (source : Source) : Except Text Text :=
  match source.file, source.sql with
  | some path, _ =>
    if path = "-" then .ok world.stdin
    else (world.read path).mapError fun reason => "reading " ++ path ++ ": " ++ reason
  | none, some sql => .ok (if sql = "-" then world.stdin else sql)
  | none, none => .error "No SQL given. Pass it as an argument, with --file, or `-` for stdin"

end Source
end Dialect
