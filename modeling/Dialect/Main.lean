import Dialect.Shell.Session

/-!
# The command line program

Reads what a session may need, runs the session and prints its transcript.
-/

namespace Dialect
namespace Program

/-- The content of a file, or why it cannot be read, if there is a file. -/
def readListed (path : Text) : IO (Option (Text × Except Text Text)) := do
  try
    let content ← IO.FS.readFile (String.ofList path)
    return some (path, .ok content.toList)
  catch
    | .noFileOrDirectory .. | .inappropriateType .. => return none
    | fault => return some (path, .error fault.toString.toList)

/-- The directory that holds the user's own settings of every program. -/
def userDirectory : IO (Option Text) := do
  match ← IO.getEnv "XDG_CONFIG_HOME", ← IO.getEnv "HOME" with
  | some directory, home =>
    if directory.startsWith "/" then return some directory.toList
    else return home.map fun home => (home ++ "/.config").toList
  | none, home => return home.map fun home => (home ++ "/.config").toList

end Program
end Dialect

open Dialect

def main (arguments : List String) : IO UInt32 := do
  let request := Arguments.request (arguments.map String.toList)
  let own ← Program.userDirectory
  let listed ← (Session.paths own request).filterMapM Program.readListed
  let contents := listed.filterMap fun (path, found) => found.toOption.map (path, ·)
  let unreadable := listed.filterMap fun (path, found) =>
    match found with
    | .ok _ => none
    | .error reason => some (path, reason)
  let stdin ← if Session.readsStdin request then (← IO.getStdin).readToEnd else pure ""
  let database ← IO.getEnv "LITEQL_DATABASE_URL"
  let world : Surroundings :=
    { stdin := stdin.toList, files := { contents }, userDirectory := own,
      database := database.map String.toList, unreadable, readDocument := Settings.ofToml }
  let transcript := Session.ofRequest Executor.scratch world request
  IO.print (String.ofList transcript.stdout)
  IO.eprint (String.ofList transcript.stderr)
  return transcript.code.toUInt32
