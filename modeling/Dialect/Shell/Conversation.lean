import Dialect.Shell.Report
import Dialect.Shell.Transcript

/-!
# Conversations

A conversation answers the lines of its input one after another, until a line that
asks to leave.  A statement may change the state that the next one meets, and
without a database there is no state.
-/

namespace Dialect
namespace Conversation

/-- What a line asks for. -/
inductive Entered where
  | nothing
  | leave
  | types
  | statement (text : Text)
  deriving DecidableEq, Repr

def leavingWords : List String := [".exit", ".quit", "exit", "quit"]

def Entered.ofLine (line : Text) : Entered :=
  let text := trim line
  if text = "" then .nothing
  else if leavingWords.any fun word => word.toList = text then .leave
  else if text = ".types" then .types
  else .statement text

/-- The lines of a text without the line feeds that end them. -/
def lines (s : Text) : List Text :=
  let pieces := s.splitOn '\n'
  if pieces.getLast? = some [] then pieces.dropLast else pieces

/-- The answers to some lines, beginning with a state. -/
def answers {σ : Type} (format : Format) (answer : σ → Text → σ × Transcript) (state : σ) :
    List Text → Transcript
  | [] => .print []
  | line :: rest =>
    match Entered.ofLine line with
    | .nothing => answers format answer state rest
    | .leave => .print []
    | .types => .print (Report.types format) ++ answers format answer state rest
    | .statement text =>
      let (state, transcript) := answer state text
      transcript ++ answers format answer state rest

def banner (executes : Bool) : Text :=
  "liteql interactive shell\n" ++
    (if executes then "Statements are compiled and executed."
      else "No database configured; statements are compiled only.") ++
    "\n  .exit  - Exit the REPL\n  .types - Show supported types\n\n"

/-- The answer to a statement without a database. -/
def compileAnswer (state : Unit) (text : Text) : Unit × Transcript :=
  (state, .print (Report.line ("→ " ++ compile text)))

/-- A conversation without a database. -/
def compiling (format : Format) (ls : List Text) : Transcript :=
  .print (banner false) ++ answers format compileAnswer () ls

end Conversation
end Dialect
