import Dialect.Text.Blank

/-!
# Faults

What can go wrong, by cause, and the one place where each cause is put into
words.
-/

namespace Dialect

inductive Fault where
  /-- The compiled statement is empty. -/
  | emptyStatement
  /-- The compiler broke off, and this is what it said. -/
  | internal (detail : Text)
  | connection (detail : Text)
  | execution (detail : Text)
  | settings (detail : Text)
  | io (detail : Text)
  deriving DecidableEq, Repr

namespace Fault

/-- The fault of a compiler that broke off, perhaps without a word. -/
def ofBreakdown (said : Option Text) : Fault :=
  internal (said.getD "unknown fault")

def message : Fault → Text
  | emptyStatement => "Empty SQL statement"
  | internal detail => "SQL compilation error: " ++ detail
  | connection detail => "Connection error: " ++ detail
  | execution detail => "Execution error: " ++ detail
  | settings detail => "Configuration error: " ++ detail
  | io detail => "IO error: " ++ detail

end Fault
end Dialect
