import Dialect.Text.Blank

/-!
# Transcripts

What a command leaves behind: its two output streams and its exit code.
-/

namespace Dialect

structure Transcript where
  code : Nat
  stdout : Text
  stderr : Text
  deriving DecidableEq, Repr

namespace Transcript

/-- A success that prints a text. -/
def print (s : Text) : Transcript := { code := 0, stdout := s, stderr := [] }

/-- A failure that is reported in one line. -/
def failure (message : Text) : Transcript :=
  { code := 1, stdout := [], stderr := "Error: " ++ message ++ "\n" }

/-- A transcript with a line on the error stream before it, if a condition
holds. -/
def withNoteIf (condition : Bool) (note : Text) (t : Transcript) : Transcript :=
  if condition then { t with stderr := note ++ ['\n'] ++ t.stderr } else t

/-- A transcript with the exit code of a failure, if a condition holds. -/
def failingIf (condition : Bool) (t : Transcript) : Transcript :=
  if condition then { t with code := 1 } else t

/-- One transcript after another, with the exit code of the second. -/
def append (t u : Transcript) : Transcript :=
  { code := u.code, stdout := t.stdout ++ u.stdout, stderr := t.stderr ++ u.stderr }

instance : Append Transcript := ⟨append⟩

@[simp] theorem stdout_print (s : Text) : (print s).stdout = s := rfl

@[simp] theorem code_print (s : Text) : (print s).code = 0 := rfl

@[simp] theorem code_failingIf (condition : Bool) (t : Transcript) :
    (t.failingIf condition).code = if condition then 1 else t.code := by
  cases condition <;> rfl

end Transcript
end Dialect
