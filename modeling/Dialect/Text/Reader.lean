import Dialect.Text.Blank

/-!
# Readers

A reader takes something off the front of a text, or refuses it.  Two readers in
a row, or one as the alternative of another, are what the monad and its
alternative give.  A repetition stops where the reader refuses or takes nothing,
so it always ends.
-/

namespace Dialect

abbrev Reader (α : Type) := StateT Text Option α

namespace Reader

variable {α : Type}

def charIf (p : Char → Bool) : Reader Char := fun s =>
  match s with
  | c :: s => if p c then some (c, s) else none
  | [] => none

def char (c : Char) : Reader Unit := discard (charIf (· = c))

def exactly (t : Text) : Reader Unit := fun s =>
  if t.isPrefixOf s then some ((), s.drop t.length) else none

/-- The longest run of characters in a class, perhaps empty. -/
def run (p : Char → Bool) : Reader Text := fun s => some (s.takeWhile p, s.dropWhile p)

def nonemptyRun (p : Char → Bool) : Reader Text := fun s =>
  let t := s.takeWhile p
  if t.isEmpty then none else some (t, s.dropWhile p)

/-- What a function finds in an option. -/
def ofOption (a : Option α) : Reader α := fun s => a.map (·, s)

def atEnd : Reader Unit := fun s => if s.isEmpty then some ((), s) else none

/-- The items that a reader takes one after another, and the rest. -/
def manyFrom (r : Reader α) (s : Text) : List α × Text :=
  match r s with
  | some (a, rest) =>
    if rest.length < s.length then
      let (items, rest) := manyFrom r rest
      (a :: items, rest)
    else ([], s)
  | none => ([], s)
termination_by s.length

def many (r : Reader α) : Reader (List α) := fun s => some (manyFrom r s)

/-- The whole text, when a reader takes all of it. -/
def readAll? (r : Reader α) (s : Text) : Option α :=
  match r s with
  | some (a, []) => some a
  | _ => none

end Reader
end Dialect
