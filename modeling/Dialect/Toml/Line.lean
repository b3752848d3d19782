import Dialect.Toml.Scalar

/-!
# TOML lines

A document is a list of lines.  A line begins a table, gives a key its value, or
holds nothing, and a value may go on over several lines of text.
-/

namespace Dialect
namespace Toml

inductive Line where
  | blank
  | field (path : List Text) (key : Text) (value : Value)
  | table (path : List Text) (key : Text)
  | item (path : List Text) (key : Text)

/-- Arrays and tables in braces stand at most this deep in one another, and a
dotted key has at most so many parts. -/
def maxNesting : Nat := 79

def gap : Reader Unit := discard (Reader.run isGap)

def comment : Reader Unit := do
  Reader.char '#'
  let _ ← Reader.run isTextChar

/-- What may stand between the values of an array. -/
def arrayGap : Reader Unit :=
  discard (Reader.many (discard (Reader.nonemptyRun isGap) <|> lineBreak <|> comment))

def isBareKeyChar (c : Char) : Bool := c.isAlphanum || c = '_' || c = '-'

def keyPart : Reader Text := do
  gap
  let key ← Reader.nonemptyRun isBareKeyChar <|> Quoting.basic.line <|> Quoting.literal.line
  gap
  return key

/-- A dotted key, as the path to its last part and that part. -/
def key : Reader (List Text × Text) := do
  let first ← keyPart
  let rest ← Reader.many (do Reader.char '.'; keyPart)
  let parts := first :: rest
  require (parts.length ≤ maxNesting)
  return (parts.dropLast, parts.getLastD first)

/-- A key, an equals sign and a value. -/
def keyValue (value : Reader Value) : Reader ((List Text × Text) × Value) := do
  let k ← key
  Reader.char '='
  gap
  return (k, ← value)

/-- The items of a list with commas between them, which may be empty. -/
def commaList {α : Type} (item : Reader α) : Reader (List α) :=
  (do let first ← item
      let rest ← Reader.many (do Reader.char ','; item)
      return first :: rest) <|> pure []

def array (value : Reader Value) : Reader Value := do
  Reader.char '['
  let values ← commaList (do arrayGap; let v ← value; arrayGap; return v)
  if ! values.isEmpty then let _ ← optional (Reader.char ',')
  arrayGap
  Reader.char ']'
  return .array values

def inlineTable (value : Reader Value) : Reader Value := do
  Reader.char '\x7b'
  let pairs ← commaList (do let pair ← keyValue value; gap; return pair)
  gap
  Reader.char '\x7d'
  let fields ← Reader.ofOption
    (pairs.foldlM (fun fields ((path, k), v) => Fields.assign? path k v fields) [])
  return .table .inline fields

def string : Reader Value := do
  return .string (← Quoting.basic.block <|> Quoting.basic.line <|> Quoting.literal.block <|>
    Quoting.literal.line)

/-- A value in which arrays and tables stand at most `depth` deep. -/
def value : (depth : Nat) → Reader Value
  | 0 => string <|> scalar
  | depth + 1 => string <|> scalar <|> array (value depth) <|> inlineTable (value depth)

def fieldLine : Reader Line := do
  let ((path, k), v) ← keyValue (value maxNesting)
  return .field path k v

def tableLine : Reader Line := do
  Reader.char '['
  let (path, k) ← key
  Reader.char ']'
  return .table path k

def itemLine : Reader Line := do
  Reader.exactly ['[', '[']
  let (path, k) ← key
  Reader.exactly [']', ']']
  return .item path k

/-- One line with the comment and the line break that end it. -/
def line : Reader Line := do
  gap
  let content ← itemLine <|> tableLine <|> fieldLine <|> pure .blank
  gap
  let _ ← optional comment
  lineBreak <|> Reader.atEnd
  return content

end Toml
end Dialect
