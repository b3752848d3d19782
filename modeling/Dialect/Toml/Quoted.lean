import Dialect.Text.Reader

/-!
# TOML strings

A string stands on one line or, between tripled marks, on several.  A basic string
has escapes, a literal string has none.
-/

namespace Dialect
namespace Toml

/-- The characters that may stand in a string or a comment as they are.  Control
characters other than the tab are refused. -/
def isTextChar (c : Char) : Bool := c = '\t' || (0x20 ≤ c.toNat && c.toNat ≠ 0x7F)

/-- Space and tab, which separate what stands on one line. -/
def isGap (c : Char) : Bool := c = ' ' || c = '\t'

def lineBreak : Reader Unit := Reader.exactly "\n" <|> Reader.exactly "\r\n"

def digitValue (c : Char) : Nat :=
  if c.isDigit then c.toNat - '0'.toNat else c.toUpper.toNat - 'A'.toNat + 10

/-- The number that digits write in a base. -/
def numeral (base : Nat) (digits : Text) : Nat :=
  digits.foldl (fun n c => base * n + digitValue c) 0

def isHexDigit (c : Char) : Bool :=
  c.isDigit || ('A' ≤ c && c ≤ 'F') || ('a' ≤ c && c ≤ 'f')

/-- A character by its code point in so many hexadecimal digits. -/
def codePoint (size : Nat) : Reader Char := fun s =>
  let digits := s.take size
  let n := numeral 16 digits
  if digits.length = size ∧ digits.all isHexDigit ∧ n.isValidChar then
    some (Char.ofNat n, s.drop size)
  else none

def escape : Reader Char := do
  Reader.char '\\'
  match ← Reader.charIf fun _ => true with
  | 'b' => return '\x08'
  | 't' => return '\t'
  | 'n' => return '\n'
  | 'f' => return '\x0c'
  | 'r' => return '\r'
  | '\x22' => return '\x22'
  | '\\' => return '\\'
  | 'u' => codePoint 4
  | 'U' => codePoint 8
  | _ => failure

inductive Quoting where
  | basic
  | literal
  deriving DecidableEq, Repr

namespace Quoting

def mark : Quoting → Char
  | basic => '\x22'
  | literal => '\x27'

/-- The characters that stand for themselves between two marks. -/
def isPlain (q : Quoting) (c : Char) : Bool :=
  isTextChar c && c ≠ q.mark && ! (q = .basic && c = '\\')

def plain (q : Quoting) : Reader Text := Reader.nonemptyRun q.isPlain

def escaped (q : Quoting) : Reader Text :=
  if q = .basic then do return [← escape] else failure

/-- A string on one line. -/
def line (q : Quoting) : Reader Text := do
  Reader.char q.mark
  let pieces ← Reader.many (q.plain <|> q.escaped)
  Reader.char q.mark
  return pieces.flatten

/-- A mark inside a string on several lines, where three in a row would end it. -/
def innerMark (q : Quoting) : Reader Text := fun s =>
  match s with
  | c :: rest =>
    if c = q.mark ∧ ¬ [q.mark, q.mark].isPrefixOf rest then some ([c], rest) else none
  | [] => none

/-- A backslash at the end of a line, which takes away the line break and the
space up to the next text. -/
def joinedLines (q : Quoting) : Reader Text := do
  if q ≠ .basic then failure
  Reader.char '\\'
  let _ ← Reader.run isGap
  lineBreak
  let _ ← Reader.many (discard (Reader.nonemptyRun isGap) <|> lineBreak)
  return []

/-- A string on several lines.  A line break right after the opening marks does
not count, every other one is a line feed, and one or two marks may stand right
before the closing three. -/
def block (q : Quoting) : Reader Text := do
  let marks := [q.mark, q.mark, q.mark]
  Reader.exactly marks
  let _ ← optional lineBreak
  let newLine : Reader Text := do lineBreak; return ['\n']
  let pieces ← Reader.many (q.plain <|> q.innerMark <|> q.joinedLines <|> q.escaped <|> newLine)
  Reader.exactly marks
  let last ← (do Reader.exactly [q.mark, q.mark]; return [q.mark, q.mark]) <|>
    (do Reader.char q.mark; return [q.mark]) <|> pure []
  return pieces.flatten ++ last

end Quoting
end Toml
end Dialect
