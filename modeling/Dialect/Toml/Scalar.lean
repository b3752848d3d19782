import Dialect.Calendar
import Dialect.Toml.Quoted
import Dialect.Toml.Value

/-!
# TOML numbers, booleans and moments

What stands without quotes is one run of characters, and all of the run has to be
a value.  Digits may be set apart by single underscores.
-/

namespace Dialect
namespace Toml

/-- Whether a text is a run of digits with single underscores between them. -/
def isDigitRun (isDigit : Char → Bool) (s : Text) : Bool :=
  (s.splitOn '_').all fun group => ! group.isEmpty && group.all isDigit

def withoutUnderscores (s : Text) : Text := s.filter (· ≠ '_')

/-- A sign, which is plus when none is written, and what it stands before. -/
def signed : Text → Bool × Text
  | '+' :: s => (true, s)
  | '-' :: s => (false, s)
  | s => (true, s)

/-- Whether a text writes a natural number without a leading zero. -/
def isDecimal (s : Text) : Bool :=
  isDigitRun Char.isDigit s && (s.length = 1 || s.head? ≠ some '0')

/-- A number that fits in 64 bits with a sign. -/
def fitting? (n : Int) : Option Int :=
  if Int64.minValue.toInt ≤ n ∧ n ≤ Int64.maxValue.toInt then some n else none

/-- A number written in another base, after a prefix for the base. -/
def based? (base : Nat) (isDigit : Char → Bool) (s : Text) : Option Int :=
  if isDigitRun isDigit s then fitting? (numeral base (withoutUnderscores s)) else none

def integer? (s : Text) : Option Int :=
  match s with
  | '0' :: 'x' :: digits => based? 16 isHexDigit digits
  | '0' :: 'o' :: digits => based? 8 (fun c => '0' ≤ c && c ≤ '7') digits
  | '0' :: 'b' :: digits => based? 2 (fun c => c = '0' || c = '1') digits
  | _ =>
    let (plus, digits) := signed s
    if isDecimal digits then
      let n : Int := numeral 10 (withoutUnderscores digits)
      fitting? (if plus then n else -n)
    else none

/-- Whether `digits * 10 ^ exponent` rounds to infinity in double precision, which
begins half a step above the largest double.  The powers compared have about as
many digits as `digits`. -/
def isTooLarge (digits : Text) (exponent : Int) : Bool :=
  let digits := digits.dropWhile (· = '0')
  let magnitude : Int := digits.length + exponent
  if digits.isEmpty || magnitude < 309 then false
  else if magnitude > 309 then true
  else
    let bound := Nat.pow 2 1024 - Nat.pow 2 970
    let n := numeral 10 digits
    if 0 ≤ exponent then n * Nat.pow 10 exponent.toNat ≥ bound
    else n ≥ bound * Nat.pow 10 (-exponent).toNat

/-- Whether a text is a number with a fraction, an exponent, or both, or is not a
finite number.  One too large for double precision is refused, unless it is
negative. -/
def isFloat (s : Text) : Bool :=
  let (plus, body) := signed s
  if body = "inf" || body = "nan" then true
  else
    let beforeExponent := body.takeWhile fun c => c ≠ 'e' && c ≠ 'E'
    let afterExponent := body.drop (beforeExponent.length + 1)
    let hasExponent := beforeExponent.length < body.length
    let whole := beforeExponent.takeWhile (· ≠ '.')
    let fraction := beforeExponent.drop (whole.length + 1)
    let hasFraction := whole.length < beforeExponent.length
    let (exponentPlus, exponentDigits) := signed afterExponent
    let exponent : Int := numeral 10 (withoutUnderscores exponentDigits)
    (hasExponent || hasFraction) && isDecimal whole &&
      (! hasFraction || isDigitRun Char.isDigit fraction) &&
      (! hasExponent || isDigitRun Char.isDigit exponentDigits) &&
      ! (plus && isTooLarge (withoutUnderscores (whole ++ fraction))
          ((if exponentPlus then exponent else -exponent) -
            (withoutUnderscores fraction).length))

/-- A number of exactly so many digits. -/
def fixedNumber (size : Nat) : Reader Nat := fun s =>
  let digits := s.take size
  if digits.length = size ∧ digits.all Char.isDigit then
    some (numeral 10 digits, s.drop size)
  else none

def require (p : Bool) : Reader Unit := if p then pure () else failure

def date : Reader Unit := do
  let year ← fixedNumber 4
  Reader.char '-'
  let month ← fixedNumber 2
  Reader.char '-'
  let day ← fixedNumber 2
  require (Calendar.isDate year month day)

def time : Reader Unit := do
  let hour ← fixedNumber 2
  Reader.char ':'
  let minute ← fixedNumber 2
  Reader.char ':'
  let second ← fixedNumber 2
  require (hour < 24 && minute < 60 && second ≤ 60)
  let _ ← optional (do Reader.char '.'; discard (Reader.nonemptyRun Char.isDigit))

def offset : Reader Unit :=
  discard (Reader.charIf fun c => c = 'Z' || c = 'z') <|> do
    let _ ← Reader.charIf fun c => c = '+' || c = '-'
    let hour ← fixedNumber 2
    Reader.char ':'
    let minute ← fixedNumber 2
    require (hour < 24 && minute < 60)

/-- A time of day with its distance from universal time, if it has one. -/
def zonedTime : Reader Unit := do
  time
  let _ ← optional offset

/-- A date, a time of day, or both with a `T` between them. -/
def dateAndTime : Reader Unit :=
  (do date
      let _ ← optional (do
        let _ ← Reader.charIf fun c => c = 'T' || c = 't'
        zonedTime)) <|> time

/-- The characters of a value without quotes. -/
def isScalarChar (c : Char) : Bool :=
  c.isAlphanum || c = '_' || c = '+' || c = '-' || c = '.' || c = ':'

def Value.ofRun? (s : Text) : Option Value :=
  if s = "true" then some (.boolean true)
  else if s = "false" then some (.boolean false)
  else if (Reader.readAll? dateAndTime s).isSome then some (.moment s)
  else if isFloat s then some (.float s)
  else (integer? s).map .integer

/-- The time of day after a date and a single space. -/
def spacedTime : Reader Text := do
  Reader.char ' '
  let t ← Reader.nonemptyRun isScalarChar
  if (Reader.readAll? zonedTime t).isSome then return t else failure

/-- A value without quotes.  The space in a moment may stand for its `T`. -/
def scalar : Reader Value := do
  let s ← Reader.nonemptyRun isScalarChar
  match Reader.readAll? date s with
  | some _ =>
    match ← optional spacedTime with
    | some t => return .moment (s ++ [' '] ++ t)
    | none => return .moment s
  | none => Reader.ofOption (Value.ofRun? s)

end Toml
end Dialect
