import Dialect.Text.Blank

/-!
# Calendar dates

The proleptic Gregorian calendar from year 0, which is a leap year.  A date is
written with four digits for the year and two each for month and day.
-/

namespace Dialect
namespace Calendar

def isLeapYear (year : Nat) : Bool :=
  year % 4 = 0 && (year % 100 ≠ 0 || year % 400 = 0)

/-- The number of days of a month, which is none unless the month is from 1
to 12. -/
def daysInMonth (year month : Nat) : Nat :=
  match month with
  | 1 | 3 | 5 | 7 | 8 | 10 | 12 => 31
  | 4 | 6 | 9 | 11 => 30
  | 2 => if isLeapYear year then 29 else 28
  | _ => 0

def isDate (year month day : Nat) : Bool := 1 ≤ day && day ≤ daysInMonth year month

/-- The number that a run of ASCII digits writes. -/
def number (digits : Text) : Nat :=
  digits.foldl (fun n c => 10 * n + (c.toNat - '0'.toNat)) 0

/-- Whether a text has the shape of a date, four, two and two ASCII digits with
hyphens between them. -/
def hasDateShape (s : Text) : Bool :=
  s.length = 10 &&
    s.zipIdx.all fun (c, i) => if i = 4 || i = 7 then c = '-' else c.isDigit

/-- Whether a text of the shape of a date names a day of the calendar. -/
def isDateText (s : Text) : Bool :=
  isDate (number (s.take 4)) (number ((s.drop 5).take 2)) (number ((s.drop 8).take 2))

end Calendar
end Dialect
