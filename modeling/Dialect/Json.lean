import Dialect.Text.Blank

/-!
# JSON

Values that are written, either with two spaces of indentation for each level and
one field or item on a line, or on one line without any space.
-/

namespace Dialect

inductive Json where
  | null
  | boolean (b : Bool)
  /-- A number by its numeral. -/
  | number (numeral : Text)
  | string (s : Text)
  | list (items : List Json)
  | object (fields : List (Text × Json))

namespace Json

/-- A string or nothing. -/
def ofOption (s : Option Text) : Json := s.elim null string

def ofInt (n : Int) : Json := number n.repr.toList

def hexDigit (n : Nat) : Char := "0123456789abcdef".toList.getD n '0'

/-- A character inside a string.  The quote, the backslash and the controls of
ASCII below the space are escaped. -/
def escape (c : Char) : Text :=
  match c with
  | '\x22' => ['\\', '\x22']
  | '\\' => ['\\', '\\']
  | '\x08' => ['\\', 'b']
  | '\x0c' => ['\\', 'f']
  | '\n' => ['\\', 'n']
  | '\r' => ['\\', 'r']
  | '\t' => ['\\', 't']
  | c =>
    if c.toNat < 0x20 then
      ['\\', 'u', '0', '0', hexDigit (c.toNat / 16), hexDigit (c.toNat % 16)]
    else [c]

def quoted (s : Text) : Text := ['\x22'] ++ s.flatMap escape ++ ['\x22']

/-- How lists and objects are written. -/
inductive Style where
  | indented
  | compact

def colon : Style → Text
  | .indented => [':', ' ']
  | .compact => [':']

def indentation (level : Nat) : Text := List.replicate (2 * level) ' '

/-- The items of a list or the fields of an object between their brackets. -/
def bracketed (style : Style) (opener closer : Char) (level : Nat) (items : List Text) : Text :=
  match style with
  | .compact => [opener] ++ List.intercalate [','] items ++ [closer]
  | .indented =>
    if items.isEmpty then [opener, closer]
    else
      let lines := items.map (indentation (level + 1) ++ ·)
      [opener, '\n'] ++ List.intercalate [',', '\n'] lines ++ ['\n'] ++ indentation level ++
        [closer]

mutual

/-- A value that begins on a line indented to a level. -/
def render (style : Style) (level : Nat) : Json → Text
  | null => "null"
  | boolean true => "true"
  | boolean false => "false"
  | number numeral => numeral
  | string s => quoted s
  | list items => bracketed style '[' ']' level (renderItems style (level + 1) items)
  | object fields =>
    bracketed style '\x7b' '\x7d' level (renderFields style (level + 1) fields)

def renderItems (style : Style) (level : Nat) : List Json → List Text
  | [] => []
  | item :: items => render style level item :: renderItems style level items

def renderFields (style : Style) (level : Nat) : List (Text × Json) → List Text
  | [] => []
  | (key, value) :: fields =>
    (quoted key ++ colon style ++ render style level value) :: renderFields style level fields

end

/-- The text of a value over several lines. -/
def pretty (j : Json) : Text := render .indented 0 j

/-- The text of a value on one line. -/
def compact (j : Json) : Text := render .compact 0 j

end Json
end Dialect
