import Dialect.Text.Alphanumeric
import Dialect.Text.Blank

/-!
# Words and keywords

A word is a maximal run of letters, digits, underscores and dollar signs.  A
keyword is read as a whole word, so `INSERTED` does not begin with the keyword
`INSERT`.  Case is folded in ASCII only.
-/

namespace Dialect

/-- Whether a character may stand in a word. -/
def continuesWord (c : Char) : Bool := isAlphanumeric c || c = '_' || c = '$'

/-- ASCII capitals.  Every other character stays as it is. -/
def upper (s : Text) : Text := s.map Char.toUpper

/-- The word that begins the text, empty when it begins with something else. -/
def leadingWord (s : Text) : Text := s.takeWhile continuesWord

def afterWord (s : Text) : Text := s.dropWhile continuesWord

/-- The text after its leading word, when that word is a keyword in any case.  The
keyword is given in capitals. -/
def afterKeyword? (keyword s : Text) : Option Text :=
  if upper (leadingWord s) = keyword then some (afterWord s) else none

theorem leadingWord_append_afterWord (s : Text) : leadingWord s ++ afterWord s = s :=
  List.takeWhile_append_dropWhile

theorem length_afterWord_le (s : Text) : (afterWord s).length ≤ s.length :=
  (List.dropWhile_sublist _).length_le

theorem length_afterWord_lt {c : Char} {s : Text} (h : continuesWord c = true) :
    (afterWord (c :: s)).length < (c :: s).length := by
  have := length_afterWord_le s
  simp only [afterWord, List.dropWhile_cons, h, if_true, List.length_cons] at this ⊢
  omega

theorem afterKeyword?_eq_some_iff {keyword s rest : Text} :
    afterKeyword? keyword s = some rest ↔
      upper (leadingWord s) = keyword ∧ afterWord s = rest := by
  unfold afterKeyword?
  split <;> simp_all

/-- A space ends a word. -/
theorem continuesWord_of_isSpace {c : Char} (h : isSpace c = true) :
    continuesWord c = false := by
  have all : spaces.all (! continuesWord ·) = true := by decide +kernel
  simpa using List.all_eq_true.mp all c (List.contains_iff_mem.mp h)

end Dialect
