/-!
# Text, blanks and spaces

Text is a list of characters, so a cut always falls between two characters and
a reading is a recursion on the list.

Two classes of empty character are kept apart.  A blank is one of four ASCII
characters and separates the words of a statement header.  A space has the
Unicode property White_Space.  Spaces are what trimming removes and what separates
the words of a column declaration.  Every blank is a space.
-/

namespace Dialect

abbrev Text := List Char

instance : Coe String Text := ⟨String.toList⟩

/-- Space, tab, line feed and carriage return. -/
def isBlank (c : Char) : Bool :=
  c = ' ' || c = '\t' || c = '\n' || c = '\r'

/-- The characters with the Unicode property White_Space. -/
def spaces : List Char :=
  ['\t', '\n', '\x0B', '\x0C', '\r', ' ', '\u0085', '\u00A0', '\u1680', '\u2000', '\u2001',
   '\u2002', '\u2003', '\u2004', '\u2005', '\u2006', '\u2007', '\u2008', '\u2009', '\u200A',
   '\u2028', '\u2029', '\u202F', '\u205F', '\u3000']

def isSpace (c : Char) : Bool := spaces.contains c

theorem isSpace_of_isBlank {c : Char} (h : isBlank c = true) : isSpace c = true := by
  simp only [isBlank, Bool.or_eq_true, decide_eq_true_eq] at h
  rcases h with ((rfl | rfl) | rfl) | rfl <;> rfl

def skipBlanks (s : Text) : Text := s.dropWhile isBlank

/-- The text after a run of at least one blank. -/
def afterBlanks? : Text → Option Text
  | c :: s => if isBlank c then some (skipBlanks s) else none
  | [] => none

def trimStart (s : Text) : Text := s.dropWhile isSpace

def trimEnd (s : Text) : Text := (s.reverse.dropWhile isSpace).reverse

def trim (s : Text) : Text := trimEnd (trimStart s)

/-- The maximal runs of characters that are not spaces. -/
def words (s : Text) : List Text :=
  (s.splitOnP isSpace).filter (! ·.isEmpty)

theorem length_skipBlanks_le (s : Text) : (skipBlanks s).length ≤ s.length :=
  (List.dropWhile_sublist _).length_le

theorem trimStart_cons (c : Char) (s : Text) :
    trimStart (c :: s) = if isSpace c then trimStart s else c :: s :=
  List.dropWhile_cons

theorem words_nil : words [] = [] := by simp [words, List.splitOnP_nil]

/-- Words end at every space. -/
theorem words_append_cons {c : Char} (h : isSpace c = true) (s t : Text) :
    words (s ++ c :: t) = words s ++ words t := by
  rw [words, List.splitOnP_append_cons s t h, List.filter_append]
  rfl

end Dialect
