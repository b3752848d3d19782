import Dialect.Text.Word

/-!
# Constraint words

The words of a column declaration that say something about the column.  They are
collected in the order in which they are first seen, each at most once.
-/

namespace Dialect

inductive Constraint where
  | primary
  | key
  | not
  | null
  | unique
  | autoIncrement
  deriving DecidableEq, Repr

namespace Constraint

def name : Constraint → Text
  | primary => "PRIMARY"
  | key => "KEY"
  | not => "NOT"
  | null => "NULL"
  | unique => "UNIQUE"
  | autoIncrement => "AUTO_INCREMENT"

/-- The constraint that a word in capitals names.  Automatic increments have two
spellings. -/
def ofWord? (word : Text) : Option Constraint :=
  if word = "AUTOINCREMENT" then some autoIncrement
  else [primary, key, not, null, unique, autoIncrement].find? fun c => c.name = word

theorem ofWord?_name (c : Constraint) : ofWord? c.name = some c := by
  cases c <;> rfl

/-- Add a constraint at the end unless it is there. -/
def add (found : List Constraint) (c : Constraint) : List Constraint :=
  if c ∈ found then found else found ++ [c]

def addWord (found : List Constraint) (word : Text) : List Constraint :=
  (ofWord? word).elim found (add found)

/-- Go on collecting.  `PRIMARY KEY` is taken as one phrase. -/
def collectInto (found : List Constraint) : List Text → List Constraint
  | [] => found
  | [word] => addWord found word
  | word :: next :: rest =>
    if word = "PRIMARY" ∧ next = "KEY" then collectInto (add (add found primary) key) rest
    else collectInto (addWord found word) (next :: rest)

/-- The constraints among the words of a text. -/
def collect (s : Text) : List Constraint := collectInto [] ((words s).map upper)

theorem nodup_add {found : List Constraint} (h : found.Nodup) (c : Constraint) :
    (add found c).Nodup := by
  unfold add
  split
  · exact h
  · next hc =>
    rw [List.nodup_append]
    exact ⟨h, by simp, fun a ha b hb e => hc (by simp_all)⟩

theorem nodup_addWord {found : List Constraint} (h : found.Nodup) (word : Text) :
    (addWord found word).Nodup := by
  unfold addWord
  cases ofWord? word with
  | none => exact h
  | some c => exact nodup_add h c

theorem nodup_collectInto {found : List Constraint} (h : found.Nodup) (ws : List Text) :
    (collectInto found ws).Nodup := by
  fun_induction collectInto found ws with
  | case1 => exact h
  | case2 found word => exact nodup_addWord h word
  | case3 found word next rest _ ih => exact ih (nodup_add (nodup_add h _) _)
  | case4 found word next rest _ ih => exact ih (nodup_addWord h word)

end Constraint
end Dialect
