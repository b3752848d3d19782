import Dialect.Comment
import Dialect.Text.Word

/-!
# Statements

A statement is a text without comments and without space at its ends, together
with the kind that its first words give it.
-/

namespace Dialect

/-- The text after `CREATE TABLE`, with any blanks before and between the two
words. -/
def afterCreateTable? (s : Text) : Option Text := do
  let afterCreate ← afterKeyword? "CREATE" (skipBlanks s)
  afterKeyword? "TABLE" (← afterBlanks? afterCreate)

/-- What the first words of a statement say it does. -/
inductive Kind where
  | createTable
  | insert
  | other
  deriving DecidableEq, Repr, Inhabited

namespace Kind

def name : Kind → Text
  | createTable => "CREATE_TABLE"
  | insert => "INSERT"
  | other => "OTHER"

def ofText (s : Text) : Kind :=
  if (afterCreateTable? s).isSome then createTable
  else if (afterKeyword? "INSERT" (skipBlanks s)).isSome then insert
  else other

end Kind

structure Statement where
  text : Text
  kind : Kind
  deriving DecidableEq, Repr

namespace Statement

/-- The statement that a raw text holds, once its comments and the space at its
ends are gone.  An empty text is a statement of kind `other`. -/
def ofText (raw : Text) : Statement :=
  let text := trim (Comment.remove raw)
  { text, kind := .ofText text }

theorem kind_ofText (raw : Text) : (ofText raw).kind = .ofText (ofText raw).text := rfl

end Statement
end Dialect
