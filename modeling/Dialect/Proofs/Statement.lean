import Dialect.Proofs.Comment.Padding
import Dialect.Statement

/-!
# Texts that are statements already

Taking a raw text for a statement removes its comments and the space at its ends.  A
normal text has neither, so it is the text of its own statement.  What is removed may be
gone before, and more space may stand at the ends, and the statement is the same.
-/

namespace Dialect

structure Normal (s : Text) : Prop where
  settled : Comment.Settled s
  trimmed : Trimmed s

namespace Statement

theorem normal_text_ofText (raw : Text) : Normal (ofText raw).text :=
  ⟨(Comment.settled_remove raw).of_isInfix (trim_isInfix _), trimmed_trim _⟩

theorem ofText_of_normal {s : Text} (h : Normal s) : ofText s = ⟨s, .ofText s⟩ := by
  simp only [ofText, Comment.remove_of_settled h.settled, trim_eq_self h.trimmed]

theorem ofText_text_ofText (raw : Text) : ofText (ofText raw).text = ofText raw := by
  rw [ofText_of_normal (normal_text_ofText raw)]
  rfl

theorem ofText_remove (raw : Text) : ofText (Comment.remove raw) = ofText raw := by
  simp only [ofText, Comment.remove_of_settled (Comment.settled_remove raw)]

theorem ofText_padded {front back : Text} (hfront : ∀ c ∈ front, isSpace c = true)
    (hback : ∀ c ∈ back, isSpace c = true) (raw : Text) :
    ofText (front ++ raw ++ back) = ofText raw := by
  obtain ⟨rest, hrest, h⟩ := Comment.exists_remove_padded hfront hback raw
  simp only [ofText, h, trim_append_trim hfront hrest]

end Statement

/-- A comment that is not closed can be seen in the text of the statement as well. -/
theorem Comment.hasUnclosed_eq (raw : Text) :
    hasUnclosed raw = (cut? "/*" (Statement.ofText raw).text).isSome := by
  have mark : ("/*" : Text) ≠ [] := by decide
  have same : ("/*" : Text) <:+: (Statement.ofText raw).text ↔ ("/*" : Text) <:+: remove raw :=
    pair_infix_trim (by decide) (by decide) _
  rw [hasUnclosed, Bool.eq_iff_iff, Option.isSome_iff_ne_none, Option.isSome_iff_ne_none, ne_eq,
    ne_eq, cut?_eq_none_iff mark, cut?_eq_none_iff mark, same]

end Dialect
