import Dialect.Text.Blank

/-!
# Comments

A line comment runs from `--` to the end of its line, and the line feed stays.
A block comment runs from `/*` to the nearest `*/`.  The openers are looked for
in the bare text, inside quotes as well.  A `/*` that is never closed is left in
place, and reading goes on behind it.

Where a block comment was all that kept two characters apart, one space takes
its place.
-/

namespace Dialect

/-- The text before the first occurrence of `mark` and the text after it. -/
def cut? (mark : Text) : Text → Option (Text × Text)
  | [] => none
  | c :: s =>
    if mark.isPrefixOf (c :: s) then some ([], (c :: s).drop mark.length)
    else (cut? mark s).map fun (before, after) => (c :: before, after)

theorem eq_append_of_cut? {mark before after : Text} {s : Text}
    (h : cut? mark s = some (before, after)) : s = before ++ mark ++ after := by
  induction s generalizing before with
  | nil => simp [cut?] at h
  | cons c s ih =>
    unfold cut? at h
    split at h
    · next hp =>
      obtain ⟨t, ht⟩ := List.isPrefixOf_iff_prefix.mp hp
      simp only [Option.some.injEq, Prod.mk.injEq] at h
      rw [← h.1, ← h.2, ← ht]
      simp
    · obtain ⟨⟨before, _⟩, hp, he⟩ := Option.map_eq_some_iff.mp h
      simp only [Prod.mk.injEq] at he
      obtain ⟨rfl, rfl⟩ := he
      rw [ih hp]
      simp

theorem length_of_cut? {mark before after : Text} {s : Text}
    (h : cut? mark s = some (before, after)) :
    before.length + mark.length + after.length = s.length := by
  rw [eq_append_of_cut? h]
  simp [Nat.add_assoc]

namespace Comment

inductive Style where
  | line
  | block
  deriving DecidableEq, Repr

/-- A comment opener with the text on either side of it. -/
structure Opening where
  before : Text
  style : Style
  after : Text

/-- The comment opener that comes first. -/
def opening? (s : Text) : Option Opening :=
  match cut? "--" s, cut? "/*" s with
  | none, none => none
  | some (before, after), none => some ⟨before, .line, after⟩
  | none, some (before, after) => some ⟨before, .block, after⟩
  | some (toLine, afterLine), some (toBlock, afterBlock) =>
    if toBlock.length < toLine.length then some ⟨toBlock, .block, afterBlock⟩
    else some ⟨toLine, .line, afterLine⟩

theorem length_of_opening? {s : Text} {o : Opening} (h : opening? s = some o) :
    o.before.length + 2 + o.after.length = s.length := by
  unfold opening? at h
  split at h
  · simp at h
  · next before after hl _ =>
    rw [← Option.some.inj h]
    exact length_of_cut? hl
  · next before after _ hb =>
    rw [← Option.some.inj h]
    exact length_of_cut? hb
  · next _ _ _ _ hl hb =>
    split at h
    · rw [← Option.some.inj h]
      exact length_of_cut? hb
    · rw [← Option.some.inj h]
      exact length_of_cut? hl

/-- The last character written once `s` is written after `last`. -/
def lastOf (last : Option Char) (s : Text) : Option Char := s.getLast?.or last

/-- What stands in the place of a block comment, which is one space when the
characters on its two sides would otherwise touch. -/
def separator (last next : Option Char) : Text :=
  if last.any (! isSpace ·) && next.any (! isSpace ·) then [' '] else []

/-- Remove the comments of `s`, where `last` is the character written before. -/
def removeAfter (last : Option Char) (s : Text) : Text :=
  match _h : opening? s with
  | none => s
  | some ⟨before, .line, after⟩ =>
    before ++ removeAfter (lastOf last before) (after.dropWhile (· ≠ '\n'))
  | some ⟨before, .block, after⟩ =>
    match _hc : cut? "*/" after with
    | some (_, rest) =>
      let kept := before ++ separator (lastOf last before) rest.head?
      kept ++ removeAfter (lastOf last kept) rest
    | none => before ++ ['/', '*'] ++ removeAfter (some '*') after
termination_by s.length
decreasing_by
  · have := length_of_opening? _h
    have := (List.dropWhile_sublist (· ≠ '\n') (l := after)).length_le
    simp only at *
    omega
  · have := length_of_opening? _h
    have := length_of_cut? _hc
    simp only at *
    omega
  · have := length_of_opening? _h
    simp only at *
    omega

/-- A text without its comments. -/
def remove (s : Text) : Text := removeAfter none s

theorem remove_of_opening?_eq_none {s : Text} (h : opening? s = none) : remove s = s := by
  rw [remove, removeAfter]
  split
  · rfl
  · simp_all
  · simp_all

/-- Whether a `/*` is left that no `*/` closes. -/
def hasUnclosed (s : Text) : Bool := (cut? "/*" (remove s)).isSome

end Comment
end Dialect
