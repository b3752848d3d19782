import Dialect.Text.Word

/-!
# Names

A table or column name is a quoted run, a bracketed run, or a bare run of word
characters and dots.  A name is kept as it is written, quotes included.
-/

namespace Dialect

/-- A run that starts with `opener` and ends with the next `closer`, and the
text after it. -/
def enclosed? (opener closer : Char) : Text → Option (Text × Text)
  | c :: s =>
    if c = opener then
      match s.dropWhile (· ≠ closer) with
      | _ :: rest => some (opener :: s.takeWhile (· ≠ closer) ++ [closer], rest)
      | [] => none
    else none
  | [] => none

/-- Whether a character may stand in a bare name. -/
def continuesName (c : Char) : Bool := continuesWord c || c = '.'

/-- A nonempty bare name, and the text after it. -/
def bareName? (s : Text) : Option (Text × Text) :=
  let name := s.takeWhile continuesName
  if name.isEmpty then none else some (name, s.dropWhile continuesName)

/-- The name that begins the text, and the text after it. -/
def leadingName? (s : Text) : Option (Text × Text) :=
  (enclosed? '\x22' '\x22' s).or <| (enclosed? '\x60' '\x60' s).or <|
    (enclosed? '[' ']' s).or (bareName? s)

theorem append_of_enclosed? {opener closer : Char} {s name rest : Text}
    (h : enclosed? opener closer s = some (name, rest)) : name ++ rest = s := by
  unfold enclosed? at h
  split at h
  · next c s =>
    split at h
    · next hc =>
      split at h
      · next d tail hd =>
        simp only [Option.some.injEq, Prod.mk.injEq] at h
        obtain ⟨rfl, rfl⟩ := h
        have closes : d = closer := by
          have := List.head?_dropWhile_not (· ≠ closer) s
          rw [hd] at this
          simpa using this
        have whole : s.takeWhile (· ≠ closer) ++ s.dropWhile (· ≠ closer) = s :=
          List.takeWhile_append_dropWhile
        rw [hd, closes] at whole
        simp only [List.cons_append, List.append_assoc, List.nil_append, whole, hc]
      · simp at h
    · simp at h
  · simp at h

theorem append_of_bareName? {s name rest : Text} (h : bareName? s = some (name, rest)) :
    name ++ rest = s := by
  unfold bareName? at h
  simp only at h
  split at h
  · simp at h
  · simp only [Option.some.injEq, Prod.mk.injEq] at h
    rw [← h.1, ← h.2]
    exact List.takeWhile_append_dropWhile

/-- Reading a name takes it off the front of the text and changes nothing. -/
theorem append_of_leadingName? {s name rest : Text}
    (h : leadingName? s = some (name, rest)) : name ++ rest = s := by
  simp only [leadingName?, Option.or_eq_some_iff] at h
  rcases h with h | ⟨_, h | ⟨_, h | ⟨_, h⟩⟩⟩
  · exact append_of_enclosed? h
  · exact append_of_enclosed? h
  · exact append_of_enclosed? h
  · exact append_of_bareName? h

end Dialect
