import Dialect.Nesting
import Dialect.Text.Word

/-!
# Clock calls

`NOW()`, `CURRENT_DATE` and `CURRENT_TIME` become the SQLite expressions for the
same instant.  Only a whole word outside quotes is a clock call, in any case.
Empty parentheses after it belong to the call.  `NOW` without them is a name.
-/

namespace Dialect
namespace Clock

/-- A word that reads the clock. -/
structure Call where
  word : String
  /-- Whether the word alone is no call. -/
  needsParentheses : Bool
  replacement : String

def calls : List Call :=
  [⟨"NOW", true, "datetime('now')"⟩,
   ⟨"CURRENT_DATE", false, "date('now')"⟩,
   ⟨"CURRENT_TIME", false, "time('now')"⟩]

/-- The text after empty parentheses, with any blanks before and between them. -/
def afterEmptyParentheses? (s : Text) : Option Text :=
  match skipBlanks s with
  | '(' :: inside =>
    match skipBlanks inside with
    | ')' :: rest => some rest
    | _ => none
  | _ => none

/-- The replacement for a word with the given text after it, and what is left of
that text. -/
def substitute? (word after : Text) : Option (Text × Text) := do
  let call ← calls.find? fun call => call.word.toList = upper word
  match afterEmptyParentheses? after with
  | some rest => some (call.replacement, rest)
  | none => if call.needsParentheses then none else some (call.replacement, after)

theorem length_of_afterEmptyParentheses? {s rest : Text}
    (h : afterEmptyParentheses? s = some rest) : rest.length ≤ s.length := by
  unfold afterEmptyParentheses? at h
  split at h
  · next inside hs =>
    split at h
    · next rest' hi =>
      have h₁ := length_skipBlanks_le s
      have h₂ := length_skipBlanks_le inside
      simp only [hs, hi, List.length_cons, Option.some.injEq] at h₁ h₂ h
      rw [← h]
      omega
    · simp at h
  · simp at h

theorem length_of_substitute? {word after text rest : Text}
    (h : substitute? word after = some (text, rest)) : rest.length ≤ after.length := by
  unfold substitute? at h
  obtain ⟨call, _, h⟩ := Option.bind_eq_some_iff.mp h
  split at h
  · next he =>
    simp only [Option.some.injEq, Prod.mk.injEq] at h
    exact h.2 ▸ length_of_afterEmptyParentheses? he
  · split at h
    · simp at h
    · simp only [Option.some.injEq, Prod.mk.injEq] at h
      exact h.2 ▸ Nat.le_refl _

/-- The quoted run that goes on with `s`, up to its closing quote or to the end,
and the text after it. -/
def quotedRun (quote : Char) (s : Text) : Text × Text :=
  let rest := s.dropWhile (· ≠ quote)
  (s.takeWhile (· ≠ quote) ++ rest.take 1, rest.drop 1)

theorem quotedRun_append (quote : Char) (s : Text) :
    (quotedRun quote s).1 ++ (quotedRun quote s).2 = s := by
  simp only [quotedRun, List.append_assoc, List.take_append_drop,
    List.takeWhile_append_dropWhile]

theorem length_quotedRun_le (quote : Char) (s : Text) :
    (quotedRun quote s).2.length ≤ s.length := by
  have h := congrArg List.length (quotedRun_append quote s)
  rw [List.length_append] at h
  omega

/-- The text with its clock calls replaced. -/
def adapt (s : Text) : Text :=
  match s with
  | [] => []
  | c :: s =>
    if isQuote c then
      c :: (quotedRun c s).1 ++ adapt (quotedRun c s).2
    else if continuesWord c then
      match _h : substitute? (leadingWord (c :: s)) (afterWord (c :: s)) with
      | some (text, rest) => text ++ adapt rest
      | none => leadingWord (c :: s) ++ adapt (afterWord (c :: s))
    else c :: adapt s
termination_by s.length
decreasing_by
  · have := length_quotedRun_le c s
    simp only [List.length_cons]
    omega
  · have := length_of_substitute? _h
    have := length_afterWord_lt (s := s) ‹continuesWord c = true›
    omega
  · exact length_afterWord_lt ‹continuesWord c = true›
  · simp

end Clock
end Dialect
