import Dialect.Proofs.Clock
import Dialect.Proofs.Offset.Search

/-!
# Replacing clock calls at byte offsets

A turn of the loop takes a quoted run, a word or a single character off the front of the
text.  A quote is one byte long, and a quoted run that is closed is as long as what its
quotes enclose and two bytes more.
-/

namespace Dialect
namespace Offset

/-- The size of the quoted run that begins the string, quotes included. -/
def quotedLength (s : String) (quote : Char) : Except SliceFault Nat := do
  match findChar? quote (← sliceFrom s 1) with
  | none => return s.utf8ByteSize
  | some close => return close + 2

/-- The replacement for a word, and the size of what belongs to the call behind it. -/
def substitute? (word after : String) : Option (String × Nat) := do
  let call ← Clock.calls.find? fun call => call.word.toList = upper word.toList
  match Clock.afterEmptyParentheses? after.toList with
  | some rest => some (call.replacement, after.utf8ByteSize - (String.ofList rest).utf8ByteSize)
  | none => if call.needsParentheses then none else some (call.replacement, 0)

def adaptTurn : Turn := fun out rest =>
  match rest.toList with
  | [] => return (out, none)
  | c :: _ =>
    if isQuote c then do
      let length ← quotedLength rest c
      return (out ++ (← sliceTo rest length), some (← sliceFrom rest length))
    else if continuesWord c then do
      let word ← sliceTo rest (wordEnd rest)
      let after ← sliceFrom rest (wordEnd rest)
      match substitute? word after with
      | some (replacement, length) => return (out ++ replacement, some (← sliceFrom after length))
      | none => return (out ++ word, some after)
    else return (out ++ String.singleton c, some (← sliceFrom rest c.utf8Size))

/-- A quote is one byte. -/
theorem utf8Size_of_isQuote {q : Char} (h : isQuote q = true) : q.utf8Size = 1 := by
  simp only [isQuote, Bool.or_eq_true, decide_eq_true_eq] at h
  rcases h with (rfl | rfl) | rfl <;> rfl

section Turn

variable {q c : Char} {s t : Text}

theorem sliceFrom_cons (c : Char) (s : Text) :
    sliceFrom (String.ofList (c :: s)) c.utf8Size = .ok (String.ofList s) := by
  have h := sliceFrom_append (String.singleton c) (String.ofList s)
  rwa [String.utf8ByteSize_singleton, ← String.ofList_cons] at h

theorem quotedLength_eq (hq : isQuote q = true) (s : Text) :
    quotedLength (String.ofList (q :: s)) q =
      .ok (String.ofList (q :: (Clock.quotedRun q s).1)).utf8ByteSize := by
  have behind : sliceFrom (String.ofList (q :: s)) 1 = .ok (String.ofList s) := by
    rw [← utf8Size_of_isQuote hq, sliceFrom_cons]
  rw [quotedLength, behind, ok_bind]
  cases h : findChar? q (String.ofList s) with
  | none =>
    have open_ := not_mem_of_findChar?_eq_none h
    rw [String.toList_ofList] at open_
    rw [Clock.quotedRun_unclosed open_]
    rfl
  | some close =>
    obtain ⟨inside, after, hs, rfl, first⟩ := eq_append_of_findChar? h
    have whole : s = inside.toList ++ q :: after.toList := by
      have := congrArg String.toList hs
      simpa using this
    rw [whole, Clock.quotedRun_closed first]
    simp only [pure_eq_ok, utf8ByteSize_ofList_cons, String.ofList_append,
      String.utf8ByteSize_append, utf8Size_of_isQuote hq, String.ofList_toList]
    rfl

theorem substitute?_eq (word after : String) :
    substitute? word after = (Clock.substitute? word.toList after.toList).map fun p =>
      (String.ofList p.1, after.utf8ByteSize - (String.ofList p.2).utf8ByteSize) := by
  unfold substitute? Clock.substitute?
  cases Clock.calls.find? fun call => call.word.toList = upper word.toList with
  | none => rfl
  | some call =>
    simp only [Option.bind_eq_bind, Option.bind_some]
    cases Clock.afterEmptyParentheses? after.toList with
    | some rest => simp
    | none => cases call.needsParentheses <;> simp

/-- What stands at the end of a string is cut out where the rest of it ends. -/
theorem sliceFrom_of_suffix {s : String} {t : Text} (h : t <:+ s.toList) :
    sliceFrom s (s.utf8ByteSize - (String.ofList t).utf8ByteSize) = .ok (String.ofList t) := by
  obtain ⟨front, whole⟩ := h
  rw [eq_append_of_toList whole, String.utf8ByteSize_append, Nat.add_sub_cancel, sliceFrom_append]

/-- What is written in the end when `out` is written and `s` is left. -/
def adaptation (out s : Text) : Text := out ++ Clock.adapt s

theorem utf8ByteSize_lt_of_suffix (h : t <:+ s) :
    (String.ofList t).utf8ByteSize < (String.ofList (c :: s)).utf8ByteSize := by
  obtain ⟨front, rfl⟩ := h
  have := c.utf8Size_pos
  rw [utf8ByteSize_ofList_cons, String.ofList_append, String.utf8ByteSize_append]
  omega

theorem adaptTurn_quote (out : String) (s : Text) (hq : isQuote c = true) :
    adaptTurn out (String.ofList (c :: s)) =
      .ok (out ++ String.ofList (c :: (Clock.quotedRun c s).1),
        some (String.ofList (Clock.quotedRun c s).2)) := by
  have whole : c :: (Clock.quotedRun c s).1 ++ (Clock.quotedRun c s).2 =
      (String.ofList (c :: s)).toList := by
    rw [String.toList_ofList, List.cons_append, Clock.quotedRun_append]
  simp only [adaptTurn, String.toList_ofList, hq, if_true, quotedLength_eq hq,
    sliceTo_of_toList whole, sliceFrom_of_toList whole, ok_bind, pure_eq_ok]

theorem adaptTurn_word (out : String) (s : Text) (hq : isQuote c = false)
    (hw : continuesWord c = true) :
    adaptTurn out (String.ofList (c :: s)) =
      .ok (match Clock.substitute? (leadingWord (c :: s)) (afterWord (c :: s)) with
        | some (replacement, rest) =>
          (out ++ String.ofList replacement, some (String.ofList rest))
        | none =>
          (out ++ String.ofList (leadingWord (c :: s)),
            some (String.ofList (afterWord (c :: s))))) := by
  have front := sliceTo_wordEnd (String.ofList (c :: s))
  have behind := sliceFrom_wordEnd (String.ofList (c :: s))
  rw [String.toList_ofList] at front behind
  simp only [adaptTurn, String.toList_ofList, hq, hw, front, behind, ok_bind, pure_eq_ok,
    substitute?_eq, if_true, Bool.false_eq_true, if_false]
  cases h : Clock.substitute? (leadingWord (c :: s)) (afterWord (c :: s)) with
  | none => rfl
  | some substitution =>
    obtain ⟨replacement, rest⟩ := substitution
    have left := sliceFrom_of_suffix (s := String.ofList (afterWord (c :: s)))
      (by simpa using Clock.suffix_of_substitute? h)
    simp only [Option.map_some, left, ok_bind]

theorem adaptTurn_cons (out : String) (s : Text) (hq : isQuote c = false)
    (hw : continuesWord c = false) :
    adaptTurn out (String.ofList (c :: s)) =
      .ok (out ++ String.singleton c, some (String.ofList s)) := by
  simp only [adaptTurn, String.toList_ofList, hq, hw, sliceFrom_cons, ok_bind, pure_eq_ok,
    Bool.false_eq_true, if_false]

theorem adaptTurn_advances : Turn.Advances adaptTurn adaptation := by
  intro out rest
  cases hs : rest.toList with
  | nil =>
    refine ⟨out, none, by simp [adaptTurn, hs], by simp, ?_⟩
    simp [adaptation, Clock.adapt_nil]
  | cons c s =>
    obtain rfl : rest = String.ofList (c :: s) := by rw [← hs, String.ofList_toList]
    cases hq : isQuote c with
    | true =>
      refine ⟨_, _, adaptTurn_quote out s hq, ?_, ?_⟩
      · rintro _ ⟨rfl⟩
        exact utf8ByteSize_lt_of_suffix ⟨_, Clock.quotedRun_append c s⟩
      · simp [adaptation, Clock.adapt_quote hq]
    | false =>
      cases hw : continuesWord c with
      | true =>
        have behind : afterWord (c :: s) <:+ s := by
          rw [afterWord, List.dropWhile_cons, if_pos hw]
          exact List.dropWhile_suffix _
        have turned := adaptTurn_word out s hq hw
        cases h : Clock.substitute? (leadingWord (c :: s)) (afterWord (c :: s)) with
        | some substitution =>
          obtain ⟨replacement, rest⟩ := substitution
          rw [h] at turned
          refine ⟨_, _, turned, ?_, ?_⟩
          · rintro _ ⟨rfl⟩
            exact utf8ByteSize_lt_of_suffix ((Clock.suffix_of_substitute? h).trans behind)
          · simp [adaptation, Clock.adapt_of_substitute? h]
        | none =>
          rw [h] at turned
          refine ⟨_, _, turned, ?_, ?_⟩
          · rintro _ ⟨rfl⟩
            exact utf8ByteSize_lt_of_suffix behind
          · simp [adaptation, Clock.adapt_of_substitute?_eq_none hw h]
      | false =>
        refine ⟨_, _, adaptTurn_cons out s hq hw, ?_, ?_⟩
        · rintro _ ⟨rfl⟩
          exact utf8ByteSize_lt_of_suffix List.suffix_rfl
        · simp [adaptation, Clock.adapt_cons hq hw]

def adaptLoop : Loop := ⟨adaptTurn, adaptTurn_advances.shorter⟩

/-- The text with its clock calls replaced. -/
def adapt (s : String) : Except SliceFault String := adaptLoop.run "" s

theorem adapt_eq (s : String) : adapt s = .ok (String.ofList (Clock.adapt s.toList)) := by
  rw [adapt, Loop.run_eq adaptTurn_advances]
  rfl

end Turn

end Offset
end Dialect
