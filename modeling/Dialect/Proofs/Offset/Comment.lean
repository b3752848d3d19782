import Dialect.Proofs.Comment.Scan
import Dialect.Proofs.Offset.Search
import Dialect.Proofs.Text

/-!
# Removing comments at byte offsets

A turn of the loop looks for the next opener, writes what stands before it, and goes on
behind the comment.  Its offsets come from three searches, and some of them are sums of
two, because the text behind an opener is searched on its own.
-/

namespace Dialect
namespace Offset

/-- The offset of the comment opener that comes first. -/
def opener? (s : String) : Option (Nat × Comment.Style) :=
  match find? "--" s, find? "/*" s with
  | none, none => none
  | some line, none => some (line, .line)
  | none, some block => some (block, .block)
  | some line, some block => if block < line then some (block, .block) else some (line, .line)

/-- What is written next, and what is left behind the next comment.  A line comment that
no line feed ends takes everything with it. -/
def removalTurn (out rest : String) : Except SliceFault (String × Option String) :=
  match opener? rest with
  | none => return (out ++ rest, none)
  | some (start, .line) => do
    let kept := out ++ (← sliceTo rest start)
    match findChar? '\n' (← sliceFrom rest start) with
    | none => return (kept, none)
    | some lineFeed => return (kept, some (← sliceFrom rest (start + lineFeed)))
  | some (start, .block) => do
    let body ← sliceFrom rest (start + 2)
    match find? "*/" body with
    | none => return (out ++ (← sliceTo rest (start + 2)), some body)
    | some close =>
      let kept := out ++ (← sliceTo rest start)
      let after ← sliceFrom body (close + 2)
      let separator := Comment.separator kept.toList.getLast? after.toList.head?
      return (kept ++ String.ofList separator, some after)

theorem opener?_eq (s : String) :
    opener? s = (Comment.opening? s.toList).map fun o =>
      ((String.ofList o.before).utf8ByteSize, o.style) := by
  rw [opener?, Comment.opening?, find?_eq (by decide), find?_eq (by decide)]
  cases hl : cut? ("--" : String).toList s.toList with
  | none => cases cut? ("/*" : String).toList s.toList <;> rfl
  | some line =>
    cases hb : cut? ("/*" : String).toList s.toList with
    | none => rfl
    | some block =>
      have first := utf8ByteSize_lt_iff (a := block.1) (b := line.1) (s := s.toList)
        ⟨_, by rw [eq_append_of_cut? hb, List.append_assoc]⟩
        ⟨_, by rw [eq_append_of_cut? hl, List.append_assoc]⟩
      simp only [Option.map_some, first]
      split <;> rfl

/-- The two characters that open a comment. -/
def mark : Comment.Style → String
  | .line => "--"
  | .block => "/*"

theorem eq_append_of_opening? {s : Text} {o : Comment.Opening} (h : Comment.opening? s = some o) :
    s = o.before ++ (mark o.style).toList ++ o.after := by
  unfold Comment.opening? at h
  split at h
  · simp at h
  · next hl _ =>
    obtain rfl := Option.some.inj h
    exact eq_append_of_cut? hl
  · next hb =>
    obtain rfl := Option.some.inj h
    exact eq_append_of_cut? hb
  · next hl hb =>
    split at h
    · obtain rfl := Option.some.inj h
      exact eq_append_of_cut? hb
    · obtain rfl := Option.some.inj h
      exact eq_append_of_cut? hl

theorem opening?_of_opener?_eq_none {s : String} (h : opener? s = none) :
    Comment.opening? s.toList = none := by
  rw [opener?_eq, Option.map_eq_none_iff] at h
  exact h

theorem eq_append_of_opener? {s : String} {start : Nat} {style : Comment.Style}
    (h : opener? s = some (start, style)) :
    ∃ before after : String, s = before ++ (mark style ++ after) ∧ before.utf8ByteSize = start ∧
      Comment.opening? s.toList = some ⟨before.toList, style, after.toList⟩ := by
  rw [opener?_eq] at h
  obtain ⟨o, ho, he⟩ := Option.map_eq_some_iff.mp h
  obtain ⟨hi, rfl⟩ := Prod.mk.inj he
  refine ⟨String.ofList o.before, String.ofList o.after, ?_, hi, by simpa using ho⟩
  rw [← String.ofList_toList (s := s), eq_append_of_opening? ho, String.ofList_append,
    String.ofList_append, String.ofList_toList, String.append_assoc]

/-- What is written in the end when `out` is written and `s` is left. -/
def removal (out s : Text) : Text := out ++ Comment.removeAfter out.getLast? s

section Turn

variable {rest before after : String}

theorem removal_append (out kept s : Text) :
    out ++ (kept ++ Comment.removeAfter (Comment.lastOf out.getLast? kept) s) =
      removal (out ++ kept) s := by
  rw [removal, List.append_assoc, List.getLast?_append, Comment.lastOf]

theorem removalTurn_line (out : String) (hrest : rest = before ++ ("--" ++ after))
    (ho : opener? rest = some (before.utf8ByteSize, .line)) :
    ∃ rest', removalTurn out rest = .ok (out ++ before, rest') ∧
      (∀ r ∈ rest', r.utf8ByteSize < rest.utf8ByteSize) ∧
      after.toList.dropWhile (· ≠ '\n') = rest'.elim [] String.toList := by
  have comment : sliceFrom rest before.utf8ByteSize = .ok ("--" ++ after) := by
    rw [hrest, sliceFrom_append]
  have kept : sliceTo rest before.utf8ByteSize = .ok before := by
    rw [hrest, sliceTo_append]
  -- The two hyphens are no line feeds, so the search may as well begin behind them.
  have behind : ("--" ++ after).toList.dropWhile (· ≠ '\n') =
      after.toList.dropWhile (· ≠ '\n') := by
    simp
  cases hn : findChar? '\n' ("--" ++ after) with
  | none =>
    refine ⟨none, ?_, by simp, ?_⟩
    · simp only [removalTurn, ho, kept, comment, hn, ok_bind, pure_eq_ok]
    · rw [← behind, dropWhile_ne_self (not_mem_of_findChar?_eq_none hn), Option.elim_none]
  | some lineFeed =>
    obtain ⟨line, next, hline, rfl, first⟩ := eq_append_of_findChar? hn
    have left : sliceFrom rest (before.utf8ByteSize + line.utf8ByteSize) =
        .ok (String.singleton '\n' ++ next) := by
      rw [hrest, hline, ← String.append_assoc, ← String.utf8ByteSize_append, sliceFrom_append]
    refine ⟨some (String.singleton '\n' ++ next), ?_, ?_, ?_⟩
    · simp only [removalTurn, ho, kept, comment, hn, left, ok_bind, pure_eq_ok]
    · have ne : line ≠ "" := by
        rintro rfl
        have head := congrArg (fun s : String => s.toList.head?) hline
        simp at head
      have size := congrArg String.utf8ByteSize hrest
      have pos := String.utf8ByteSize_eq_zero_iff.not.mpr ne
      rw [hline, String.utf8ByteSize_append, String.utf8ByteSize_append] at size
      rintro r ⟨rfl⟩
      omega
    · rw [← behind, hline, String.toList_append, String.toList_append, String.toList_singleton,
        List.singleton_append, dropWhile_ne first, Option.elim_some, String.toList_append,
        String.toList_singleton, List.singleton_append]

theorem removalTurn_block (out : String) (hrest : rest = before ++ ("/*" ++ after))
    (ho : opener? rest = some (before.utf8ByteSize, .block)) :
    (cut? ("*/" : String).toList after.toList = none ∧
      removalTurn out rest = .ok (out ++ (before ++ "/*"), some after)) ∨
    ∃ inside next : String, after = inside ++ "*/" ++ next ∧
      cut? ("*/" : String).toList after.toList = some (inside.toList, next.toList) ∧
      removalTurn out rest = .ok (out ++ before ++ String.ofList
        (Comment.separator (out ++ before).toList.getLast? next.toList.head?), some next) := by
  have kept : sliceTo rest before.utf8ByteSize = .ok before := by
    rw [hrest, sliceTo_append]
  have opened : before.utf8ByteSize + 2 = (before ++ "/*").utf8ByteSize := by
    rw [String.utf8ByteSize_append]
    rfl
  have body : sliceFrom rest (before.utf8ByteSize + 2) = .ok after := by
    rw [hrest, opened, ← String.append_assoc, sliceFrom_append]
  have unclosed : sliceTo rest (before.utf8ByteSize + 2) = .ok (before ++ "/*") := by
    rw [hrest, opened, ← String.append_assoc, sliceTo_append]
  cases hc : find? "*/" after with
  | none =>
    refine .inl ⟨cut?_of_find?_eq_none (by decide) hc, ?_⟩
    simp only [removalTurn, ho, body, hc, unclosed, ok_bind, pure_eq_ok]
  | some close =>
    obtain ⟨inside, next, hafter, rfl, cut⟩ := eq_append_of_find? (by decide) hc
    have closed : inside.utf8ByteSize + 2 = (inside ++ "*/").utf8ByteSize := by
      rw [String.utf8ByteSize_append]
      rfl
    have left : sliceFrom after (inside.utf8ByteSize + 2) = .ok next := by
      rw [hafter, closed, sliceFrom_append]
    refine .inr ⟨inside, next, hafter, cut, ?_⟩
    simp only [removalTurn, ho, kept, body, hc, left, ok_bind, pure_eq_ok]

theorem removalTurn_advances : Turn.Advances removalTurn removal := by
  intro out rest
  cases ho : opener? rest with
  | none =>
    refine ⟨out ++ rest, none, by simp [removalTurn, ho], by simp, ?_⟩
    have none := opening?_of_opener?_eq_none ho
    simp [removal, Comment.removeAfter_of_none none]
  | some opener =>
    obtain ⟨start, style⟩ := opener
    obtain ⟨before, after, hrest, rfl, opening⟩ := eq_append_of_opener? ho
    cases style with
    | line =>
      obtain ⟨rest', turned, shorter, left⟩ := removalTurn_line out hrest ho
      refine ⟨out ++ before, rest', turned, shorter, ?_⟩
      rw [removal, Comment.removeAfter_of_line opening, left, removal_append, String.toList_append]
      cases rest' with
      | none => simp [removal, Comment.removeAfter_of_none (s := []) rfl]
      | some rest' => rfl
    | block =>
      have size : rest.utf8ByteSize = before.utf8ByteSize + (2 + after.utf8ByteSize) := by
        rw [hrest, String.utf8ByteSize_append, String.utf8ByteSize_append]
        rfl
      obtain ⟨none, turned⟩ | ⟨inside, next, hafter, cut, turned⟩ :=
        removalTurn_block out hrest ho
      · refine ⟨_, _, turned, by simp; omega, ?_⟩
        rw [removal, Comment.removeAfter_of_unclosed opening none]
        simp [removal]
      · refine ⟨_, _, turned, ?_, ?_⟩
        · have := congrArg String.utf8ByteSize hafter
          simp only [String.utf8ByteSize_append] at this
          simp
          omega
        · rw [removal, Comment.removeAfter_of_closed opening cut, removal_append]
          simp [Comment.lastOf]

def removalLoop : Loop := ⟨removalTurn, removalTurn_advances.shorter⟩

/-- The text without its comments. -/
def remove (s : String) : Except SliceFault String := removalLoop.run "" s

theorem remove_eq (s : String) : remove s = .ok (String.ofList (Comment.remove s.toList)) := by
  rw [remove, Loop.run_eq removalTurn_advances]
  rfl

end Turn

end Offset
end Dialect
