import Dialect.Proofs.Nesting
import Dialect.Proofs.Offset.Search

/-!
# Groups and pieces at byte offsets

The reading of quotes and nesting reports the offsets of parentheses and commas.  A group
is cut out behind its opening parenthesis and before the one that is reported to close
it, and a list before and behind each outermost comma.  These characters are all one
byte long, so the offset behind one is its own offset and one.
-/

namespace Dialect
namespace Offset

/-- The parentheses and commas outside quotes, with their offsets. -/
def structural (r : Reading) : List (Nat × Char) → List (Nat × Role)
  | [] => []
  | (i, c) :: s =>
    if r.role c = .plain then structural (r.step c) s
    else (i, r.role c) :: structural (r.step c) s

def structuralChars (s : String) : List (Nat × Role) := structural .start (charIndices s)

/-- The offset of the parenthesis that closes the one at the beginning. -/
def matchingClose? (s : String) : Option Nat :=
  ((structuralChars s).find? fun p => p.2 = .closing 1).map Prod.fst

/-- The text before each outermost comma, from `start` on, and the text after the last. -/
def cutAtCommas (s : String) (start : Nat) : List (Nat × Role) → Except SliceFault (List String)
  | [] => return [← sliceFrom s start]
  | (i, role) :: places =>
    if role = .comma 0 then return (← slice s start i) :: (← cutAtCommas s (i + 1) places)
    else cutAtCommas s start places

/-- The pieces without the space at their ends, and without the empty ones. -/
def tidy (pieces : List String) : List String :=
  (pieces.map fun piece => String.ofList (trim piece.toList)).filter (! ·.isEmpty)

def outermostPieces (s : String) : Except SliceFault (List String) := do
  return tidy (← cutAtCommas s 0 (structuralChars s))

section Structure

open Reading

variable {r : Reading} {x : Role} {i : Nat} {s t : Text}

theorem offsets_append (i : Nat) (s t : Text) :
    offsets i (s ++ t) = offsets i s ++ offsets (i + (String.ofList s).utf8ByteSize) t := by
  induction s generalizing i with
  | nil => rfl
  | cons c s ih =>
    rw [List.cons_append, offsets, offsets, List.cons_append, ih, utf8ByteSize_ofList_cons,
      Nat.add_assoc, Nat.add_comm c.utf8Size]

theorem structural_append (r : Reading) (i : Nat) (s t : Text) :
    structural r (offsets i (s ++ t)) =
      structural r (offsets i s) ++
        structural (r.run s) (offsets (i + (String.ofList s).utf8ByteSize) t) := by
  rw [offsets_append]
  generalize offsets (i + (String.ofList s).utf8ByteSize) t = rest
  induction s generalizing r i with
  | nil => rfl
  | cons c s ih =>
    rw [offsets, List.cons_append, structural, structural, ih, run_cons]
    split <;> rfl

theorem structural_avoids (h : r.Avoids x s) : ∀ p ∈ structural r (offsets i s), p.2 ≠ x := by
  induction s generalizing r i with
  | nil => simp [offsets, structural]
  | cons c s ih =>
    obtain ⟨hc, hs⟩ := avoids_cons.mp h
    rw [offsets, structural]
    split
    · exact ih hs
    · exact List.forall_mem_cons.mpr ⟨hc, ih hs⟩

/-- The first place with a role that is not plain. -/
theorem structural_first (hs : r.Avoids x s) {c : Char} (hc : (r.run s).role c = x)
    (hx : x ≠ .plain) (i : Nat) (t : Text) :
    ∃ before, structural r (offsets i (s ++ c :: t)) =
        before ++ (i + (String.ofList s).utf8ByteSize, x) ::
          structural ((r.run s).step c)
            (offsets (i + (String.ofList s).utf8ByteSize + c.utf8Size) t) ∧
      ∀ p ∈ before, p.2 ≠ x := by
  refine ⟨structural r (offsets i s), ?_, structural_avoids hs⟩
  rw [structural_append, offsets, structural, hc, if_neg hx]

end Structure

section Groups

open Reading

theorem avoids_opened {t : Text} (h : Avoids ⟨none, 1⟩ (.closing 1) t) :
    start.Avoids (.closing 1) ('(' :: t) :=
  avoids_cons.mpr ⟨by decide, h⟩

theorem matchingClose?_of_avoids {s : String} (h : start.Avoids (.closing 1) s.toList) :
    matchingClose? s = none := by
  have none := structural_avoids (i := 0) h
  rw [matchingClose?, structuralChars, charIndices, Option.map_eq_none_iff, List.find?_eq_none]
  simpa using none

theorem matchingClose?_of_closed {inside : Text} (h : Avoids ⟨none, 1⟩ (.closing 1) inside)
    (hrun : run ⟨none, 1⟩ inside = ⟨none, 1⟩) (rest : Text) :
    matchingClose? (String.ofList ('(' :: (inside ++ ')' :: rest))) =
      some (String.ofList ('(' :: inside)).utf8ByteSize := by
  have closes : (start.run ('(' :: inside)).role ')' = .closing 1 :=
    congrArg (role · ')') hrun
  obtain ⟨before, places, skipped⟩ :=
    structural_first (avoids_opened h) closes (by simp) 0 rest
  rw [matchingClose?, structuralChars, charIndices, String.toList_ofList, ← List.cons_append,
    places, List.find?_append, List.find?_eq_none.mpr (by simpa using skipped), Option.none_or,
    List.find?_cons_of_pos (by simp), Option.map_some, Nat.zero_add]

theorem matchingClose?_eq {s : String} (h : s.toList.head? = some '(') :
    matchingClose? s =
      (group? s.toList).map fun p => (String.ofList ('(' :: p.1)).utf8ByteSize := by
  obtain ⟨t, ht⟩ := List.head?_eq_some_iff.mp h
  by_cases closed : Avoids ⟨none, 1⟩ (.closing 1) t
  · rw [matchingClose?_of_avoids (ht ▸ avoids_opened closed), ht, group?_eq_none closed]
    rfl
  · obtain ⟨inside, c, rest, rfl, hin, hc⟩ := exists_first closed
    obtain ⟨hrun, rfl⟩ := eq_of_role_closing_depth hc
    obtain rfl : s = String.ofList ('(' :: (inside ++ ')' :: rest)) := by
      rw [← ht, String.ofList_toList]
    rw [matchingClose?_of_closed hin hrun, String.toList_ofList,
      group?_of_balanced (balanced_of_avoids hin hrun)]
    rfl

/-- The parenthesis that is found is the one that closes the group, and the group is cut
out behind the opening one and before it. -/
theorem matchingClose?_cases {s : String} (h : s.toList.head? = some '(') :
    (matchingClose? s = none ∧ group? s.toList = none) ∨
    ∃ close inside rest, matchingClose? s = some close ∧ group? s.toList = some (inside, rest) ∧
      slice s 1 close = .ok (String.ofList inside) ∧
      sliceFrom s (close + 1) = .ok (String.ofList rest) := by
  have found := matchingClose?_eq h
  cases hg : group? s.toList with
  | none => exact .inl ⟨by rw [found, hg, Option.map_none], rfl⟩
  | some p =>
    obtain ⟨inside, rest⟩ := p
    have whole : s = "(" ++ String.ofList inside ++ (")" ++ String.ofList rest) :=
      String.toList_inj.mp (by simp [eq_append_of_group? hg])
    have front : String.ofList ('(' :: inside) = "(" ++ String.ofList inside :=
      String.toList_inj.mp (by simp)
    have behind : ("(" ++ String.ofList inside).utf8ByteSize + 1 =
        ("(" ++ String.ofList inside ++ ")").utf8ByteSize := by
      rw [String.utf8ByteSize_append (t := ")")]
      rfl
    rw [hg, Option.map_some, front] at found
    refine .inr ⟨_, inside, rest, found, rfl, ?_, ?_⟩
    · rw [whole]
      exact slice_append "(" (String.ofList inside) (")" ++ String.ofList rest)
    · rw [whole, behind, ← String.append_assoc, sliceFrom_append]

end Groups

section Pieces

open Reading

theorem cutAtCommas_append (s : String) (i : Nat) {before : List (Nat × Role)}
    (h : ∀ p ∈ before, p.2 ≠ .comma 0) (places : List (Nat × Role)) :
    cutAtCommas s i (before ++ places) = cutAtCommas s i places := by
  induction before with
  | nil => rfl
  | cons p before ih =>
    rw [List.cons_append, cutAtCommas, if_neg (h p List.mem_cons_self),
      ih fun q hq => h q (List.mem_cons_of_mem p hq)]

theorem tidy_cons (s : Text) (pieces : List String) :
    tidy (String.ofList s :: pieces) =
      ([trim s].filter (! ·.isEmpty)).map String.ofList ++ tidy pieces := by
  have empty : (String.ofList (trim s)).isEmpty = (trim s).isEmpty := by
    rw [Bool.eq_iff_iff, String.isEmpty_iff, ← String.toList_inj, String.toList_ofList,
      List.isEmpty_iff, String.toList_empty]
  rw [tidy, List.map_cons, List.filter_cons, List.filter_cons, String.toList_ofList, empty]
  split <;> rfl

/-- The pieces of the rest of a list, where `a` stands in front of it. -/
theorem cutAtCommas_eq (a : String) (s : Text) :
    ∃ pieces, cutAtCommas (a ++ String.ofList s) a.utf8ByteSize
        (structural .start (offsets a.utf8ByteSize s)) = .ok pieces ∧
      tidy pieces = (Dialect.outermostPieces s).map String.ofList := by
  induction s using outermost_induction generalizing a with
  | piece s hs =>
    have skipped := cutAtCommas_append (a ++ String.ofList s) a.utf8ByteSize
      (structural_avoids (i := a.utf8ByteSize) hs) []
    rw [List.append_nil] at skipped
    refine ⟨[String.ofList s], ?_, ?_⟩
    · rw [skipped, cutAtCommas, sliceFrom_append]
      rfl
    · rw [outermostPieces_of_avoids hs, tidy_cons]
      exact List.append_nil _
  | list s t hs hrun ih =>
    obtain ⟨pieces, cut, same⟩ := ih (a ++ String.ofList s ++ ",")
    have comma : (start.run s).role ',' = .comma 0 := by
      rw [hrun]
      rfl
    obtain ⟨before, places, skipped⟩ := structural_first hs comma (by simp) a.utf8ByteSize t
    have whole : a ++ String.ofList (s ++ ',' :: t) =
        a ++ String.ofList s ++ ("," ++ String.ofList t) :=
      String.toList_inj.mp (by simp)
    have behind : a.utf8ByteSize + (String.ofList s).utf8ByteSize + 1 =
        (a ++ String.ofList s ++ ",").utf8ByteSize := by
      simp only [String.utf8ByteSize_append]
      rfl
    have first : slice (a ++ String.ofList (s ++ ',' :: t)) a.utf8ByteSize
        (a.utf8ByteSize + (String.ofList s).utf8ByteSize) = .ok (String.ofList s) := by
      rw [whole, ← String.utf8ByteSize_append, slice_append]
    have others : cutAtCommas (a ++ String.ofList (s ++ ',' :: t))
        (a.utf8ByteSize + (String.ofList s).utf8ByteSize + 1)
        (structural ((start.run s).step ',')
          (offsets (a.utf8ByteSize + (String.ofList s).utf8ByteSize + 1) t)) = .ok pieces := by
      rw [whole, ← String.append_assoc, behind, hrun]
      exact cut
    refine ⟨String.ofList s :: pieces, ?_, ?_⟩
    · have size : ','.utf8Size = 1 := rfl
      rw [places, cutAtCommas_append _ _ skipped, cutAtCommas, if_pos rfl, first, size, others]
      rfl
    · rw [outermostPieces_append hrun, outermostPieces_of_avoids hs, tidy_cons, same,
        List.map_append]

theorem outermostPieces_eq (s : String) :
    outermostPieces s = .ok ((Dialect.outermostPieces s.toList).map String.ofList) := by
  obtain ⟨pieces, cut, same⟩ := cutAtCommas_eq "" s.toList
  rw [String.empty_append, String.ofList_toList] at cut
  have pieced : cutAtCommas s 0 (structuralChars s) = .ok pieces := cut
  rw [outermostPieces, pieced, ← same]
  rfl

end Pieces

end Offset
end Dialect
