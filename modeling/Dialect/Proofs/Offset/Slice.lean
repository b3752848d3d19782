import Dialect.Text.Blank

/-!
# Slices at byte offsets

A string is held as its UTF-8 bytes, and a part of it is named by the byte offsets
of its two ends.  A slice faults when an offset is out of range, when its end comes
before its start, and when an offset falls inside a character.

A slice of a string that is put together from three strings is the one in the middle
when its offsets are the sizes of what stands before its two ends.  Every slice of the
development is taken by that law, so no proof looks at a byte offset in any other way.
-/

namespace Dialect
namespace Offset

/-- Why a string cannot be cut at two offsets. -/
inductive SliceFault where
  | outOfRange (s : String) (i j : Nat)
  | reversed (s : String) (i j : Nat)
  | insideCharacter (s : String) (i j : Nat)
  deriving DecidableEq, Repr

section Faults

variable {α β : Type}

@[simp]
theorem pure_eq_ok (a : α) : (pure a : Except SliceFault α) = .ok a := rfl

@[simp]
theorem ok_bind (a : α) (f : α → Except SliceFault β) : (Except.ok a >>= f) = f a := rfl

theorem mapM_ok {f : α → Except SliceFault β} {g : α → β} (h : ∀ a, f a = .ok (g a))
    (as : List α) : as.mapM f = .ok (as.map g) := by
  obtain rfl : f = fun a => pure (g a) := funext h
  exact List.mapM_pure

end Faults

/-- The bytes from offset `i` to offset `j`. -/
def slice (s : String) (i j : Nat) : Except SliceFault String :=
  if s.utf8ByteSize < i ∨ s.utf8ByteSize < j then .error (.outOfRange s i j)
  else if j < i then .error (.reversed s i j)
  else if h : String.Pos.Raw.IsValid s ⟨i⟩ ∧ String.Pos.Raw.IsValid s ⟨j⟩ then
    .ok (s.extract ⟨⟨i⟩, h.1⟩ ⟨⟨j⟩, h.2⟩)
  else .error (.insideCharacter s i j)

/-- The bytes before offset `i`. -/
def sliceTo (s : String) (i : Nat) : Except SliceFault String := slice s 0 i

/-- The bytes from offset `i` on. -/
def sliceFrom (s : String) (i : Nat) : Except SliceFault String := slice s i s.utf8ByteSize

theorem slice_append (a m z : String) :
    slice (a ++ m ++ z) a.utf8ByteSize (a ++ m).utf8ByteSize = .ok m := by
  have range : ¬ ((a ++ m ++ z).utf8ByteSize < a.utf8ByteSize ∨
      (a ++ m ++ z).utf8ByteSize < (a ++ m).utf8ByteSize) := by
    simp only [String.utf8ByteSize_append]
    omega
  have order : ¬ (a ++ m).utf8ByteSize < a.utf8ByteSize := by
    rw [String.utf8ByteSize_append]
    omega
  have start : String.Pos.Raw.IsValid (a ++ m ++ z) ⟨a.utf8ByteSize⟩ :=
    String.Pos.Raw.isValid_iff_exists_append.mpr ⟨a, m ++ z, String.append_assoc, rfl⟩
  have stop : String.Pos.Raw.IsValid (a ++ m ++ z) ⟨(a ++ m).utf8ByteSize⟩ :=
    String.Pos.Raw.isValid_iff_exists_append.mpr ⟨a ++ m, z, rfl, rfl⟩
  rw [slice, if_neg range, if_neg order, dif_pos ⟨start, stop⟩]
  refine congrArg Except.ok (String.toByteArray_inj.mp ?_)
  calc (a ++ m ++ z).toByteArray.extract a.utf8ByteSize (a ++ m).utf8ByteSize
      = (a ++ m).toByteArray.extract a.utf8ByteSize (a ++ m).utf8ByteSize := by
        rw [String.toByteArray_append]
        exact ByteArray.extract_append_size_left
    _ = m.toByteArray := by
        rw [String.toByteArray_append]
        exact ByteArray.extract_append_eq_right rfl String.utf8ByteSize_append

theorem sliceTo_append (a z : String) : sliceTo (a ++ z) a.utf8ByteSize = .ok a := by
  simpa [sliceTo] using slice_append "" a z

theorem sliceFrom_append (a z : String) : sliceFrom (a ++ z) a.utf8ByteSize = .ok z := by
  simpa [sliceFrom] using slice_append a z ""

theorem utf8ByteSize_ofList_cons (c : Char) (s : Text) :
    (String.ofList (c :: s)).utf8ByteSize = (String.ofList s).utf8ByteSize + c.utf8Size := by
  rw [← List.singleton_append, String.ofList_append, String.utf8ByteSize_append, Nat.add_comm]
  simp

/-- Of two prefixes of a text, the one with fewer bytes has fewer characters. -/
theorem utf8ByteSize_lt_iff {a b s : Text} (ha : a <+: s) (hb : b <+: s) :
    (String.ofList a).utf8ByteSize < (String.ofList b).utf8ByteSize ↔ a.length < b.length := by
  rcases List.prefix_or_prefix_of_prefix ha hb with ⟨t, rfl⟩ | ⟨t, rfl⟩
  · cases t with
    | nil => simp
    | cons c t =>
      have := c.utf8Size_pos
      simp only [String.ofList_append, String.utf8ByteSize_append, utf8ByteSize_ofList_cons,
        List.length_append, List.length_cons]
      omega
  · simp only [String.ofList_append, String.utf8ByteSize_append, List.length_append]
    omega

section Halves

variable {s : String} {a b : Text}

theorem eq_append_of_toList (h : a ++ b = s.toList) : s = String.ofList a ++ String.ofList b := by
  rw [← String.ofList_append, h, String.ofList_toList]

theorem sliceTo_of_toList (h : a ++ b = s.toList) :
    sliceTo s (String.ofList a).utf8ByteSize = .ok (String.ofList a) := by
  rw [eq_append_of_toList h, sliceTo_append]

theorem sliceFrom_of_toList (h : a ++ b = s.toList) :
    sliceFrom s (String.ofList a).utf8ByteSize = .ok (String.ofList b) := by
  rw [eq_append_of_toList h, sliceFrom_append]

end Halves

/-- A turn of a loop that writes one string while it cuts another one down: from what is
written and what is left to the same two.  The loop ends when nothing is left behind. -/
abbrev Turn : Type := String → String → Except SliceFault (String × Option String)

structure Loop where
  turn : Turn
  shorter : ∀ {out rest out' rest' : String}, turn out rest = .ok (out', some rest') →
    rest'.utf8ByteSize < rest.utf8ByteSize

def Loop.run (l : Loop) (out rest : String) : Except SliceFault String :=
  match _h : l.turn out rest with
  | .error fault => .error fault
  | .ok (out, none) => .ok out
  | .ok (out, some rest) => l.run out rest
termination_by rest.utf8ByteSize
decreasing_by exact l.shorter _h

/-- What a turn does for a loop that writes what `meaning` says.  It cuts without a fault
and leaves less than it finds, and what is written in the end stays the same. -/
def Turn.Advances (turn : Turn) (meaning : Text → Text → Text) : Prop :=
  ∀ out rest, ∃ out' rest', turn out rest = .ok (out', rest') ∧
    (∀ r ∈ rest', r.utf8ByteSize < rest.utf8ByteSize) ∧
    meaning out.toList rest.toList = rest'.elim out'.toList fun r => meaning out'.toList r.toList

section Run

variable {turn : Turn} {meaning : Text → Text → Text} {l : Loop}

theorem Turn.Advances.shorter (h : turn.Advances meaning) {out rest out' rest' : String}
    (done : turn out rest = .ok (out', some rest')) : rest'.utf8ByteSize < rest.utf8ByteSize := by
  obtain ⟨_, _, turned, shorter, _⟩ := h out rest
  obtain ⟨rfl, rfl⟩ := Prod.mk.inj (Except.ok.inj (done.symm.trans turned))
  exact shorter rest' rfl

theorem Loop.run_eq (h : l.turn.Advances meaning) (out rest : String) :
    l.run out rest = .ok (String.ofList (meaning out.toList rest.toList)) := by
  fun_induction l.run out rest with
  | case1 out rest fault done =>
    obtain ⟨_, _, turned, _⟩ := h out rest
    rw [done] at turned
    contradiction
  | case2 out rest out' done =>
    obtain ⟨_, _, turned, _, written⟩ := h out rest
    obtain ⟨rfl, rfl⟩ := Prod.mk.inj (Except.ok.inj (done.symm.trans turned))
    rw [written, Option.elim_none, String.ofList_toList]
  | case3 out rest out' rest' done ih =>
    obtain ⟨_, _, turned, _, written⟩ := h out rest
    obtain ⟨rfl, rfl⟩ := Prod.mk.inj (Except.ok.inj (done.symm.trans turned))
    rw [written, Option.elim_some, ih]

end Run

end Offset
end Dialect
