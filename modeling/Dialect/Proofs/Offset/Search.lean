import Dialect.Proofs.Comment.Scan
import Dialect.Proofs.Offset.Slice
import Dialect.Text.Word
import Mathlib.Data.List.Infix

/-!
# Where something stands in a string

The offsets at which strings are cut come from searches: for a mark, byte by byte, and
for a character of a class, with the characters numbered by their offsets.  A search for
a mark knows nothing of characters.  It finds them all the same, because no character
has a byte in it, other than its first, that begins a character.  So the offset that
a search finds is the size of the text before the mark.
-/

namespace Dialect
namespace Offset

/-- How many bytes stand before the first occurrence of `mark`. -/
def findBytes? (mark : List UInt8) : List UInt8 → Option Nat
  | [] => none
  | b :: s =>
    if mark.isPrefixOf (b :: s) then some 0
    else (findBytes? mark s).map (· + 1)

def bytes (s : String) : List UInt8 := s.toByteArray.data.toList

/-- The offset of the first occurrence of `mark`. -/
def find? (mark s : String) : Option Nat := findBytes? (bytes mark) (bytes s)

def findChar? (c : Char) (s : String) : Option Nat := find? (String.singleton c) s

/-- The characters of a text with their offsets, where the first one stands at `i`. -/
def offsets (i : Nat) : Text → List (Nat × Char)
  | [] => []
  | c :: s => (i, c) :: offsets (i + c.utf8Size) s

def charIndices (s : String) : List (Nat × Char) := offsets 0 s.toList

/-- The offset of the first character that does not continue a word, or of the end. -/
def wordEnd (s : String) : Nat :=
  (((charIndices s).find? fun p => ! continuesWord p.2).map Prod.fst).getD s.utf8ByteSize

section Bytes

variable {a c : Char} {mark s : Text} {w z : List UInt8}

/-- The bytes of a text, one character after the other. -/
def encode (s : Text) : List UInt8 := s.flatMap String.utf8EncodeChar

theorem bytes_eq (s : String) : bytes s = encode s.toList := by
  have whole : s.toByteArray = s.toList.utf8Encode := by
    rw [← String.toByteArray_ofList, String.ofList_toList]
  rw [bytes, whole, List.utf8Encode, encode, List.data_toByteArray]

theorem encode_cons (c : Char) (s : Text) : encode (c :: s) = String.utf8EncodeChar c ++ encode s :=
  List.flatMap_cons

/-- The bytes of a character tell it from every other one. -/
theorem eq_of_encode_append (h : String.utf8EncodeChar a ++ w = String.utf8EncodeChar c ++ z) :
    a = c := by
  have ha := ByteArray.utf8DecodeChar?_utf8EncodeChar_append (b := w.toByteArray) (c := a)
  have hc := ByteArray.utf8DecodeChar?_utf8EncodeChar_append (b := z.toByteArray) (c := c)
  rw [← List.toByteArray_append, h, List.toByteArray_append, hc] at ha
  exact (Option.some.inj ha).symm

theorem encode_prefix_iff : encode mark <+: encode s ↔ mark <+: s := by
  induction mark generalizing s with
  | nil => simp [encode]
  | cons a mark ih =>
    cases s with
    | nil => simp [encode, String.utf8EncodeChar_ne_nil]
    | cons c s =>
      rw [encode_cons, encode_cons, List.cons_prefix_cons, ← ih]
      constructor
      · rintro ⟨w, h⟩
        rw [List.append_assoc] at h
        obtain rfl := eq_of_encode_append h
        exact ⟨rfl, w, List.append_cancel_left h⟩
      · rintro ⟨rfl, h⟩
        exact (List.prefix_append_right_inj _).mpr h

/-- Only the first byte of a character begins one. -/
theorem utf8EncodeChar_eq_cons (c : Char) : ∃ b w, String.utf8EncodeChar c = b :: w ∧
    b.IsUTF8FirstByte ∧ ∀ d ∈ w, ¬ d.IsUTF8FirstByte := by
  obtain ⟨b, w, h⟩ := List.exists_cons_of_ne_nil (String.utf8EncodeChar_ne_nil (c := c))
  have first := @UInt8.isUTF8FirstByte_getElem_utf8EncodeChar c
  rw [h] at first
  refine ⟨b, w, h, (@first 0 (by simp)).mpr rfl, fun d hd hf => ?_⟩
  obtain ⟨i, hi, rfl⟩ := List.mem_iff_getElem.mp hd
  exact Nat.succ_ne_zero i ((@first (i + 1) (Nat.succ_lt_succ hi)).mp hf)

/-- A mark is not found where no character begins. -/
theorem findBytes?_append (hw : ∀ b ∈ w, ¬ b.IsUTF8FirstByte) (a : Char) (mark : Text)
    (z : List UInt8) :
    findBytes? (encode (a :: mark)) (w ++ z) =
      (findBytes? (encode (a :: mark)) z).map (· + w.length) := by
  induction w with
  | nil => simp
  | cons b w ih =>
    obtain ⟨d, v, ha, hd, _⟩ := utf8EncodeChar_eq_cons a
    have differ : d ≠ b := by
      rintro rfl
      exact hw d List.mem_cons_self hd
    have miss : (encode (a :: mark)).isPrefixOf (b :: (w ++ z)) = false := by
      simp [encode_cons, ha, List.isPrefixOf, differ]
    rw [List.cons_append, findBytes?, miss, if_neg (by simp),
      ih fun d hd => hw d (List.mem_cons_of_mem b hd), Option.map_map]
    rfl

/-- A search over the bytes of a text steps from character to character. -/
theorem findBytes?_encode_cons (a : Char) (mark : Text) (c : Char) (s : Text) :
    findBytes? (encode (a :: mark)) (encode (c :: s)) =
      if (a :: mark).isPrefixOf (c :: s) then some 0
      else (findBytes? (encode (a :: mark)) (encode s)).map (· + c.utf8Size) := by
  have here : (encode (a :: mark)).isPrefixOf (encode (c :: s)) =
      (a :: mark).isPrefixOf (c :: s) := by
    rw [Bool.eq_iff_iff, List.isPrefixOf_iff_prefix, List.isPrefixOf_iff_prefix, encode_prefix_iff]
  obtain ⟨b, w, hc, _, hw⟩ := utf8EncodeChar_eq_cons c
  have size : c.utf8Size = w.length + 1 := by
    rw [← String.length_utf8EncodeChar, hc, List.length_cons]
  rw [← here, encode_cons c, hc, List.cons_append, findBytes?, findBytes?_append hw, Option.map_map,
    size]
  rfl

/-- The offset that a search for a mark finds is the size of the text before it. -/
theorem find?_eq {mark : String} (hne : mark.toList ≠ []) (s : String) :
    find? mark s =
      (cut? mark.toList s.toList).map fun p => (String.ofList p.1).utf8ByteSize := by
  obtain ⟨a, m, hm⟩ := List.exists_cons_of_ne_nil hne
  rw [find?, bytes_eq, bytes_eq, hm]
  induction s.toList with
  | nil => rfl
  | cons c s ih =>
    rw [findBytes?_encode_cons, cut?, ih]
    split
    · rfl
    · simp only [Option.map_map, Function.comp_def, utf8ByteSize_ofList_cons]

end Bytes

section Places

variable {mark s : String} {c : Char} {i : Nat}

theorem cut?_of_find?_eq_none (hne : mark.toList ≠ []) (h : find? mark s = none) :
    cut? mark.toList s.toList = none := by
  rw [find?_eq hne, Option.map_eq_none_iff] at h
  exact h

/-- What is found is the first occurrence, and its offset is the size of what stands
before it. -/
theorem eq_append_of_find? (hne : mark.toList ≠ []) (h : find? mark s = some i) :
    ∃ before after : String, s = before ++ mark ++ after ∧ before.utf8ByteSize = i ∧
      cut? mark.toList s.toList = some (before.toList, after.toList) := by
  rw [find?_eq hne] at h
  obtain ⟨⟨before, after⟩, hc, hi⟩ := Option.map_eq_some_iff.mp h
  refine ⟨String.ofList before, String.ofList after, ?_, hi, by simpa using hc⟩
  rw [← String.ofList_toList (s := s), eq_append_of_cut? hc, String.ofList_append,
    String.ofList_append, String.ofList_toList]

theorem find?_offsets_getD (p : Char → Bool) {start stop : Nat} {s : Text}
    (h : start + (String.ofList s).utf8ByteSize = stop) :
    (((offsets start s).find? fun q => ! p q.2).map Prod.fst).getD stop =
      start + (String.ofList (s.takeWhile p)).utf8ByteSize := by
  induction s generalizing start with
  | nil => exact h.symm
  | cons c s ih =>
    rw [offsets, List.takeWhile_cons, List.find?_cons]
    rw [utf8ByteSize_ofList_cons] at h
    cases p c with
    | true =>
      simp only [Bool.not_true, if_true, utf8ByteSize_ofList_cons]
      rw [ih (by omega)]
      omega
    | false => simp

theorem wordEnd_eq (s : String) :
    wordEnd s = (String.ofList (leadingWord s.toList)).utf8ByteSize := by
  rw [wordEnd, charIndices, find?_offsets_getD continuesWord (by simp), Nat.zero_add]
  rfl

/-- A string is cut in two behind its leading word. -/
theorem sliceTo_wordEnd (s : String) :
    sliceTo s (wordEnd s) = .ok (String.ofList (leadingWord s.toList)) := by
  rw [wordEnd_eq]
  exact sliceTo_of_toList (leadingWord_append_afterWord s.toList)

theorem sliceFrom_wordEnd (s : String) :
    sliceFrom s (wordEnd s) = .ok (String.ofList (afterWord s.toList)) := by
  rw [wordEnd_eq]
  exact sliceFrom_of_toList (leadingWord_append_afterWord s.toList)

theorem not_mem_of_cut?_singleton {s before after : Text} (h : cut? [c] s = some (before, after)) :
    c ∉ before := by
  induction s generalizing before with
  | nil => simp [cut?] at h
  | cons d s ih =>
    by_cases hd : c = d
    · subst hd
      simp only [cut?, List.isPrefixOf, BEq.rfl, Bool.and_self, if_true, Option.some.injEq,
        Prod.mk.injEq] at h
      simp [← h.1]
    · rw [cut?_cons [c] (by simp [hd])] at h
      obtain ⟨⟨before', _⟩, hc, he⟩ := Option.map_eq_some_iff.mp h
      obtain ⟨rfl, rfl⟩ := Prod.mk.inj he
      simp [hd, ih hc]

theorem not_mem_of_findChar?_eq_none (h : findChar? c s = none) : c ∉ s.toList := by
  have none := cut?_of_find?_eq_none (by simp) h
  rwa [String.toList_singleton, cut?_eq_none_iff (by simp), List.singleton_infix_iff c] at none

/-- The character that is found is the first one of its kind. -/
theorem eq_append_of_findChar? (h : findChar? c s = some i) :
    ∃ before after : String, s = before ++ (String.singleton c ++ after) ∧ before.utf8ByteSize = i ∧
      c ∉ before.toList := by
  obtain ⟨before, after, hs, hi, hc⟩ := eq_append_of_find? (by simp) h
  rw [String.toList_singleton] at hc
  exact ⟨before, after, by rw [hs, String.append_assoc], hi, not_mem_of_cut?_singleton hc⟩

end Places

end Offset
end Dialect
