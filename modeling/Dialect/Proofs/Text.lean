import Dialect.Text.Word

/-!
# Cuts of a text

What the readers of words, blanks and spaces take off a text that is put together
from parts.  Each part is a run of one class of characters, and the text that comes
after it begins with a character outside the class, so the cut falls between the
two parts.
-/

namespace Dialect

theorem takeWhile_run {p : Char → Bool} {t s : Text} (ht : ∀ c ∈ t, p c = true)
    (hs : ∀ c ∈ s.head?, p c = false) : (t ++ s).takeWhile p = t := by
  rw [List.takeWhile_append_of_pos ht]
  cases s with
  | nil => simp
  | cons c s => simp [hs c rfl]

theorem dropWhile_run {p : Char → Bool} {t s : Text} (ht : ∀ c ∈ t, p c = true)
    (hs : ∀ c ∈ s.head?, p c = false) : (t ++ s).dropWhile p = s := by
  rw [List.dropWhile_append_of_pos ht]
  cases s with
  | nil => rfl
  | cons c s => simp [hs c rfl]

/-- A character outside the class ends the run wherever it stands, so what comes
after it does not count. -/
theorem takeWhile_append_cons {α : Type} {p : α → Bool} {c : α} (hc : p c = false)
    (s t : List α) : (s ++ c :: t).takeWhile p = s.takeWhile p := by
  induction s with
  | nil => simp [hc]
  | cons d s ih =>
    rw [List.cons_append, List.takeWhile_cons, List.takeWhile_cons, ih]

theorem dropWhile_append_cons {p : Char → Bool} {c : Char} (hc : p c = false) (s t : Text) :
    (s ++ c :: t).dropWhile p = s.dropWhile p ++ c :: t := by
  induction s with
  | nil => simp [hc]
  | cons d s ih =>
    rw [List.cons_append, List.dropWhile_cons, List.dropWhile_cons, ih]
    split <;> rfl

theorem head?_dropWhile_eq_false {p : Char → Bool} {s : Text} :
    ∀ c ∈ (s.dropWhile p).head?, p c = false := by
  intro c hc
  have h := List.head?_dropWhile_not p s
  rw [Option.mem_def.mp hc] at h
  exact h

theorem head?_append_of_forall {P : Char → Prop} {w : Text} (hne : w ≠ []) (hw : ∀ c ∈ w, P c)
    (s : Text) : ∀ c ∈ (w ++ s).head?, P c := by
  obtain ⟨d, t, rfl⟩ := List.exists_cons_of_ne_nil hne
  intro c hc
  rw [← Option.some.inj hc]
  exact hw d List.mem_cons_self

section Closers

variable {c : Char} {s : Text}

theorem takeWhile_ne (h : c ∉ s) (t : Text) : (s ++ c :: t).takeWhile (· ≠ c) = s :=
  takeWhile_run (fun _ hd => decide_eq_true fun e => h (e ▸ hd)) (by simp)

theorem dropWhile_ne (h : c ∉ s) (t : Text) : (s ++ c :: t).dropWhile (· ≠ c) = c :: t :=
  dropWhile_run (fun _ hd => decide_eq_true fun e => h (e ▸ hd)) (by simp)

theorem takeWhile_ne_self (h : c ∉ s) : s.takeWhile (· ≠ c) = s := by
  simpa using takeWhile_run (p := (· ≠ c)) (s := [])
    (fun _ hd => decide_eq_true fun e => h (e ▸ hd)) (by simp)

theorem dropWhile_ne_self (h : c ∉ s) : s.dropWhile (· ≠ c) = [] := by
  simpa using dropWhile_run (p := (· ≠ c)) (s := [])
    (fun _ hd => decide_eq_true fun e => h (e ▸ hd)) (by simp)

end Closers

/-! ## Capitals -/

theorem continuesWord_toUpper (c : Char) : continuesWord c.toUpper = continuesWord c := by
  by_cases hc : c.toNat < 0x80
  · have all : (List.range 0x80).all (fun n =>
        continuesWord (Char.ofNat n).toUpper == continuesWord (Char.ofNat n)) = true := by
      decide +kernel
    have h := List.all_eq_true.mp all c.toNat (List.mem_range.mpr hc)
    rw [Char.ofNat_toNat] at h
    exact eq_of_beq h
  · have same : c.toUpper = c := by
      unfold Char.toUpper
      split
      · next h =>
        have bound : c.val ≤ 'z'.val := h.2
        have small : c.toNat ≤ 'z'.toNat := UInt32.le_iff_toNat_le.mp bound
        exact absurd (Nat.lt_of_le_of_lt small (by decide)) hc
      · rfl
    rw [same]

theorem continuesWord_of_upper_eq {w k : Text} (hw : upper w = k)
    (hk : k.all continuesWord = true) : ∀ c ∈ w, continuesWord c = true := by
  intro c hc
  have hup : c.toUpper ∈ k := hw ▸ List.mem_map_of_mem hc
  rw [← continuesWord_toUpper]
  exact List.all_eq_true.mp hk _ hup

/-! ## Words and keywords -/

section Words

variable {w s t keyword rest : Text} {c : Char}

theorem leadingWord_append (hw : ∀ c ∈ w, continuesWord c = true)
    (hs : ∀ c ∈ s.head?, continuesWord c = false) : leadingWord (w ++ s) = w :=
  takeWhile_run hw hs

theorem afterWord_append (hw : ∀ c ∈ w, continuesWord c = true)
    (hs : ∀ c ∈ s.head?, continuesWord c = false) : afterWord (w ++ s) = s :=
  dropWhile_run hw hs

theorem leadingWord_append_cons (hc : continuesWord c = false) (s t : Text) :
    leadingWord (s ++ c :: t) = leadingWord s :=
  takeWhile_append_cons hc s t

theorem afterWord_append_cons (hc : continuesWord c = false) (s t : Text) :
    afterWord (s ++ c :: t) = afterWord s ++ c :: t :=
  dropWhile_append_cons hc s t

theorem leadingWord_eq_nil (hs : ∀ c ∈ s.head?, continuesWord c = false) :
    leadingWord s = [] := by
  simpa using leadingWord_append (w := []) (by simp) hs

theorem afterKeyword?_eq_none (hk : keyword ≠ [])
    (hs : ∀ c ∈ s.head?, continuesWord c = false) : afterKeyword? keyword s = none := by
  rw [afterKeyword?, leadingWord_eq_nil hs, if_neg]
  exact fun he => hk he.symm

theorem isSome_afterKeyword?_iff :
    (afterKeyword? keyword s).isSome = true ↔ upper (leadingWord s) = keyword := by
  simp [Option.isSome_iff_exists, afterKeyword?_eq_some_iff]

theorem continuesWord_of_mem_leadingWord (h : c ∈ leadingWord s) : continuesWord c = true := by
  have all := List.all_takeWhile (p := continuesWord) (l := s)
  exact List.all_eq_true.mp all c h

theorem head?_afterWord (s : Text) : ∀ c ∈ (afterWord s).head?, continuesWord c = false :=
  head?_dropWhile_eq_false

theorem afterKeyword?_append (hw : upper w = keyword) (hk : keyword.all continuesWord = true)
    (hs : ∀ c ∈ s.head?, continuesWord c = false) : afterKeyword? keyword (w ++ s) = some s := by
  have word := continuesWord_of_upper_eq hw hk
  exact afterKeyword?_eq_some_iff.mpr
    ⟨(leadingWord_append word hs).symm ▸ hw, afterWord_append word hs⟩

theorem suffix_of_afterKeyword? (h : afterKeyword? keyword s = some rest) : rest <:+ s := by
  rw [← (afterKeyword?_eq_some_iff.mp h).2]
  exact List.dropWhile_suffix _

end Words

/-! ## Blanks -/

section Blanks

variable {b s rest : Text}

theorem skipBlanks_append (hb : ∀ c ∈ b, isBlank c = true)
    (hs : ∀ c ∈ s.head?, isBlank c = false) : skipBlanks (b ++ s) = s :=
  dropWhile_run hb hs

theorem skipBlanks_eq_self (hs : ∀ c ∈ s.head?, isBlank c = false) : skipBlanks s = s :=
  skipBlanks_append (b := []) (by simp) hs

theorem skipBlanks_append_right (hs : ∀ c ∈ s.head?, isBlank c = false) (b : Text) :
    skipBlanks (b ++ s) = skipBlanks b ++ s := by
  cases s with
  | nil => rw [List.append_nil, List.append_nil]
  | cons c s => exact dropWhile_append_cons (hs c rfl) b s

theorem afterBlanks?_append (hne : b ≠ []) (hb : ∀ c ∈ b, isBlank c = true)
    (hs : ∀ c ∈ s.head?, isBlank c = false) : afterBlanks? (b ++ s) = some s := by
  cases b with
  | nil => exact absurd rfl hne
  | cons c b =>
    rw [List.cons_append, afterBlanks?, if_pos (hb c List.mem_cons_self),
      skipBlanks_append (fun d hd => hb d (List.mem_cons_of_mem c hd)) hs]

theorem afterBlanks?_eq_none (hs : ∀ c ∈ s.head?, isBlank c = false) :
    afterBlanks? s = none := by
  cases s with
  | nil => rfl
  | cons c s => simp [afterBlanks?, hs c rfl]

theorem eq_skipBlanks_of_afterBlanks? (h : afterBlanks? s = some rest) : rest = skipBlanks s := by
  cases s with
  | nil => simp [afterBlanks?] at h
  | cons c s =>
    simp only [afterBlanks?, Option.ite_none_right_eq_some, Option.some.injEq] at h
    rw [← h.2, skipBlanks, skipBlanks, List.dropWhile_cons, if_pos h.1]

theorem suffix_of_afterBlanks? (h : afterBlanks? s = some rest) : rest <:+ s := by
  rw [eq_skipBlanks_of_afterBlanks? h]
  exact List.dropWhile_suffix _

theorem isSpace_of_continuesWord {c : Char} (h : continuesWord c = true) : isSpace c = false := by
  apply Bool.eq_false_iff.mpr
  intro hs
  rw [continuesWord_of_isSpace hs] at h
  contradiction

theorem isBlank_of_isSpace {c : Char} (h : isSpace c = false) : isBlank c = false := by
  apply Bool.eq_false_iff.mpr
  intro hb
  rw [isSpace_of_isBlank hb] at h
  contradiction

theorem isBlank_of_continuesWord {c : Char} (h : continuesWord c = true) : isBlank c = false :=
  isBlank_of_isSpace (isSpace_of_continuesWord h)

theorem continuesWord_of_isBlank {c : Char} (h : isBlank c = true) : continuesWord c = false :=
  continuesWord_of_isSpace (isSpace_of_isBlank h)

end Blanks

/-! ## Spaces at the ends -/

theorem ne_of_isSpace {c d : Char} (hc : isSpace c = true) (hd : isSpace d = false) : d ≠ c := by
  rintro rfl
  rw [hc] at hd
  contradiction

structure Trimmed (s : Text) : Prop where
  head : ∀ c ∈ s.head?, isSpace c = false
  last : ∀ c ∈ s.getLast?, isSpace c = false

section Spaces

variable {a b s : Text}

theorem getLast?_append_not_space (ha : ∀ c ∈ a.getLast?, isSpace c = false)
    (hb : ∀ c ∈ b.getLast?, isSpace c = false) : ∀ c ∈ (a ++ b).getLast?, isSpace c = false := by
  intro c hc
  rw [List.getLast?_append] at hc
  cases hl : b.getLast? with
  | none => exact ha c (by simpa [hl] using hc)
  | some d => exact hb c (by simpa [hl] using hc)

theorem getLast?_append_of_ne_nil (h : b ≠ []) (a : Text) : (a ++ b).getLast? = b.getLast? := by
  obtain ⟨c, hc⟩ := Option.ne_none_iff_exists'.mp fun hn => h (List.getLast?_eq_none_iff.mp hn)
  rw [List.getLast?_append, hc, Option.some_or]

theorem trimStart_append (ha : ∀ c ∈ a, isSpace c = true)
    (hs : ∀ c ∈ s.head?, isSpace c = false) : trimStart (a ++ s) = s :=
  dropWhile_run ha hs

theorem trimEnd_append (hb : ∀ c ∈ b, isSpace c = true)
    (hs : ∀ c ∈ s.getLast?, isSpace c = false) : trimEnd (s ++ b) = s := by
  have cut : (b.reverse ++ s.reverse).dropWhile isSpace = s.reverse :=
    dropWhile_run (by simpa using hb) (by simpa using hs)
  rw [trimEnd, List.reverse_append, cut, List.reverse_reverse]

theorem trim_eq_nil (ha : ∀ c ∈ a, isSpace c = true) : trim a = [] := by
  have cut : trimStart a = [] := by
    simpa using trimStart_append (s := []) ha (by simp)
  rw [trim, cut]
  rfl

theorem trim_append (ha : ∀ c ∈ a, isSpace c = true) (hb : ∀ c ∈ b, isSpace c = true)
    (hs : Trimmed s) : trim (a ++ s ++ b) = s := by
  cases s with
  | nil =>
    apply trim_eq_nil
    intro c hc
    simp only [List.append_nil, List.mem_append] at hc
    exact hc.elim (ha c) (hb c)
  | cons c s =>
    have front : trimStart (a ++ (c :: s ++ b)) = c :: s ++ b :=
      trimStart_append ha (fun d hd => hs.head d hd)
    rw [trim, List.append_assoc, front, trimEnd_append hb hs.last]

theorem trimEnd_append_right (hs : ∀ c ∈ s.getLast?, isSpace c = false) (t : Text) :
    trimEnd (s ++ t) = s ++ trimEnd t := by
  by_cases ht : t.reverse.dropWhile isSpace = []
  · have whole : t.reverse.takeWhile isSpace = t.reverse := by
      simpa [ht] using List.takeWhile_append_dropWhile (p := isSpace) (l := t.reverse)
    have spaces : ∀ c ∈ t, isSpace c = true := by
      intro c hc
      rw [← List.mem_reverse, ← whole] at hc
      exact List.all_eq_true.mp List.all_takeWhile c hc
    rw [trimEnd_append spaces hs, trimEnd, ht]
    simp
  · have cut : (t.reverse ++ s.reverse).dropWhile isSpace =
        t.reverse.dropWhile isSpace ++ s.reverse := by
      rw [List.dropWhile_append, if_neg (by simpa using ht)]
    rw [trimEnd, trimEnd, List.reverse_append, cut, List.reverse_append, List.reverse_reverse]

theorem trim_append_right (ha : ∀ c ∈ a, isSpace c = true) (hne : s ≠ []) (hs : Trimmed s)
    (t : Text) : trim (a ++ (s ++ t)) = s ++ trimEnd t := by
  have head : ∀ c ∈ (s ++ t).head?, isSpace c = false := by
    obtain ⟨c, u, rfl⟩ := List.exists_cons_of_ne_nil hne
    exact hs.head
  rw [trim, trimStart_append ha head, trimEnd_append_right hs.last]

theorem trim_eq_self (hs : Trimmed s) : trim s = s := by
  simpa using trim_append (a := []) (b := []) (by simp) (by simp) hs

/-- Trimming takes off spaces at both ends and nothing else. -/
theorem eq_append_trim (s : Text) : ∃ a b, s = a ++ trim s ++ b ∧ Trimmed (trim s) ∧
    (∀ c ∈ a, isSpace c = true) ∧ (∀ c ∈ b, isSpace c = true) := by
  let front := s.takeWhile isSpace
  let middle := s.dropWhile isSpace
  let back := (middle.reverse.takeWhile isSpace).reverse
  have hs : front ++ middle = s := List.takeWhile_append_dropWhile
  have hm : trim s ++ back = middle := by
    rw [trim, trimEnd, ← List.reverse_append]
    exact (congrArg List.reverse List.takeWhile_append_dropWhile).trans (List.reverse_reverse _)
  refine ⟨front, back, ?_, ⟨?_, ?_⟩, ?_, ?_⟩
  · rw [List.append_assoc, hm, hs]
  · intro c hc
    have hd : c ∈ middle.head? := by
      cases ht : trim s with
      | nil => simp [ht] at hc
      | cons d t =>
        rw [ht] at hc hm
        rw [← hm]
        exact hc
    exact head?_dropWhile_eq_false c hd
  · intro c hc
    rw [trim, trimEnd, List.getLast?_reverse] at hc
    exact head?_dropWhile_eq_false c hc
  · exact fun c hc => List.all_eq_true.mp List.all_takeWhile c hc
  · intro c hc
    exact List.all_eq_true.mp List.all_takeWhile c (List.mem_reverse.mp hc)

theorem trim_eq_nil_iff : trim s = [] ↔ ∀ c ∈ s, isSpace c = true := by
  refine ⟨fun h => ?_, trim_eq_nil⟩
  obtain ⟨a, b, hs, _, ha, hb⟩ := eq_append_trim s
  rw [h, List.append_nil] at hs
  intro c hc
  rw [hs] at hc
  exact (List.mem_append.mp hc).elim (ha c) (hb c)

theorem trim_append_trim (ha : ∀ c ∈ a, isSpace c = true) (hb : ∀ c ∈ b, isSpace c = true)
    (s : Text) : trim (a ++ s ++ b) = trim s := by
  obtain ⟨a', b', hs, trimmed, ha', hb'⟩ := eq_append_trim s
  have split : a ++ s ++ b = (a ++ a') ++ trim s ++ (b' ++ b) :=
    (congrArg (a ++ · ++ b) hs).trans (by simp)
  rw [split]
  apply trim_append _ _ trimmed
  · exact fun c hc => (List.mem_append.mp hc).elim (ha c) (ha' c)
  · exact fun c hc => (List.mem_append.mp hc).elim (hb' c) (hb c)

theorem trimmed_trim (s : Text) : Trimmed (trim s) := by
  obtain ⟨_, _, _, h, _⟩ := eq_append_trim s
  exact h

theorem Trimmed.eq_nil_of_spaces (hs : Trimmed s) (h : ∀ c ∈ s, isSpace c = true) : s = [] := by
  cases s with
  | nil => rfl
  | cons c s =>
    have space := h c List.mem_cons_self
    rw [hs.head c rfl] at space
    contradiction

theorem trim_isInfix (s : Text) : trim s <:+: s := by
  obtain ⟨a, b, h, _⟩ := eq_append_trim s
  exact ⟨a, b, h.symm⟩

end Spaces
end Dialect
