import Dialect.Proofs.Clock
import Dialect.Proofs.Name

/-!
# Clock calls on both sides of a cut

A text can be cut where no word and no clock call goes on across the cut.  The part in
front of the cut is replaced on its own.  For the part behind it only one thing counts:
the quoted run that the cut stands in, if it stands in one.
-/

namespace Dialect
namespace Clock

open Reading

/-- No word and no clock call goes on from `s` into `t`. -/
structure Cut (s t : Text) : Prop where
  word : (∀ c ∈ s.getLast?, continuesWord c = false) ∨ ∀ c ∈ t.head?, continuesWord c = false
  call : ∀ c ∈ t.head?, isBlank c = false ∧ c ≠ '(' ∧ c ≠ ')'

/-- A text with its clock calls replaced when a quoted run may be open in front of it. -/
def adaptIn (quote : Option Char) (s : Text) : Text :=
  match quote with
  | none => adapt s
  | some q => (quotedRun q s).1 ++ adapt (quotedRun q s).2

/-! ## Calls at a cut -/

section Calls

variable {t : Text}

theorem afterEmptyParentheses?_append
    (ht : ∀ c ∈ t.head?, isBlank c = false ∧ c ≠ '(' ∧ c ≠ ')') (s : Text) :
    afterEmptyParentheses? (s ++ t) = (afterEmptyParentheses? s).map (· ++ t) := by
  have skip (s : Text) : skipBlanks (s ++ t) = skipBlanks s ++ t :=
    skipBlanks_append_right (fun c hc => (ht c hc).1) s
  rw [afterEmptyParentheses?, afterEmptyParentheses?, skip]
  cases skipBlanks s with
  | nil =>
    rw [List.nil_append]
    split
    · exact absurd rfl (ht '(' rfl).2.1
    · rfl
  | cons d u =>
    by_cases hd : d = '('
    · subst hd
      simp only [List.cons_append, skip]
      cases skipBlanks u with
      | nil =>
        rw [List.nil_append]
        split
        · exact absurd rfl (ht ')' rfl).2.2
        · rfl
      | cons e v =>
        by_cases he : e = ')'
        · subst he
          rfl
        · simp [he]
    · simp [hd]

theorem substitute?_append
    (ht : ∀ c ∈ t.head?, isBlank c = false ∧ c ≠ '(' ∧ c ≠ ')') (w s : Text) :
    substitute? w (s ++ t) = (substitute? w s).map fun (text, rest) => (text, rest ++ t) := by
  unfold substitute?
  cases calls.find? fun call => call.word.toList = upper w with
  | none => rfl
  | some call =>
    rw [afterEmptyParentheses?_append ht]
    cases afterEmptyParentheses? s with
    | some rest => rfl
    | none =>
      simp only [Option.bind_eq_bind, Option.bind_some, Option.map_none]
      split <;> rfl

end Calls

/-! ## Quoted runs at a cut -/

section Quotes

variable {q : Char} {s rest text w : Text}

theorem quotedRun_append_of_not_mem (h : q ∉ s) (t : Text) :
    quotedRun q (s ++ t) = (s ++ (quotedRun q t).1, (quotedRun q t).2) := by
  have within : ∀ c ∈ s, decide (c ≠ q) = true := fun c hc => decide_eq_true fun e => h (e ▸ hc)
  rw [quotedRun, List.takeWhile_append_of_pos within, List.dropWhile_append_of_pos within,
    List.append_assoc]
  rfl

theorem exists_of_afterEmptyParentheses? (h : afterEmptyParentheses? s = some rest) :
    ∃ u, s = u ++ rest ∧ ∀ c ∈ u, isQuote c = false := by
  have blanks (s : Text) : s.takeWhile isBlank ++ skipBlanks s = s ∧
      ∀ c ∈ s.takeWhile isBlank, isQuote c = false :=
    ⟨List.takeWhile_append_dropWhile,
      fun c hc => isQuote_of_isBlank (List.all_eq_true.mp List.all_takeWhile c hc)⟩
  unfold afterEmptyParentheses? at h
  split at h
  · next inside hs =>
    split at h
    · next rest' hi =>
      obtain rfl : rest' = rest := Option.some.inj h
      obtain ⟨outer, houter⟩ := blanks s
      obtain ⟨inner, hinner⟩ := blanks inside
      rw [hs] at outer
      rw [hi] at inner
      refine ⟨s.takeWhile isBlank ++ '(' :: (inside.takeWhile isBlank ++ [')']), ?_, ?_⟩
      · simp [inner, outer]
      · intro c hc
        simp only [List.mem_append, List.mem_cons, List.not_mem_nil, or_false] at hc
        rcases hc with hc | rfl | hc | rfl
        · exact houter c hc
        · rfl
        · exact hinner c hc
        · rfl
    · simp at h
  · simp at h

/-- What a call takes behind its word holds no quote. -/
theorem foldl_nextQuote_of_substitute? (h : substitute? w s = some (text, rest)) :
    s.foldl nextQuote none = rest.foldl nextQuote none := by
  obtain ⟨_, _, _, _, h | rfl⟩ := exists_call_of_substitute? h
  · obtain ⟨u, rfl, hu⟩ := exists_of_afterEmptyParentheses? h
    rw [List.foldl_append, foldl_nextQuote_of_not_quote hu]
  · rfl

theorem foldl_nextQuote_afterWord (s : Text) :
    (afterWord s).foldl nextQuote none = s.foldl nextQuote none := by
  have word : (leadingWord s).foldl nextQuote none = none :=
    foldl_nextQuote_of_plain fun c hc =>
      isPlain_of_continuesWord (continuesWord_of_mem_leadingWord hc)
  rw [← leadingWord_append_afterWord s, List.foldl_append, word, leadingWord_append_afterWord]

end Quotes

/-! ## Cuts -/

section Cuts

variable {s t rest : Text}

theorem Cut.of_suffix (h : Cut s t) (hs : rest <:+ s) : Cut rest t := by
  refine ⟨h.word.imp_left fun hlast c hc => hlast c ?_, h.call⟩
  obtain ⟨u, rfl⟩ := hs
  have hne : rest ≠ [] := by
    rintro rfl
    contradiction
  rwa [getLast?_append_of_ne_nil hne]

/-- The word that begins the part in front of a cut ends there. -/
theorem Cut.word_append (h : Cut s t) (hne : s ≠ []) :
    leadingWord (s ++ t) = leadingWord s ∧ afterWord (s ++ t) = afterWord s ++ t := by
  have word : ∀ c ∈ leadingWord s, continuesWord c = true :=
    fun c => continuesWord_of_mem_leadingWord
  have whole := leadingWord_append_afterWord s
  have front : ∀ c ∈ (afterWord s ++ t).head?, continuesWord c = false := by
    cases hr : afterWord s with
    | cons d u =>
      have hd := head?_afterWord s
      rw [hr] at hd
      exact hd
    | nil =>
      rw [hr, List.append_nil] at whole
      refine h.word.resolve_left fun hlast => ?_
      have hword := word (s.getLast hne) (by rw [whole]; exact List.getLast_mem hne)
      rw [hlast _ (List.getLast?_eq_some_getLast hne)] at hword
      contradiction
  rw [← whole, List.append_assoc, leadingWord_append word front, afterWord_append word front, whole]
  exact ⟨rfl, rfl⟩

/-- In front of a cut everything is replaced as if the text ended there. -/
theorem adapt_append (h : Cut s t) :
    adapt (s ++ t) = adapt s ++ adaptIn (s.foldl nextQuote none) t := by
  fun_induction adapt s with
  | case1 => rfl
  | case2 c s hq ih =>
    by_cases hc : c ∈ s
    · obtain ⟨inside, rest, rfl, hn⟩ := List.eq_append_cons_of_mem hc
      rw [quotedRun_closed hn] at ih ⊢
      have hs : rest <:+ c :: (inside ++ c :: rest) := ⟨c :: (inside ++ [c]), by simp⟩
      have joined : c :: (inside ++ c :: rest) ++ t = c :: (inside ++ c :: (rest ++ t)) := by simp
      rw [joined, adapt_closed hq hn, ih (h.of_suffix hs), foldl_nextQuote_closed hq hn]
      simp
    · rw [quotedRun_unclosed hc, adapt_nil, List.append_nil, List.cons_append, adapt_quote hq,
        quotedRun_append_of_not_mem hc, List.foldl_cons, nextQuote_of_isQuote hq,
        foldl_nextQuote_of_not_mem hc, adaptIn]
      simp
  | case3 c s hq hw text rest hcall ih =>
    obtain ⟨lead, after⟩ := h.word_append (List.cons_ne_nil c s)
    have call : substitute? (leadingWord (c :: s ++ t)) (afterWord (c :: s ++ t)) =
        some (text, rest ++ t) := by
      rw [lead, after, substitute?_append h.call, hcall]
      rfl
    have hs : rest <:+ c :: s := (suffix_of_substitute? hcall).trans (List.dropWhile_suffix _)
    rw [adapt_of_substitute? call, ih (h.of_suffix hs), List.append_assoc,
      ← foldl_nextQuote_of_substitute? hcall, foldl_nextQuote_afterWord]
  | case4 c s hq hw hcall ih =>
    obtain ⟨lead, after⟩ := h.word_append (List.cons_ne_nil c s)
    have none : substitute? (leadingWord (c :: s ++ t)) (afterWord (c :: s ++ t)) = none := by
      rw [lead, after, substitute?_append h.call, hcall]
      rfl
    have hs : afterWord (c :: s) <:+ c :: s := List.dropWhile_suffix _
    rw [List.cons_append] at none lead after ⊢
    rw [adapt_of_substitute?_eq_none hw none, lead, after, ih (h.of_suffix hs), List.append_assoc,
      foldl_nextQuote_afterWord]
  | case5 c s hq hw ih =>
    have hquote : nextQuote none c = none := nextQuote_of_not_quote (by simpa using hq)
    rw [List.cons_append, adapt_cons (by simpa using hq) (by simpa using hw),
      ih (h.of_suffix (List.suffix_cons c s)), List.foldl_cons, hquote]
    rfl

end Cuts
end Clock
end Dialect
