import Dialect.Clock
import Dialect.Proofs.Comment.Splice
import Dialect.Proofs.Statement

/-!
# Replacing clock calls

The replacement reads a text as quoted runs, words and single characters.  It writes
over some of the words and keeps everything else, so characters outside words stay
where they are and the text behind a kept part is replaced on its own.  This gives the
laws of the module: the kind of a statement and its comment marks do not change, and
nothing is left to replace.
-/

namespace Dialect
namespace Clock

/-! ## One equation for each thing that can stand at the front -/

section Equations

variable {c : Char} {s t w text rest : Text}

theorem isQuote_of_continuesWord (h : continuesWord c = true) : isQuote c = false := by
  apply Bool.eq_false_iff.mpr
  intro hq
  simp only [isQuote, Bool.or_eq_true, decide_eq_true_eq] at hq
  rcases hq with (rfl | rfl) | rfl <;> exact absurd h (by decide)

theorem adapt_nil : adapt [] = [] := by rw [adapt]

theorem adapt_quote (hq : isQuote c = true) (s : Text) :
    adapt (c :: s) = c :: (quotedRun c s).1 ++ adapt (quotedRun c s).2 := by
  rw [adapt, if_pos hq]

theorem adapt_cons (hq : isQuote c = false) (hw : continuesWord c = false) (s : Text) :
    adapt (c :: s) = c :: adapt s := by
  rw [adapt, if_neg (by simp [hq]), if_neg (by simp [hw])]

theorem substitute?_nil (t : Text) : substitute? [] t = none := rfl

/-- Only a word is written over, so the test for quotes in front of it does not count. -/
theorem adapt_of_substitute? (h : substitute? (leadingWord s) (afterWord s) = some (text, rest)) :
    adapt s = text ++ adapt rest := by
  cases s with
  | nil => exact absurd h (by simp [leadingWord, substitute?_nil])
  | cons c s =>
    have hw : continuesWord c = true := by
      apply Bool.of_not_eq_false
      intro hw
      rw [leadingWord_eq_nil (by simpa using hw), substitute?_nil] at h
      contradiction
    rw [adapt, if_neg (by simp [isQuote_of_continuesWord hw]), if_pos hw]
    split <;> simp_all

theorem adapt_of_substitute?_eq_none (hw : continuesWord c = true)
    (h : substitute? (leadingWord (c :: s)) (afterWord (c :: s)) = none) :
    adapt (c :: s) = leadingWord (c :: s) ++ adapt (afterWord (c :: s)) := by
  rw [adapt, if_neg (by simp [isQuote_of_continuesWord hw]), if_pos hw]
  split <;> simp_all

theorem adapt_word (hw : ∀ c ∈ w, continuesWord c = true)
    (hs : ∀ c ∈ s.head?, continuesWord c = false) (h : substitute? w s = none) :
    adapt (w ++ s) = w ++ adapt s := by
  cases w with
  | nil => rfl
  | cons c w =>
    have lead := leadingWord_append hw hs
    have rest := afterWord_append hw hs
    rw [List.cons_append] at lead rest ⊢
    rw [adapt_of_substitute?_eq_none (hw c List.mem_cons_self) (by rw [lead, rest, h]), lead, rest]

/-- A substitution writes the replacement of a call over a word and perhaps over the
empty parentheses behind it. -/
theorem exists_call_of_substitute? (h : substitute? w t = some (text, rest)) :
    ∃ call ∈ calls, call.word.toList = upper w ∧ text = call.replacement ∧
      (afterEmptyParentheses? t = some rest ∨ rest = t) := by
  unfold substitute? at h
  obtain ⟨call, hf, h⟩ := Option.bind_eq_some_iff.mp h
  have hword : call.word.toList = upper w := by
    simpa using List.find?_some hf
  refine ⟨call, List.mem_of_find?_eq_some hf, hword, ?_⟩
  split at h
  · next he =>
    simp only [Option.some.injEq, Prod.mk.injEq] at h
    exact ⟨h.1.symm, Or.inl (h.2 ▸ he)⟩
  · split at h
    · simp at h
    · simp only [Option.some.injEq, Prod.mk.injEq] at h
      exact ⟨h.1.symm, Or.inr h.2.symm⟩

theorem substitute?_eq_none_of_not_call (h : ∀ call ∈ calls, call.word.toList ≠ upper w)
    (t : Text) : substitute? w t = none := by
  have none : calls.find? (fun call => call.word.toList = upper w) = none := by
    rw [List.find?_eq_none]
    simpa using h
  rw [substitute?, none]
  rfl

theorem suffix_of_afterEmptyParentheses? (h : afterEmptyParentheses? s = some rest) :
    rest <:+ s := by
  unfold afterEmptyParentheses? at h
  split at h
  · next inside hs =>
    split at h
    · next rest' hi =>
      obtain rfl : rest' = rest := Option.some.inj h
      have outer : '(' :: inside <:+ s := hs ▸ List.dropWhile_suffix _
      have inner : ')' :: rest' <:+ inside := hi ▸ List.dropWhile_suffix _
      exact (List.suffix_cons _ _).trans (inner.trans ((List.suffix_cons _ _).trans outer))
    · simp at h
  · simp at h

theorem suffix_of_substitute? (h : substitute? w t = some (text, rest)) : rest <:+ t := by
  obtain ⟨call, _, _, _, h | h⟩ := exists_call_of_substitute? h
  · exact suffix_of_afterEmptyParentheses? h
  · exact h ▸ List.suffix_rfl

end Equations

section Quoted

variable {q : Char} {s inside rest : Text}

theorem quotedRun_closed (h : q ∉ inside) (rest : Text) :
    quotedRun q (inside ++ q :: rest) = (inside ++ [q], rest) := by
  rw [quotedRun, takeWhile_ne h, dropWhile_ne h]
  rfl

theorem quotedRun_unclosed (h : q ∉ s) : quotedRun q s = (s, []) := by
  rw [quotedRun, takeWhile_ne_self h, dropWhile_ne_self h, List.take_nil, List.append_nil,
    List.drop_nil]

theorem adapt_closed (hq : isQuote q = true) (h : q ∉ inside) (rest : Text) :
    adapt (q :: (inside ++ q :: rest)) = q :: (inside ++ q :: adapt rest) := by
  rw [adapt_quote hq, quotedRun_closed h]
  simp

theorem adapt_unclosed (hq : isQuote q = true) (h : q ∉ s) : adapt (q :: s) = q :: s := by
  rw [adapt_quote hq, quotedRun_unclosed h, adapt_nil, List.append_nil]

end Quoted

/-! ## What the replacement texts look like -/

section Replacements

variable {call : Call}

theorem isInert_replacement (h : call ∈ calls) :
    (call.replacement : Text).all Comment.isInert = true := by
  have all : calls.all (fun call => (call.replacement : Text).all Comment.isInert) = true := by
    decide
  exact List.all_eq_true.mp all call h

theorem exists_function_of_replacement (h : call ∈ calls) :
    ∃ f : Text, f ≠ [] ∧ (call.replacement : Text) = f ++ "('now')".toList ∧
      (∀ c ∈ f, continuesWord c = true) ∧ (∀ call ∈ calls, call.word.toList ≠ upper f) ∧
      upper f ∈ [("DATETIME" : Text), "DATE", "TIME"] := by
  simp only [calls, List.mem_cons, List.not_mem_nil, or_false] at h
  rcases h with rfl | rfl | rfl
  · exact ⟨"datetime".toList, by decide, by decide, List.all_eq_true.mp (by decide), by decide,
      by decide⟩
  · exact ⟨"date".toList, by decide, by decide, List.all_eq_true.mp (by decide), by decide,
      by decide⟩
  · exact ⟨"time".toList, by decide, by decide, List.all_eq_true.mp (by decide), by decide,
      by decide⟩

theorem adapt_replacement (h : call ∈ calls) (s : Text) :
    adapt (call.replacement ++ s) = call.replacement ++ adapt s := by
  obtain ⟨f, _, hr, hf, hcall, _⟩ := exists_function_of_replacement h
  have now : adapt ("('now')".toList ++ s) = "('now')".toList ++ adapt s := by
    show adapt ('(' :: '\x27' :: ("now'".toList ++ ')' :: s)) = _
    rw [adapt_cons (by decide) (by decide), adapt_quote (by decide)]
    have quoted : quotedRun '\x27' ("now'".toList ++ ')' :: s) = ("now'".toList, ')' :: s) := rfl
    rw [quoted, adapt_cons (by decide) (by decide)]
    rfl
  rw [hr, List.append_assoc, adapt_word hf (by simp; decide)
    (substitute?_eq_none_of_not_call hcall _), now, List.append_assoc]

end Replacements

/-! ## What stays in its place -/

section Keeping

variable {c : Char} {s t keyword : Text}

/-- The first character stays, unless a word is written over, and then another word
begins the text. -/
theorem head?_adapt (s : Text) :
    ∀ c ∈ (adapt s).head?, c ∈ s.head? ∨
      (continuesWord c = true ∧ ∃ d ∈ s.head?, continuesWord d = true) := by
  intro c hc
  cases s with
  | nil => simp [adapt_nil] at hc
  | cons d s =>
    cases hw : continuesWord d with
    | false =>
      cases hq : isQuote d with
      | false =>
        rw [adapt_cons hq hw] at hc
        exact Or.inl hc
      | true =>
        rw [adapt_quote hq] at hc
        exact Or.inl hc
    | true =>
      have front : d ∈ (leadingWord (d :: s)).head? := by
        simp [leadingWord, hw]
      cases h : substitute? (leadingWord (d :: s)) (afterWord (d :: s)) with
      | none =>
        rw [adapt_of_substitute?_eq_none hw h, List.head?_append, Option.mem_def.mp front] at hc
        exact Or.inl hc
      | some cut =>
        obtain ⟨text, rest⟩ := cut
        obtain ⟨call, hcall, _, rfl, _⟩ := exists_call_of_substitute? h
        obtain ⟨f, hne, hr, hf, _⟩ := exists_function_of_replacement hcall
        obtain ⟨e, f, rfl⟩ := List.exists_cons_of_ne_nil hne
        rw [adapt_of_substitute? h, hr] at hc
        obtain rfl : e = c := Option.some.inj hc
        exact Or.inr ⟨hf e List.mem_cons_self, d, rfl, hw⟩

theorem head?_adapt_of_not_word {p : Char → Bool} (hp : ∀ c, continuesWord c = true → p c = false)
    (h : ∀ c ∈ s.head?, p c = false) : ∀ c ∈ (adapt s).head?, p c = false := by
  intro c hc
  rcases head?_adapt s c hc with hs | ⟨hw, _⟩
  · exact h c hs
  · exact hp c hw

theorem continuesWord_head?_adapt (h : ∀ c ∈ s.head?, continuesWord c = false) :
    ∀ c ∈ (adapt s).head?, continuesWord c = false := by
  intro c hc
  rcases head?_adapt s c hc with hs | ⟨_, d, hd, hw⟩
  · exact h c hs
  · rw [h d hd] at hw
    contradiction

theorem exists_of_adapt_eq_cons (hq : isQuote c = false) (hw : continuesWord c = false)
    (h : adapt s = c :: t) : ∃ r, s = c :: r ∧ adapt r = t := by
  have hc := head?_adapt s c (by rw [h]; rfl)
  rw [hw] at hc
  obtain ⟨r, rfl⟩ := List.head?_eq_some_iff.mp (hc.resolve_right (by simp))
  rw [adapt_cons hq hw] at h
  exact ⟨r, rfl, (List.cons.inj h).2⟩

theorem isQuote_of_isBlank (h : isBlank c = true) : isQuote c = false := by
  simp only [isBlank, Bool.or_eq_true, decide_eq_true_eq] at h
  rcases h with ((rfl | rfl) | rfl) | rfl <;> decide

theorem adapt_blanks (h : ∀ c ∈ s, isBlank c = true) (t : Text) :
    adapt (s ++ t) = s ++ adapt t := by
  induction s with
  | nil => rfl
  | cons c s ih =>
    have hc := h c List.mem_cons_self
    rw [List.cons_append, adapt_cons (isQuote_of_isBlank hc) (continuesWord_of_isBlank hc),
      ih fun d hd => h d (List.mem_cons_of_mem c hd)]
    rfl

theorem skipBlanks_adapt (s : Text) : skipBlanks (adapt s) = adapt (skipBlanks s) := by
  have run : ∀ c ∈ s.takeWhile isBlank, isBlank c = true :=
    fun c hc => List.all_eq_true.mp List.all_takeWhile c hc
  have whole : s.takeWhile isBlank ++ skipBlanks s = s := List.takeWhile_append_dropWhile
  have front : ∀ c ∈ (adapt (skipBlanks s)).head?, isBlank c = false :=
    head?_adapt_of_not_word (fun c => isBlank_of_continuesWord) head?_dropWhile_eq_false
  rw [← skipBlanks_append run front, ← adapt_blanks run, whole]

theorem afterBlanks?_adapt (s : Text) : afterBlanks? (adapt s) = (afterBlanks? s).map adapt := by
  cases s with
  | nil => simp [adapt_nil, afterBlanks?]
  | cons c s =>
    cases hc : isBlank c with
    | true =>
      rw [adapt_cons (isQuote_of_isBlank hc) (continuesWord_of_isBlank hc)]
      simp [afterBlanks?, hc, skipBlanks_adapt]
    | false =>
      have front : ∀ d ∈ (adapt (c :: s)).head?, isBlank d = false :=
        head?_adapt_of_not_word (fun d => isBlank_of_continuesWord) (by simpa using hc)
      rw [afterBlanks?_eq_none front, afterBlanks?_eq_none (by simpa using hc)]
      rfl

/-- A word in front that is no call stays, and so does what makes it a word. -/
theorem afterKeyword?_adapt (hne : keyword ≠ [])
    (hcall : ∀ call ∈ calls, call.word.toList ≠ keyword)
    (hf : keyword ∉ [("DATETIME" : Text), "DATE", "TIME"]) (s : Text) :
    afterKeyword? keyword (adapt s) = (afterKeyword? keyword s).map adapt := by
  have whole := leadingWord_append_afterWord s
  have word : ∀ c ∈ leadingWord s, continuesWord c = true :=
    fun c => continuesWord_of_mem_leadingWord
  have front := continuesWord_head?_adapt (head?_afterWord s)
  cases h : substitute? (leadingWord s) (afterWord s) with
  | none =>
    have kept := adapt_word word (head?_afterWord s) h
    rw [whole] at kept
    rw [kept, afterKeyword?, afterKeyword?, leadingWord_append word front,
      afterWord_append word front]
    split <;> rfl
  | some cut =>
    obtain ⟨text, rest⟩ := cut
    obtain ⟨call, hc, hword, rfl, _⟩ := exists_call_of_substitute? h
    obtain ⟨f, _, hr, hfw, _, hup⟩ := exists_function_of_replacement hc
    have lead : leadingWord (adapt s) = f := by
      rw [adapt_of_substitute? h, hr, List.append_assoc]
      exact leadingWord_append hfw (by simp; decide)
    have was : upper (leadingWord s) ≠ keyword := hword ▸ hcall call hc
    have is : upper (leadingWord (adapt s)) ≠ keyword := by
      rw [lead]
      rintro rfl
      exact hf hup
    rw [afterKeyword?, afterKeyword?, if_neg was, if_neg is]
    rfl

end Keeping

/-! ## Laws -/

theorem afterCreateTable?_adapt (s : Text) :
    afterCreateTable? (adapt s) = (afterCreateTable? s).map adapt := by
  simp only [afterCreateTable?, skipBlanks_adapt, Option.bind_eq_bind]
  rw [afterKeyword?_adapt (by decide) (by decide) (by decide)]
  cases afterKeyword? "CREATE" (skipBlanks s) with
  | none => rfl
  | some r =>
    simp only [Option.map_some, Option.bind_some, afterBlanks?_adapt]
    cases afterBlanks? r with
    | none => rfl
    | some t => exact afterKeyword?_adapt (by decide) (by decide) (by decide) t

theorem kind_adapt (s : Text) : Kind.ofText (adapt s) = Kind.ofText s := by
  rw [Kind.ofText, Kind.ofText, afterCreateTable?_adapt, skipBlanks_adapt,
    afterKeyword?_adapt (by decide) (by decide) (by decide), Option.isSome_map, Option.isSome_map]

theorem spliced_adapt (s : Text) : Comment.Spliced true s (adapt s) := by
  fun_induction adapt s with
  | case1 => exact .stop
  | case2 c s hq ih =>
    have h := ih.copies (c :: (quotedRun c s).1)
    rwa [List.cons_append, quotedRun_append] at h
  | case3 c s hq hw text rest h ih =>
    obtain ⟨call, hc, _, rfl, _⟩ := exists_call_of_substitute? h
    obtain ⟨f, hne, hr, _⟩ := exists_function_of_replacement hc
    obtain ⟨u, hu⟩ := suffix_of_substitute? h
    rw [← leadingWord_append_afterWord (c :: s), ← hu, ← List.append_assoc]
    refine .inserts_of_ne_nil ?_ (isInert_replacement hc) (ih.loosen.skips _)
    rw [hr]
    simp [hne]
  | case4 c s hq hw h ih =>
    have h := ih.copies (leadingWord (c :: s))
    rwa [leadingWord_append_afterWord] at h
  | case5 c s hq hw ih => exact .copy ih

theorem eq_nil_of_adapt_eq_nil {s : Text} (h : adapt s = []) : s = [] := by
  fun_induction adapt s with
  | case1 => rfl
  | case2 c s hq ih => simp at h
  | case3 c s hq hw text rest hsub ih =>
    obtain ⟨call, hc, _, rfl, _⟩ := exists_call_of_substitute? hsub
    obtain ⟨f, hne, hr, _⟩ := exists_function_of_replacement hc
    simp [hr, hne] at h
  | case4 c s hq hw hsub ih => simp [leadingWord, hw] at h
  | case5 c s hq hw ih => simp at h

/-- A text put in front of an adapted text ends it only where nothing is left to adapt. -/
theorem getLast?_append_adapt {t : Text} (u v : Text)
    (hv : ∀ c ∈ v.getLast?, c ∈ u.getLast? ∨ c = ')')
    (ht : ∀ c ∈ (adapt t).getLast?, c ∈ t.getLast? ∨ c = ')') :
    ∀ c ∈ (v ++ adapt t).getLast?, c ∈ (u ++ t).getLast? ∨ c = ')' := by
  intro c hc
  rw [List.getLast?_append] at hc ⊢
  cases hl : (adapt t).getLast? with
  | none =>
    obtain rfl := eq_nil_of_adapt_eq_nil (List.getLast?_eq_none_iff.mp hl)
    rw [hl] at hc
    exact hv c hc
  | some d =>
    rw [hl] at hc
    obtain rfl : d = c := Option.some.inj hc
    rcases ht d hl with h | h
    · rw [Option.mem_def.mp h]
      exact Or.inl rfl
    · exact Or.inr h

theorem getLast?_adapt (s : Text) :
    ∀ c ∈ (adapt s).getLast?, c ∈ s.getLast? ∨ c = ')' := by
  fun_induction adapt s with
  | case1 => simp
  | case2 c s hq ih =>
    have whole : c :: (quotedRun c s).1 ++ (quotedRun c s).2 = c :: s :=
      congrArg (c :: ·) (quotedRun_append c s)
    have h := getLast?_append_adapt (c :: (quotedRun c s).1) _ (fun _ => Or.inl) ih
    rwa [whole] at h
  | case3 c s hq hw text rest hsub ih =>
    obtain ⟨call, hc, _, rfl, _⟩ := exists_call_of_substitute? hsub
    obtain ⟨f, _, hr, _⟩ := exists_function_of_replacement hc
    obtain ⟨u, hu⟩ := suffix_of_substitute? hsub
    rw [← leadingWord_append_afterWord (c :: s), ← hu, ← List.append_assoc]
    refine getLast?_append_adapt _ _ (fun d hd => Or.inr ?_) ih
    rw [hr, List.getLast?_append] at hd
    exact (Option.some.inj hd).symm
  | case4 c s hq hw hsub ih =>
    have h := getLast?_append_adapt (leadingWord (c :: s)) _ (fun _ => Or.inl) ih
    rwa [leadingWord_append_afterWord] at h
  | case5 c s hq hw ih => exact getLast?_append_adapt [c] [c] (fun _ => Or.inl) ih

theorem normal_adapt {s : Text} (h : Normal s) : Normal (adapt s) := by
  refine ⟨(spliced_adapt s).settled h.settled, ?_, ?_⟩
  · refine head?_adapt_of_not_word (fun c hc => ?_) h.trimmed.head
    apply Bool.eq_false_iff.mpr
    intro hs
    rw [continuesWord_of_isSpace hs] at hc
    contradiction
  · intro c hc
    rcases getLast?_adapt s c hc with hs | rfl
    · exact h.trimmed.last c hs
    · decide

theorem afterEmptyParentheses?_adapt {s : Text} (h : afterEmptyParentheses? s = none) :
    afterEmptyParentheses? (adapt s) = none := by
  -- Blanks and parentheses are copied, so empty parentheses behind the word were there before.
  rw [afterEmptyParentheses?]
  split
  · next inside ho =>
    rw [skipBlanks_adapt] at ho
    obtain ⟨t, ht, rfl⟩ := exists_of_adapt_eq_cons (by decide) (by decide) ho
    split
    · next rest hi =>
      rw [skipBlanks_adapt] at hi
      obtain ⟨r, hr, _⟩ := exists_of_adapt_eq_cons (by decide) (by decide) hi
      simp [afterEmptyParentheses?, ht, hr] at h
    · rfl
  · rfl

theorem substitute?_adapt {w s : Text} (h : substitute? w s = none) :
    substitute? w (adapt s) = none := by
  unfold substitute? at h ⊢
  cases hf : calls.find? fun call => call.word.toList = upper w with
  | none => rfl
  | some call =>
    rw [hf] at h
    simp only [Option.bind_eq_bind, Option.bind_some] at h ⊢
    cases he : afterEmptyParentheses? s with
    | some rest => simp [he] at h
    | none =>
      rw [he] at h
      rw [afterEmptyParentheses?_adapt he]
      simpa using h

theorem adapt_adapt (s : Text) : adapt (adapt s) = adapt s := by
  fun_induction adapt s with
  | case1 => exact adapt_nil
  | case2 c s hq ih =>
    by_cases hc : c ∈ s
    · obtain ⟨inside, rest, rfl, hn⟩ := List.eq_append_cons_of_mem hc
      rw [quotedRun_closed hn] at ih ⊢
      simp only [List.cons_append, List.append_assoc, List.nil_append]
      rw [adapt_closed hq hn, ih]
    · rw [quotedRun_unclosed hc, adapt_nil, List.append_nil, adapt_unclosed hq hc]
  | case3 c s hq hw text rest h ih =>
    obtain ⟨call, hc, _, rfl, _⟩ := exists_call_of_substitute? h
    rw [adapt_replacement hc, ih]
  | case4 c s hq hw h ih =>
    rw [adapt_word (fun d => continuesWord_of_mem_leadingWord)
      (continuesWord_head?_adapt (head?_afterWord _)) (substitute?_adapt h), ih]
  | case5 c s hq hw ih => rw [adapt_cons (by simpa using hq) (by simpa using hw), ih]

end Clock
end Dialect
