import Dialect.Proofs.Clock

/-!
# Lexemes

A text falls into quoted runs, words and single characters.  A quoted run goes from a
quote to the next quote of the same kind, or to the end of the text.  A word is as long as
it can be.  A list of lexemes that keeps these two rules is the list of the text that it
spells, so a text can be taken apart and put together without loss.
-/

namespace Dialect

inductive Lexeme where
  /-- With its quotes. -/
  | quoted (run : Text)
  | word (w : Text)
  | single (c : Char)
  deriving DecidableEq, Repr

namespace Lexeme

def text : Lexeme → Text
  | quoted run => run
  | word w => w
  | single c => [c]

def spell (ls : List Lexeme) : Text := ls.flatMap text

/-- The lexemes of a text. -/
def ofText (s : Text) : List Lexeme :=
  match s with
  | [] => []
  | c :: s =>
    if isQuote c then quoted (c :: (Clock.quotedRun c s).1) :: ofText (Clock.quotedRun c s).2
    else if continuesWord c then word (leadingWord (c :: s)) :: ofText (afterWord (c :: s))
    else single c :: ofText s
termination_by s.length
decreasing_by
  · have := Clock.length_quotedRun_le c s
    simp only [List.length_cons]
    omega
  · exact length_afterWord_lt ‹continuesWord c = true›
  · simp

/-- Only the last run may lack its closing quote, and no word goes on in the lexeme behind
it. -/
inductive Lexed : List Lexeme → Prop where
  | nil : Lexed []
  | closed {q : Char} {inside : Text} {ls : List Lexeme} :
    isQuote q = true → q ∉ inside → Lexed ls → Lexed (quoted (q :: (inside ++ [q])) :: ls)
  | unclosed {q : Char} {inside : Text} :
    isQuote q = true → q ∉ inside → Lexed [quoted (q :: inside)]
  | word {w : Text} {ls : List Lexeme} :
    w ≠ [] → (∀ c ∈ w, continuesWord c = true) →
    (∀ c ∈ (spell ls).head?, continuesWord c = false) → Lexed ls → Lexed (word w :: ls)
  | single {c : Char} {ls : List Lexeme} :
    isQuote c = false → continuesWord c = false → Lexed ls → Lexed (single c :: ls)

section Spelling

variable {c q : Char} {s inside w : Text} {l : Lexeme} {ls ms : List Lexeme}

@[simp] theorem spell_nil : spell [] = [] := rfl

@[simp] theorem spell_cons (l : Lexeme) (ls : List Lexeme) : spell (l :: ls) = l.text ++ spell ls :=
  List.flatMap_cons

@[simp] theorem spell_append (ls ms : List Lexeme) : spell (ls ++ ms) = spell ls ++ spell ms :=
  List.flatMap_append

theorem Lexed.tail (h : Lexed (l :: ls)) : Lexed ls := by
  cases h with
  | closed _ _ h => exact h
  | unclosed => exact .nil
  | word _ _ _ h => exact h
  | single _ _ h => exact h

theorem Lexed.of_suffix (h : Lexed ls) (hs : ms <:+ ls) : Lexed ms := by
  obtain ⟨front, rfl⟩ := hs
  induction front with
  | nil => exact h
  | cons l front ih => exact ih h.tail

/-! ## Taking a text apart -/

theorem spell_ofText (s : Text) : spell (ofText s) = s := by
  fun_induction ofText s with
  | case1 => rfl
  | case2 c s hq ih =>
    rw [spell_cons, ih, text, List.cons_append, Clock.quotedRun_append]
  | case3 c s hq hw ih =>
    rw [spell_cons, ih]
    exact leadingWord_append_afterWord _
  | case4 c s hq hw ih =>
    rw [spell_cons, ih]
    rfl

theorem lexed_ofText (s : Text) : Lexed (ofText s) := by
  fun_induction ofText s with
  | case1 => exact .nil
  | case2 c s hq ih =>
    by_cases hc : c ∈ s
    · obtain ⟨inside, rest, rfl, hn⟩ := List.eq_append_cons_of_mem hc
      rw [Clock.quotedRun_closed hn] at ih ⊢
      exact .closed hq hn ih
    · rw [Clock.quotedRun_unclosed hc]
      unfold ofText
      exact .unclosed hq hc
  | case3 c s hq hw ih =>
    refine .word ?_ (fun d => continuesWord_of_mem_leadingWord) ?_ ih
    · simp [leadingWord, hw]
    · rw [spell_ofText]
      exact head?_afterWord _
  | case4 c s hq hw ih =>
    exact .single (by simpa using hq) (by simpa using hw) ih

/-! ## Putting it together -/

theorem ofText_nil : ofText [] = [] := by rw [ofText]

theorem ofText_quote (hq : isQuote q = true) (s : Text) : ofText (q :: s) =
    quoted (q :: (Clock.quotedRun q s).1) :: ofText (Clock.quotedRun q s).2 := by
  rw [ofText, if_pos hq]

theorem ofText_word (hne : w ≠ []) (hw : ∀ c ∈ w, continuesWord c = true)
    (hs : ∀ c ∈ s.head?, continuesWord c = false) : ofText (w ++ s) = word w :: ofText s := by
  obtain ⟨c, u, rfl⟩ := List.exists_cons_of_ne_nil hne
  have hc := hw c List.mem_cons_self
  have lead := leadingWord_append hw hs
  have rest := afterWord_append hw hs
  rw [List.cons_append] at lead rest ⊢
  rw [ofText, if_neg (by simp [Clock.isQuote_of_continuesWord hc]), if_pos hc, lead, rest]

theorem ofText_single (hq : isQuote c = false) (hw : continuesWord c = false) (s : Text) :
    ofText (c :: s) = single c :: ofText s := by
  rw [ofText, if_neg (by simp [hq]), if_neg (by simp [hw])]

theorem ofText_spell (h : Lexed ls) : ofText (spell ls) = ls := by
  induction h with
  | nil => exact ofText_nil
  | @closed q inside ls hq hn h ih =>
    have run : Clock.quotedRun q (inside ++ [q] ++ spell ls) = (inside ++ [q], spell ls) := by
      rw [List.append_assoc]
      exact Clock.quotedRun_closed hn (spell ls)
    rw [spell_cons, text, List.cons_append, ofText_quote hq, run, ih]
  | unclosed hq hn =>
    rw [spell_cons, text, spell_nil, List.append_nil, ofText_quote hq, Clock.quotedRun_unclosed hn,
      ofText_nil]
  | word hne hw hs h ih => rw [spell_cons, text, ofText_word hne hw hs, ih]
  | single hq hw h ih => rw [spell_cons, text, List.singleton_append, ofText_single hq hw, ih]

/-- A text has one list of lexemes that keeps the rules. -/
theorem ofText_eq_iff : ofText s = ls ↔ Lexed ls ∧ spell ls = s := by
  constructor
  · rintro rfl
    exact ⟨lexed_ofText s, spell_ofText s⟩
  · rintro ⟨h, rfl⟩
    exact ofText_spell h

/-- A character that is neither a quote nor part of a word is a lexeme. -/
theorem Lexed.exists_of_spell_eq_cons (h : Lexed ls) (hq : isQuote c = false)
    (hw : continuesWord c = false) (he : spell ls = c :: s) :
    ∃ ms, ls = .single c :: ms ∧ spell ms = s := by
  rw [← ofText_spell h, he, ofText_single hq hw]
  exact ⟨ofText s, rfl, spell_ofText s⟩

end Spelling
end Lexeme
end Dialect
