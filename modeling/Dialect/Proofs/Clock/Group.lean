import Dialect.Proofs.Lexeme

/-!
# Clock groups

A group is a word that reads the clock together with the empty parentheses behind it.
The replacement of clock calls puts the lexemes of a SQLite expression in the place of
each group and keeps every other lexeme.  The expressions hold no group, so a text is left
as it is exactly when it holds none.
-/

namespace Dialect
namespace Clock

open Lexeme

/-! ## Groups among lexemes -/

/-- The SQLite expression for the instant that a word names. -/
def instant? (w : Text) : Option Text :=
  if upper w = "NOW" then some "datetime('now')".toList
  else if upper w = "CURRENT_DATE" then some "date('now')".toList
  else if upper w = "CURRENT_TIME" then some "time('now')".toList
  else none

def isBlankLexeme : Lexeme → Bool
  | .single c => isBlank c
  | _ => false

/-- The lexemes behind empty parentheses, with any blanks before and between them. -/
def afterEmptyGroup? (ls : List Lexeme) : Option (List Lexeme) :=
  match ls.dropWhile isBlankLexeme with
  | .single '(' :: inside =>
    match inside.dropWhile isBlankLexeme with
    | .single ')' :: rest => some rest
    | _ => none
  | _ => none

/-- The expression for the group that begins a list of lexemes, and the lexemes behind
the group.  `NOW` needs its parentheses. -/
def leadingGroup? : List Lexeme → Option (Text × List Lexeme)
  | .word w :: ls => do
    let expression ← instant? w
    match afterEmptyGroup? ls with
    | some rest => some (expression, rest)
    | none => if upper w = "NOW" then none else some (expression, ls)
  | _ => none

/-- No group begins anywhere in a list of lexemes. -/
def GroupFree (ls : List Lexeme) : Prop := ∀ ms, ms <:+ ls → leadingGroup? ms = none

section Suffixes

variable {ls rest : List Lexeme} {expression : Text}

theorem suffix_of_afterEmptyGroup? (h : afterEmptyGroup? ls = some rest) : rest <:+ ls := by
  unfold afterEmptyGroup? at h
  split at h
  · next inside hs =>
    split at h
    · next rest' hi =>
      obtain rfl : rest' = rest := Option.some.inj h
      have outer : .single '(' :: inside <:+ ls := hs ▸ List.dropWhile_suffix _
      have inner : .single ')' :: rest' <:+ inside := hi ▸ List.dropWhile_suffix _
      exact (List.suffix_cons _ _).trans (inner.trans ((List.suffix_cons _ _).trans outer))
    · simp at h
  · simp at h

/-- A group begins with a word that names an instant. -/
theorem exists_of_leadingGroup? (h : leadingGroup? ls = some (expression, rest)) :
    ∃ w tail, ls = .word w :: tail ∧ instant? w = some expression ∧ rest <:+ tail := by
  unfold leadingGroup? at h
  split at h
  · next w tail =>
    obtain ⟨e, he, h⟩ := Option.bind_eq_some_iff.mp h
    refine ⟨w, tail, rfl, ?_⟩
    split at h
    · next hr =>
      obtain ⟨rfl, rfl⟩ := Prod.mk.inj (Option.some.inj h)
      exact ⟨he, suffix_of_afterEmptyGroup? hr⟩
    · split at h
      · simp at h
      · obtain ⟨rfl, rfl⟩ := Prod.mk.inj (Option.some.inj h)
        exact ⟨he, List.suffix_rfl⟩
  · simp at h

end Suffixes

/-- The lexemes with those of an expression in the place of each group. -/
def replaceGroups : List Lexeme → List Lexeme
  | [] => []
  | l :: ls =>
    match _h : leadingGroup? (l :: ls) with
    | some (expression, rest) => ofText expression ++ replaceGroups rest
    | none => l :: replaceGroups ls
termination_by ls => ls.length
decreasing_by
  · obtain ⟨_, _, he, _, hs⟩ := exists_of_leadingGroup? _h
    have := hs.length_le
    simp only [he, List.length_cons]
    omega
  · simp

/-! ## Expressions -/

section Expressions

variable {w expression : Text} {ls : List Lexeme}

/-- An expression calls a function, and the name of the function is none of the words. -/
theorem exists_function_of_instant? (h : instant? w = some expression) :
    ∃ f : Text, f ≠ [] ∧ (∀ c ∈ f, continuesWord c = true) ∧ f ≠ w ∧
      expression = f ++ "('now')".toList := by
  unfold instant? at h
  split at h
  · next hw =>
    refine ⟨"datetime".toList, by decide, List.all_eq_true.mp (by decide), ?_,
      (Option.some.inj h).symm⟩
    rintro rfl
    exact absurd hw (by decide)
  · split at h
    · next hw =>
      refine ⟨"date".toList, by decide, List.all_eq_true.mp (by decide), ?_,
        (Option.some.inj h).symm⟩
      rintro rfl
      exact absurd hw (by decide)
    · split at h
      · next hw =>
        refine ⟨"time".toList, by decide, List.all_eq_true.mp (by decide), ?_,
          (Option.some.inj h).symm⟩
        rintro rfl
        exact absurd hw (by decide)
      · simp at h

/-- The lexemes of an expression go in front of any others. -/
theorem ofText_expression (h : instant? w = some expression) :
    ∃ f, f ≠ w ∧ ofText expression = [.word f, .single '(', .quoted "'now'", .single ')'] ∧
      ∀ ls, Lexed ls → Lexed (ofText expression ++ ls) := by
  obtain ⟨f, hne, hf, hfw, rfl⟩ := exists_function_of_instant? h
  have now : '\x27' ∉ "now".toList := by decide
  have front (ls : List Lexeme) (hls : Lexed ls) :
      Lexed (.word f :: .single '(' :: .quoted "'now'".toList :: .single ')' :: ls) := by
    refine .word hne hf (by simp [text]; decide) (.single (by decide) (by decide) ?_)
    exact .closed (by decide) now (.single (by decide) (by decide) hls)
  have lexemes : ofText (f ++ "('now')".toList) =
      [.word f, .single '(', .quoted "'now'".toList, .single ')'] :=
    ofText_eq_iff.mpr ⟨front [] .nil, rfl⟩
  refine ⟨f, hfw, lexemes, fun ls hls => ?_⟩
  rw [lexemes]
  exact front ls hls

end Expressions

/-! ## Reading groups off a text -/

section Reading

variable {ls : List Lexeme}

theorem skipBlanks_spell (h : Lexed ls) :
    skipBlanks (spell ls) = spell (ls.dropWhile isBlankLexeme) := by
  induction h with
  | nil => rfl
  | closed hq => exact skipBlanks_eq_self (by simpa [text] using isBlank_of_isQuote hq)
  | unclosed hq => exact skipBlanks_eq_self (by simpa [text] using isBlank_of_isQuote hq)
  | word hne hw =>
    refine skipBlanks_eq_self fun c hc => isBlank_of_continuesWord ?_
    exact head?_append_of_forall hne hw _ c hc
  | @single c ls hq hw h ih =>
    cases hb : isBlank c with
    | true =>
      rw [List.dropWhile_cons_of_pos (by exact hb), ← ih, spell_cons, text, List.singleton_append,
        skipBlanks, List.dropWhile_cons_of_pos hb]
      rfl
    | false =>
      rw [List.dropWhile_cons_of_neg (by simp [isBlankLexeme, hb])]
      exact skipBlanks_eq_self (by simpa [text] using hb)

theorem afterEmptyParentheses?_spell (h : Lexed ls) :
    afterEmptyParentheses? (spell ls) = (afterEmptyGroup? ls).map spell := by
  have behind {ms : List Lexeme} (hm : Lexed ms) : Lexed (ms.dropWhile isBlankLexeme) :=
    hm.of_suffix (List.dropWhile_suffix _)
  rw [afterEmptyParentheses?, afterEmptyGroup?, skipBlanks_spell h]
  split
  · next inside ho =>
    obtain ⟨ms, hms, rfl⟩ := (behind h).exists_of_spell_eq_cons (by decide) (by decide) ho
    have hm : Lexed ms := (hms ▸ behind h).tail
    simp only [hms, skipBlanks_spell hm]
    split
    · next rest hc =>
      obtain ⟨rs, hrs, rfl⟩ := (behind hm).exists_of_spell_eq_cons (by decide) (by decide) hc
      rw [hrs]
      rfl
    · next hc =>
      split
      · next rs hrs => exact absurd (by rw [hrs]; rfl) (hc (spell rs))
      · rfl
  · next ho =>
    split
    · next ms hms => exact absurd (by rw [hms]; rfl) (ho (spell ms))
    · rfl

theorem find?_calls (w : Text) :
    (calls.find? fun call => call.word.toList = upper w) =
      if upper w = "NOW" then some ⟨"NOW", true, "datetime('now')"⟩
      else if upper w = "CURRENT_DATE" then some ⟨"CURRENT_DATE", false, "date('now')"⟩
      else if upper w = "CURRENT_TIME" then some ⟨"CURRENT_TIME", false, "time('now')"⟩
      else none := by
  have hit {call : Call} (h : upper w = call.word.toList) (rest : List Call) :
      ((call :: rest).find? fun call => call.word.toList = upper w) = some call :=
    List.find?_cons_of_pos (decide_eq_true h.symm)
  have miss {call : Call} (h : ¬ upper w = call.word.toList) (rest : List Call) :
      ((call :: rest).find? fun call => call.word.toList = upper w) =
        rest.find? fun call => call.word.toList = upper w :=
    List.find?_cons_of_neg fun he => h (of_decide_eq_true he).symm
  rw [calls]
  split
  · next now => exact hit now _
  · next now =>
    rw [miss now]
    split
    · next date => exact hit date _
    · next date =>
      rw [miss date]
      split
      · next time => exact hit time _
      · next time =>
        rw [miss time]
        rfl

theorem substitute?_eq_bind (w after : Text) :
    substitute? w after = (instant? w).bind fun expression =>
      match afterEmptyParentheses? after with
      | some rest => some (expression, rest)
      | none => if upper w = "NOW" then none else some (expression, after) := by
  rw [substitute?, find?_calls, instant?]
  split
  · rfl
  · split
    · rfl
    · split <;> rfl

theorem substitute?_spell (h : Lexed ls) (w : Text) :
    substitute? w (spell ls) =
      (leadingGroup? (.word w :: ls)).map fun (expression, rest) => (expression, spell rest) := by
  rw [substitute?_eq_bind, afterEmptyParentheses?_spell h, leadingGroup?]
  cases instant? w with
  | none => rfl
  | some expression =>
    cases afterEmptyGroup? ls with
    | some rest => rfl
    | none =>
      simp only [Option.bind_some, Option.map_none, Option.bind_eq_bind]
      split <;> rfl

end Reading

/-! ## Replacing groups -/

section Replacing

variable {ls : List Lexeme} {s : Text}

/-- Replacing the clock calls of a text replaces the groups among its lexemes, and what
comes of them is again a list of lexemes. -/
theorem adapt_spell (h : Lexed ls) :
    Lexed (replaceGroups ls) ∧ adapt (spell ls) = spell (replaceGroups ls) := by
  fun_induction replaceGroups ls with
  | case1 => exact ⟨.nil, adapt_nil⟩
  | case2 l ls expression rest hg ih =>
    obtain ⟨w, tail, he, hi, hs⟩ := exists_of_leadingGroup? hg
    obtain ⟨rfl, rfl⟩ := List.cons.inj he
    obtain ⟨_, _, _, expression_append⟩ := ofText_expression hi
    obtain ⟨lexed, spelled⟩ := ih (h.tail.of_suffix hs)
    refine ⟨expression_append _ lexed, ?_⟩
    have substitution : substitute? w (spell ls) = some (expression, spell rest) := by
      rw [substitute?_spell h.tail, hg]
      rfl
    cases h with
    | word hne hw hend h =>
      have call : substitute? (leadingWord (w ++ spell ls)) (afterWord (w ++ spell ls)) =
          some (expression, spell rest) := by
        rw [leadingWord_append hw hend, afterWord_append hw hend, substitution]
      rw [spell_cons, text, adapt_of_substitute? call, spelled, spell_append, spell_ofText]
  | case3 l ls hg ih =>
    obtain ⟨lexed, spelled⟩ := ih h.tail
    rw [spell_cons, spell_cons, ← spelled]
    cases h with
    | @closed q inside ls hq hn h =>
      refine ⟨.closed hq hn lexed, ?_⟩
      simpa [text] using adapt_closed hq hn (spell ls)
    | unclosed hq hn =>
      refine ⟨?_, ?_⟩
      · rw [replaceGroups]
        exact .unclosed hq hn
      · simpa [text, adapt_nil] using adapt_unclosed hq hn
    | @word w ls hne hw hend h =>
      have kept : substitute? w (spell ls) = none := by
        rw [substitute?_spell h, hg]
        rfl
      refine ⟨.word hne hw ?_ lexed, adapt_word hw hend kept⟩
      rw [← spelled]
      exact continuesWord_head?_adapt hend
    | single hq hw h => exact ⟨.single hq hw lexed, adapt_cons hq hw _⟩

theorem ofText_adapt (s : Text) : ofText (adapt s) = replaceGroups (ofText s) := by
  obtain ⟨lexed, spelled⟩ := adapt_spell (lexed_ofText s)
  rw [spell_ofText] at spelled
  exact ofText_eq_iff.mpr ⟨lexed, spelled.symm⟩

theorem replaceGroups_eq_self_iff : replaceGroups ls = ls ↔ GroupFree ls := by
  fun_induction replaceGroups ls with
  | case1 =>
    refine iff_of_true rfl fun ms hms => ?_
    rw [List.suffix_nil.mp hms]
    rfl
  | case2 l ls expression rest hg ih =>
    obtain ⟨w, tail, he, hi, _⟩ := exists_of_leadingGroup? hg
    obtain ⟨f, hfw, lexemes, _⟩ := ofText_expression hi
    refine iff_of_false ?_ fun free => ?_
    · rw [he, lexemes]
      intro h
      exact hfw (Lexeme.word.inj (List.cons.inj h).1)
    · rw [free _ List.suffix_rfl] at hg
      contradiction
  | case3 l ls hg ih =>
    rw [List.cons.injEq, ih]
    constructor
    · rintro ⟨_, free⟩ ms hms
      rcases List.suffix_cons_iff.mp hms with rfl | hms
      · exact hg
      · exact free ms hms
    · exact fun free => ⟨rfl, fun ms hms => free ms (hms.trans (List.suffix_cons _ _))⟩

theorem adapt_eq_self_iff : adapt s = s ↔ GroupFree (ofText s) := by
  rw [← replaceGroups_eq_self_iff, ← ofText_adapt]
  constructor
  · intro h
    rw [h]
  · intro h
    rw [← spell_ofText (adapt s), h, spell_ofText]

end Replacing

/-- The lexemes of an adapted text are those of the text with each group replaced by the
lexemes of its expression.  So no group is left, adapting again changes nothing, and only
texts without groups are left as they are. -/
theorem lexemes_of_adapt (s : Text) :
    ofText (adapt s) = replaceGroups (ofText s) ∧ GroupFree (ofText (adapt s)) ∧
      adapt (adapt s) = adapt s ∧ (adapt s = s ↔ GroupFree (ofText s)) :=
  ⟨ofText_adapt s, adapt_eq_self_iff.mp (adapt_adapt s), adapt_adapt s, adapt_eq_self_iff⟩

end Clock
end Dialect
