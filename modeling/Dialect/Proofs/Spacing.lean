import Dialect.Proofs.Table.Constraint
import Dialect.Proofs.Table.Heading

/-!
# Spacing

Two texts are respaced when they differ only in how their runs of blanks outside quotes
are written.  A run stays a run, so no two words grow together and none falls apart.  Every
reader of the library does the same on both texts: it takes off the same words and names
and leaves texts that are again respaced.

A bracketed name keeps the blanks that stand in it, although brackets are no quotes.  So a
bracket outside quotes is left out of the relation.
-/

namespace Dialect

open Reading

/-! ## Runs of blanks -/

theorem BlankRun.not_taken {p : Char → Bool} (hb : ∀ c, isBlank c = true → p c = false)
    (b : BlankRun) (s : Text) :
    (b.1 ++ s).takeWhile p = [] ∧ (b.1 ++ s).dropWhile p = b.1 ++ s := by
  have front : ∀ c ∈ (b.1 ++ s).head?, p c = false :=
    head?_append_of_forall b.2.1 (fun c hc => hb c (b.all c hc)) s
  constructor
  · simpa using takeWhile_run (t := []) (by simp) front
  · simpa using dropWhile_run (t := []) (by simp) front

theorem trimEnd_append_eq (s t : Text) :
    trimEnd (s ++ t) = if trimEnd t = [] then trimEnd s else s ++ trimEnd t := by
  simp only [trimEnd, List.reverse_append, List.dropWhile_append, List.isEmpty_iff,
    List.reverse_eq_nil_iff]
  split
  · rfl
  · simp

theorem BlankRun.trimEnd_eq_nil (b : BlankRun) : trimEnd b.1 = [] := by
  have spaces : ∀ c ∈ b.1, isSpace c = true := fun c hc => isSpace_of_isBlank (b.all c hc)
  simpa using trimEnd_append (s := []) spaces (by simp)

theorem BlankRun.afterBlanks?_append (b : BlankRun) (s : Text) :
    afterBlanks? (b.1 ++ s) = some (skipBlanks s) := by
  obtain ⟨c, u, hb⟩ := List.exists_cons_of_ne_nil b.2.1
  have all := b.all
  rw [hb] at all ⊢
  rw [List.cons_append, afterBlanks?, if_pos (all c List.mem_cons_self),
    skipBlanks, List.dropWhile_append_of_pos fun d hd => all d (List.mem_cons_of_mem c hd)]
  rfl

theorem words_eq_cut (s : Text) :
    words s = (if s.takeWhile (! isSpace ·) = [] then [] else [s.takeWhile (! isSpace ·)]) ++
      words (s.dropWhile (! isSpace ·)) := by
  have whole : s.takeWhile (! isSpace ·) ++ s.dropWhile (! isSpace ·) = s :=
    List.takeWhile_append_dropWhile
  by_cases hw : s.takeWhile (! isSpace ·) = []
  · rw [hw, List.nil_append] at whole
    rw [if_pos hw, List.nil_append, whole]
  · have word : ∀ c ∈ s.takeWhile (! isSpace ·), isSpace c = false := by
      intro c hc
      simpa using List.all_eq_true.mp List.all_takeWhile c hc
    have behind : ∀ c ∈ (s.dropWhile (! isSpace ·)).head?, isSpace c = true := by
      intro c hc
      simpa using head?_dropWhile_eq_false c hc
    have cut := words_word_append hw word behind
    rw [whole] at cut
    rw [if_neg hw, List.singleton_append, cut]

/-! ## The relation -/

/-- The texts stand behind the same quote, if any. -/
inductive Respaced : Option Char → Text → Text → Prop where
  | nil {q : Option Char} : Respaced q [] []
  | copy {q : Option Char} {c : Char} {s t : Text} :
    (q = none → c ≠ '[') → Respaced (nextQuote q c) s t → Respaced q (c :: s) (c :: t)
  | blanks {s t : Text} (a b : BlankRun) :
    Respaced none s t → Respaced none (a.1 ++ s) (b.1 ++ t)

namespace Respaced

section Building

variable {q : Option Char} {s t : Text}

theorem symm (h : Respaced q s t) : Respaced q t s := by
  induction h with
  | nil => exact nil
  | copy hc _ ih => exact copy hc ih
  | blanks a b _ ih => exact blanks b a ih

theorem refl (h : '[' ∉ s) : Respaced q s s := by
  induction s generalizing q with
  | nil => exact nil
  | cons c s ih =>
    rw [List.mem_cons, not_or] at h
    exact copy (fun _ => Ne.symm h.1) (ih h.2)

theorem append_left {u : Text} (hu : '[' ∉ u) (h : Respaced (u.foldl nextQuote q) s t) :
    Respaced q (u ++ s) (u ++ t) := by
  induction u generalizing q with
  | nil => exact h
  | cons c u ih =>
    rw [List.mem_cons, not_or] at hu
    exact copy (fun _ => Ne.symm hu.1) (ih hu.2 h)

theorem eq_nil_iff (h : Respaced q s t) : s = [] ↔ t = [] := by
  cases h with
  | nil => rfl
  | copy => simp
  | blanks a b => simp [a.2.1, b.2.1]

end Building

/-! ## Runs of characters -/

section Runs

variable {q : Option Char} {p : Char → Bool} {s t : Text}

/-- A class without blanks. -/
theorem takeWhile_eq (hp : ∀ c, p c = true → isPlain c = true)
    (hb : ∀ c, isBlank c = true → p c = false) (h : Respaced none s t) :
    s.takeWhile p = t.takeWhile p ∧ Respaced none (s.dropWhile p) (t.dropWhile p) := by
  generalize hq : (none : Option Char) = q at h
  induction h with
  | nil => exact ⟨rfl, nil⟩
  | @copy q c s t hc h ih =>
    subst hq
    cases hpc : p c with
    | true =>
      obtain ⟨taken, left⟩ := ih (nextQuote_of_isPlain (hp c hpc)).symm
      rw [List.takeWhile_cons_of_pos hpc, List.takeWhile_cons_of_pos hpc, taken,
        List.dropWhile_cons_of_pos hpc, List.dropWhile_cons_of_pos hpc]
      rw [nextQuote_of_isPlain (hp c hpc)] at left
      exact ⟨rfl, left⟩
    | false =>
      have no : ¬ p c = true := by simp [hpc]
      rw [List.takeWhile_cons_of_neg no, List.takeWhile_cons_of_neg no,
        List.dropWhile_cons_of_neg no, List.dropWhile_cons_of_neg no]
      exact ⟨rfl, copy hc h⟩
  | @blanks s t a b h ih =>
    rw [(a.not_taken hb s).1, (b.not_taken hb t).1, (a.not_taken hb s).2,
      (b.not_taken hb t).2]
    exact ⟨rfl, blanks a b h⟩

/-- A class with all blanks. -/
theorem dropWhile (hp : ∀ c, p c = true → isPlain c = true)
    (hb : ∀ c, isBlank c = true → p c = true) (h : Respaced none s t) :
    Respaced none (s.dropWhile p) (t.dropWhile p) := by
  generalize hq : (none : Option Char) = q at h
  induction h with
  | nil => exact nil
  | @copy q c s t hc h ih =>
    subst hq
    cases hpc : p c with
    | true =>
      have left := ih (nextQuote_of_isPlain (hp c hpc)).symm
      rw [nextQuote_of_isPlain (hp c hpc)] at left
      rw [List.dropWhile_cons_of_pos hpc, List.dropWhile_cons_of_pos hpc]
      exact left
    | false =>
      have no : ¬ p c = true := by simp [hpc]
      rw [List.dropWhile_cons_of_neg no, List.dropWhile_cons_of_neg no]
      exact copy hc h
  | @blanks s t a b h ih =>
    rw [List.dropWhile_append_of_pos fun c hc => hb c (a.all c hc),
      List.dropWhile_append_of_pos fun c hc => hb c (b.all c hc)]
    exact ih hq

end Runs

/-! ## Words and spaces -/

section Words

variable {q : Option Char} {s t keyword : Text}

theorem leadingWord_eq (h : Respaced none s t) :
    leadingWord s = leadingWord t ∧ Respaced none (afterWord s) (afterWord t) :=
  h.takeWhile_eq (fun _ => isPlain_of_continuesWord) (fun _ => continuesWord_of_isBlank)

theorem skipBlanks (h : Respaced none s t) :
    Respaced none (Dialect.skipBlanks s) (Dialect.skipBlanks t) :=
  h.dropWhile (fun _ => isPlain_of_isBlank) (fun _ hc => hc)

theorem trimStart (h : Respaced none s t) :
    Respaced none (Dialect.trimStart s) (Dialect.trimStart t) :=
  h.dropWhile (fun _ => isPlain_of_isSpace) (fun _ => isSpace_of_isBlank)

theorem trimEnd (h : Respaced q s t) : Respaced q (Dialect.trimEnd s) (Dialect.trimEnd t) := by
  induction h with
  | nil => exact nil
  | @copy q c s t hc h ih =>
    rw [← List.singleton_append, ← List.singleton_append (l := t), trimEnd_append_eq,
      trimEnd_append_eq]
    by_cases hs : Dialect.trimEnd s = []
    · rw [if_pos hs, if_pos (ih.eq_nil_iff.mp hs)]
      cases hcs : isSpace c with
      | true =>
        have gone : Dialect.trimEnd [c] = [] := by simp [Dialect.trimEnd, hcs]
        rw [gone]
        exact nil
      | false =>
        have kept : Dialect.trimEnd [c] = [c] := by simp [Dialect.trimEnd, hcs]
        rw [kept]
        exact copy hc nil
    · rw [if_neg hs, if_neg fun ht => hs (ih.eq_nil_iff.mpr ht)]
      exact copy hc ih
  | @blanks s t a b h ih =>
    rw [trimEnd_append_eq, trimEnd_append_eq]
    by_cases hs : Dialect.trimEnd s = []
    · rw [if_pos hs, if_pos (ih.eq_nil_iff.mp hs), a.trimEnd_eq_nil, b.trimEnd_eq_nil]
      exact nil
    · rw [if_neg hs, if_neg fun ht => hs (ih.eq_nil_iff.mpr ht)]
      exact blanks a b ih

theorem trim (h : Respaced none s t) : Respaced none (Dialect.trim s) (Dialect.trim t) :=
  h.trimStart.trimEnd

theorem words_eq (h : Respaced q s t) : words s = words t := by
  have join {s t : Text} (cut : s.takeWhile (! isSpace ·) = t.takeWhile (! isSpace ·) ∧
      words (s.dropWhile (! isSpace ·)) = words (t.dropWhile (! isSpace ·))) :
      words s = words t := by
    rw [words_eq_cut s, words_eq_cut t, cut.1, cut.2]
  -- A copied character may go on with a word, so the first word is kept apart.
  apply join
  induction h with
  | nil => exact ⟨rfl, rfl⟩
  | @copy q c s t _ h ih =>
    cases hc : isSpace c with
    | true =>
      have space (s : Text) : words (c :: s) = words s := by
        have split := words_append_cons hc [] s
        rwa [words_nil, List.nil_append, List.nil_append] at split
      simp only [List.takeWhile_cons, List.dropWhile_cons, hc, Bool.not_true, Bool.false_eq_true,
        if_false, space]
      exact ⟨trivial, join ih⟩
    | false =>
      simp only [List.takeWhile_cons, List.dropWhile_cons, hc, Bool.not_false, if_true]
      rw [ih.1, ih.2]
      exact ⟨rfl, rfl⟩
  | @blanks s t a b h ih =>
    have front (b : BlankRun) (s : Text) :
        (b.1 ++ s).takeWhile (! isSpace ·) = [] ∧
          (b.1 ++ s).dropWhile (! isSpace ·) = b.1 ++ s :=
      b.not_taken (fun c hc => by simp [isSpace_of_isBlank hc]) s
    have spaces (b : BlankRun) (s : Text) : words (b.1 ++ s) = words s :=
      words_spaces_append (fun c hc => isSpace_of_isBlank (b.all c hc)) s
    rw [(front a s).1, (front b t).1, (front a s).2, (front b t).2, spaces, spaces]
    exact ⟨rfl, join ih⟩

end Words

/-! ## Cuts at a character -/

section Cuts

variable {q : Option Char} {c : Char} {s t u : Text}

theorem exists_append_cons (hc : isBlank c = false) (h : Respaced q (u ++ c :: s) t) :
    ∃ v w, t = v ++ c :: w ∧ Respaced q u v ∧
      Respaced (nextQuote (u.foldl nextQuote q) c) s w := by
  generalize hx : u ++ c :: s = x at h
  induction h generalizing u with
  | nil => simp at hx
  | @copy q d x t hd h ih =>
    cases u with
    | nil =>
      obtain ⟨rfl, rfl⟩ := List.cons.inj hx
      exact ⟨[], t, rfl, nil, h⟩
    | cons e u =>
      obtain ⟨rfl, rfl⟩ := List.cons.inj hx
      obtain ⟨v, w, rfl, hv, hw⟩ := ih rfl
      exact ⟨e :: v, w, rfl, copy hd hv, hw⟩
  | @blanks x t a b h ih =>
    -- The character is no blank, so the run stands in front of it.
    have behind : ∃ w, u = a.1 ++ w ∧ w ++ c :: s = x := by
      rcases List.append_eq_append_iff.mp hx with ⟨w, ha, hw⟩ | ⟨w, hu, hw⟩
      · cases w with
        | nil => exact ⟨[], by rw [ha]; simp, hw⟩
        | cons d w =>
          obtain ⟨rfl, _⟩ := List.cons.inj hw
          rw [a.all c (by rw [ha]; simp)] at hc
          contradiction
      · exact ⟨w, hu, hw.symm⟩
    obtain ⟨w, rfl, hw⟩ := behind
    obtain ⟨v, r, rfl, hv, hr⟩ := ih hw
    have plain : a.1.foldl nextQuote none = none :=
      foldl_nextQuote_of_plain fun d hd => isPlain_of_isBlank (a.all d hd)
    refine ⟨b.1 ++ v, r, by simp, blanks a b hv, ?_⟩
    rwa [List.foldl_append, plain]

theorem exists_cons (hc : isBlank c = false) (h : Respaced q (c :: s) t) :
    ∃ w, t = c :: w ∧ Respaced (nextQuote q c) s w := by
  obtain ⟨v, w, rfl, hv, hw⟩ := h.exists_append_cons (u := []) hc
  obtain rfl : v = [] := hv.eq_nil_iff.mp rfl
  exact ⟨w, rfl, hw⟩

theorem head?_eq_iff (hc : isBlank c = false) (h : Respaced q s t) :
    s.head? = some c ↔ t.head? = some c := by
  have kept {s t : Text} (h : Respaced q s t) (hs : s.head? = some c) : t.head? = some c := by
    obtain ⟨u, rfl⟩ := List.head?_eq_some_iff.mp hs
    obtain ⟨w, rfl, _⟩ := h.exists_cons hc
    rfl
  exact ⟨kept h, kept h.symm⟩

theorem head?_ne_bracket (h : Respaced none s t) : s.head? ≠ some '[' := by
  cases h with
  | nil => simp
  | copy hc => simpa using hc rfl
  | @blanks s t a b =>
    intro he
    have blank : isBlank '[' = true :=
      head?_append_of_forall a.2.1 (fun c hc => a.all c hc) s '[' he
    contradiction

end Cuts

/-! ## Quotes -/

section Quotes

variable {q : Char} {s t inside rest : Text}

theorem eq_of_not_mem (h : Respaced (some q) s t) (hn : q ∉ s) : s = t := by
  generalize hq : some q = x at h
  induction h with
  | nil => rfl
  | @copy x c s t _ h ih =>
    subst hq
    rw [List.mem_cons, not_or] at hn
    rw [ih hn.2 (nextQuote_of_ne (Ne.symm hn.1)).symm]
  | blanks => contradiction

/-- What a quoted run holds is the same in both texts. -/
theorem exists_of_closed (hb : isBlank q = false) (hn : q ∉ inside)
    (h : Respaced (some q) (inside ++ q :: rest) t) :
    ∃ w, t = inside ++ q :: w ∧ Respaced none rest w := by
  obtain ⟨v, w, rfl, hv, hw⟩ := h.exists_append_cons hb
  rw [foldl_nextQuote_of_not_mem hn, nextQuote_self] at hw
  rw [← hv.eq_of_not_mem hn]
  exact ⟨w, rfl, hw⟩

end Quotes
end Respaced

/-! ## Readers on both texts -/

section Relating

variable {α β γ δ : Type} {R : α → β → Prop} {S : γ → δ → Prop} {x x' : Option α} {y y' : Option β}

theorem rel_bind {f : α → Option γ} {g : β → Option δ} (h : Option.Rel R x y)
    (hf : ∀ a b, R a b → Option.Rel S (f a) (g b)) : Option.Rel S (x.bind f) (y.bind g) := by
  cases h with
  | none => exact .none
  | some h => exact hf _ _ h

theorem rel_map {f : α → γ} {g : β → δ} (h : Option.Rel R x y)
    (hf : ∀ a b, R a b → S (f a) (g b)) : Option.Rel S (x.map f) (y.map g) := by
  cases h with
  | none => exact .none
  | some h => exact .some (hf _ _ h)

theorem rel_or (h : Option.Rel R x y) (h' : Option.Rel R x' y') :
    Option.Rel R (x.or x') (y.or y') := by
  cases h with
  | none => exact h'
  | some h => exact .some h

theorem isSome_of_rel (h : Option.Rel R x y) : x.isSome = y.isSome := by
  cases h <;> rfl

theorem cases_of_rel (h : Option.Rel R x y) :
    x = none ∧ y = none ∨ ∃ a b, x = some a ∧ y = some b ∧ R a b := by
  cases h with
  | none => exact Or.inl ⟨rfl, rfl⟩
  | some h => exact Or.inr ⟨_, _, rfl, rfl, h⟩

theorem rel_of_forall (hx : ∀ a, x = some a → ∃ b, y = some b ∧ R a b)
    (hy : ∀ b, y = some b → ∃ a, x = some a) : Option.Rel R x y := by
  cases x with
  | some a =>
    obtain ⟨b, rfl, h⟩ := hx a rfl
    exact .some h
  | none =>
    cases y with
    | none => exact .none
    | some b =>
      obtain ⟨a, ha⟩ := hy b rfl
      contradiction

end Relating

namespace Respaced

/-- The same part in front of respaced rests. -/
def Cut {α : Type} (x y : α × Text) : Prop := x.1 = y.1 ∧ Respaced none x.2 y.2

section Readers

variable {q : Char} {s t inside rest keyword : Text}

theorem afterKeyword? (h : Respaced none s t) :
    Option.Rel (Respaced none) (Dialect.afterKeyword? keyword s)
      (Dialect.afterKeyword? keyword t) := by
  obtain ⟨word, rest⟩ := h.leadingWord_eq
  rw [Dialect.afterKeyword?, Dialect.afterKeyword?, word]
  split
  · exact .some rest
  · exact .none

theorem afterBlanks? (h : Respaced none s t) :
    Option.Rel (Respaced none) (Dialect.afterBlanks? s) (Dialect.afterBlanks? t) := by
  cases h with
  | nil => exact .none
  | @copy _ c s t hc h =>
    cases hb : isBlank c with
    | true =>
      rw [nextQuote_of_isPlain (isPlain_of_isBlank hb)] at h
      simp only [Dialect.afterBlanks?, hb, if_true]
      exact .some h.skipBlanks
    | false =>
      simp only [Dialect.afterBlanks?, hb, Bool.false_eq_true, if_false]
      exact .none
  | blanks a b h =>
    rw [BlankRun.afterBlanks?_append, BlankRun.afterBlanks?_append]
    exact .some h.skipBlanks

theorem enclosed?_quote (hq : isQuote q = true) (h : Respaced none s t) :
    Option.Rel Cut (enclosed? q q s) (enclosed? q q t) := by
  have hb := isBlank_of_isQuote hq
  by_cases hs : s.head? = some q
  · obtain ⟨s, rfl⟩ := List.head?_eq_some_iff.mp hs
    obtain ⟨t, rfl, behind⟩ := h.exists_cons hb
    have opened : nextQuote none q = some q := nextQuote_of_isQuote hq
    rw [opened] at behind
    by_cases hm : q ∈ s
    · obtain ⟨inside, rest, rfl, hn⟩ := List.eq_append_cons_of_mem hm
      obtain ⟨rest', rfl, left⟩ := behind.exists_of_closed hb hn
      rw [enclosed?_closed hn, enclosed?_closed hn]
      exact .some ⟨rfl, left⟩
    · obtain rfl := behind.eq_of_not_mem hm
      rw [enclosed?_unclosed hm]
      exact .none
  · rw [enclosed?_eq_none hs, enclosed?_eq_none fun ht => hs ((h.head?_eq_iff hb).mpr ht)]
    exact .none

theorem bareName? (h : Respaced none s t) :
    Option.Rel Cut (Dialect.bareName? s) (Dialect.bareName? t) := by
  obtain ⟨name, rest⟩ := h.takeWhile_eq (p := continuesName) (fun _ => isPlain_of_continuesName)
    (fun _ hc => continuesName_of_isSpace (isSpace_of_isBlank hc))
  rw [Dialect.bareName?, Dialect.bareName?, name]
  split
  · exact .none
  · exact .some ⟨rfl, rest⟩

theorem leadingName? (h : Respaced none s t) :
    Option.Rel Cut (Dialect.leadingName? s) (Dialect.leadingName? t) := by
  refine rel_or (h.enclosed?_quote (by decide)) (rel_or (h.enclosed?_quote (by decide))
    (rel_or ?_ h.bareName?))
  rw [enclosed?_eq_none h.head?_ne_bracket, enclosed?_eq_none h.symm.head?_ne_bracket]
  exact .none

end Readers

/-! ## Nesting -/

section Nesting

variable {r : Reading} {s t inside rest : Text}

/-- Both texts are read to the same place, through the same roles. -/
theorem reading_eq (h : Respaced r.quote s t) :
    r.run s = r.run t ∧ ∀ x, x ≠ .plain → (r.Avoids x s ↔ r.Avoids x t) := by
  generalize hq : r.quote = q at h
  induction h generalizing r with
  | nil => exact ⟨rfl, fun _ _ => Iff.rfl⟩
  | @copy q c s t _ h ih =>
    obtain ⟨place, roles⟩ := ih (r := r.step c) (by rw [quote_step, hq])
    refine ⟨place, fun x hx => ?_⟩
    rw [avoids_cons, avoids_cons, roles x hx]
  | @blanks s t a b h ih =>
    obtain ⟨place, roles⟩ := ih hq
    obtain ⟨_, d⟩ := r
    obtain rfl : _ = none := hq
    have plain (b : BlankRun) := roles_of_plain_at d fun c hc => isPlain_of_isBlank (b.all c hc)
    have skip (b : BlankRun) (s : Text) : run ⟨none, d⟩ (b.1 ++ s) = run ⟨none, d⟩ s := by
      rw [run_append, (plain b).2]
    have avoid (b : BlankRun) (s : Text) (x : Role) (hx : x ≠ .plain) :
        Avoids ⟨none, d⟩ x (b.1 ++ s) ↔ Avoids ⟨none, d⟩ x s := by
      have front : Avoids ⟨none, d⟩ x b.1 := fun p hp => (plain b).1 p hp ▸ hx.symm
      rw [avoids_append, (plain b).2]
      exact and_iff_right front
    refine ⟨by rw [skip, skip, place], fun x hx => ?_⟩
    rw [avoid a s x hx, avoid b t x hx, roles x hx]

theorem balanced (h : Respaced none s t) (hs : Balanced s) : Balanced t := by
  obtain ⟨place, roles⟩ := reading_eq (r := start) h
  exact ⟨(roles _ (by simp)).mp hs.contained, place ▸ hs.run⟩

theorem exists_of_group? (h : Respaced none s t) (hg : group? s = some (inside, rest)) :
    ∃ i r, group? t = some (i, r) ∧ Respaced none inside i ∧ Respaced none rest r := by
  obtain ⟨rfl, balanced⟩ := balanced_of_group? hg
  obtain ⟨u, rfl, hu⟩ := h.exists_cons (by decide)
  obtain ⟨i, r, rfl, hi, hr⟩ := hu.exists_append_cons (by decide)
  have closed : inside.foldl nextQuote none = none := foldl_nextQuote_of_run balanced.run
  refine ⟨i, r, group?_of_balanced (Respaced.balanced hi balanced) r, hi, ?_⟩
  have behind : nextQuote (inside.foldl nextQuote (nextQuote none '(')) ')' = none := by
    rw [show nextQuote none '(' = none from rfl, closed]
    rfl
  rwa [behind] at hr

/-- A group is closed at the same parenthesis. -/
theorem group? (h : Respaced none s t) :
    Option.Rel (fun x y => Respaced none x.1 y.1 ∧ Respaced none x.2 y.2) (Dialect.group? s)
      (Dialect.group? t) := by
  refine rel_of_forall (fun x hx => ?_) fun y hy => ?_
  · obtain ⟨i, r, hg, hi, hr⟩ := h.exists_of_group? hx
    exact ⟨(i, r), hg, hi, hr⟩
  · obtain ⟨i, r, hg, _⟩ := h.symm.exists_of_group? hy
    exact ⟨(i, r), hg⟩

end Nesting
end Respaced
end Dialect
