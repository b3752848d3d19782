import Dialect.Proofs.Comment.Provenance
import Dialect.Proofs.Compilation
import Mathlib.Data.List.Basic
import Mathlib.Order.Nat

/-!
# Comments that are never closed

A `/*` outside comments with no `*/` behind it opens a comment that nothing closes.
Removal keeps such an opener and makes no other, so the text without its comments shows
whether there is one.  A `*/` at the end closes the first of them, and with it everything
behind it is gone.
-/

namespace Dialect
namespace Comment

open Scanner

/-- A comment is opened at the place `p` of `s` and never closed. -/
structure Unclosed (s : Text) (p : Nat) : Prop where
  outside : ¬ InComment s p
  opener : ['/', '*'] <+: s.drop p
  behind : ∀ q, p + 2 ≤ q → ¬ ['*', '/'] <+: s.drop q

section Places

variable {before comment rest s t : Text} {c : Char} {p : Nat}

theorem infix_iff_exists_drop {mark : Text} : mark <:+: s ↔ ∃ q, mark <+: s.drop q := by
  constructor
  · rintro ⟨u, v, rfl⟩
    exact ⟨u.length, v, by simp⟩
  · rintro ⟨q, h⟩
    exact h.isInfix.trans (List.drop_suffix q s).isInfix

theorem not_beginsComment (hl : ¬ ['-', '-'] <+: s) (hb : ¬ ['/', '*'] <+: s) :
    ¬ BeginsComment s := by
  rw [beginsComment_iff]
  rintro (hline | ⟨inside, rest, hblock⟩)
  · exact hl hline
  · exact hb ⟨_, hblock.1.symm⟩

theorem unclosed_behind_iff (h : IsComment comment rest) :
    Unclosed (comment ++ rest) (comment.length + p) ↔ Unclosed rest p := by
  have drop (q : Nat) : (comment ++ rest).drop (comment.length + q) = rest.drop q :=
    List.drop_length_add_append q
  constructor
  · intro hu
    refine ⟨mt (inComment_behind_iff h).mpr hu.outside, drop p ▸ hu.opener, fun q hq => ?_⟩
    rw [← drop q]
    exact hu.behind _ (by omega)
  · intro hu
    refine ⟨mt (inComment_behind_iff h).mp hu.outside, (drop p).symm ▸ hu.opener, fun q hq => ?_⟩
    obtain ⟨r, rfl⟩ := Nat.exists_eq_add_of_le (show comment.length ≤ q by omega)
    rw [drop]
    exact hu.behind r (by omega)

theorem unclosed_succ_iff (h : ¬ BeginsComment (c :: s)) :
    Unclosed (c :: s) (p + 1) ↔ Unclosed s p := by
  constructor
  · intro hu
    exact ⟨mt (inComment_succ_iff h).mpr hu.outside, hu.opener,
      fun q hq => hu.behind (q + 1) (by omega)⟩
  · intro hu
    refine ⟨mt (inComment_succ_iff h).mp hu.outside, hu.opener, fun q hq => ?_⟩
    obtain ⟨r, rfl⟩ := Nat.exists_eq_succ_of_ne_zero (show q ≠ 0 by omega)
    exact hu.behind r (by omega)

theorem unclosed_length_iff : Unclosed (before ++ '/' :: '*' :: t) before.length ↔
    ¬ InComment (before ++ '/' :: '*' :: t) before.length ∧ ¬ ['*', '/'] <:+: t := by
  have drop (r : Nat) : (before ++ '/' :: '*' :: t).drop (before.length + 2 + r) = t.drop r := by
    rw [Nat.add_assoc, List.drop_length_add_append, ← List.drop_drop]
    rfl
  rw [infix_iff_exists_drop]
  constructor
  · rintro ⟨outside, _, behind⟩
    refine ⟨outside, fun ⟨r, hr⟩ => behind (before.length + 2 + r) (Nat.le_add_right _ _) ?_⟩
    rwa [drop]
  · rintro ⟨outside, none⟩
    refine ⟨outside, by simp, fun q hq hr => ?_⟩
    obtain ⟨r, rfl⟩ := Nat.exists_eq_add_of_le hq
    rw [drop] at hr
    exact none ⟨r, hr⟩

theorem Unclosed.exists_eq (h : Unclosed s p) :
    ∃ before t, s = before ++ '/' :: '*' :: t ∧ before.length = p := by
  obtain ⟨t, ht⟩ := h.opener
  have inside : p ≤ s.length := by
    have := h.opener.length_le
    simp only [List.length_cons, List.length_drop] at this
    omega
  refine ⟨s.take p, t, ?_, List.length_take_of_le inside⟩
  rw [show '/' :: '*' :: t = s.drop p from ht, List.take_append_drop]

/-- An opener that begins no comment is never closed. -/
theorem unclosed_zero (h : ¬ BeginsComment s) (hopen : ['/', '*'] <+: s) : Unclosed s 0 := by
  obtain ⟨t, rfl⟩ := hopen
  have none : ¬ ['*', '/'] <:+: t := by
    intro hclose
    have found : cut? "*/" t ≠ none := fun none => (cut?_eq_none_iff (by decide)).mp none hclose
    obtain ⟨⟨inside, rest⟩, hcut⟩ := Option.ne_none_iff_exists'.mp found
    obtain ⟨rfl, first⟩ := cut?_close_eq_some_iff.mp hcut
    exact h (beginsComment_iff.mpr (Or.inr ⟨inside, rest, rfl, first⟩))
  have front : Unclosed ([] ++ '/' :: '*' :: t) ([] : Text).length :=
    unclosed_length_iff.mpr ⟨not_inComment_zero h, none⟩
  exact front

theorem exists_unclosed_append_iff (h : IsComment comment rest) :
    (∃ p, Unclosed (comment ++ rest) p) ↔ ∃ p, Unclosed rest p := by
  constructor
  · rintro ⟨p, hu⟩
    rcases Nat.lt_or_ge p comment.length with hlt | hge
    · exact absurd (.inside h hlt) hu.outside
    · obtain ⟨q, rfl⟩ := Nat.exists_eq_add_of_le hge
      exact ⟨q, (unclosed_behind_iff h).mp hu⟩
  · rintro ⟨p, hu⟩
    exact ⟨comment.length + p, (unclosed_behind_iff h).mpr hu⟩

theorem exists_unclosed_cons_iff (h : ¬ BeginsComment (c :: s))
    (hopen : ¬ ['/', '*'] <+: c :: s) : (∃ p, Unclosed (c :: s) p) ↔ ∃ p, Unclosed s p := by
  constructor
  · rintro ⟨_ | p, hu⟩
    · exact absurd hu.opener hopen
    · exact ⟨p, (unclosed_succ_iff h).mp hu⟩
  · rintro ⟨p, hu⟩
    exact ⟨p + 1, (unclosed_succ_iff h).mpr hu⟩

end Places

/-! ## Openers that removal keeps -/

section Openers

variable {last : Option Char} {comment inside rest s : Text} {c : Char}

theorem scan_line (hn : '\n' ∉ inside) (hr : ∀ c ∈ rest.head?, c = '\n') :
    scan last ('-' :: '-' :: (inside ++ rest)) = scan last rest := by
  have run : (inside ++ rest).dropWhile (· ≠ '\n') = rest :=
    dropWhile_run (fun c hc => decide_eq_true fun e => hn (e ▸ hc))
      fun c hc => decide_eq_false (not_not_intro (hr c hc))
  rw [scan, run]

theorem scan_block (hn : ¬ ['*', '/'] <:+: inside) :
    scan last ('/' :: '*' :: (inside ++ '*' :: '/' :: rest)) =
      separator last rest.head? ++ scan (lastOf last (separator last rest.head?)) rest :=
  scan_of_beginsBlock ⟨rfl, hn⟩

theorem scan_cons (hl : ¬ ['-', '-'] <+: c :: s) (hb : ¬ ['/', '*'] <+: c :: s) :
    scan last (c :: s) = c :: scan (some c) s := by
  rw [← removeAfter_eq_scan, removeAfter_cons hl hb, removeAfter_eq_scan]

theorem open_infix_separator_append (last next : Option Char) (s : Text) :
    ['/', '*'] <:+: separator last next ++ s ↔ ['/', '*'] <:+: s := by
  refine pair_infix_append_left fun c hc => ?_
  have space : c = ' ' := by
    rcases separator_cases last next with hk | ⟨hk, _⟩
    · simpa [hk] using hc
    · simp [hk] at hc
  rw [space]
  decide

/-- Removal keeps an opener exactly where a comment is never closed. -/
theorem open_infix_scan_iff (last : Option Char) (s : Text) :
    ['/', '*'] <:+: scan last s ↔ ∃ p, Unclosed s p := by
  fun_induction scan last s with
  | case1 last =>
    refine iff_of_false (by simp) ?_
    rintro ⟨p, hu⟩
    simpa using hu.opener
  | case2 last s ih =>
    rw [ih, line_eq_append, exists_unclosed_append_iff (isComment_line s)]
  | case3 last s inside rest hc kept ih =>
    obtain ⟨rfl, hn⟩ := cut?_close_eq_some_iff.mp hc
    have split : '/' :: '*' :: (inside ++ '*' :: '/' :: rest) =
        ('/' :: '*' :: (inside ++ ['*', '/'])) ++ rest := by
      simp
    rw [open_infix_separator_append, ih, split, exists_unclosed_append_iff (.block hn)]
  | case4 last s hc ih =>
    have none : ¬ BeginsComment ('/' :: '*' :: s) := by
      rw [beginsComment_iff]
      rintro (hl | ⟨inside, rest, hb⟩)
      · simp at hl
      · obtain ⟨whole, hn⟩ := hb
        simp only [List.cons.injEq, true_and] at whole
        rw [whole, cut?_close hn] at hc
        contradiction
    refine iff_of_true ?_ ⟨0, unclosed_zero none ⟨s, rfl⟩⟩
    rw [scan_cons (by simp) (by simp)]
    exact ⟨[], scan (some '*') s, rfl⟩
  | case5 last c s hl hb ih =>
    have hopen := not_pair_prefix_cons hb
    have none := not_beginsComment (not_pair_prefix_cons hl) hopen
    rw [List.infix_cons_iff, or_iff_right (not_pair_prefix_scan (by decide) (by decide) hopen), ih,
      exists_unclosed_cons_iff none hopen]

theorem hasUnclosed_iff_opened : hasUnclosed s = true ↔ ['/', '*'] <:+: remove s := by
  rw [hasUnclosed, Option.isSome_iff_ne_none, ne_eq, cut?_eq_none_iff (by decide), Classical.not_not]
  rfl

theorem hasUnclosed_iff : hasUnclosed s = true ↔ ∃ p, Unclosed s p := by
  rw [hasUnclosed_iff_opened, remove, removeAfter_eq_scan, open_infix_scan_iff]

end Openers

/-! ## Closing the first of them -/

/-- A reading of `before ++ rest` comes to `rest` and meets no unclosed comment on the
way. -/
inductive Reached : Text → Text → Prop where
  | here {rest : Text} : Reached [] rest
  | comment {comment before rest : Text} :
    IsComment comment (before ++ rest) → Reached before rest → Reached (comment ++ before) rest
  | char {c : Char} {before rest : Text} :
    ¬ ['-', '-'] <+: c :: (before ++ rest) → ¬ ['/', '*'] <+: c :: (before ++ rest) →
    Reached before rest → Reached (c :: before) rest

section Closing

variable {last : Option Char} {a b c : Char} {before comment inside rest rest' s t : Text}
  {p : Nat}

/-- A place outside comments with no unclosed comment in front of it is reached. -/
theorem reached_of_outside (houtside : ¬ InComment (before ++ rest) before.length)
    (hfirst : ∀ q < before.length, ¬ Unclosed (before ++ rest) q) : Reached before rest := by
  induction hn : before.length using Nat.strongRecOn generalizing before with
  | ind n ih =>
    subst hn
    by_cases hbegins : BeginsComment (before ++ rest)
    · -- The comment ends before the place, because the place is not inside it.
      obtain ⟨comment, behind, whole, hc⟩ := hbegins
      have pos := hc.length_pos
      have within : comment.length ≤ before.length := by
        rw [whole] at houtside
        exact Nat.le_of_not_lt fun hlt => houtside (.inside hc hlt)
      obtain ⟨before', rfl⟩ : comment <+: before :=
        List.prefix_of_prefix_length_le ⟨behind, whole.symm⟩ (List.prefix_append before rest)
          within
      rw [List.append_assoc, List.append_cancel_left_eq] at whole
      subst whole
      rw [List.append_assoc, List.length_append, inComment_behind_iff hc] at houtside
      refine .comment hc (ih _ ?_ houtside (fun q hq => ?_) rfl)
      · rw [List.length_append]
        omega
      · have hu := hfirst (comment.length + q) (by rw [List.length_append]; omega)
        rwa [List.append_assoc, unclosed_behind_iff hc] at hu
    · cases before with
      | nil => exact .here
      | cons c tail =>
        have hopen : ¬ ['/', '*'] <+: c :: (tail ++ rest) :=
          fun hopen => hfirst 0 (Nat.succ_pos _) (unclosed_zero hbegins hopen)
        refine .char (fun hline => hbegins (beginsComment_iff.mpr (Or.inl hline))) hopen
          (ih _ (Nat.lt_succ_self _) ?_ (fun q hq => ?_) rfl)
        · exact mt (inComment_succ_iff hbegins).mpr houtside
        · exact mt (unclosed_succ_iff hbegins).mpr (hfirst (q + 1) (Nat.succ_lt_succ hq))

theorem head?_append_subset (hr : ∀ c ∈ rest'.head?, c ∈ rest.head?) (s : Text) :
    ∀ c ∈ (s ++ rest').head?, c ∈ (s ++ rest).head? := by
  cases s with
  | nil => exact hr
  | cons => exact fun _ hc => hc

theorem not_pair_prefix_of_head? (hr : ∀ c ∈ t.head?, c ∈ s.head?) (h : ¬ [a, b] <+: c :: s) :
    ¬ [a, b] <+: c :: t := by
  rw [pair_prefix_cons] at h ⊢
  exact fun hp => h ⟨hp.1, hr b hp.2⟩

theorem IsComment.of_head? (h : IsComment comment rest) (hr : ∀ c ∈ rest'.head?, c ∈ rest.head?) :
    IsComment comment rest' := by
  cases h with
  | line hn hfeed => exact .line hn fun c hc => hfeed c (hr c hc)
  | block hn => exact .block hn

namespace Reached

/-- Of what is behind, only the first character counts. -/
theorem of_head? (h : Reached before rest) (hr : ∀ c ∈ rest'.head?, c ∈ rest.head?) :
    Reached before rest' := by
  induction h with
  | here => exact .here
  | comment hc _ ih => exact .comment (hc.of_head? (head?_append_subset hr _)) (ih hr)
  | char hl hb _ ih =>
    have same := head?_append_subset hr
    exact .char (not_pair_prefix_of_head? (same _) hl) (not_pair_prefix_of_head? (same _) hb)
      (ih hr)

theorem exists_unclosed_iff (h : Reached before rest) :
    (∃ p, Unclosed (before ++ rest) p) ↔ ∃ p, Unclosed rest p := by
  induction h with
  | here => rfl
  | comment hc _ ih => rw [List.append_assoc, exists_unclosed_append_iff hc, ih]
  | char hl hb _ ih =>
    rw [List.cons_append, exists_unclosed_cons_iff (not_beginsComment hl hb) hb, ih]

end Reached

/-- What is removed before a place does not depend on what is behind it, unless a comment
ends there and a space is put between its two sides. -/
theorem Reached.exists_scan_eq (h : Reached before rest) (last : Option Char) :
    ∃ last' gap, (gap = [] ∨ gap = [' ']) ∧
      scan last (before ++ rest) = scan last before ++ gap ++ scan last' rest := by
  induction h generalizing last with
  | @here rest => exact ⟨last, [], Or.inl rfl, by simp [scan]⟩
  | @comment comment before rest hc _ ih =>
    cases hc with
    | @line inside _ hn hr =>
      obtain ⟨last', gap, hgap, hscan⟩ := ih last
      have feed : ∀ c ∈ before.head?, c = '\n' := fun c hc =>
        hr c (List.mem_head?_append_of_mem_head? hc)
      refine ⟨last', gap, hgap, ?_⟩
      rw [List.append_assoc, List.cons_append, List.cons_append, List.cons_append,
        List.cons_append, scan_line hn hr, scan_line hn feed, hscan]
    | @block inside _ hn =>
      have split (t : Text) : '/' :: '*' :: (inside ++ ['*', '/']) ++ t =
          '/' :: '*' :: (inside ++ '*' :: '/' :: t) := by
        simp
      rw [List.append_assoc, split, split, scan_block hn, scan_block hn]
      cases before with
      | nil =>
        -- The separator looks at what is behind the place.  Alone there is none.
        have gap : separator last rest.head? = [] ∨ separator last rest.head? = [' '] :=
          (separator_cases last rest.head?).symm.imp_left And.left
        have alone : separator last ([] : Text).head? = [] := by simp [separator]
        refine ⟨lastOf last (separator last rest.head?), _, gap, ?_⟩
        rw [alone, scan]
        rfl
      | cons c before =>
        obtain ⟨last', gap, hgap, hscan⟩ := ih (lastOf last (separator last (some c)))
        refine ⟨last', gap, hgap, ?_⟩
        simp only [List.cons_append, List.head?_cons, List.append_assoc] at hscan ⊢
        rw [hscan]
  | @char c before rest hl hb _ ih =>
    obtain ⟨last', gap, hgap, hscan⟩ := ih (some c)
    have alone : ∀ d ∈ before.head?, d ∈ (before ++ rest).head? :=
      fun _ => List.mem_head?_append_of_mem_head?
    refine ⟨last', gap, hgap, ?_⟩
    rw [List.cons_append, scan_cons hl hb, hscan,
      scan_cons (not_pair_prefix_of_head? alone hl) (not_pair_prefix_of_head? alone hb)]
    rfl

/-- The part in front of the first comment that is never closed is removed as if it stood
alone, and a closer takes away everything behind it. -/
theorem remove_closed (h : Reached before ('/' :: '*' :: s)) (hs : ¬ ['*', '/'] <:+: s) :
    remove (before ++ '/' :: '*' :: (s ++ ['*', '/'])) = remove before ∨
      remove (before ++ '/' :: '*' :: (s ++ ['*', '/'])) = remove before ++ [' '] := by
  have closed : Reached before ('/' :: '*' :: (s ++ ['*', '/'])) := h.of_head? fun _ hc => hc
  obtain ⟨last, gap, hgap, hscan⟩ := closed.exists_scan_eq none
  have behind : scan last ('/' :: '*' :: (s ++ ['*', '/'])) = [] := by
    rw [scan_block hs, scan]
    simp [separator]
  rw [behind, List.append_nil] at hscan
  simp only [remove, removeAfter_eq_scan, hscan]
  rcases hgap with rfl | rfl
  · exact Or.inl (List.append_nil _)
  · exact Or.inr rfl

theorem hasUnclosed_closed (h : Reached before ('/' :: '*' :: s)) (hs : ¬ ['*', '/'] <:+: s) :
    hasUnclosed (before ++ '/' :: '*' :: (s ++ ['*', '/'])) = false := by
  have closed : Reached before ('/' :: '*' :: (s ++ ['*', '/'])) := h.of_head? fun _ hc => hc
  have comment : IsComment ('/' :: '*' :: (s ++ ['*', '/'])) [] := .block hs
  have whole := exists_unclosed_append_iff comment
  rw [List.append_nil] at whole
  rw [Bool.eq_false_iff, ne_eq, hasUnclosed_iff, closed.exists_unclosed_iff, whole]
  rintro ⟨p, hu⟩
  simpa using hu.opener

theorem repaired_of_isLeast (h : IsLeast {p | Unclosed s p} p) :
    hasUnclosed (s ++ ['*', '/']) = false ∧
      (remove (s ++ ['*', '/']) = remove (s.take p) ∨
        remove (s ++ ['*', '/']) = remove (s.take p) ++ [' ']) := by
  have unclosed : Unclosed s p := h.1
  obtain ⟨before, t, rfl, rfl⟩ := unclosed.exists_eq
  have ht := (unclosed_length_iff.mp unclosed).2
  have reached : Reached before ('/' :: '*' :: t) :=
    reached_of_outside unclosed.outside fun q hq hu => absurd (h.2 hu) (Nat.not_le.mpr hq)
  rw [List.take_left, List.append_assoc, List.cons_append, List.cons_append]
  exact ⟨hasUnclosed_closed reached ht, remove_closed reached ht⟩

end Closing

/-! ## What compiling leaves -/

/-- Compiling brings no opener about. -/
theorem not_open_infix_compile {s : Text} (h : hasUnclosed s = false) :
    ¬ ['/', '*'] <:+: compile s := by
  have text : ¬ ['/', '*'] <:+: (Statement.ofText s).text := by
    rw [← Bool.not_eq_true, hasUnclosed_iff_opened] at h
    exact mt (pair_infix_trim (by decide) (by decide) (remove s)).mp h
  exact (Statement.spliced_adapt _).not_pair_isInfix (by decide) (by decide) text

/-- There is an unclosed comment iff one is found.  A closer at the end closes the first,
and takes away everything behind the place where it was opened.  Without an unclosed
comment there is no opener in what is compiled. -/
theorem unclosed_comment_exact (s : Text) :
    (hasUnclosed s = true ↔ ∃ p, Unclosed s p) ∧
      (hasUnclosed s = true →
        hasUnclosed (s ++ ['*', '/']) = false ∧
          ∃ p, IsLeast {p | Unclosed s p} p ∧
            (remove (s ++ ['*', '/']) = remove (s.take p) ∨
              remove (s ++ ['*', '/']) = remove (s.take p) ++ [' '])) ∧
      (hasUnclosed s = false → ¬ ['/', '*'] <:+: compile s) := by
  refine ⟨hasUnclosed_iff, fun h => ?_, not_open_infix_compile⟩
  classical
  have least := Nat.isLeast_find (hasUnclosed_iff.mp h)
  exact ⟨(repaired_of_isLeast least).1, _, least, (repaired_of_isLeast least).2⟩

end Comment
end Dialect
