import Dialect.Proofs.Comment.Settled
import Dialect.Proofs.Table.Spacing

/-!
# Gaps of a statement

A gap is a run of blanks outside quotes.  What fills it does not count: other blanks may
stand there, and behind the blanks a comment.  Removal leaves a run of blanks in the gap
again, so the compilation is that of a respaced text.

The blanks in front of a comment keep it apart from the text before the gap.  Without
them a `-` or a `/` there could open another comment with its first character.
-/

namespace Dialect

open Reading

/-! ## Marks around blanks -/

section Marks

variable {a b w : Text} {c x y : Char}

theorem ne_of_isBlank (hc : isBlank c = true) (hx : isBlank x = false) : x ≠ c := by
  rintro rfl
  rw [hc] at hx
  contradiction

theorem pair_infix_blanks_append (hx : isBlank x = false) (hy : isBlank y = false)
    (hw : w.all isBlank = true) : [x, y] <:+: w ++ b ↔ [x, y] <:+: b := by
  apply pair_infix_append_left
  intro c hc
  have blank := List.all_eq_true.mp hw c hc
  exact ⟨ne_of_isBlank blank hx, ne_of_isBlank blank hy⟩

/-- A mark is not made of blanks, so it stands on one side of them. -/
theorem pair_infix_append_run (hx : isBlank x = false) (hy : isBlank y = false) (w : BlankRun) :
    [x, y] <:+: a ++ (w.1 ++ b) ↔ [x, y] <:+: a ∨ [x, y] <:+: b := by
  obtain ⟨w, hne, hw⟩ := w
  obtain ⟨c, w, rfl⟩ := List.exists_cons_of_ne_nil hne
  rw [List.all_cons, Bool.and_eq_true] at hw
  rw [List.cons_append, pair_infix_append_cons (ne_of_isBlank hw.1 hx) (ne_of_isBlank hw.1 hy),
    pair_infix_blanks_append hx hy hw.2]

end Marks

namespace Comment

/-- No comment opens in the text. -/
structure Unopened (s : Text) : Prop where
  line : ¬ ['-', '-'] <:+: s
  block : ¬ ['/', '*'] <:+: s

section Opening

variable {a b w : Text} {last : Option Char}

theorem unopened_blanks_append (hw : w.all isBlank = true) (hb : Unopened b) :
    Unopened (w ++ b) := by
  constructor
  · rw [pair_infix_blanks_append (by decide) (by decide) hw]
    exact hb.line
  · rw [pair_infix_blanks_append (by decide) (by decide) hw]
    exact hb.block

theorem unopened_append_run (w : BlankRun) :
    Unopened (a ++ (w.1 ++ b)) ↔ Unopened a ∧ Unopened b := by
  have line := pair_infix_append_run (a := a) (b := b) (x := '-') (y := '-') (by decide)
    (by decide) w
  have block := pair_infix_append_run (a := a) (b := b) (x := '/') (y := '*') (by decide)
    (by decide) w
  constructor
  · rintro ⟨hl, hb⟩
    rw [line, not_or] at hl
    rw [block, not_or] at hb
    exact ⟨⟨hl.1, hb.1⟩, ⟨hl.2, hb.2⟩⟩
  · rintro ⟨ha, hb⟩
    exact ⟨fun h => (line.mp h).elim ha.line hb.line,
      fun h => (block.mp h).elim ha.block hb.block⟩

theorem removeAfter_of_unopened (h : Unopened a) : removeAfter last a = a := by
  have line : cut? "--" a = none := (cut?_eq_none_iff (by simp)).mpr h.line
  have block : cut? "/*" a = none := (cut?_eq_none_iff (by simp)).mpr h.block
  refine removeAfter_of_none ?_
  rw [opening?, line, block]

/-- What comes behind a blank does not change what is written before it. -/
theorem exists_remove_append (h : Unopened a) (w : BlankRun) : ∃ last, isSpace last = true ∧
    ∀ b, remove (a ++ (w.1 ++ b)) = a ++ (w.1 ++ removeAfter (some last) b) := by
  obtain ⟨last, hlast⟩ := Option.ne_none_iff_exists'.mp (mt List.getLast?_eq_none_iff.mp w.2.1)
  have blank : isBlank last = true := w.all last (List.mem_of_getLast? hlast)
  have written : (a ++ w.1).getLast? = some last := by
    rw [getLast?_append_of_ne_nil w.2.1, hlast]
  have front : Unopened (a ++ w.1) := by
    have whole := (unopened_append_run (b := []) w).mpr ⟨h, ⟨by simp, by simp⟩⟩
    rwa [List.append_nil] at whole
  have ends : ∀ c ∈ (a ++ w.1).getLast?, c ≠ '-' ∧ c ≠ '/' := by
    intro c hc
    rw [written] at hc
    rw [← Option.some.inj hc]
    exact ⟨(ne_of_isBlank blank (by decide)).symm, (ne_of_isBlank blank (by decide)).symm⟩
  refine ⟨last, isSpace_of_isBlank blank, fun b => ?_⟩
  rw [← List.append_assoc, ← List.append_assoc, remove,
    removeAfter_append front.line front.block ends, lastOf, written]
  rfl

end Opening
end Comment

open Comment

/-! ## Fillings -/

/-- What may stand in a gap in the place of the blanks. -/
inductive Filling (s : BlankRun) : Text → Prop where
  | blanks (t : BlankRun) : Filling s t.1
  | block {c after : Text} : ¬ ['*', '/'] <:+: c → after.all isBlank = true →
    Filling s (s.1 ++ "/*" ++ c ++ "*/" ++ after)
  | line {c after : Text} : '\n' ∉ c → after.all isBlank = true →
    Filling s (s.1 ++ "--" ++ c ++ "\n" ++ after)

/-- The blanks stand outside quotes, in a text without comments and brackets. -/
structure Gap (a : Text) (s : BlankRun) (b : Text) : Prop where
  unopened : Unopened (a ++ s.1 ++ b)
  bracket : '[' ∉ a ++ s.1 ++ b
  outside : (start.run a).quote = none

namespace Gap

variable {a b t : Text} {s : BlankRun}

theorem sides (h : Gap a s b) : Unopened a ∧ Unopened b := by
  have whole := h.unopened
  rwa [List.append_assoc, unopened_append_run] at whole

theorem remove_run (h : Gap a s b) (w : BlankRun) : remove (a ++ w.1 ++ b) = a ++ w.1 ++ b := by
  apply removeAfter_of_unopened
  rw [List.append_assoc]
  exact (unopened_append_run w).mpr h.sides

/-- Removal leaves a run of blanks in the gap and the text on its two sides as it is. -/
theorem exists_remove (h : Gap a s b) (ht : Filling s t) :
    ∃ w : BlankRun, remove (a ++ t ++ b) = a ++ w.1 ++ b := by
  obtain ⟨last, space, write⟩ := exists_remove_append h.sides.1 s
  have behind {u : Text} (last : Option Char) (hu : u.all isBlank = true) :
      removeAfter last (u ++ b) = u ++ b :=
    removeAfter_of_unopened (unopened_blanks_append hu h.sides.2)
  have run {u : Text} (hu : u.all isBlank = true) :
      s.1 ++ u ≠ [] ∧ (s.1 ++ u).all isBlank = true :=
    ⟨by simp [s.2.1], by rw [List.all_append, s.2.2, hu]; rfl⟩
  cases ht with
  | blanks w => exact ⟨w, h.remove_run w⟩
  | @block c after hc hafter =>
    have split : a ++ (s.1 ++ "/*" ++ c ++ "*/" ++ after) ++ b =
        a ++ (s.1 ++ ('/' :: '*' :: (c ++ '*' :: '/' :: (after ++ b)))) := by simp
    -- No space is written for the comment, because the blanks stand before it.
    have joined : separator (some last) (after ++ b).head? = [] := by simp [separator, space]
    refine ⟨⟨s.1 ++ after, run hafter⟩, ?_⟩
    rw [split, write, removeAfter_of_closed (opening?_block _) (cut?_close hc _), lastOf,
      List.getLast?_nil, Option.none_or, joined, behind _ hafter]
    simp
  | @line c after hc hafter =>
    have split : a ++ (s.1 ++ "--" ++ c ++ "\n" ++ after) ++ b =
        a ++ (s.1 ++ ('-' :: '-' :: (c ++ '\n' :: (after ++ b)))) := by simp
    have left : ('\n' :: after).all isBlank = true := by
      rw [List.all_cons, hafter]
      rfl
    refine ⟨⟨s.1 ++ '\n' :: after, run left⟩, ?_⟩
    rw [split, write, removeAfter_of_line (opening?_line _), dropWhile_ne hc, ← List.cons_append,
      behind _ left]
    simp

/-! ## Compilation -/

theorem respaced (h : Gap a s b) (w : BlankRun) :
    Respaced none (a ++ w.1 ++ b) (a ++ s.1 ++ b) := by
  have bracket := h.bracket
  simp only [List.mem_append, not_or] at bracket
  have outside : a.foldl nextQuote none = none := (quote_run start a).symm.trans h.outside
  rw [List.append_assoc, List.append_assoc]
  apply Respaced.append_left bracket.1.1
  rw [outside]
  exact .blanks w s (.refl bracket.2)

/-- However a gap is filled, the kind and the treatment are the same, and so is the table
if there is one to render. -/
theorem compilation_of_filling (h : Gap a s b) (ht : Filling s t) :
    (Compilation.ofText (a ++ t ++ b)).kind = (Compilation.ofText (a ++ s.1 ++ b)).kind ∧
      (Compilation.ofText (a ++ t ++ b)).treatment =
        (Compilation.ofText (a ++ s.1 ++ b)).treatment ∧
      ((Compilation.ofText (a ++ s.1 ++ b)).kind = .createTable →
        (Compilation.ofText (a ++ s.1 ++ b)).treatment = .adapted →
        (Compilation.ofText (a ++ t ++ b)).sql = (Compilation.ofText (a ++ s.1 ++ b)).sql) := by
  obtain ⟨w, hw⟩ := h.exists_remove ht
  have texts : Respaced none (trim (remove (a ++ s.1 ++ b))) (trim (remove (a ++ t ++ b))) := by
    rw [hw, h.remove_run s]
    exact (h.respaced w).symm.trim
  obtain ⟨treatment, sql⟩ := texts.adapt_eq
  exact ⟨texts.kind_eq.symm, treatment.symm, fun hk ha => (sql hk ha).symm⟩

/-- A comment in a list of columns, where a quoted name has a blank in it. -/
theorem compilation_filled :
    Compilation.ofText "create table t (a /* key, of t( */\n int not null, \x60x y\x60 text)" =
      Compilation.ofText "create table t (a int not null, \x60x y\x60 text)" := by
  have gap : Gap "create table t (a" .one "int not null, \x60x y\x60 text)" :=
    ⟨⟨by decide +kernel, by decide +kernel⟩, by decide +kernel, by decide +kernel⟩
  have filling : Filling .one " /* key, of t( */\n " :=
    @Filling.block .one " key, of t( " "\n " (by decide +kernel) (by decide)
  have plain : "create table t (a int not null, \x60x y\x60 text)".toList =
      "create table t (a".toList ++ BlankRun.one.1 ++ "int not null, \x60x y\x60 text)".toList := by
    decide +kernel
  have filled : "create table t (a /* key, of t( */\n int not null, \x60x y\x60 text)".toList =
      "create table t (a".toList ++ " /* key, of t( */\n ".toList ++
        "int not null, \x60x y\x60 text)".toList := by
    decide +kernel
  have table : (Compilation.ofText "create table t (a int not null, \x60x y\x60 text)").kind =
        .createTable ∧
      (Compilation.ofText "create table t (a int not null, \x60x y\x60 text)").treatment =
        .adapted := by
    rw [Compilation.ofText, Statement.ofText, remove_of_opening?_eq_none (by decide +kernel)]
    decide +kernel
  rw [plain] at table ⊢
  rw [filled]
  obtain ⟨kind, treatment, sql⟩ := gap.compilation_of_filling filling
  exact (Compilation.mk.injEq ..).mpr ⟨sql table.1 table.2, kind, treatment⟩

end Gap
end Dialect
