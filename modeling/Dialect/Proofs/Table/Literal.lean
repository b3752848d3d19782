import Dialect.Proofs.Name
import Dialect.Proofs.Table.Constraint
import Dialect.Table.ColumnList

/-!
# Literals in a column declaration

The commas and the parentheses of a column list are looked for outside quotes, and the
words of a constraint are looked for everywhere.  So a literal behind the type of a column
neither cuts its declaration nor closes its arguments, but the words in it that have a space
on either side are read as words of the declaration.  The first and the last word of a
literal touch its quotes and are safe, and so is all of a literal in the arguments of a type.
-/

namespace Dialect

open Reading

/-! ## Words around a quote -/

/-- A text from its first space on. -/
def fromSpace (s : Text) : Text := s.dropWhile (! isSpace ·)

/-- A text up to its last space. -/
def toSpace (s : Text) : Text := (s.reverse.dropWhile (! isSpace ·)).reverse

/-- What stands between the first and the last space of a text. -/
def innerWords (s : Text) : Text := toSpace (fromSpace s)

section Cutting

variable {q : Char} {s t : Text}

theorem exists_append_fromSpace (s : Text) : ∃ w, s = w ++ fromSpace s ∧
    (∀ c ∈ w, isSpace c = false) ∧ ∀ c ∈ (fromSpace s).head?, isSpace c = true := by
  refine ⟨s.takeWhile (! isSpace ·), List.takeWhile_append_dropWhile.symm, ?_, ?_⟩
  · intro c hc
    simpa using List.all_eq_true.mp List.all_takeWhile c hc
  · intro c hc
    simpa using head?_dropWhile_eq_false c hc

theorem exists_toSpace_append (s : Text) : ∃ w, s = toSpace s ++ w ∧
    (∀ c ∈ w, isSpace c = false) ∧ ∀ c ∈ (toSpace s).getLast?, isSpace c = true := by
  obtain ⟨w, hs, hw, hspace⟩ := exists_append_fromSpace s.reverse
  refine ⟨w.reverse, ?_, fun c hc => hw c (List.mem_reverse.mp hc), ?_⟩
  · rw [toSpace, ← fromSpace, ← List.reverse_append, ← hs, List.reverse_reverse]
  · rw [toSpace, List.getLast?_reverse]
    exact hspace

theorem words_append_of_getLast? (h : ∀ c ∈ s.getLast?, isSpace c = true) (t : Text) :
    words (s ++ t) = words s ++ words t := by
  cases hs : s.getLast? with
  | none => rw [List.getLast?_eq_none_iff.mp hs, words_nil]; rfl
  | some c =>
    obtain ⟨u, rfl⟩ := List.getLast?_eq_some_iff.mp hs
    have cut := words_append_cons (h c hs) u
    rw [List.append_assoc, List.singleton_append, cut t, cut [], words_nil, List.append_nil]

theorem continuesWord_of_isQuote (h : isQuote q = true) : continuesWord q = false := by
  apply Bool.eq_false_iff.mpr
  intro hw
  have plain := isPlain_of_continuesWord hw
  simp [isPlain, h] at plain

theorem trimStart_append_quote (hq : isQuote q = true) (s t : Text) :
    trimStart (s ++ q :: t) = trimStart s ++ q :: t :=
  dropWhile_append_cons (isSpace_of_isQuote hq) s t

theorem ne_opening_of_isQuote (hq : isQuote q = true) : q ≠ '(' := by
  rintro rfl
  contradiction

namespace Constraint

theorem continuesWord_of_ofWord? {w : Text} {c : Constraint} (h : ofWord? (upper w) = some c) :
    ∀ d ∈ w, continuesWord d = true := by
  unfold ofWord? at h
  split at h
  · next hw => exact continuesWord_of_upper_eq hw (by decide)
  · have name := List.find?_some h
    simp only [decide_eq_true_eq] at name
    exact continuesWord_of_upper_eq name.symm (by cases c <;> decide)

/-- The word that holds a quote names nothing, so the words in front of it and behind it are
left. -/
theorem named_append_quote (hq : isQuote q = true) (s t : Text) :
    named (s ++ q :: t) = named (toSpace s) ++ named (fromSpace t) := by
  obtain ⟨v, hs, hv, hspace⟩ := exists_toSpace_append s
  obtain ⟨w, ht, hw, hfirst⟩ := exists_append_fromSpace t
  have split : s ++ q :: t = toSpace s ++ ((v ++ q :: w) ++ fromSpace t) := calc
    s ++ q :: t = (toSpace s ++ v) ++ q :: (w ++ fromSpace t) := by rw [← hs, ← ht]
    _ = _ := by simp
  have word : ∀ c ∈ v ++ q :: w, isSpace c = false := by
    intro c hc
    simp only [List.mem_append, List.mem_cons] at hc
    rcases hc with hc | rfl | hc
    · exact hv c hc
    · exact isSpace_of_isQuote hq
    · exact hw c hc
  have silent : ofWord? (upper (v ++ q :: w)) = none := by
    apply Option.eq_none_iff_forall_ne_some.mpr
    intro c hc
    have hword := continuesWord_of_ofWord? hc q (by simp)
    rw [continuesWord_of_isQuote hq] at hword
    contradiction
  rw [split, named, words_append_of_getLast? hspace, words_word_append (by simp) word hfirst,
    List.filterMap_append, List.filterMap_cons, silent]
  rfl

/-- Of a literal the words between its first and its last space are read. -/
theorem named_literal (hq : isQuote q = true) (s l t : Text) :
    named (s ++ q :: (l ++ q :: t)) =
      named (toSpace s) ++ named (innerWords l) ++ named (fromSpace t) := by
  have cut : named (fromSpace (l ++ q :: t)) = named (innerWords l) ++ named (fromSpace t) := by
    rw [fromSpace, List.dropWhile_append, ← fromSpace]
    split
    · next hl =>
      -- A literal without a space is part of one word.
      have skip : (q :: t).dropWhile (! isSpace ·) = fromSpace t := by
        rw [List.dropWhile_cons, isSpace_of_isQuote hq]
        rfl
      rw [skip, innerWords, List.isEmpty_iff.mp hl]
      simp [toSpace, named, words_nil]
    · exact named_append_quote hq (fromSpace l) t
  rw [named_append_quote hq, cut, List.append_assoc]

end Constraint
end Cutting

/-! ## Roles around a literal -/

namespace Reading

variable {q : Char} {l : Text} {r : Reading}

theorem avoids_literal {x : Role} (hx : x ≠ .plain) (hq : isQuote q = true) (hl : q ∉ l)
    (hr : r.quote = none) (t : Text) :
    r.Avoids x (q :: (l ++ q :: t)) ↔ r.Avoids x t := by
  obtain ⟨hroles, hrun⟩ := roles_literal hq hl hr
  have within : r.Avoids x (q :: l ++ [q]) := fun p hp he => hx (he ▸ hroles p hp)
  have split : q :: (l ++ q :: t) = (q :: l ++ [q]) ++ t := by simp
  rw [split, avoids_append, hrun, and_iff_right within]

theorem run_literal (hq : isQuote q = true) (hl : q ∉ l) (hr : r.quote = none) (t : Text) :
    r.run (q :: (l ++ q :: t)) = r.run t := by
  have split : q :: (l ++ q :: t) = (q :: l ++ [q]) ++ t := by simp
  rw [split, run_append, (roles_literal hq hl hr).2]

end Reading

/-! ## The arguments of a type -/

namespace Column

section Arguments

variable {q : Char} {g s : Text}

/-- The arguments are read in no quote when none is left open behind the type. -/
theorem quote_of_trimStart {i : Text} (hg : trimStart g = '(' :: i)
    (h : (start.run g).quote = none) : (run ⟨none, 1⟩ i).quote = none := by
  have spaces : (g.takeWhile isSpace).foldl nextQuote none = none :=
    foldl_nextQuote_of_plain fun c hc =>
      isPlain_of_isSpace (List.all_eq_true.mp List.all_takeWhile c hc)
  have opening : nextQuote none '(' = none := rfl
  have whole : g.takeWhile isSpace ++ '(' :: i = g := by
    rw [← hg]
    exact List.takeWhile_append_dropWhile
  have outside : start.quote = none := rfl
  rw [← whole, quote_run, outside, List.foldl_append, spaces, List.foldl_cons, opening] at h
  rw [quote_run, h]

/-- The first parenthesis that closes the arguments ends them. -/
theorem afterArguments_of_closed {i t : Text} (hs : trimStart s = '(' :: (i ++ ')' :: t))
    (hi : Avoids ⟨none, 1⟩ (.closing 1) i) (hrun : run ⟨none, 1⟩ i = ⟨none, 1⟩) :
    afterArguments s = t := by
  rw [afterArguments, hs, group?_of_balanced (balanced_of_avoids hi hrun)]

theorem afterArguments_of_open {i : Text} (hs : trimStart s = '(' :: i)
    (hi : Avoids ⟨none, 1⟩ (.closing 1) i) : afterArguments s = s := by
  rw [afterArguments, hs, group?_eq_none hi]

theorem afterArguments_of_head (hs : (trimStart s).head? ≠ some '(') : afterArguments s = s := by
  rw [afterArguments, group?_eq_none_of_head hs]

/-- Either a literal stands in the arguments of a type or it is kept behind them. -/
theorem afterArguments_literal (hq : isQuote q = true) (hg : (start.run g).quote = none)
    (r : Text) :
    (∃ v, ∀ l, q ∉ l → afterArguments (g ++ q :: (l ++ q :: r)) = v) ∨
      ∃ u, u <:+ g ∧ ∀ l, q ∉ l →
        afterArguments (g ++ q :: (l ++ q :: r)) = u ++ q :: (l ++ q :: r) := by
  have front (l : Text) : trimStart (g ++ q :: (l ++ q :: r)) = trimStart g ++ q :: (l ++ q :: r) :=
    trimStart_append_quote hq g _
  by_cases hhead : (trimStart g).head? = some '('
  · obtain ⟨i, hi⟩ := List.head?_eq_some_iff.mp hhead
    by_cases hclosed : Avoids ⟨none, 1⟩ (.closing 1) i
    · have hquote : (run ⟨none, 1⟩ i).quote = none := quote_of_trimStart hi hg
      by_cases hafter : (run ⟨none, 1⟩ i).Avoids (.closing 1) r
      · -- The arguments are not closed at all.
        refine Or.inr ⟨g, List.suffix_rfl,
          fun l hl => afterArguments_of_open (by rw [front, hi]; rfl) ?_⟩
        exact avoids_append.mpr ⟨hclosed, (avoids_literal (by simp) hq hl hquote r).mpr hafter⟩
      · -- They are closed behind the literal.
        obtain ⟨t, c, v, rfl, ht, hc⟩ := exists_first hafter
        obtain ⟨hrun, rfl⟩ := eq_of_role_closing_depth hc
        refine Or.inl ⟨v, fun l hl => ?_⟩
        refine afterArguments_of_closed (i := i ++ q :: (l ++ q :: t)) ?_ ?_ ?_
        · rw [front, hi]
          simp
        · exact avoids_append.mpr ⟨hclosed, (avoids_literal (by simp) hq hl hquote t).mpr ht⟩
        · rw [run_append, run_literal hq hl hquote, hrun]
    · -- They are closed in front of the literal.
      obtain ⟨t, c, u, rfl, ht, hc⟩ := exists_first hclosed
      obtain ⟨hrun, rfl⟩ := eq_of_role_closing_depth hc
      have behind : u <:+ trimStart g := ⟨'(' :: (t ++ [')']), by simp [hi]⟩
      refine Or.inr ⟨u, behind.trans (List.dropWhile_suffix _),
        fun l _ => afterArguments_of_closed ?_ ht hrun⟩
      rw [front, hi]
      simp
  · refine Or.inr ⟨g, List.suffix_rfl, fun l _ => afterArguments_of_head ?_⟩
    rw [front]
    cases hg' : trimStart g with
    | nil => simpa using ne_opening_of_isQuote hq
    | cons c u => simpa [hg'] using hhead

end Arguments

/-! ## The text behind a type -/

section Typed

variable {q : Char} {s w behind : Text} {col : Column}

theorem type?_append_quote (hq : isQuote q = true) (h : type? s = some (w, behind)) (t : Text) :
    w = leadingWord s ∧ w ≠ [] ∧
      type? (s ++ q :: t) = some (w, afterArguments (afterWord s ++ q :: t)) := by
  have hc := continuesWord_of_isQuote hq
  simp only [type?, Option.ite_none_left_eq_some, Bool.or_eq_true, not_or, Option.some.injEq,
    Prod.mk.injEq] at h
  obtain ⟨⟨hne, htype⟩, rfl, _⟩ := h
  refine ⟨rfl, by simpa using hne, ?_⟩
  rw [type?, leadingWord_append_cons hc, afterWord_append_cons hc, if_neg]
  simp only [Bool.or_eq_true, not_or]
  exact ⟨hne, htype⟩

/-- Behind a quote that comes after the type, a column has the same name and type whatever
the text is, and its constraints are read from what its arguments leave. -/
theorem ofText?_append_quote (hq : isQuote q = true) (h : ofText? s = some col)
    (htyped : col.declaredType ≠ []) :
    ∃ word g, s = col.name ++ (word ++ g) ∧ (∀ c ∈ word, isPlain c = true) ∧
      ∀ t, ofText? (s ++ q :: t) =
        some { col with constraints := Constraint.collect (afterArguments (g ++ q :: t)) } := by
  simp only [ofText?, Option.bind_eq_bind, Option.bind_eq_some_iff] at h
  obtain ⟨⟨name, rest⟩, hname, h⟩ := h
  have hsplit : rest = rest.takeWhile isBlank ++ skipBlanks rest :=
    List.takeWhile_append_dropWhile.symm
  cases htype : type? (skipBlanks rest) with
  | none =>
    rw [htype] at h
    exact absurd (by rw [← Option.some.inj h]; rfl) htyped
  | some p =>
    obtain ⟨w, behind⟩ := p
    rw [htype] at h
    obtain rfl := Option.some.inj h
    obtain ⟨rfl, hw, _⟩ := type?_append_quote hq htype []
    refine ⟨rest.takeWhile isBlank ++ leadingWord (skipBlanks rest), afterWord (skipBlanks rest),
      ?_, ?_, fun t => ?_⟩
    · rw [List.append_assoc, leadingWord_append_afterWord, ← hsplit,
        append_of_leadingName? hname]
    · intro c hc
      rcases List.mem_append.mp hc with hc | hc
      · exact isPlain_of_isBlank (List.all_eq_true.mp List.all_takeWhile c hc)
      · exact isPlain_of_continuesWord (continuesWord_of_mem_leadingWord hc)
    · have hne : rest ≠ [] := by
        rintro rfl
        exact hw rfl
      have skip : skipBlanks (rest ++ q :: t) = skipBlanks rest ++ q :: t :=
        dropWhile_append_cons (isBlank_of_isQuote hq) rest t
      simp only [ofText?, leadingName?_append_right hname hne, Option.bind_eq_bind,
        Option.bind_some, skip, (type?_append_quote hq htype t).2.2, Option.getD_some]
      rfl

end Typed
end Column

theorem Entry.constrainsTable_append_quote {q : Char} (hq : isQuote q = true) (s t : Text) :
    constrainsTable (s ++ q :: t) = constrainsTable s := by
  have hc := continuesWord_of_isQuote hq
  have head : ((trimStart (afterWord s) ++ q :: t).head? = some '(') =
      ((trimStart (afterWord s)).head? = some '(') := by
    cases trimStart (afterWord s) with
    | nil => simpa using ne_opening_of_isQuote hq
    | cons c u => rfl
  simp only [constrainsTable, leadingWord_append_cons hc, afterWord_append_cons hc,
    trimStart_append_quote hq, head]

/-! ## Declarations with a literal -/

/-- A place for a literal in the declaration of a column, behind the name and the type. -/
structure LiteralPlace where
  before : Text
  quote : Char
  after : Text
  column : Column
  isQuote_quote : isQuote quote = true
  declares : Column.ofText? before = some column
  typed : column.declaredType ≠ []
  /-- The name leaves no quote open, and neither does what comes behind it. -/
  name_closed : (start.run column.name).quote = none
  closed : (start.run before).quote = none
  /-- The declaration goes on behind the literal to its end. -/
  single_before : start.Avoids (.comma 0) before
  single_after : (start.run before).Avoids (.comma 0) after

/-- The constraints of each column of a list. -/
def constraintLists (body : Text) : List (List Constraint) :=
  (ColumnList.columns body).map Column.constraints

namespace LiteralPlace

variable (d : LiteralPlace) {l : Text}

def text (l : Text) : Text := d.before ++ d.quote :: (l ++ d.quote :: d.after)

theorem before_eq : ∃ t, d.before = d.column.name ++ t ∧ IsName d.column.name := by
  have h := d.declares
  simp only [Column.ofText?, Option.bind_eq_bind, Option.bind_eq_some_iff] at h
  obtain ⟨⟨name, rest⟩, hname, h⟩ := h
  rw [← Option.some.inj h]
  exact ⟨rest, (append_of_leadingName? hname).symm, isName_of_leadingName? hname⟩

theorem trim_text (l : Text) :
    trim (d.text l) = d.before ++ d.quote :: (l ++ d.quote :: trimEnd d.after) := by
  obtain ⟨t, hbefore, hname⟩ := d.before_eq
  have split (r : Text) : d.before ++ d.quote :: (l ++ d.quote :: r) =
      (d.before ++ d.quote :: l ++ [d.quote]) ++ r := by simp
  have trimmed : Trimmed (d.before ++ d.quote :: l ++ [d.quote]) := by
    constructor
    · rw [hbefore]
      simpa using hname.head?_append (t ++ d.quote :: l ++ [d.quote])
    · rw [List.getLast?_concat]
      simpa using isSpace_of_isQuote d.isQuote_quote
  rw [text, split, split]
  exact trim_append_right (a := []) (by simp) (by simp) trimmed d.after

theorem columns_text (hl : d.quote ∉ l) :
    ColumnList.columns (d.text l) =
      [Entry.ofPiece (trim (d.text l))].filterMap Entry.column? := by
  have single : start.Avoids (.comma 0) (d.text l) :=
    avoids_append.mpr ⟨d.single_before,
      (avoids_literal (by simp) d.isQuote_quote hl d.closed d.after).mpr d.single_after⟩
  have kept : [trim (d.text l)].filter (! ·.isEmpty) = [trim (d.text l)] := by
    rw [trim_text]
    simp
  rw [ColumnList.columns, ColumnList.entries, outermostPieces_of_avoids single, kept]
  rfl

/-- The text behind the type ends outside quotes in front of the literal. -/
theorem exists_behind : ∃ g, g <:+ d.before ∧ (start.run g).quote = none ∧
    ∀ t, Column.ofText? (d.before ++ d.quote :: t) = some { d.column with
      constraints := Constraint.collect (Column.afterArguments (g ++ d.quote :: t)) } := by
  obtain ⟨word, g, hbefore, hword, hread⟩ :=
    Column.ofText?_append_quote d.isQuote_quote d.declares d.typed
  refine ⟨g, ⟨d.column.name ++ word, by rw [hbefore, List.append_assoc]⟩, ?_, hread⟩
  have outside : start.quote = none := rfl
  have name := d.name_closed
  have closed := d.closed
  rw [quote_run, outside] at name
  rw [quote_run, hbefore, List.foldl_append, List.foldl_append, outside, name,
    foldl_nextQuote_of_plain hword] at closed
  rw [quote_run, outside, closed]

theorem constraintLists_text (hl : d.quote ∉ l) {col : Column}
    (h : Column.ofText? (trim (d.text l)) = some col) :
    constraintLists (d.text l) =
      if Entry.constrainsTable d.before then [] else [col.constraints] := by
  rw [constraintLists, columns_text d hl, Entry.ofPiece, h, trim_text,
    Entry.constrainsTable_append_quote d.isQuote_quote]
  split <;> rfl

/-- Either the constraints do not depend on what the literal holds, or the words between its
first and its last space are read among those of the declaration. -/
theorem hidden_or_read :
    (∃ lists, ∀ l, d.quote ∉ l → constraintLists (d.text l) = lists) ∨
      ∃ front, front <:+ d.before ∧ ∀ l, d.quote ∉ l → constraintLists (d.text l) =
        [(Constraint.named (toSpace front) ++ Constraint.named (innerWords l) ++
          Constraint.named (fromSpace (trimEnd d.after))).foldl Constraint.add []] := by
  obtain ⟨g, hsuffix, hg, hread⟩ := d.exists_behind
  have lists {l : Text} (hl : d.quote ∉ l) :=
    d.constraintLists_text hl (d.trim_text l ▸ hread (l ++ d.quote :: trimEnd d.after))
  cases htable : Entry.constrainsTable d.before with
  | true =>
    refine Or.inl ⟨[], fun l hl => ?_⟩
    rw [lists hl, htable, if_pos rfl]
  | false =>
    rcases Column.afterArguments_literal d.isQuote_quote hg (trimEnd d.after) with
      ⟨v, hv⟩ | ⟨u, hu, hkept⟩
    · refine Or.inl ⟨[Constraint.collect v], fun l hl => ?_⟩
      rw [lists hl, htable, hv l hl]
      rfl
    · refine Or.inr ⟨u, hu.trans hsuffix, fun l hl => ?_⟩
      rw [lists hl, htable, hkept l hl, Constraint.collect_eq_foldl,
        Constraint.named_literal d.isQuote_quote]
      rfl

end LiteralPlace

/-- A literal is not read at all, or the constraints are those of the words in front of it,
of the words between its first and its last space and of the words behind it.  So two
literals give the same constraints when those words name the same ones. -/
theorem constraints_of_literal (d : LiteralPlace) :
    ((∃ lists, ∀ l, d.quote ∉ l → constraintLists (d.text l) = lists) ∨
      ∃ front, front <:+ d.before ∧ ∀ l, d.quote ∉ l → constraintLists (d.text l) =
        [(Constraint.named (toSpace front) ++ Constraint.named (innerWords l) ++
          Constraint.named (fromSpace (trimEnd d.after))).foldl Constraint.add []]) ∧
    ∀ l l', d.quote ∉ l → d.quote ∉ l' →
      Constraint.named (innerWords l) = Constraint.named (innerWords l') →
      constraintLists (d.text l) = constraintLists (d.text l') := by
  refine ⟨d.hidden_or_read, fun l l' hl hl' same => ?_⟩
  rcases d.hidden_or_read with ⟨lists, h⟩ | ⟨front, _, h⟩
  · rw [h l hl, h l' hl']
  · rw [h l hl, h l' hl', same]

namespace LiteralPlace

def textDefault : LiteralPlace where
  before := "a TEXT DEFAULT "
  quote := '\x27'
  after := " NOT NULL"
  column := ⟨"a", "TEXT", []⟩
  isQuote_quote := by decide
  declares := by decide +kernel
  typed := by decide
  name_closed := by decide
  closed := by decide +kernel
  single_before := by decide +kernel
  single_after := by decide +kernel

end LiteralPlace

/-- The words at the ends of a literal are not read, so both of these hold nothing. -/
theorem constraints_of_literal_default :
    LiteralPlace.textDefault.quote ∉ ("unique" : Text) ∧
      LiteralPlace.textDefault.quote ∉ ("not a null" : Text) ∧
      constraintLists (LiteralPlace.textDefault.text "unique") =
        constraintLists (LiteralPlace.textDefault.text "not a null") := by
  have first : LiteralPlace.textDefault.quote ∉ ("unique" : Text) := by decide
  have second : LiteralPlace.textDefault.quote ∉ ("not a null" : Text) := by decide
  exact ⟨first, second,
    (constraints_of_literal LiteralPlace.textDefault).2 _ _ first second (by decide +kernel)⟩

/-- A word inside a literal makes the column unique. -/
theorem constraints_of_literal_unique :
    ¬ ∀ (d : LiteralPlace) (l l' : Text), d.quote ∉ l → d.quote ∉ l' →
      constraintLists (d.text l) = constraintLists (d.text l') := by
  intro h
  have same := h LiteralPlace.textDefault "must be unique here" "x" (by decide) (by decide)
  exact absurd same (by decide +kernel)

end Dialect
