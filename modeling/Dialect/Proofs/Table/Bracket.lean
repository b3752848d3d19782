import Dialect.Proofs.Table.RoundTrip
import Mathlib.Tactic.TFAE

/-!
# Names in a column list

A bracketed name may hold any character but the closing bracket, and the reading that cuts
a column list goes through brackets as through any other text.  So a comma, a parenthesis
or a quote in a bracketed name can cut the list, end it or hide the next name.  A list
comes back with all of its names exactly when each bracketed name leaves the reading as it
found it and has no comma that the reading sees.

That this is needed is shown by counting the characters that can turn a reading.  A column
has no more of them in its name than its piece of the list has, so when no name is lost,
the names have all of them.  Then nothing between the names can undo what a name does.
-/

namespace Dialect

open Reading

/-! ## Turns of a reading -/

/-- Whether a character can change a reading. -/
def isTurn (c : Char) : Bool := isQuote c || c = '(' || c = ')'

def turns (s : Text) : Nat := s.countP isTurn

section Turns

variable {c : Char} {s : Text} {r : Reading}

theorem turns_append (s t : Text) : turns (s ++ t) = turns s + turns t :=
  List.countP_append

theorem turns_cons_of_not (hc : isTurn c = false) (s : Text) : turns (c :: s) = turns s :=
  List.countP_cons_of_neg (by simp [hc])

theorem turns_of_plain (h : ∀ c ∈ s, isPlain c = true) : turns s = 0 := by
  apply List.countP_eq_zero.mpr
  intro c hc
  have plain := h c hc
  simp only [isPlain, Bool.and_eq_true, Bool.not_eq_true', decide_eq_true_eq] at plain
  simp [isTurn, plain]

theorem turns_of_spaces (h : ∀ c ∈ s, isSpace c = true) : turns s = 0 :=
  turns_of_plain fun c hc => isPlain_of_isSpace (h c hc)

theorem turns_trim (s : Text) : turns (trim s) = turns s := by
  obtain ⟨a, b, hs, _, ha, hb⟩ := eq_append_trim s
  have parts := congrArg turns hs
  rw [turns_append, turns_append, turns_of_spaces ha, turns_of_spaces hb] at parts
  omega

namespace Reading

/-- The quoted run that a reading is in was opened by a quote. -/
def Quoting (r : Reading) : Prop := ∀ q ∈ r.quote, isQuote q = true

theorem quoting_start : start.Quoting := by simp [Quoting, start]

theorem Quoting.step (h : r.Quoting) (c : Char) : (r.step c).Quoting := by
  obtain ⟨quote, depth⟩ := r
  intro q hq
  cases quote with
  | some p =>
    by_cases hc : c = p
    · simp [Reading.step, hc] at hq
    · simp only [Reading.step, if_neg hc] at hq
      exact h q hq
  | none =>
    by_cases hc : isQuote c = true
    · simp only [Reading.step, if_pos hc, Option.mem_def, Option.some.injEq] at hq
      exact hq ▸ hc
    · simp only [Reading.step, if_neg hc] at hq
      repeat' split at hq
      all_goals simp at hq

theorem Quoting.run (h : r.Quoting) (s : Text) : (r.run s).Quoting := by
  induction s generalizing r with
  | nil => exact h
  | cons c s ih => exact ih (h.step c)

theorem Quoting.step_eq (h : r.Quoting) (hc : isTurn c = false) : r.step c = r := by
  simp only [isTurn, Bool.or_eq_false_iff, decide_eq_false_iff_not] at hc
  obtain ⟨quote, depth⟩ := r
  cases quote with
  | some q =>
    have hne : c ≠ q := by
      rintro rfl
      rw [h c rfl] at hc
      exact absurd hc.1.1 (by decide)
    simp only [Reading.step, if_neg hne]
  | none => simp [Reading.step, hc]

theorem Quoting.run_eq (h : r.Quoting) (hs : turns s = 0) : r.run s = r := by
  induction s with
  | nil => rfl
  | cons c s ih =>
    have none := List.countP_eq_zero.mp hs
    have hc : isTurn c = false := by simpa using none c List.mem_cons_self
    rw [run_cons, h.step_eq hc, ih (turns_cons_of_not hc s ▸ hs)]

end Reading
end Turns

/-! ## Turns of the columns -/

section Columns

variable {s body : Text} {col : Column} {cols : List Column}

def nameTurns (cols : List Column) : Nat := (cols.map fun col => turns col.name).sum

theorem nameTurns_append (cols cols' : List Column) :
    nameTurns (cols ++ cols') = nameTurns cols + nameTurns cols' := by
  simp [nameTurns]

theorem nameTurns_singleton (col : Column) : nameTurns [col] = turns col.name := by
  simp [nameTurns]

theorem Column.exists_turns (h : Column.ofText? (trim s) = some col) :
    ∃ rest, trim s = col.name ++ rest ∧ turns s = turns col.name + turns rest := by
  obtain ⟨rest, hname⟩ := exists_of_ofText? h
  have whole := append_of_leadingName? hname
  exact ⟨rest, whole.symm, by rw [← turns_trim, ← whole, turns_append]⟩

namespace ColumnList

theorem nameTurns_piece_le (hs : start.Avoids (.comma 0) s) : nameTurns (columns s) ≤ turns s := by
  rcases columns_of_avoids hs with hcol | ⟨col, hcol, hpiece⟩
  · rw [hcol]
    exact Nat.zero_le _
  · obtain ⟨rest, _, hturns⟩ := Column.exists_turns hpiece
    rw [hcol, nameTurns_singleton, hturns]
    exact Nat.le_add_right _ _

theorem nameTurns_columns_le (body : Text) : nameTurns (columns body) ≤ turns body := by
  induction body using outermost_induction with
  | piece s hs => exact nameTurns_piece_le hs
  | list s t hs hrun ih =>
    rw [columns_append hrun, nameTurns_append, turns_append, turns_cons_of_not (by decide)]
    exact Nat.add_le_add (nameTurns_piece_le hs) ih

/-- What stands around a name that has all the turns of its piece leaves the reading as it
is, so the name does too. -/
theorem sealed_of_piece (hs : Sealed 0 s) (h : nameTurns (columns s) = turns s) :
    ∀ col ∈ columns s, Sealed 0 col.name := by
  rcases columns_of_avoids hs.comma with hcol | ⟨col, hcol, hpiece⟩
  · simp [hcol]
  · rw [hcol, nameTurns_singleton] at h
    rw [hcol]
    intro col' hcol'
    obtain rfl := List.mem_singleton.mp hcol'
    obtain ⟨rest, hname, hturns⟩ := Column.exists_turns hpiece
    have none : turns rest = 0 := by omega
    obtain ⟨a, b, split, _, ha, hb⟩ := eq_append_trim s
    rw [hname, List.append_assoc, List.append_assoc] at split
    have front : start.run a = start := quoting_start.run_eq (turns_of_spaces ha)
    have quoting : (start.run col'.name).Quoting := quoting_start.run _
    have hrun := hs.run
    rw [split, run_append, front, run_append, run_append, quoting.run_eq none,
      quoting.run_eq (turns_of_spaces hb)] at hrun
    have avoids {x : Role} (hx : start.Avoids x s) : start.Avoids x col'.name := by
      rw [split, avoids_append, front, avoids_append] at hx
      exact hx.2.1
    exact ⟨⟨avoids hs.contained, hrun⟩, avoids hs.comma⟩

theorem sealed_of_nameTurns (balanced : Balanced body)
    (h : nameTurns (columns body) = turns body) : ∀ col ∈ columns body, Sealed 0 col.name := by
  induction body using outermost_induction with
  | piece s hs => exact sealed_of_piece ⟨balanced, hs⟩ h
  | list s t hs hrun ih =>
    obtain ⟨contained, closed⟩ := balanced
    have comma : start.step ',' = start := rfl
    rw [avoids_append, hrun, avoids_cons, comma] at contained
    rw [run_append, hrun, run_cons, comma] at closed
    rw [columns_append hrun, nameTurns_append, turns_append, turns_cons_of_not (by decide)] at h
    have first := nameTurns_piece_le hs
    have others := nameTurns_columns_le t
    rw [columns_append hrun]
    intro col hcol
    rcases List.mem_append.mp hcol with hcol | hcol
    · exact sealed_of_piece ⟨⟨contained.1, hrun⟩, hs⟩ (by omega) col hcol
    · exact ih ⟨contained.2.2, closed⟩ (by omega) col hcol

end ColumnList
end Columns

/-! ## Lists of typed names -/

/-- A name that is read whole, and a word that is read as its type. -/
structure TypedName where
  name : Text
  whole : leadingName? name = some (name, [])
  no_clause : upper (leadingWord name) ∉ "UNIQUE".toList :: clauseWords
  type : Text
  type_ne : type ≠ []
  type_word : type.all continuesWord = true
  isType : Column.isNonTypeWord type = false

namespace TypedName

def text (d : TypedName) : Text := d.name ++ ' ' :: d.type

def column (d : TypedName) : Column := { name := d.name, declaredType := d.type, constraints := [] }

/-- The declaration of a table with the names as its columns. -/
def tableText (ds : List TypedName) : Text :=
  "CREATE TABLE t (" ++ List.intercalate ", ".toList (ds.map text) ++ ")"

theorem exists_declaration (d : TypedName) (h : d.name.head? = some '[' → Sealed 0 d.name) :
    ∃ declaration : Declaration, declaration.text = d.text ∧ declaration.column = d.column := by
  have no_clause := d.no_clause
  rw [List.mem_cons, not_or] at no_clause
  let declaration : Declaration :=
    { name := d.name, whole := d.whole, bracketed := h, gap := .one, type := d.type,
      type_ne := d.type_ne, type_word := d.type_word, isType := d.isType,
      no_clause := no_clause.2, no_unique := fun hu => absurd hu no_clause.1,
      arguments := none, phrases := [] }
  exact ⟨declaration, by simp [declaration, Declaration.text, text, BlankRun.one], rfl⟩

variable {ds : List TypedName}

theorem ofText?_tableText (hne : ds ≠ [])
    (h : ∀ d ∈ ds, d.name.head? = some '[' → Sealed 0 d.name) :
    Table.ofText? (tableText ds) = some ⟨"t", false, ds.map column⟩ := by
  obtain ⟨columns, htext, hcolumns⟩ :=
    Listing.exists_text_eq .one hne fun d hd => d.exists_declaration (h d hd)
  let layout : Layout :=
    { heading := Table.heading ⟨"t", false, []⟩, name := "t", whole := by decide,
      beforeList := .one, opening := .none, columns, closing := .none }
  have text : layout.text = tableText ds := by
    have front : "CREATE TABLE t (".toList =
        (Table.heading ⟨"t", false, []⟩).text ++ ("t".toList ++ (SpaceRun.one.1 ++ ['('])) := by
      decide
    have comma : ", ".toList = ',' :: SpaceRun.one.1 := by decide
    have close : ")".toList = [')'] := by decide
    unfold tableText
    rw [front, comma, close, ← htext, Layout.text, Layout.body]
    simp only [layout, SpaceRun.none, List.nil_append, List.append_nil, List.append_assoc,
      List.cons_append]
  have table : layout.table = ⟨"t", false, ds.map column⟩ := by
    rw [Layout.table, hcolumns]
    rfl
  rw [← text, ← table, ← List.append_nil layout.text]
  exact layout.ofText?_text []

theorem turns_text (d : TypedName) : turns d.text = turns d.name := by
  have type : turns d.type = 0 :=
    turns_of_plain fun c hc => isPlain_of_continuesWord (List.all_eq_true.mp d.type_word c hc)
  rw [text, turns_append, turns_cons_of_not (by decide), type, Nat.add_zero]

theorem turns_intercalate (ds : List TypedName) :
    turns (List.intercalate ", ".toList (ds.map text)) = nameTurns (ds.map column) := by
  have separator : turns ", ".toList = 0 := by decide
  induction ds with
  | nil => rfl
  | cons d ds ih =>
    have first : nameTurns ((d :: ds).map column) = turns d.name + nameTurns (ds.map column) :=
      List.sum_cons
    cases ds with
    | nil =>
      rw [first, List.map_singleton, List.intercalate_singleton, turns_text]
      rfl
    | cons e ds =>
      rw [first, ← ih, List.map_cons, List.map_cons, List.intercalate_cons_cons, turns_append,
        turns_append, turns_text, separator, Nat.add_zero]

theorem turns_tableText (ds : List TypedName) :
    turns (tableText ds) = 1 + nameTurns (ds.map column) + 1 := by
  have front : turns "CREATE TABLE t (".toList = 1 := by decide
  have back : turns ")".toList = 1 := by decide
  unfold tableText
  rw [turns_append, turns_append, turns_intercalate, front, back]

theorem sealed_of_names {t : Table} (ht : Table.ofText? (tableText ds) = some t)
    (names : t.columns.map Column.name = ds.map name) : ∀ d ∈ ds, Sealed 0 d.name := by
  obtain ⟨lead, spaces, body, tail, hs, _, balanced, hcolumns, _⟩ := Table.exists_source ht
  have same : nameTurns (ColumnList.columns body) = nameTurns (ds.map column) := by
    have sums := congrArg (fun l => (l.map turns).sum) names
    simpa [nameTurns, Function.comp_def, column, hcolumns] using sums
  have group : turns ('(' :: (body ++ ')' :: tail)) = turns body + turns tail + 2 := by
    have opening : turns ['('] = 1 := by decide
    have closing : turns [')'] = 1 := by decide
    have split : '(' :: (body ++ ')' :: tail) = ['('] ++ (body ++ ([')'] ++ tail)) := by simp
    rw [split, turns_append, turns_append, turns_append, opening, closing]
    omega
  have total := congrArg turns hs
  rw [turns_tableText, turns_append, turns_append, turns_append, group] at total
  have bound := ColumnList.nameTurns_columns_le body
  have all := ColumnList.sealed_of_nameTurns balanced (by omega)
  intro d hd
  have mem : d.name ∈ t.columns.map Column.name := names ▸ List.mem_map_of_mem hd
  obtain ⟨col, hcol, hname⟩ := List.mem_map.mp mem
  exact hname ▸ all col (hcolumns ▸ hcol)

/-- The names of a table come back, as the names of its columns in order, exactly when what
stands between brackets does not matter to the list. -/
theorem names_survive_tfae (hne : ds ≠ []) :
    List.TFAE [
      ∀ d ∈ ds, d.name.head? = some '[' → Sealed 0 d.name,
      Table.ofText? (tableText ds) = some ⟨"t", false, ds.map column⟩,
      ∃ t, Table.ofText? (tableText ds) = some t ∧ t.columns.map Column.name = ds.map name] := by
  tfae_have 1 → 2 := ofText?_tableText hne
  tfae_have 2 → 3 := by
    intro h
    exact ⟨_, h, by simp [column]⟩
  tfae_have 3 → 1 := by
    rintro ⟨t, ht, names⟩ d hd _
    exact sealed_of_names ht names d hd
  tfae_finish

/-- A comma and an open parenthesis in quotes, and a comma between parentheses in
brackets. -/
theorem names_survive_quoted :
    Table.ofText? "CREATE TABLE t (\x22a,(\x22 INT, [b(c,d)e] date)" =
      some ⟨"t", false, [⟨"\x22a,(\x22", "INT", []⟩, ⟨"[b(c,d)e]", "date", []⟩]⟩ := by
  let ds : List TypedName := [
    { name := "\x22a,(\x22", whole := by decide +kernel, no_clause := by decide +kernel
      type := "INT", type_ne := by decide, type_word := by decide +kernel
      isType := by decide +kernel },
    { name := "[b(c,d)e]", whole := by decide +kernel, no_clause := by decide +kernel
      type := "date", type_ne := by decide, type_word := by decide +kernel
      isType := by decide +kernel }]
  have text : "CREATE TABLE t (\x22a,(\x22 INT, [b(c,d)e] date)".toList = tableText ds := by
    decide +kernel
  have brackets : ∀ d ∈ ds, d.name.head? = some '[' → Sealed 0 d.name := by
    intro d hd hb
    simp only [ds, List.mem_cons, List.not_mem_nil, or_false] at hd
    rcases hd with rfl | rfl
    · exact absurd hb (by decide)
    · exact ⟨⟨by decide +kernel, by decide +kernel⟩, by decide +kernel⟩
  rw [text]
  exact ((names_survive_tfae (List.cons_ne_nil _ _)).out 0 1).mp brackets

/-- The comma in the brackets cuts the name, and the end of it is read as a column. -/
theorem names_lost_at_comma :
    ¬ ∀ ds : List TypedName, ds ≠ [] →
      ∃ t, Table.ofText? (tableText ds) = some t ∧
        t.columns.map Column.name = ds.map name := by
  intro h
  let d : TypedName :=
    { name := "[a,b]", whole := by decide +kernel, no_clause := by decide +kernel
      type := "INT", type_ne := by decide, type_word := by decide +kernel
      isType := by decide +kernel }
  obtain ⟨t, ht, names⟩ := h [d] (List.cons_ne_nil _ _)
  have read : Table.ofText? (tableText [d]) = some ⟨"t", false, [⟨"b", "", []⟩]⟩ := by
    decide +kernel
  rw [read] at ht
  rw [← Option.some.inj ht] at names
  exact absurd names (by decide +kernel)

end TypedName
end Dialect
