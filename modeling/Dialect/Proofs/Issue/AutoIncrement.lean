import Dialect.Proofs.Issue
import Dialect.Proofs.Table.Source

/-!
# Automatic increments

Each column with an automatic increment has one note, in the order of the columns.  The
note tells primary keys from other columns and does not look at the type.  So what it says
about integer primary keys is true of the compiled table as long as the primary keys among
these columns are stored as integers.
-/

namespace Dialect

/-- The note about a column, that SQLite counts it up by itself or that it does not. -/
def incrementNote (counted : Bool) (col : Column) : Issue :=
  .onColumn col (.autoIncrementDropped counted)

def incrementNotes (raw : Text) : List Issue :=
  (issues raw).filter fun i => "AUTO_INCREMENT dropped; ".toList.isPrefixOf i.message

namespace Finding

def isIncrement : Finding → Bool
  | autoIncrementDropped _ => true
  | _ => false

/-- No other message has its first character. -/
theorem prefix_message (f : Finding) :
    "AUTO_INCREMENT dropped; ".toList.isPrefixOf f.message = f.isIncrement := by
  rw [Bool.eq_iff_iff, List.isPrefixOf_iff_prefix]
  constructor
  · intro h
    obtain ⟨rest, h⟩ := h
    have first := f.head?_message
    rw [← h] at first
    cases f with
    | autoIncrementDropped primaryKey => rfl
    | _ => simp [initial] at first
  · intro h
    cases f with
    | autoIncrementDropped primaryKey => cases primaryKey <;> decide
    | _ => contradiction

end Finding

theorem incrementNotes_eq (raw : Text) :
    incrementNotes raw = (issues raw).filter (·.finding.isIncrement) :=
  List.filter_congr fun i _ => i.finding.prefix_message

/-! ## Columns that carry an automatic increment -/

namespace Column

def isIncremented (col : Column) : Bool := col.constraints.contains .autoIncrement

theorem filter_issues (col : Column) : col.issues.filter (·.finding.isIncrement) =
    if col.isIncremented then [incrementNote col.isPrimaryKey col] else [] := by
  unfold issues isIncremented
  rw [List.filter_append]
  split <;> split <;> rfl

section Rendered

variable (col : Column)

theorem prefix_render_iff : (col.name ++ " INTEGER PRIMARY KEY".toList) <+: col.render ↔
    col.isPrimaryKey = true ∧ col.storageType = .integer := by
  rw [render_eq, List.prefix_append_right_inj, attributes]
  cases col.storageType <;> cases col.isPrimaryKey <;> cases col.isNotNull <;>
    cases col.isUnique <;> decide

theorem render_eq_iff : col.render = col.name ++ " INTEGER PRIMARY KEY".toList ↔
    col.isPrimaryKey = true ∧ col.storageType = .integer ∧ col.isNotNull = false ∧
      col.isUnique = false := by
  rw [render_eq, List.append_cancel_left_eq, attributes]
  cases col.storageType <;> cases col.isPrimaryKey <;> cases col.isNotNull <;>
    cases col.isUnique <;> decide

end Rendered

end Column

namespace Entry

theorem filter_flatMap_issues (entries : List Entry) :
    (entries.flatMap issues).filter (·.finding.isIncrement) =
      ((entries.filterMap column?).filter Column.isIncremented).map fun col =>
        incrementNote col.isPrimaryKey col := by
  induction entries with
  | nil => rfl
  | cons e es ih =>
    rw [List.flatMap_cons, List.filter_append, ih]
    cases e with
    | column col =>
      show col.issues.filter _ ++ _ = ((col :: es.filterMap column?).filter _).map _
      rw [Column.filter_issues]
      cases h : col.isIncremented <;> simp [h]
    | dropped clause => rfl

end Entry

theorem incrementNotes_of_table {raw : Text} {t : Table}
    (h : (Statement.ofText raw).kind = .createTable)
    (ht : Table.ofText? (Statement.ofText raw).text = some t) :
    incrementNotes raw = (t.columns.filter Column.isIncremented).map fun col =>
      incrementNote col.isPrimaryKey col := by
  obtain ⟨outline, _, rfl, listed⟩ := Statement.exists_tableIssues_of_some ht
  have kind : (Statement.ofText raw).kindIssues = (Statement.ofText raw).tableIssues := by
    rw [Statement.kindIssues, h]
  rw [incrementNotes_eq, filter_issues (ne_nil_of_kind h (by decide)) rfl rfl, kind, listed,
    Entry.filter_flatMap_issues]
  rfl

/-- The notes are true of the columns when a column is a primary key exactly if it is
counted up. -/
theorem map_incrementNote_eq_iff {cols : List Column} {counted : Column → Prop}
    [DecidablePred counted] :
    cols.map (fun col => incrementNote col.isPrimaryKey col) =
        cols.map (fun col => incrementNote (counted col) col) ↔
      ∀ col ∈ cols, (col.isPrimaryKey = true ↔ counted col) := by
  rw [List.map_inj_left]
  refine forall₂_congr fun col _ => ?_
  constructor
  · intro same
    rw [Finding.autoIncrementDropped.inj (Issue.mk.inj same).2, decide_eq_true_eq]
  · intro same
    rw [Bool.eq_iff_iff.mpr (same.trans decide_eq_true_iff.symm)]

/-- The columns with an automatic increment have one note each, in order, which says
whether the column is a primary key.  This is whether its declaration begins as that of an
integer primary key when those of the columns that are primary keys are stored as integers,
and whether it is that of an integer primary key and no more when, besides, none of them is
`NOT NULL` or `UNIQUE`. -/
theorem increment_notes_of_compilation (raw : Text)
    (hk : (Compilation.ofText raw).kind = .createTable)
    (h : (Compilation.ofText raw).treatment = .adapted) :
    ∃ t, Table.ofText? (Statement.ofText raw).text = some t ∧ compile raw = t.render ∧
      let carriers := t.columns.filter Column.isIncremented
      incrementNotes raw = carriers.map (fun col => incrementNote col.isPrimaryKey col) ∧
      (incrementNotes raw = carriers.map (fun col =>
          incrementNote ((col.name ++ " INTEGER PRIMARY KEY".toList) <+: col.render) col) ↔
        ∀ col ∈ carriers, col.isPrimaryKey = true → col.storageType = .integer) ∧
      (incrementNotes raw = carriers.map (fun col =>
          incrementNote (col.render = col.name ++ " INTEGER PRIMARY KEY".toList) col) ↔
        ∀ col ∈ carriers, col.isPrimaryKey = true →
          col.storageType = .integer ∧ col.isNotNull = false ∧ col.isUnique = false) := by
  obtain ⟨t, ht, sql⟩ := exists_table_of_adapted hk h
  refine ⟨t, ht, sql, incrementNotes_of_table hk ht, ?_, ?_⟩
  · rw [incrementNotes_of_table hk ht, map_incrementNote_eq_iff]
    simp only [Column.prefix_render_iff, iff_self_and]
  · rw [incrementNotes_of_table hk ht, map_incrementNote_eq_iff]
    simp only [Column.render_eq_iff, iff_self_and]

/-- An integer primary key and a text, both with an increment, and a column without. -/
theorem increment_notes_of_compilation_listed :
    incrementNotes "create table t (a int autoincrement primary key, b text auto_increment, c)" =
      [incrementNote true ⟨"a", "int", [.autoIncrement, .primary, .key]⟩,
        incrementNote false ⟨"b", "text", [.autoIncrement]⟩] := by
  have adapted :
      let raw : Text :=
        "create table t (a int autoincrement primary key, b text auto_increment, c)"
      (Compilation.ofText raw).kind = .createTable ∧
        (Compilation.ofText raw).treatment = .adapted ∧
        Table.ofText? (Statement.ofText raw).text =
          some ⟨"t", false, [⟨"a", "int", [.autoIncrement, .primary, .key]⟩,
            ⟨"b", "text", [.autoIncrement]⟩, ⟨"c", [], []⟩]⟩ := by
    intro raw
    rw [Compilation.ofText, Statement.ofText,
      Comment.remove_of_opening?_eq_none (by decide +kernel)]
    decide +kernel
  obtain ⟨kind, treatment, read⟩ := adapted
  obtain ⟨t, ht, _, _, truth, _⟩ := increment_notes_of_compilation _ kind treatment
  obtain rfl := Option.some.inj (ht.symm.trans read)
  rw [truth.mpr (by decide +kernel)]
  decide +kernel

/-- A primary key that is stored as text is said to be counted up. -/
theorem not_increment_notes_eq_rendered :
    ¬ ∀ (raw : Text) (t : Table), (Compilation.ofText raw).kind = .createTable →
      (Compilation.ofText raw).treatment = .adapted →
      Table.ofText? (Statement.ofText raw).text = some t →
      incrementNotes raw = (t.columns.filter Column.isIncremented).map (fun col =>
          incrementNote ((col.name ++ " INTEGER PRIMARY KEY".toList) <+: col.render) col) ∨
        incrementNotes raw = (t.columns.filter Column.isIncremented).map (fun col =>
          incrementNote (col.render = col.name ++ " INTEGER PRIMARY KEY".toList) col) := by
  intro h
  have adapted :
      let raw : Text := "CREATE TABLE t (id TEXT PRIMARY KEY AUTO_INCREMENT)"
      (Compilation.ofText raw).kind = .createTable ∧
        (Compilation.ofText raw).treatment = .adapted ∧
        Table.ofText? (Statement.ofText raw).text =
          some ⟨"t", false, [⟨"id", "TEXT", [.primary, .key, .autoIncrement]⟩]⟩ := by
    intro raw
    rw [Compilation.ofText, Statement.ofText,
      Comment.remove_of_opening?_eq_none (by decide +kernel)]
    decide +kernel
  obtain ⟨kind, treatment, read⟩ := adapted
  have same := h _ _ kind treatment read
  rw [incrementNotes_of_table kind read] at same
  revert same
  decide +kernel

end Dialect
