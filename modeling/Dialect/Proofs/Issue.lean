import Dialect.Issue
import Dialect.Proofs.Compilation
import Mathlib.Data.List.Basic

/-!
# Issues and compilations

Issues are found without a look at the compilation, and the two agree.  They depend on
the statement of a raw text alone.  A table declaration is kept when an issue says so.
And of the pieces of a column list, those that no issue names are the columns that are
written.
-/

namespace Dialect

/-! ## Raw texts of one statement -/

section Forms

variable {x y : Text}

theorem Compilation.ofText_congr (h : Statement.ofText x = Statement.ofText y) :
    Compilation.ofText x = Compilation.ofText y := by
  simp only [Compilation.ofText, h]

theorem issues_congr (h : Statement.ofText x = Statement.ofText y) : issues x = issues y := by
  have unclosed : Comment.hasUnclosed x = Comment.hasUnclosed y := by
    rw [Comment.hasUnclosed_eq, Comment.hasUnclosed_eq, h]
  simp only [issues, h, unclosed]

/-- Removing the comments first, or the space at the ends as well, changes neither the
compilation nor the issues, and neither does more space at the ends. -/
theorem compilation_and_issues_of_form (raw front back : Text)
    (hfront : ∀ c ∈ front, isSpace c = true) (hback : ∀ c ∈ back, isSpace c = true) :
    (∀ form ∈ [Comment.remove raw, (Statement.ofText raw).text, front ++ raw ++ back],
      Compilation.ofText form = Compilation.ofText raw ∧ issues form = issues raw) ∧
    Statement.ofText (Statement.ofText raw).text = Statement.ofText raw := by
  refine ⟨fun form hform => ?_, Statement.ofText_text_ofText raw⟩
  have statement : Statement.ofText form = Statement.ofText raw := by
    simp only [List.mem_cons, List.not_mem_nil, or_false] at hform
    rcases hform with rfl | rfl | rfl
    · exact Statement.ofText_remove raw
    · exact Statement.ofText_text_ofText raw
    · exact Statement.ofText_padded hfront hback raw
  exact ⟨Compilation.ofText_congr statement, issues_congr statement⟩

/-- A line comment at the end takes in space up to the next line feed. -/
theorem compilation_and_issues_padded :
    Compilation.ofText "\u00a0\nselect 1/* one */-- two \n\u2003" =
        Compilation.ofText "select 1/* one */-- two" ∧
      issues "\u00a0\nselect 1/* one */-- two \n\u2003" = issues "select 1/* one */-- two" := by
  have front : "\u00a0\n".toList.all isSpace = true := by decide +kernel
  have back : " \n\u2003".toList.all isSpace = true := by decide +kernel
  have forms := compilation_and_issues_of_form "select 1/* one */-- two" "\u00a0\n" " \n\u2003"
    (List.all_eq_true.mp front) (List.all_eq_true.mp back)
  exact forms.1 _ (by decide +kernel)

end Forms

/-! ## What a report says -/

/-- The messages of a table declaration that is returned as it was written. -/
def keptMessages : List Text := [Finding.columnListMissing.message, Finding.noColumns.message]

namespace Finding

def isKept : Finding → Bool
  | columnListMissing | noColumns => true
  | _ => false

def clause? : Finding → Option Text
  | clauseDropped clause => some clause
  | _ => none

/-- The first character of the message, which tells the findings apart as far as it
matters here. -/
def initial : Finding → Char
  | emptyStatement => 'E'
  | unclosedComment | unbalancedParentheses => 'U'
  | columnListMissing | noColumns => 'C'
  | clauseDropped _ => 'T'
  | autoIncrementDropped _ => 'A'
  | primaryWithoutKey => 'P'
  | notADate _ => '\x27'

theorem head?_message (f : Finding) : f.message.head? = some f.initial := by
  have append {s : Text} {c : Char} (h : s.head? = some c) (t : Text) :
      (s ++ t).head? = some c := by
    rw [List.head?_append, h, Option.some_or]
  cases f with
  | clauseDropped clause => exact append (c := 'T') (by decide) clause
  | notADate literal =>
    have quote : ("\x27" : Text).head? = some '\x27' := by decide
    exact append (append quote literal) _
  | autoIncrementDropped primaryKey => cases primaryKey <;> decide
  | _ => decide

variable {f : Finding}

theorem level_eq_error_iff : f.level = .error ↔ f = .emptyStatement := by
  cases f <;> simp [level]

theorem message_mem_keptMessages : f.message ∈ keptMessages ↔ f.isKept = true := by
  constructor
  · intro h
    have initials : keptMessages.all (·.head? = some 'C') = true := by decide
    have first := of_decide_eq_true (List.all_eq_true.mp initials _ h)
    rw [head?_message] at first
    cases f with
    | columnListMissing => rfl
    | noColumns => rfl
    | _ => simp [initial] at first
  · intro h
    cases f with
    | columnListMissing => exact List.mem_cons_self
    | noColumns => exact List.mem_cons_of_mem _ List.mem_cons_self
    | _ => contradiction

/-- A dropped clause can be told from the message, which goes on with the clause. -/
theorem clause?_eq_some_iff {clause : Text} :
    f.clause? = some clause ↔ f.message = "Table-level clause dropped: ".toList ++ clause := by
  constructor
  · intro h
    cases f <;> simp [clause?] at h
    rw [h]
    rfl
  · intro h
    have first := head?_message (clauseDropped clause)
    rw [show (clauseDropped clause).message = f.message from h.symm, head?_message] at first
    cases f <;> simp [initial] at first
    rw [clause?, List.append_cancel_left h]

end Finding

/-- The clause that an issue reports as dropped, taken from its message. -/
def Issue.clause? (i : Issue) : Option Text :=
  "Table-level clause dropped: ".toList.isPrefixOf? i.message

theorem Issue.clause?_eq (i : Issue) : i.clause? = i.finding.clause? := by
  ext clause
  rw [clause?, List.isPrefixOf?_eq_some_iff_append_eq, Finding.clause?_eq_some_iff, eq_comm]
  rfl

/-! ## Pieces of a column list -/

/-- Each piece of a list declares the next of the columns, or is the next of the
clauses. -/
inductive Accounted : List Text → List Column → List Text → Prop where
  | nil : Accounted [] [] []
  | column {piece : Text} {pieces clauses : List Text} {col : Column} {cols : List Column} :
    Entry.constrainsTable piece = false → Column.ofText? piece = some col →
    Accounted pieces cols clauses → Accounted (piece :: pieces) (col :: cols) clauses
  | clause {piece : Text} {pieces clauses : List Text} {cols : List Column} :
    Entry.constrainsTable piece = true ∨ Column.ofText? piece = none →
    Accounted pieces cols clauses → Accounted (piece :: pieces) cols (piece :: clauses)

namespace Entry

def clause? : Entry → Option Text
  | column _ => none
  | dropped clause => some clause

theorem accounted (pieces : List Text) :
    Accounted pieces ((pieces.map ofPiece).filterMap column?)
      ((pieces.map ofPiece).filterMap clause?) := by
  induction pieces with
  | nil => exact .nil
  | cons piece pieces ih =>
    rw [List.map_cons]
    cases hc : constrainsTable piece with
    | true =>
      have entry : ofPiece piece = .dropped piece := by rw [ofPiece, if_pos hc]
      rw [entry]
      exact .clause (Or.inl hc) ih
    | false =>
      cases hcol : Column.ofText? piece with
      | none =>
        have entry : ofPiece piece = .dropped piece := by simp [ofPiece, hc, hcol]
        rw [entry]
        exact .clause (Or.inr hcol) ih
      | some col =>
        have entry : ofPiece piece = .column col := by simp [ofPiece, hc, hcol]
        rw [entry]
        exact .column hc hcol ih

theorem finding_of_mem_issues {e : Entry} {i : Issue} (h : i ∈ e.issues) :
    i.finding ≠ .emptyStatement ∧ i.finding.isKept = false := by
  cases e with
  | column col =>
    rcases List.mem_append.mp h with h | h
    all_goals
      split at h
      · rw [List.mem_singleton.mp h]
        exact ⟨nofun, rfl⟩
      · simp at h
  | dropped clause =>
    rw [List.mem_singleton.mp h]
    exact ⟨nofun, rfl⟩

theorem filterMap_issues (e : Entry) :
    e.issues.filterMap (·.finding.clause?) = e.clause?.toList := by
  cases e with
  | column col =>
    show col.issues.filterMap _ = []
    unfold Column.issues
    rw [List.filterMap_append]
    split <;> split <;> rfl
  | dropped clause => rfl

theorem filterMap_flatMap_issues (entries : List Entry) :
    (entries.flatMap issues).filterMap (·.finding.clause?) = entries.filterMap clause? := by
  induction entries with
  | nil => rfl
  | cons e es ih =>
    rw [List.flatMap_cons, List.filterMap_append, filterMap_issues, ih]
    cases e <;> rfl

end Entry

theorem ColumnList.any_entries (body : Text) :
    (entries body).any (·.column?.isSome) = ! (columns body).isEmpty := by
  rw [columns]
  induction entries body with
  | nil => rfl
  | cons e es ih =>
    rw [List.any_cons, ih]
    cases e <;> rfl

/-! ## Tables that are kept and tables that are written -/

/-- The text of a declaration with the columns that are read from its list, each on its
own line. -/
def Outline.rendered (o : Outline) (cols : List Column) : Text :=
  "CREATE TABLE " ++ (if o.ifNotExists then "IF NOT EXISTS " else "") ++ o.name ++ " (\n    " ++
    List.intercalate ",\n    ".toList (cols.map Column.render) ++ "\n)"

theorem Outline.render_table (o : Outline) (cols : List Column) :
    Table.render ⟨o.name, o.ifNotExists, cols⟩ = o.rendered cols := rfl

namespace Statement

variable {s : Statement}

theorem treatment_eq_kept_iff :
    s.adapt.2 = .kept ↔ s.kind = .createTable ∧ Table.ofText? s.text = none := by
  unfold adapt
  cases s.kind with
  | createTable => cases Table.ofText? s.text <;> simp
  | insert => simp
  | other => simp

theorem exists_tableIssues_of_none (h : Table.ofText? s.text = none) :
    ∃ f : Finding, s.tableIssues = [.onStatement f] ∧ f.isKept = true := by
  unfold tableIssues
  cases ho : Outline.ofText? s.text with
  | none => exact ⟨.columnListMissing, rfl, rfl⟩
  | some outline =>
    have empty : (ColumnList.columns outline.body).isEmpty = true := by
      simpa [Table.ofText?, ho] using h
    simp only [ColumnList.any_entries, empty]
    exact ⟨.noColumns, rfl, rfl⟩

theorem exists_tableIssues_of_some {t : Table} (h : Table.ofText? s.text = some t) :
    ∃ outline, Outline.ofText? s.text = some outline ∧
      t = ⟨outline.name, outline.ifNotExists, ColumnList.columns outline.body⟩ ∧
      s.tableIssues = (ColumnList.entries outline.body).flatMap Entry.issues := by
  simp only [Table.ofText?, Option.bind_eq_bind, Option.bind_eq_some_iff] at h
  obtain ⟨outline, ho, h⟩ := h
  obtain ⟨hne, h⟩ := Option.ite_none_left_eq_some.mp h
  refine ⟨outline, ho, (Option.some.inj h).symm, ?_⟩
  simp only [tableIssues, ho, ColumnList.any_entries, Bool.eq_false_iff.mpr hne]
  rfl

theorem finding_of_mem_kindIssues {i : Issue} (h : i ∈ s.kindIssues) :
    i.finding ≠ .emptyStatement ∧ (s.adapt.2 ≠ .kept → i.finding.isKept = false) := by
  unfold kindIssues at h
  cases hk : s.kind with
  | createTable =>
    rw [hk] at h
    cases ht : Table.ofText? s.text with
    | none =>
      obtain ⟨f, hf, kept⟩ := exists_tableIssues_of_none ht
      have kind : i ∈ s.tableIssues := h
      rw [hf] at kind
      rw [List.mem_singleton.mp kind]
      refine ⟨?_, fun hn => absurd (treatment_eq_kept_iff.mpr ⟨hk, ht⟩) hn⟩
      rintro rfl
      contradiction
    | some t =>
      obtain ⟨_, _, _, listed⟩ := exists_tableIssues_of_some ht
      obtain ⟨_, _, h⟩ := List.mem_flatMap.mp (listed ▸ h)
      obtain ⟨nonempty, kept⟩ := Entry.finding_of_mem_issues h
      exact ⟨nonempty, fun _ => kept⟩
  | insert =>
    rw [hk] at h
    obtain ⟨literal, _, rfl⟩ := List.mem_map.mp h
    exact ⟨nofun, fun _ => rfl⟩
  | other =>
    rw [hk] at h
    simp at h

end Statement

/-- An issue that is neither about a column nor about a list of columns. -/
structure Issue.General (i : Issue) : Prop where
  level : i.level = .warning
  column : i.column = none
  notKept : i.finding.isKept = false
  clause : i.finding.clause? = none

theorem issues_of_nil {raw : Text} (h : (Statement.ofText raw).text = []) :
    issues raw = [.onStatement .emptyStatement] := by
  rw [issues, if_pos (by rw [h]; rfl)]

/-- What is said about any statement comes before what is said about its kind. -/
theorem exists_front {raw : Text} (h : (Statement.ofText raw).text ≠ []) :
    ∃ front : List Issue, issues raw = front ++ (Statement.ofText raw).kindIssues ∧
      ∀ i ∈ front, i = .onStatement .unclosedComment ∨
        i = .onStatement .unbalancedParentheses := by
  refine ⟨_, if_neg (by simpa using h), ?_⟩
  intro i hi
  rcases List.mem_append.mp hi with hi | hi
  · split at hi
    · exact Or.inl (List.mem_singleton.mp hi)
    · simp at hi
  · split at hi
    · exact Or.inr (List.mem_singleton.mp hi)
    · simp at hi

theorem filter_issues {raw : Text} {p : Issue → Bool} (h : (Statement.ofText raw).text ≠ [])
    (unclosed : p (.onStatement .unclosedComment) = false)
    (unbalanced : p (.onStatement .unbalancedParentheses) = false) :
    (issues raw).filter p = (Statement.ofText raw).kindIssues.filter p := by
  obtain ⟨front, whole, general⟩ := exists_front h
  have none : front.filter p = [] := by
    apply List.filter_eq_nil_iff.mpr
    intro i hi
    rcases general i hi with rfl | rfl
    · simp [unclosed]
    · simp [unbalanced]
  rw [whole, List.filter_append, none, List.nil_append]

theorem exists_issues_eq {raw : Text} (h : (Statement.ofText raw).text ≠ []) :
    ∃ front : List Issue, issues raw = front ++ (Statement.ofText raw).kindIssues ∧
      ∀ i ∈ front, i.General := by
  obtain ⟨front, whole, general⟩ := exists_front h
  refine ⟨front, whole, fun i hi => ?_⟩
  rcases general i hi with rfl | rfl
  · exact ⟨rfl, rfl, rfl, rfl⟩
  · exact ⟨rfl, rfl, rfl, rfl⟩

theorem ne_nil_of_kind {raw : Text} {kind : Kind} (h : (Statement.ofText raw).kind = kind)
    (hk : kind ≠ .other) : (Statement.ofText raw).text ≠ [] := by
  intro he
  rw [Statement.kind_ofText, he] at h
  exact hk (h.symm.trans (by decide))

section Reports

variable {raw : Text}

theorem issues_of_kept (h : (Compilation.ofText raw).treatment = .kept) :
    (∃ i, (issues raw).filter (·.message ∈ keptMessages) = [i] ∧ i.level = .warning) ∧
      ∀ i ∈ issues raw, i.column = none ∧ i.finding.clause? = none := by
  obtain ⟨kind, table⟩ := Statement.treatment_eq_kept_iff.mp h
  obtain ⟨f, hf, kept⟩ := Statement.exists_tableIssues_of_none table
  obtain ⟨front, whole, general⟩ := exists_issues_eq (ne_nil_of_kind kind (by decide))
  have about : f.level = .warning ∧ f.clause? = none := by
    cases f <;> first | exact ⟨rfl, rfl⟩ | contradiction
  have last : (Statement.ofText raw).kindIssues = [.onStatement f] := by
    rw [Statement.kindIssues, kind]
    exact hf
  constructor
  · have one : decide ((Issue.onStatement f).message ∈ keptMessages) = true :=
      decide_eq_true (Finding.message_mem_keptMessages.mpr kept)
    refine ⟨.onStatement f, ?_, about.1⟩
    rw [filter_issues (ne_nil_of_kind kind (by decide)) (by decide) (by decide), last]
    exact List.filter_cons_of_pos one
  · intro i hi
    rw [whole, last] at hi
    rcases List.mem_append.mp hi with hi | hi
    · exact ⟨(general i hi).column, (general i hi).clause⟩
    · rw [List.mem_singleton.mp hi]
      exact ⟨rfl, about.2⟩

theorem not_mem_keptMessages (h : (Compilation.ofText raw).treatment ≠ .kept) :
    ∀ i ∈ issues raw, i.message ∉ keptMessages := by
  intro i hi
  rw [Issue.message, Finding.message_mem_keptMessages, Bool.not_eq_true]
  by_cases he : (Statement.ofText raw).text = []
  · rw [issues_of_nil he] at hi
    rw [List.mem_singleton.mp hi]
    rfl
  · obtain ⟨front, whole, general⟩ := exists_issues_eq he
    rw [whole] at hi
    rcases List.mem_append.mp hi with hi | hi
    · exact (general i hi).notKept
    · exact (Statement.finding_of_mem_kindIssues hi).2 h

theorem exists_table_of_adapted (hk : (Compilation.ofText raw).kind = .createTable)
    (h : (Compilation.ofText raw).treatment = .adapted) :
    ∃ t, Table.ofText? (Statement.ofText raw).text = some t ∧ compile raw = t.render := by
  have kind : (Statement.ofText raw).kind = .createTable := hk
  cases ht : Table.ofText? (Statement.ofText raw).text with
  | none =>
    have kept := Statement.treatment_eq_kept_iff.mpr ⟨kind, ht⟩
    exact absurd (h.symm.trans kept) (by decide)
  | some t =>
    refine ⟨t, rfl, ?_⟩
    show (Statement.ofText raw).adapt.1 = _
    simp only [Statement.adapt, kind, ht]

theorem exists_accounted (hk : (Compilation.ofText raw).kind = .createTable)
    (h : (Compilation.ofText raw).treatment = .adapted) :
    ∃ outline cols, Outline.ofText? (Statement.ofText raw).text = some outline ∧
      compile raw = Table.render ⟨outline.name, outline.ifNotExists, cols⟩ ∧
      compile raw = outline.rendered cols ∧
      Accounted (outermostPieces outline.body) cols
        ((issues raw).filterMap (·.finding.clause?)) := by
  have kind : (Statement.ofText raw).kind = .createTable := hk
  obtain ⟨t, ht, sql⟩ := exists_table_of_adapted hk h
  obtain ⟨outline, ho, rfl, listed⟩ := Statement.exists_tableIssues_of_some ht
  obtain ⟨front, whole, general⟩ := exists_issues_eq (ne_nil_of_kind kind (by decide))
  have none : front.filterMap (·.finding.clause?) = [] :=
    List.filterMap_eq_nil_iff.mpr fun i hi => (general i hi).clause
  have clauses : (issues raw).filterMap (·.finding.clause?) =
      (ColumnList.entries outline.body).filterMap Entry.clause? := by
    rw [whole, Statement.kindIssues, kind]
    show (front ++ (Statement.ofText raw).tableIssues).filterMap _ = _
    rw [listed, List.filterMap_append, none, List.nil_append, Entry.filterMap_flatMap_issues]
  refine ⟨outline, _, ho, sql, sql.trans (outline.render_table _), ?_⟩
  rw [clauses]
  exact Entry.accounted _

end Reports

/-- A statement is kept when one issue says that it is returned as it was written, and
then no issue is about a column or a clause.  When a table is written, each piece of its
column list is written as a column or named by an issue as a dropped clause, in the order
of the pieces. -/
theorem issues_of_compilation (raw : Text) :
    ((Compilation.ofText raw).treatment = .kept ↔ ∃ i ∈ issues raw, i.message ∈ keptMessages) ∧
    ((Compilation.ofText raw).treatment = .kept →
      (∃ i, (issues raw).filter (·.message ∈ keptMessages) = [i] ∧ i.level = .warning) ∧
      ∀ i ∈ issues raw, i.column = none ∧ i.clause? = none) ∧
    ((Compilation.ofText raw).kind = .createTable →
      (Compilation.ofText raw).treatment = .adapted →
      ∃ outline cols, Outline.ofText? (Statement.ofText raw).text = some outline ∧
        compile raw = Table.render ⟨outline.name, outline.ifNotExists, cols⟩ ∧
        compile raw = outline.rendered cols ∧
        Accounted (outermostPieces outline.body) cols ((issues raw).filterMap Issue.clause?)) := by
  simp only [Issue.clause?_eq]
  refine ⟨⟨fun h => ?_, fun h => ?_⟩, issues_of_kept, exists_accounted⟩
  · obtain ⟨⟨i, one, _⟩, _⟩ := issues_of_kept h
    have hi : i ∈ (issues raw).filter (·.message ∈ keptMessages) := by simp [one]
    exact ⟨i, (List.mem_filter.mp hi).1, of_decide_eq_true (List.mem_filter.mp hi).2⟩
  · obtain ⟨i, hi, hm⟩ := h
    exact Classical.byContradiction fun hk => not_mem_keptMessages hk i hi hm

/-- A list with a clause and a piece that begins with no name, and a list that is not
closed. -/
theorem issues_of_compilation_listed :
    (∃ outline cols,
      Outline.ofText? (Statement.ofText "create table t (a int, primary key (a), -b)").text =
        some outline ∧
      compile "create table t (a int, primary key (a), -b)" =
        Table.render ⟨outline.name, outline.ifNotExists, cols⟩ ∧
      compile "create table t (a int, primary key (a), -b)" = outline.rendered cols ∧
      Accounted (outermostPieces outline.body) cols
        ((issues "create table t (a int, primary key (a), -b)").filterMap Issue.clause?)) ∧
    ∃ i, (issues "create table t (a int").filter (·.message ∈ keptMessages) = [i] ∧
      i.level = .warning := by
  have listed :
      (Compilation.ofText "create table t (a int, primary key (a), -b)").kind = .createTable ∧
        (Compilation.ofText "create table t (a int, primary key (a), -b)").treatment = .adapted := by
    rw [Compilation.ofText, Statement.ofText,
      Comment.remove_of_opening?_eq_none (by decide +kernel)]
    decide +kernel
  have kept : (Compilation.ofText "create table t (a int").treatment = .kept := by
    rw [Compilation.ofText, Statement.ofText,
      Comment.remove_of_opening?_eq_none (by decide +kernel)]
    decide +kernel
  exact ⟨(issues_of_compilation _).2.2 listed.1 listed.2, ((issues_of_compilation _).2.1 kept).1⟩

end Dialect
