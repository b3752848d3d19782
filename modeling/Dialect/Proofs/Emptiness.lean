import Dialect.Proofs.Issue
import Dialect.Shell.Session
import Mathlib.Data.List.TFAE

/-!
# Empty statements

A statement is empty when removal leaves nothing but space of the raw text.  Its
compilation, its verdict, its issues and a database all find out in their own way, some
before the compilation and some after it, and they agree.  Nothing that is compiled
disappears on the way, and what is compiled has no space at its ends, so it is not made
of space alone.
-/

namespace Dialect

namespace Statement

theorem kind_of_nil {s : Statement} (hk : s.kind = .ofText s.text) (h : s.text = []) :
    s.kind = .other := by
  rw [hk, h]
  decide

theorem adapt_eq_nil_iff {s : Statement} (hk : s.kind = .ofText s.text) :
    s.adapt.1 = [] ↔ s.text = [] := by
  constructor
  · intro h
    unfold adapt at h
    cases hkind : s.kind with
    | createTable =>
      cases ht : Table.ofText? s.text with
      | none => simpa only [hkind, ht] using h
      | some t =>
        simp only [hkind, ht] at h
        exact absurd h t.render_ne_nil
    | insert => simpa only [hkind, passInsertion] using h
    | other =>
      simp only [hkind] at h
      exact Clock.eq_nil_of_adapt_eq_nil h
  · intro h
    simp only [adapt, kind_of_nil hk h, h, Clock.adapt_nil]

end Statement

section Compilations

variable {raw : Text}

theorem compile_eq_nil_iff : compile raw = [] ↔ (Statement.ofText raw).text = [] :=
  Statement.adapt_eq_nil_iff (Statement.kind_ofText raw)

theorem compile_spaces_iff :
    (∀ c ∈ compile raw, isSpace c = true) ↔ (Statement.ofText raw).text = [] := by
  rw [← compile_eq_nil_iff]
  constructor
  · exact (normal_compile raw).trimmed.eq_nil_of_spaces
  · intro h
    simp [h]

theorem isEmpty_compilation_iff :
    (Compilation.ofText raw).isEmpty = true ↔ (Statement.ofText raw).text = [] := by
  have sql : trim (Compilation.ofText raw).sql = compile raw :=
    trim_eq_self (normal_compile raw).trimmed
  rw [Compilation.isEmpty, sql, List.isEmpty_iff, compile_eq_nil_iff]

theorem ofNonemptyText_of_nil (h : (Statement.ofText raw).text = []) :
    Compilation.ofNonemptyText raw = .error .emptyStatement :=
  if_pos (isEmpty_compilation_iff.mpr h)

theorem ofNonemptyText_of_ne_nil (h : (Statement.ofText raw).text ≠ []) :
    Compilation.ofNonemptyText raw = .ok (Compilation.ofText raw) :=
  if_neg fun he => h (isEmpty_compilation_iff.mp he)

theorem ofNonemptyText_eq_error_iff :
    Compilation.ofNonemptyText raw = .error .emptyStatement ↔
      (Statement.ofText raw).text = [] := by
  refine ⟨fun h => Classical.byContradiction fun hne => ?_, ofNonemptyText_of_nil⟩
  rw [ofNonemptyText_of_ne_nil hne] at h
  contradiction

theorem valid_eq_false_iff :
    (Verdict.ofText raw).valid = false ↔ (Statement.ofText raw).text = [] := by
  by_cases h : (Statement.ofText raw).text = []
  · simp [Verdict.ofText, ofNonemptyText_of_nil h, h]
  · simp [Verdict.ofText, ofNonemptyText_of_ne_nil h, h]

/-! ## Issues -/

theorem exists_error_iff :
    (∃ i ∈ issues raw, i.level = .error) ↔ (Statement.ofText raw).text = [] := by
  constructor
  · rintro ⟨i, hi, error⟩
    refine Classical.byContradiction fun hne => ?_
    obtain ⟨front, whole, general⟩ := exists_issues_eq hne
    rw [whole] at hi
    rcases List.mem_append.mp hi with hi | hi
    · rw [(general i hi).level] at error
      contradiction
    · exact (Statement.finding_of_mem_kindIssues hi).1 (Finding.level_eq_error_iff.mp error)
  · intro h
    rw [issues_of_nil h]
    exact ⟨_, List.mem_singleton_self _, rfl⟩

theorem issues_eq_emptyStatement_iff :
    issues raw = [.onStatement .emptyStatement] ↔ (Statement.ofText raw).text = [] := by
  refine ⟨fun h => exists_error_iff.mp ?_, issues_of_nil⟩
  rw [h]
  exact ⟨_, List.mem_singleton_self _, rfl⟩

end Compilations

/-! ## Databases -/

namespace Session

variable {raw : Text}

theorem execute_of_nil (executor : Executor) (db : executor.Connection)
    (h : (Statement.ofText raw).text = []) :
    execute executor db raw = (db, .error .emptyStatement) := by
  simp only [execute, ofNonemptyText_of_nil h]

/-- Any other statement is compiled and run on its route. -/
theorem execute_of_ne_nil (executor : Executor) (db : executor.Connection)
    (h : (Statement.ofText raw).text ≠ []) :
    execute executor db raw =
      (run executor db (compile raw) (.ofSql (compile raw))).map id (·.mapError .execution) := by
  rw [execute, ofNonemptyText_of_ne_nil h]
  rfl

/-- A fault of the executor is not the fault of an empty statement. -/
theorem execute_eq_error_iff (executor : Executor) (db : executor.Connection) :
    (execute executor db raw).2 = .error .emptyStatement ↔ (Statement.ofText raw).text = [] := by
  constructor
  · intro h
    refine Classical.byContradiction fun hne => ?_
    rw [execute_of_ne_nil executor db hne, Prod.map_snd] at h
    cases answer : (run executor db (compile raw) (.ofSql (compile raw))).2 with
    | ok a =>
      rw [answer] at h
      contradiction
    | error detail =>
      rw [answer] at h
      simp [Except.mapError] at h
  · intro h
    rw [execute_of_nil executor db h]

end Session

/-! ## Command lines -/

/-- A command line that runs a command on a statement, in surroundings where the settings
are found and the text of the statement is read. -/
structure Invocation (command : Source → Command) (raw : Text) where
  world : Surroundings
  words : List Text
  source : Source
  flags : Flags
  settings : Settings
  asks : Arguments.request words = .run (command source) flags
  settles : Settings.resolve world flags = .ok settings
  reads : source.read world = .ok raw

namespace Invocation

variable {command : Source → Command} {raw : Text}

def transcript (executor : Executor) (i : Invocation command raw) : Transcript :=
  Session.ofWords executor i.world i.words

theorem transcript_eq (executor : Executor) (i : Invocation command raw) :
    i.transcript executor =
      Session.ofCommand executor i.world i.settings (command i.source) := by
  simp only [transcript, Session.ofWords, i.asks, Session.ofRequest, i.settles]

theorem code_validate (executor : Executor) (i : Invocation .validate raw) :
    (i.transcript executor).code = if (Statement.ofText raw).text = [] then 1 else 0 := by
  have transcript : i.transcript executor = Session.validated i.settings raw := by
    simp only [transcript_eq, Session.ofCommand, Session.reading, i.reads]
  rw [transcript, Session.validated, Transcript.code_failingIf, Transcript.code_print]
  by_cases h : (Statement.ofText raw).text = []
  · have valid := valid_eq_false_iff.mpr h
    simp [valid, h]
  · have valid : (Verdict.ofText raw).valid = true := by
      rw [← Bool.not_eq_false]
      exact mt valid_eq_false_iff.mp h
    simp [valid, h]

theorem code_lint (executor : Executor) (i : Invocation .lint raw) :
    (i.transcript executor).code = if (Statement.ofText raw).text = [] then 1 else 0 := by
  have transcript : i.transcript executor = Session.linted i.settings raw := by
    simp only [transcript_eq, Session.ofCommand, Session.reading, i.reads]
  have errors : (issues raw).any (·.level = .error) = true ↔ (Statement.ofText raw).text = [] := by
    simp only [List.any_eq_true, decide_eq_true_eq, exists_error_iff]
  rw [transcript, Session.linted, Transcript.code_failingIf, Transcript.code_print]
  simp only [errors]

/-- The statement comes from standard input. -/
def validating (raw : Text) : Invocation .validate raw where
  world := { stdin := raw, files := { contents := [] }, userDirectory := none, database := none }
  words := ["validate", "-"]
  source := { sql := some "-".toList, file := none }
  flags := { format := none, verbose := false, database := none, config := none }
  settings := .default
  asks := by decide +kernel
  settles := rfl
  reads := rfl

def linting (raw : Text) : Invocation .lint raw where
  world := { stdin := raw, files := { contents := [] }, userDirectory := none, database := none }
  words := ["lint", "--format", "json", "-"]
  source := { sql := some "-".toList, file := none }
  flags := { format := some .json, verbose := false, database := none, config := none }
  settings := { databaseUrl := none, format := .json, verbose := false }
  asks := by decide +kernel
  settles := rfl
  reads := rfl

end Invocation

/-- Every place that finds a statement empty finds the same statements empty. -/
theorem empty_tfae (executor : Executor) (db : executor.Connection) (raw : Text)
    (v : Invocation .validate raw) (l : Invocation .lint raw) :
    List.TFAE [
      (Statement.ofText raw).text = [],
      compile raw = [],
      ∀ c ∈ compile raw, isSpace c = true,
      Compilation.ofNonemptyText raw = .error .emptyStatement,
      (Verdict.ofText raw).valid = false,
      ∃ i ∈ issues raw, i.level = .error,
      issues raw = [.onStatement .emptyStatement],
      (Session.execute executor db raw).2 = .error .emptyStatement,
      Session.execute executor db raw = (db, .error .emptyStatement),
      (v.transcript executor).code = 1,
      (l.transcript executor).code = 1] ∧
    ((Statement.ofText raw).text ≠ [] →
      (v.transcript executor).code = 0 ∧ (l.transcript executor).code = 0) := by
  have database : Session.execute executor db raw = (db, .error .emptyStatement) ↔
      (Statement.ofText raw).text = [] :=
    ⟨fun h => (Session.execute_eq_error_iff executor db).mp (congrArg Prod.snd h),
      Session.execute_of_nil executor db⟩
  have code (n : Nat) (hn : n = if (Statement.ofText raw).text = [] then 1 else 0) :
      n = 1 ↔ (Statement.ofText raw).text = [] := by
    rw [hn]
    split <;> simp_all
  constructor
  · apply List.tfae_of_forall ((Statement.ofText raw).text = [])
    simp only [List.mem_cons, List.not_mem_nil, or_false, forall_eq_or_imp, forall_eq,
      iff_self, true_and]
    exact ⟨compile_eq_nil_iff, compile_spaces_iff, ofNonemptyText_eq_error_iff,
      valid_eq_false_iff, exists_error_iff, issues_eq_emptyStatement_iff,
      Session.execute_eq_error_iff executor db, database, code _ (v.code_validate executor),
      code _ (l.code_lint executor)⟩
  · intro h
    rw [v.code_validate, l.code_lint, if_neg h]
    exact ⟨rfl, rfl⟩

/-- A comment that hides the mark of another one, between spaces of two kinds. -/
theorem empty_tfae_comment :
    compile "\u2003-- /*\n\u00a0/* a */" = [] ∧
      ((Invocation.linting "\u2003-- /*\n\u00a0/* a */").transcript .scratch).code = 1 ∧
      ((Invocation.validating "select 1").transcript .scratch).code = 0 := by
  have empty : (Statement.ofText "\u2003-- /*\n\u00a0/* a */").text = [] := by decide +kernel
  have tfae := (empty_tfae .scratch [] _ (.validating _)
    (.linting "\u2003-- /*\n\u00a0/* a */")).1
  have select : (Statement.ofText "select 1").text ≠ [] := by decide +kernel
  have codes := (empty_tfae .scratch [] _ (.validating "select 1") (.linting _)).2 select
  exact ⟨(tfae.out 0 1).mp empty, (tfae.out 0 10).mp empty, codes.1⟩

end Dialect
