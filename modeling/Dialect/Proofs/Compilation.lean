import Dialect.Compilation
import Dialect.Proofs.Clock
import Dialect.Proofs.Statement
import Dialect.Proofs.Table.RoundTrip

/-!
# Compiled statements

A compiled statement is the text of its own statement, of the same kind as before.  So
compiling it again reads what was written, and from a table declaration that is a
rendered table.
-/

namespace Dialect

/-! ## The statement of a compiled text -/

namespace Table

variable {s : Text} {t : Table}

theorem kind_render (t : Table) : Kind.ofText t.render = .createTable := by
  rw [render_eq]
  exact t.heading.kind_text _

theorem trimmed_render (t : Table) : Trimmed t.render := by
  rw [render_eq]
  constructor
  · exact t.heading.head?_text _
  · intro c hc
    simp only [← List.cons_append, ← List.append_assoc, List.getLast?_concat] at hc
    rw [← Option.some.inj hc]
    decide

theorem normal_render (hs : Normal s) (h : Table.ofText? s = some t) : Normal t.render :=
  ⟨(spliced_render h).settled hs.settled, t.trimmed_render⟩

end Table

namespace Statement

theorem normal_adapt {s : Statement} (hs : Normal s.text) : Normal s.adapt.1 := by
  unfold adapt
  cases s.kind with
  | createTable =>
    cases h : Table.ofText? s.text with
    | none => exact hs
    | some t => exact Table.normal_render hs h
  | insert => exact hs
  | other => exact Clock.normal_adapt hs

/-- What a statement is rendered as is a splice of its text. -/
theorem spliced_adapt (s : Statement) : Comment.Spliced false s.text s.adapt.1 := by
  unfold adapt
  cases s.kind with
  | createTable =>
    cases h : Table.ofText? s.text with
    | none => exact .refl s.text
    | some t => exact Table.spliced_render h
  | insert => exact .refl s.text
  | other => exact (Clock.spliced_adapt s.text).loosen

theorem kind_adapt {s : Statement} (hk : s.kind = .ofText s.text) :
    Kind.ofText s.adapt.1 = s.kind := by
  rw [hk]
  unfold adapt
  cases h : s.kind with
  | createTable =>
    cases Table.ofText? s.text with
    | none => rfl
    | some t => rw [← hk, h]; exact t.kind_render
  | insert => rfl
  | other => exact Clock.kind_adapt s.text

end Statement

theorem normal_compile (raw : Text) : Normal (compile raw) :=
  Statement.normal_adapt (Statement.normal_text_ofText raw)

theorem ofText_compile (raw : Text) :
    Statement.ofText (compile raw) = ⟨compile raw, (Compilation.ofText raw).kind⟩ := by
  have kind : Kind.ofText (compile raw) = (Compilation.ofText raw).kind :=
    Statement.kind_adapt (Statement.kind_ofText raw)
  rw [Statement.ofText_of_normal (normal_compile raw), kind]

/-- A compiled statement holds no comment and no space at its ends, and its kind is that
of the statement it was compiled from. -/
theorem statement_of_compile (raw : Text) :
    Statement.ofText (compile raw) = ⟨compile raw, (Compilation.ofText raw).kind⟩ ∧
      ¬ ['-', '-'] <:+: compile raw ∧
      (∀ rest, ['/', '*'] ++ rest <:+ compile raw → ¬ ['*', '/'] <:+: rest) ∧
      (∀ c ∈ (compile raw).head?, isSpace c = false) ∧
      (∀ c ∈ (compile raw).getLast?, isSpace c = false) := by
  have normal := normal_compile raw
  exact ⟨ofText_compile raw, normal.settled.line, normal.settled.block, normal.trimmed.head,
    normal.trimmed.last⟩

/-! ## Compiling twice -/

namespace Statement

/-- Every name that is read from a table declaration and stands in brackets is free of
quotes. -/
def Unquoted (s : Statement) : Prop :=
  s.kind = .createTable → ∀ t, Table.ofText? s.text = some t →
    ∀ col ∈ t.columns, col.name.head? = some '[' → ∀ c ∈ col.name, isQuote c = false

theorem adapt_adapt {s : Statement} (h : s.Unquoted) :
    (adapt ⟨s.adapt.1, s.kind⟩).1 = s.adapt.1 := by
  obtain ⟨text, kind⟩ := s
  cases kind with
  | createTable =>
    cases ht : Table.ofText? text with
    | none => simp only [adapt, ht]
    | some t =>
      obtain ⟨_, _, _, _, _, hname, _, _, hne⟩ := Table.exists_source ht
      have names := Table.names_of_source ht (h rfl t ht)
      cases hu : Table.ofText? t.render with
      | none => simp only [adapt, ht, hu]
      | some u =>
        have same : u.render = t.render := Table.render_of_ofText?_render hne hname names hu
        simp only [adapt, ht, hu, same]
  | insert => rfl
  | other => exact Clock.adapt_adapt text

end Statement

/-- Compiling a compiled statement changes nothing. -/
theorem compile_compile (raw : Text)
    (h : (Statement.ofText raw).kind = .createTable →
      ∀ t, Table.ofText? (Statement.ofText raw).text = some t →
        ∀ col ∈ t.columns, col.name.head? = some '[' → ∀ c ∈ col.name, isQuote c = false) :
    compile (compile raw) = compile raw := by
  show (Statement.ofText (compile raw)).adapt.1 = (Statement.ofText raw).adapt.1
  rw [ofText_compile]
  exact Statement.adapt_adapt h

/-- The rendered table opens a group in the brackets, so it is kept the second time. -/
theorem compile_compile_bracketed :
    compile (compile "create table t ([a(b] int not null ))") =
      compile "create table t ([a(b] int not null ))" := by
  apply compile_compile
  intro _ t ht col hcol _
  have text : (Statement.ofText "create table t ([a(b] int not null ))").text =
      "create table t ([a(b] int not null ))" := by
    rw [Statement.ofText, Comment.remove_of_opening?_eq_none (by decide +kernel)]
    decide +kernel
  have read : Table.ofText? "create table t ([a(b] int not null ))" =
      some ⟨"t", false, [⟨"[a(b]", "int", [.not, .null]⟩]⟩ := by decide +kernel
  rw [text, read] at ht
  rw [← Option.some.inj ht] at hcol
  obtain rfl := List.mem_singleton.mp hcol
  have unquoted : "[a(b]".toList.all (! isQuote ·) = true := by decide +kernel
  intro c hc
  simpa using List.all_eq_true.mp unquoted c hc

end Dialect
