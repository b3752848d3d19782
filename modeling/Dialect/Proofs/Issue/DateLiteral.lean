import Dialect.Proofs.Apostrophe
import Dialect.Proofs.Calendar
import Dialect.Proofs.Issue

/-!
# Dates in insertions

An insertion is warned about its date literals.  The literals are looked for among the
pieces between its apostrophes, where runs of other quotes do not count.  So a warning is
given for every other piece that is written like a date and is none, and this is the right
piece as long as other quotes do not hide an odd number of apostrophes in front of it.
-/

namespace Dialect

open Calendar

/-- The warning about a literal. -/
def dateWarning (literal : Text) : Issue := .onStatement (.notADate literal)

/-- Whether the message says that a literal is no date. -/
def Issue.saysNoDate (i : Issue) : Bool :=
  "' is not a valid calendar date".toList.isSuffixOf i.message

def dateWarnings (raw : Text) : List Issue := (issues raw).filter Issue.saysNoDate

/-- The apostrophes in front of what is written like a date and is none. -/
def suspects (s : Text) : List Mark := (Mark.list s).filter fun m => Misdated m.piece

section Warnings

variable {s : Text} {m : Mark}

theorem mem_suspects_iff :
    m ∈ suspects s ↔ s = m.before ++ '\x27' :: m.after ∧ Misdated m.piece := by
  rw [suspects, List.mem_filter, Mark.mem_list_iff, decide_eq_true_eq]

theorem filter_misdated (p : Mark → Bool) (s : Text) :
    (((Mark.list s).filter p).map Mark.piece).filter (Misdated ·) =
      ((suspects s).filter p).map Mark.piece := by
  rw [List.filter_map, suspects, List.filter_filter, List.filter_filter]
  simp only [Function.comp_def, Bool.and_comm]

theorem insertionIssues_eq (st : Statement) :
    st.insertionIssues = (st.literals.filter (Misdated ·)).map dateWarning := by
  have same (literal : Text) :
      (! isDateText literal && hasDateShape literal) = decide (Misdated literal) := by
    rw [Bool.eq_iff_iff, decide_eq_true_eq, misdated_iff, Bool.and_comm]
  rw [Statement.insertionIssues, List.filter_filter]
  simp only [same]
  rfl

theorem dateWarnings_of_insert {raw : Text} (h : (Statement.ofText raw).kind = .insert) :
    dateWarnings raw =
      ((suspects (Statement.ofText raw).text).filter Mark.isEven).map fun m =>
        dateWarning m.piece := by
  have dates (literals : List Text) :
      (literals.map dateWarning).filter Issue.saysNoDate = literals.map dateWarning := by
    apply List.filter_eq_self.mpr
    intro i hi
    obtain ⟨literal, _, rfl⟩ := List.mem_map.mp hi
    exact List.isSuffixOf_iff_suffix.mpr (List.suffix_append _ _)
  have kind : (Statement.ofText raw).kindIssues = (Statement.ofText raw).insertionIssues := by
    rw [Statement.kindIssues, h]
  rw [dateWarnings, filter_issues (ne_nil_of_kind h (by decide)) (by decide) (by decide), kind,
    insertionIssues_eq, dates, Statement.literals_eq, filter_misdated, List.map_map]
  rfl

end Warnings

/-- An insertion is warned about what is written like a date and is none, in order, behind
the apostrophes with an even number of apostrophes in front of them.  The closed literals
are those behind the apostrophes that open them.  Both are the same apostrophes exactly when,
of all that stand in front of a date that is none, the ends of closed literals have an even
number of hidden apostrophes in front of them and the others an odd number. -/
theorem date_warnings_of_insertion (raw : Text) (h : (Statement.ofText raw).kind = .insert) :
    let s := (Statement.ofText raw).text
    dateWarnings raw = ((suspects s).filter Mark.isEven).map (fun m => dateWarning m.piece) ∧
      ((closedLiterals s).filter (Misdated ·)).map dateWarning =
        ((suspects s).filter Mark.opensLiteral).map (fun m => dateWarning m.piece) ∧
      ((suspects s).filter Mark.isEven = (suspects s).filter Mark.opensLiteral ↔
        ∀ m : Mark, s = m.before ++ '\x27' :: m.after → Misdated m.piece →
          (m.endsLiteral = true ↔ m.hidden % 2 = 0)) := by
  refine ⟨dateWarnings_of_insert h, ?_, ?_⟩
  · rw [closedLiterals_eq, filter_misdated, List.map_map]
    rfl
  · rw [Mark.filter_eq_filter_iff]
    simp only [mem_suspects_iff, Mark.isEven_eq_opensLiteral_iff, and_imp]

/-- Two apostrophes are hidden, and a date follows that is none. -/
theorem date_warnings_of_insertion_hidden_twice :
    let raw : Text := "INSERT INTO t VALUES (\"Ann's, Bob's\", '2024-02-30', '2024-02-29')"
    (Statement.ofText raw).kind = .insert ∧
      dateWarnings raw =
        ((closedLiterals (Statement.ofText raw).text).filter (Misdated ·)).map dateWarning := by
  intro raw
  have kind : (Statement.ofText raw).kind = .insert := by
    rw [Statement.ofText, Comment.remove_of_opening?_eq_none (by decide +kernel)]
    decide +kernel
  have places : ∀ m ∈ suspects (Statement.ofText raw).text,
      (m.endsLiteral = true ↔ m.hidden % 2 = 0) := by
    rw [Statement.ofText, Comment.remove_of_opening?_eq_none (by decide +kernel)]
    decide +kernel
  have same := date_warnings_of_insertion raw kind
  refine ⟨kind, ?_⟩
  rw [same.1, same.2.1, same.2.2.mpr fun m hm hd => places m (mem_suspects_iff.mpr ⟨hm, hd⟩)]

/-- One hidden apostrophe is enough to miss the date behind it. -/
theorem not_date_warnings_eq_misdated_literals :
    ¬ ∀ raw : Text, (Statement.ofText raw).kind = .insert →
      dateWarnings raw =
        ((closedLiterals (Statement.ofText raw).text).filter (Misdated ·)).map dateWarning := by
  intro h
  have kind : (Statement.ofText "INSERT INTO t VALUES (\"it's\", '2024-02-30')").kind =
      .insert := by
    rw [Statement.ofText, Comment.remove_of_opening?_eq_none (by decide +kernel)]
    decide +kernel
  have same := h _ kind
  rw [dateWarnings_of_insert kind, closedLiterals_eq, Statement.ofText,
    Comment.remove_of_opening?_eq_none (by decide +kernel)] at same
  revert same
  decide +kernel

end Dialect
