import Dialect.Proofs.Comment.Scan
import Mathlib.Logic.ExistsUnique
import Mathlib.Logic.Relation

/-!
# Removal as the run of a scanner

A scanner goes through a text from left to right and writes as it goes.  It passes over
comments and copies every other character.  Its steps are told by what stands at its
place, without a search for the next opener.  From every place but the end there is one
step, and no step changes what will have been written at the end.  So each run that gets
there has written the text without its comments.
-/

namespace Dialect
namespace Comment

structure Scanner where
  written : Text
  rest : Text

namespace Scanner

/-- The last character written and the next one to be read are both there, and neither
is a space. -/
def Touching (written rest : Text) : Prop :=
  (∃ c ∈ written.getLast?, isSpace c = false) ∧ ∃ c ∈ rest.head?, isSpace c = false

/-- The text begins with a block comment, closed by the first `*/` behind its opener. -/
def BeginsBlock (s inside rest : Text) : Prop :=
  s = '/' :: '*' :: (inside ++ '*' :: '/' :: rest) ∧ ¬ ['*', '/'] <:+: inside

inductive Step : Scanner → Scanner → Prop where
  /-- The line feed at the end of a line comment stays. -/
  | line {written s : Text} :
    Step ⟨written, '-' :: '-' :: s⟩ ⟨written, s.dropWhile (· ≠ '\n')⟩
  | spacedBlock {written s inside rest : Text} :
    BeginsBlock s inside rest → Touching written rest →
    Step ⟨written, s⟩ ⟨written ++ [' '], rest⟩
  | block {written s inside rest : Text} :
    BeginsBlock s inside rest → ¬ Touching written rest → Step ⟨written, s⟩ ⟨written, rest⟩
  | copy {written s : Text} {c : Char} :
    ¬ ['-', '-'] <+: c :: s → (∀ inside rest, ¬ BeginsBlock (c :: s) inside rest) →
    Step ⟨written, c :: s⟩ ⟨written ++ [c], s⟩

/-- What the scanner will have written at the end. -/
def outcome (σ : Scanner) : Text := σ.written ++ scan σ.written.getLast? σ.rest

/-! ## Fronts of a text -/

section Fronts

variable {last : Option Char} {s inside inside' rest rest' written : Text} {c : Char}

theorem separator_eq_space_iff :
    separator written.getLast? rest.head? = [' '] ↔ Touching written rest := by
  unfold separator Touching
  cases written.getLast? <;> cases rest.head? <;> simp

theorem separator_eq_nil_iff :
    separator written.getLast? rest.head? = [] ↔ ¬ Touching written rest := by
  rw [← separator_eq_space_iff]
  unfold separator
  split <;> simp

theorem BeginsBlock.unique (h : BeginsBlock s inside rest) (h' : BeginsBlock s inside' rest') :
    inside = inside' ∧ rest = rest' := by
  have cut := cut?_close h.2 rest
  have whole := h.1.symm.trans h'.1
  simp only [List.cons.injEq, true_and] at whole
  rw [whole, cut?_close h'.2] at cut
  have same := Prod.mk.inj (Option.some.inj cut)
  exact ⟨same.1.symm, same.2.symm⟩

theorem scan_of_beginsBlock (h : BeginsBlock s inside rest) : scan last s =
    separator last rest.head? ++ scan (lastOf last (separator last rest.head?)) rest := by
  rw [h.1, ← removeAfter_eq_scan, removeAfter_of_closed (opening?_block _) (cut?_close h.2 rest),
    removeAfter_eq_scan]
  rfl

theorem scan_copy (hl : ¬ ['-', '-'] <+: c :: s)
    (hb : ∀ inside rest, ¬ BeginsBlock (c :: s) inside rest) :
    scan last (c :: s) = c :: scan (some c) s := by
  by_cases hopen : ['/', '*'] <+: c :: s
  · obtain ⟨t, ht⟩ := hopen
    simp only [List.cons_append, List.nil_append, List.cons.injEq] at ht
    obtain ⟨rfl, rfl⟩ := ht
    rw [scan]
    split
    · next inside rest hc =>
      obtain ⟨whole, first⟩ := cut?_close_eq_some_iff.mp hc
      exact absurd ⟨by rw [whole], first⟩ (hb inside rest)
    · rfl
  · rw [← removeAfter_eq_scan, removeAfter_cons hl hopen, removeAfter_eq_scan]

end Fronts

/-! ## One step -/

section Steps

variable {σ τ τ' : Scanner}

theorem Step.outcome_eq (h : Step σ τ) : τ.outcome = σ.outcome := by
  cases h with
  | line => rw [outcome, outcome, scan]
  | spacedBlock hb touching =>
    rw [outcome, outcome, scan_of_beginsBlock hb, separator_eq_space_iff.mpr touching]
    simp [lastOf]
  | block hb apart =>
    rw [outcome, outcome, scan_of_beginsBlock hb, separator_eq_nil_iff.mpr apart]
    simp [lastOf]
  | copy hl hb =>
    rw [outcome, outcome, scan_copy hl hb]
    simp

theorem Step.length_lt (h : Step σ τ) : τ.rest.length < σ.rest.length := by
  cases h with
  | @line written s =>
    have := (List.dropWhile_sublist (· ≠ '\n') (l := s)).length_le
    simp only [List.length_cons]
    omega
  | spacedBlock hb _ =>
    rw [hb.1]
    simp only [List.length_cons, List.length_append]
    omega
  | block hb _ =>
    rw [hb.1]
    simp only [List.length_cons, List.length_append]
    omega
  | copy => exact Nat.lt_succ_self _

theorem exists_step (h : σ.rest ≠ []) : ∃ τ, Step σ τ := by
  obtain ⟨written, rest⟩ := σ
  obtain ⟨c, s, rfl⟩ := List.exists_cons_of_ne_nil h
  by_cases hl : ['-', '-'] <+: c :: s
  · obtain ⟨t, ht⟩ := hl
    rw [← ht]
    exact ⟨_, .line⟩
  · by_cases hb : ∃ inside rest, BeginsBlock (c :: s) inside rest
    · obtain ⟨inside, rest, hb⟩ := hb
      by_cases touching : Touching written rest
      · exact ⟨_, .spacedBlock hb touching⟩
      · exact ⟨_, .block hb touching⟩
    · exact ⟨_, .copy hl fun inside rest h => hb ⟨inside, rest, h⟩⟩

theorem not_beginsBlock_line {s inside rest : Text} :
    ¬ BeginsBlock ('-' :: '-' :: s) inside rest := by
  intro h
  exact absurd (List.cons.inj h.1).1 (by decide)

theorem Step.unique (h : Step σ τ) (h' : Step σ τ') : τ = τ' := by
  cases h with
  | line =>
    cases h' with
    | line => rfl
    | spacedBlock hb _ => exact absurd hb not_beginsBlock_line
    | block hb _ => exact absurd hb not_beginsBlock_line
    | copy hl _ => exact absurd ⟨_, rfl⟩ hl
  | spacedBlock hb touching =>
    cases h' with
    | line => exact absurd hb not_beginsBlock_line
    | spacedBlock hb' _ => rw [(hb.unique hb').2]
    | block hb' apart => exact absurd ((hb.unique hb').2 ▸ touching) apart
    | copy _ none => exact absurd hb (none _ _)
  | block hb apart =>
    cases h' with
    | line => exact absurd hb not_beginsBlock_line
    | spacedBlock hb' touching => exact absurd touching ((hb.unique hb').2 ▸ apart)
    | block hb' _ => rw [(hb.unique hb').2]
    | copy _ none => exact absurd hb (none _ _)
  | copy hl none =>
    cases h' with
    | line => exact absurd ⟨_, rfl⟩ hl
    | spacedBlock hb _ => exact absurd hb (none _ _)
    | block hb _ => exact absurd hb (none _ _)
    | copy _ _ => rfl

end Steps

/-! ## Runs -/

section Runs

variable {σ τ : Scanner}

theorem outcome_eq_of_runs (h : Relation.ReflTransGen Step σ τ) : τ.outcome = σ.outcome := by
  induction h with
  | refl => rfl
  | tail _ step ih => rw [step.outcome_eq, ih]

theorem outcome_of_nil (h : σ.rest = []) : σ.outcome = σ.written := by
  rw [outcome, h, scan, List.append_nil]

/-- A run can always go on to the end, because each step leaves less of the text. -/
theorem runs_to_outcome (σ : Scanner) : Relation.ReflTransGen Step σ ⟨σ.outcome, []⟩ := by
  by_cases h : σ.rest = []
  · rw [outcome_of_nil h, ← h]
  · obtain ⟨τ, step⟩ := exists_step h
    have := step.length_lt
    rw [← step.outcome_eq]
    exact .head step (runs_to_outcome τ)
termination_by σ.rest.length

end Runs
end Scanner

open Scanner

/-- The scanner has one step from every place but the end, and none from there.  From the
start of a text it runs to the end, and only with the text without its comments written. -/
theorem remove_eq_iff_scanned (s t : Text) :
    (remove s = t ↔ Relation.ReflTransGen Step ⟨[], s⟩ ⟨t, []⟩) ∧
      ∀ σ : Scanner, (σ.rest = [] ∧ ∀ τ, ¬ Step σ τ) ∨ ∃! τ, Step σ τ := by
  have start : outcome ⟨[], s⟩ = remove s := by
    rw [remove, removeAfter_eq_scan]
    rfl
  refine ⟨⟨fun h => ?_, fun h => ?_⟩, fun σ => ?_⟩
  · rw [← h, ← start]
    exact runs_to_outcome ⟨[], s⟩
  · rw [← start, ← outcome_eq_of_runs h, outcome_of_nil rfl]
  · by_cases h : σ.rest = []
    · refine Or.inl ⟨h, fun τ step => ?_⟩
      have := step.length_lt
      rw [h] at this
      exact absurd this (Nat.not_lt_zero _)
    · obtain ⟨τ, step⟩ := exists_step h
      exact Or.inr ⟨τ, step, fun _ step' => step'.unique step⟩

end Comment
end Dialect
