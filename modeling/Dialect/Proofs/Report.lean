import Dialect.Shell.Report
import Mathlib.Data.List.Forall2

/-!
# Tables that are printed

The columns of a table are made as wide as the rows ask for, one row after another.  A
width never shrinks, so in the end every row fits, and each cell is filled up to the width
of its column.  The lines of a table are therefore equally long and its columns stand
under their names.
-/

namespace Dialect
namespace Report

/-- Each cell of a row is as wide as its column at most. -/
def Fits : List Text → List Nat → Prop := List.Forall₂ fun cell width => cell.length ≤ width

section Widths

variable {cells row : List Text} {widths : List Nat} {rows : List (List Text)}

theorem length_widen (widths : List Nat) (cells : List Text) :
    (widen widths cells).length = widths.length := by
  fun_induction widen widths cells with
  | case1 width widths cell cells ih => rw [List.length_cons, ih, List.length_cons]
  | case2 => rfl

theorem fits_lengths (cells : List Text) : Fits cells (cells.map List.length) := by
  induction cells with
  | nil => exact .nil
  | cons cell cells ih => exact .cons (Nat.le_refl _) ih

/-- A row fits once the widths are widened for it. -/
theorem fits_widen (h : cells.length = widths.length) : Fits cells (widen widths cells) := by
  induction cells generalizing widths with
  | nil =>
    rw [List.eq_nil_of_length_eq_zero h.symm]
    exact .nil
  | cons cell cells ih =>
    cases widths with
    | nil => contradiction
    | cons width widths => exact .cons (Nat.le_max_right ..) (ih (Nat.succ.inj h))

/-- A row that fits goes on fitting when the widths are widened for another one. -/
theorem Fits.widen (h : Fits cells widths) (row : List Text) : Fits cells (widen widths row) := by
  induction h generalizing row with
  | nil => exact .nil
  | cons fits others ih =>
    cases row with
    | nil => exact .cons fits others
    | cons cell row => exact .cons (Nat.le_trans fits (Nat.le_max_left ..)) (ih row)

theorem Fits.foldl_widen (h : Fits cells widths) (rows : List (List Text)) :
    Fits cells (rows.foldl Report.widen widths) := by
  induction rows generalizing widths with
  | nil => exact h
  | cons row rows ih => exact ih (h.widen row)

theorem fits_foldl_widen (hrow : row ∈ rows) (h : row.length = widths.length) :
    Fits row (rows.foldl widen widths) := by
  induction rows generalizing widths with
  | nil => contradiction
  | cons first rows ih =>
    rcases List.mem_cons.mp hrow with rfl | hrow
    · exact (fits_widen h).foldl_widen rows
    · exact ih hrow (h.trans (length_widen widths first).symm)

end Widths

/-! ## Lines -/

/-- Two lists of equally long texts are equally long when they are joined. -/
theorem length_intercalate_eq {sep sep' : Text} (hsep : sep.length = sep'.length)
    {ls ms : List Text} (h : ls.map List.length = ms.map List.length) :
    (List.intercalate sep ls).length = (List.intercalate sep' ms).length := by
  induction ls generalizing ms with
  | nil => rw [List.map_eq_nil_iff.mp h.symm]; rfl
  | cons l ls ih =>
    obtain ⟨m, ms, rfl, hm, hms⟩ := List.map_eq_cons_iff.mp h.symm
    cases ls with
    | nil =>
      rw [List.map_eq_nil_iff.mp hms, List.intercalate_singleton, List.intercalate_singleton, hm]
    | cons l' ls =>
      obtain ⟨m', ms, rfl, _, _⟩ := List.map_eq_cons_iff.mp hms
      rw [List.intercalate_cons_cons, List.intercalate_cons_cons, List.length_append,
        List.length_append, List.length_append, List.length_append, ih hms.symm, hm, hsep]

theorem length_tableRow {cells : List Text} {widths : List Nat} (h : Fits cells widths) :
    (tableRow widths cells).length = (separator widths).length := by
  refine length_intercalate_eq (by rfl) ?_
  induction h with
  | nil => rfl
  | cons fits _ ih =>
    rw [List.zipWith_cons_cons, List.map_cons, List.map_cons, List.map_cons, ih]
    simp [List.rightpad, fits]

/-- The lines of a table are equally long when each row has one value for every column. -/
theorem length_of_mem_tableLines {set : ResultSet}
    (h : ∀ row ∈ set.rows, row.length = set.columns.length) :
    ∀ l ∈ tableLines set, ∀ m ∈ tableLines set, l.length = m.length := by
  let rows := set.rows.map fun row => row.map cell
  let widths := widths set.columns rows
  have names : Fits set.columns widths := (fits_lengths set.columns).foldl_widen rows
  have each : ∀ row ∈ rows, Fits row widths := by
    intro row hrow
    obtain ⟨values, hvalues, rfl⟩ := List.mem_map.mp hrow
    refine fits_foldl_widen hrow ?_
    rw [List.length_map, List.length_map, h values hvalues]
  have length : ∀ l ∈ tableLines set, l.length = (separator widths).length := by
    intro l hl
    rcases List.mem_append.mp hl with hl | hl
    · rcases List.mem_cons.mp hl with rfl | hl
      · exact length_tableRow names
      · rw [List.mem_singleton.mp hl]
    · obtain ⟨row, hrow, rfl⟩ := List.mem_map.mp hl
      exact length_tableRow (each row hrow)
  intro l hl m hm
  rw [length l hl, length m hm]

end Report
end Dialect
