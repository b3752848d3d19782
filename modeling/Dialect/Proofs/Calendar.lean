import Mathlib
import Dialect.Calendar

/-!
# Dates as they are written

A text of the shape of a date is checked by the numbers in it.  The dates that pass are those
of the standard library, which counts days by the proleptic Gregorian calendar and has a
year 0 as well.
-/

namespace Dialect
namespace Calendar

open Std.Time

theorem isLeap_eq (year : Nat) : Year.Offset.isLeap (year : Int) = isLeapYear year := by
  have remainder (n : Nat) : Int.tmod (year : Int) n = ((year % n : Nat) : Int) := by
    rw [Int.tmod_eq_emod_of_nonneg (Int.natCast_nonneg year), Int.natCast_emod]
  show decide (Int.tmod (year : Int) (4 : Nat) = 0 ∧ (Int.tmod (year : Int) (100 : Nat) ≠ 0 ∨
    Int.tmod (year : Int) (400 : Nat) = 0)) = isLeapYear year
  rw [remainder, remainder, remainder, isLeapYear, Bool.eq_iff_iff]
  simp only [Bool.and_eq_true, Bool.or_eq_true, decide_eq_true_eq]
  omega

theorem days_eq (year : Nat) (month : Month.Ordinal) :
    (month.days (Year.Offset.isLeap (year : Int))).val = daysInMonth year month.val.toNat := by
  rw [isLeap_eq]
  obtain ⟨m, low, high⟩ := month
  cases h : isLeapYear year <;> interval_cases m <;> simp [daysInMonth, h] <;> rfl

theorem month_of_daysInMonth {year month : Nat} (h : daysInMonth year month ≠ 0) :
    1 ≤ month ∧ month ≤ 12 := by
  by_cases hm : 1 ≤ month ∧ month ≤ 12
  · exact hm
  · refine absurd ?_ h
    unfold daysInMonth
    split <;> omega

theorem daysInMonth_le (year month : Nat) : daysInMonth year month ≤ 31 := by
  unfold daysInMonth
  repeat' split
  all_goals omega

/-- A date passes when the standard library has it. -/
theorem isDate_iff {year month day : Nat} : isDate year month day = true ↔
    ∃ date : PlainDate, date.year = (year : Int) ∧ date.month.val = month ∧
      date.day.val = day := by
  rw [isDate, Bool.and_eq_true, decide_eq_true_eq, decide_eq_true_eq]
  constructor
  · intro h
    obtain ⟨low, high⟩ := month_of_daysInMonth (Nat.ne_of_gt (Nat.lt_of_lt_of_le h.1 h.2))
    have most := daysInMonth_le year month
    let m : Month.Ordinal := ⟨month, by omega, by omega⟩
    let d : Day.Ordinal := ⟨day, by omega, by omega⟩
    have valid : Year.Offset.Valid (year : Int) m d := by
      show (day : Int) ≤ (m.days (Year.Offset.isLeap (year : Int))).val
      rw [days_eq]
      show (day : Int) ≤ daysInMonth year month
      omega
    exact ⟨⟨(year : Int), m, d, valid⟩, rfl, rfl, rfl⟩
  · intro h
    obtain ⟨⟨y, m, d, valid⟩, hy, hm, hd⟩ := h
    have low := d.property.1
    have high : d.val ≤ (m.days (Year.Offset.isLeap y)).val := valid
    rw [show y = (year : Int) from hy, days_eq] at high
    rw [show d.val = day from hd] at low high
    rw [show m.val = month from hm, Int.toNat_natCast] at high
    omega

/-- Four digits for the year and two each for month and day, with hyphens between them. -/
inductive Written : Text → Nat → Nat → Nat → Prop where
  | digits {y m d : Text} : y.length = 4 → m.length = 2 → d.length = 2 →
    (∀ c ∈ y ++ m ++ d, c.isDigit = true) →
    Written (y ++ '-' :: (m ++ '-' :: d)) (number y) (number m) (number d)

/-- Written like a date that the calendar does not have. -/
def Misdated (s : Text) : Prop := ∃ year month day : Nat, Written s year month day ∧
  ¬ ∃ date : PlainDate, date.year = (year : Int) ∧ date.month.val = month ∧ date.day.val = day

section Texts

variable {s : Text} {year month day : Nat}

theorem hasDateShape_of_written (h : Written s year month day) : hasDateShape s = true ∧
    number (s.take 4) = year ∧ number ((s.drop 5).take 2) = month ∧
      number ((s.drop 8).take 2) = day := by
  cases h with
  | @digits y m d hy hm hd digits =>
    match y, m, d, hy, hm, hd with
    | [_, _, _, _], [_, _], [_, _], _, _, _ =>
      simp only [List.cons_append, List.nil_append, List.mem_cons, List.not_mem_nil, or_false,
        forall_eq_or_imp, forall_eq] at digits
      simp [hasDateShape, digits]

theorem written_of_hasDateShape (h : hasDateShape s = true) :
    Written s (number (s.take 4)) (number ((s.drop 5).take 2)) (number ((s.drop 8).take 2)) := by
  rw [hasDateShape, Bool.and_eq_true, decide_eq_true_eq] at h
  obtain ⟨length, all⟩ := h
  match s, length with
  | [a, b, c, d, e, f, g, h, i, j], _ =>
    have chars : (a.isDigit ∧ b.isDigit ∧ c.isDigit ∧ d.isDigit) ∧ e = '-' ∧
        (f.isDigit ∧ g.isDigit) ∧ h = '-' ∧ i.isDigit ∧ j.isDigit := by
      simpa [List.zipIdx_cons, and_assoc] using all
    obtain ⟨⟨ha, hb, hc, hd⟩, rfl, ⟨hf, hg⟩, rfl, hi, hj⟩ := chars
    have digits : ∀ x ∈ [a, b, c, d] ++ [f, g] ++ [i, j], x.isDigit = true := by
      simp [ha, hb, hc, hd, hf, hg, hi, hj]
    exact Written.digits rfl rfl rfl digits

theorem misdated_iff : Misdated s ↔ (hasDateShape s && ! isDateText s) = true := by
  rw [Bool.and_eq_true, Bool.not_eq_true', isDateText, Bool.eq_false_iff]
  constructor
  · intro h
    obtain ⟨year, month, day, written, none⟩ := h
    obtain ⟨shape, rfl, rfl, rfl⟩ := hasDateShape_of_written written
    exact ⟨shape, fun date => none (isDate_iff.mp date)⟩
  · intro h
    exact ⟨_, _, _, written_of_hasDateShape h.1, fun date => h.2 (isDate_iff.mpr date)⟩

end Texts

instance : DecidablePred Misdated := fun _ => decidable_of_iff' _ misdated_iff

end Calendar
end Dialect
