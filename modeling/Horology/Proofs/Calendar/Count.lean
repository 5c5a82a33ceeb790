import Horology.Proofs.Calendar
import Mathlib.Algebra.BigOperators.Intervals

/-!
# Days counted by the rules of the calendar

The Julian formula numbers days without asking how long a month is or whether a year is a leap year.
By the rules of the calendar, a day is numbered by counting the years before its year and the months
before its month, each at its length.  Both give one number.

## Main definitions

* `daysInYear`, `countedDay` — the count by the rules.
* `dayNumber_month_succ`, `dayNumber_year_succ` — the formula from one month, or year, to the next.
* `dayNumber_eq_countedDay` — the formula counts as the rules do.
* `dayNumber_lt_of_month_lt` — later months have later days.
-/

namespace Horology

open Finset (range Ico sum_range_succ sum_Ico_succ_top)

/-- The length of a year. -/
def daysInYear (year : Int) : Int := if isLeapYear year then 366 else 365

/-- Days since 1 January 1970, counted from 1 January of year 0: the lengths of the years before a
year and of the months before a month of it. -/
def countedDay (year month : Nat) (day : Int) : Int :=
  ∑ y ∈ range year, daysInYear y + ∑ m ∈ Ico 1 month, daysInMonth year m + (day - 1) - 719528

/-- Even the shortest month has 28 days. -/
theorem Date.le_daysInMonth (year : Int) {month : Int} (h : 1 ≤ month ∧ month ≤ 12) :
    28 ≤ daysInMonth year month := by
  unfold daysInMonth
  split
  · decide
  · split
    · decide
    · split
      · split <;> decide
      · simp_all only [Bool.or_eq_true, beq_iff_eq, not_or]
        omega

/-! ## The formula -/

section Formula

variable {year : Int}

/-- The leap days up to a year are those up to the year before and its own. -/
theorem leapDays_succ (year : Int) :
    (year + 4800) / 4 - (year + 4800) / 100 + (year + 4800) / 100 / 4 =
      (year + 4799) / 4 - (year + 4799) / 100 + (year + 4799) / 100 / 4
        + if isLeapYear year then 1 else 0 := by
  have hleap : isLeapYear year = true ↔ year % 4 = 0 ∧ (year % 100 ≠ 0 ∨ year % 400 = 0) := by
    simp [isLeapYear]
  split
  · next h =>
    have := hleap.1 h
    omega
  · next h =>
    have := mt hleap.2 h
    omega

/-- The first of a month is as many days after the first of the month before as that is long. -/
theorem dayNumber_month_succ (hyear : -4799 ≤ year) {month : Int} (h0 : 1 ≤ month)
    (h1 : month < 12) :
    dayNumber year (month + 1) 1 = dayNumber year month 1 + daysInMonth year month := by
  have hleap := leapDays_succ year
  rw [Date.dayNumber_eq hyear (by omega), Date.dayNumber_eq hyear (by omega)]
  by_cases hfebruary : month = 2
  · subst hfebruary
    simp only [daysInMonth]
    split at hleap <;> simp_all <;> omega
  · interval_cases month <;> simp_all [daysInMonth] <;> omega

/-- New Year's Day is as many days after the one before as the year between them is long. -/
theorem dayNumber_year_succ (hyear : -4799 ≤ year) :
    dayNumber (year + 1) 1 1 = dayNumber year 1 1 + daysInYear year := by
  have hleap := leapDays_succ year
  have hshift : year + 1 + 4799 = year + 4800 := by omega
  rw [Date.dayNumber_eq (by omega) (by decide), Date.dayNumber_eq hyear (by decide), daysInYear,
    hshift]
  split at hleap <;> simp_all <;> omega

/-- A day of a month is counted from its first. -/
theorem dayNumber_eq_first (year month day : Int) :
    dayNumber year month day = dayNumber year month 1 + (day - 1) := by
  rw [← dayNumber_add]
  congr 1
  omega

/-- Later months begin later. -/
theorem dayNumber_first_mono (hyear : -4799 ≤ year) {month month' : Int} (hmonth : 1 ≤ month)
    (hle : month ≤ month') (hmonth' : month' ≤ 12) :
    dayNumber year month 1 ≤ dayNumber year month' 1 := by
  induction month', hle using Int.leInduction with
  | base => exact Int.le_refl _
  | succ next hle ih =>
    have h0 : 1 ≤ next := hmonth.trans hle
    have h1 : next < 12 := by omega
    have hlong := Date.le_daysInMonth year ⟨h0, h1.le⟩
    have hnext := dayNumber_month_succ hyear h0 h1
    have := ih h1.le
    omega

/-- A day of the first four weeks of a month comes before all of later months. -/
theorem dayNumber_lt_of_month_lt (hyear : -4799 ≤ year) {month month' day day' : Int}
    (hmonth : 1 ≤ month) (hlt : month < month') (hmonth' : month' ≤ 12) (hday : day ≤ 28)
    (hday' : 1 ≤ day') : dayNumber year month day < dayNumber year month' day' := by
  have h1 : month < 12 := hlt.trans_le hmonth'
  have hlong := Date.le_daysInMonth year ⟨hmonth, h1.le⟩
  have hnext := dayNumber_month_succ hyear hmonth h1
  have hmono := dayNumber_first_mono hyear (show 1 ≤ month + 1 by omega) hlt hmonth'
  rw [dayNumber_eq_first year month day, dayNumber_eq_first year month' day']
  omega

end Formula

/-! ## The count -/

/-- New Year's Day of a year is as far off as the years before it are long. -/
theorem dayNumber_newYear (year : Nat) :
    dayNumber year 1 1 = ∑ y ∈ range year, daysInYear y - 719528 := by
  induction year with
  | zero => decide
  | succ year ih =>
    rw [sum_range_succ, Int.natCast_succ, dayNumber_year_succ (by omega), ih]
    omega

/-- The first of a month is as far off as the years and months before it are long. -/
theorem dayNumber_first (year : Nat) {month : Nat} (hmonth : 1 ≤ month) (hlast : month ≤ 12) :
    dayNumber year month 1 = countedDay year month 1 := by
  induction month, hmonth using Nat.le_induction with
  | base =>
    rw [countedDay, Finset.Ico_self, Finset.sum_empty]
    exact (dayNumber_newYear year).trans (by omega)
  | succ month hmonth ih =>
    have hyear : -4799 ≤ (year : Int) := by omega
    have h0 : 1 ≤ (month : Int) := by omega
    rw [Int.natCast_succ, dayNumber_month_succ hyear h0 (by omega), ih (by omega), countedDay,
      countedDay, sum_Ico_succ_top hmonth]
    omega

/-- **The Julian formula counts days as the calendar does**, for the years from 0 on. -/
theorem dayNumber_eq_countedDay (year : Nat) {month : Nat} (hmonth : 1 ≤ month ∧ month ≤ 12)
    (day : Int) : dayNumber year month day = countedDay year month day := by
  rw [dayNumber_eq_first, dayNumber_first year hmonth.1 hmonth.2, countedDay, countedDay]
  omega

end Horology
