import Horology.Proofs.Calendar.Count
import Horology.Word

/-!
# Julian day numbers in words

Programs evaluate the Julian formula in signed 32-bit words.  Here it is evaluated in steps of which
each must fit one: for all years that texts may name each does, and the result is the Julian day
number.  With the step from one month to the next this makes the formula the proleptic Gregorian
calendar on those years, and the reading of a second is counted back to that second.

## Main definitions

* `Word.fit?` — a number, if it fits a word.
* `julianDayInWords?`, `dayNumberInWords?` — the Julian formula, every step of which must fit.
* `dayNumber_next_month` — from the first of a month to the first of the next one.
* `Civil.wall?_ofWall` — the reading of a second is counted back to it.
* `julianDay_counts_calendar` — the formula against the calendar.
-/

namespace Horology

/-! ## The formula in words -/

/-- A number, if it fits a signed 32-bit word. -/
def Word.fit? (n : Int) : Option Int := (word? n).map Int32.toInt

theorem Word.fit?_of_fits {n : Int} (h0 : -2147483648 ≤ n) (h1 : n ≤ 2147483647) :
    fit? n = some n := by
  have hword : word? n = some (.ofInt n) := if_pos ⟨h0, h1⟩
  rw [fit?, hword, Option.map_some, toInt_of_word? hword]

open Word (fit? fit?_of_fits)

/-- The Julian day number of a day in a year that begins in March: the year is counted from -4800,
and the months from March on are 4 to 15. -/
def shiftedDayInWords? (year month day : Int) : Option Int := do
  let century ← fit? (Int.tdiv year 100)
  let years ← fit? ((← fit? (year * 365)) - 32167)
  let leaps ← fit? ((← fit? ((← fit? (Int.tdiv year 4)) - century)) + (← fit? (Int.tdiv century 4)))
  let months ← fit? (Int.tdiv (← fit? (7834 * month)) 256)
  fit? ((← fit? (years + leaps)) + (← fit? (months + day)))

/-- The Julian day number of a date, if every step of the formula fits a word. -/
def julianDayInWords? (year month day : Int) : Option Int := do
  if month > 2 then
    let shifted ← fit? (month + 1)
    shiftedDayInWords? (← fit? (year + 4800)) shifted day
  else
    let shifted ← fit? (month + 13)
    shiftedDayInWords? (← fit? (year + 4799)) shifted day

/-- The day number of a date, if every step of its computation fits a word. -/
def dayNumberInWords? (year month day : Int) : Option Int := do
  fit? ((← julianDayInWords? year month day) - epochJulianDay)

/-- No step overflows in the first 300000 years of the formula. -/
theorem shiftedDayInWords?_eq {year month day : Int} (hyear : 0 ≤ year ∧ year ≤ 300000)
    (hmonth : 0 ≤ month ∧ month ≤ 15) (hday : 1 ≤ day ∧ day ≤ 31) :
    shiftedDayInWords? year month day =
      some (year * 365 - 32167 + (year.tdiv 4 - year.tdiv 100 + (year.tdiv 100).tdiv 4)
        + ((7834 * month).tdiv 256 + day)) := by
  have hfour : year.tdiv 4 = year / 4 := Int.tdiv_eq_ediv_of_nonneg hyear.1
  have hcentury : year.tdiv 100 = year / 100 := Int.tdiv_eq_ediv_of_nonneg hyear.1
  have hera : (year / 100).tdiv 4 = year / 100 / 4 := Int.tdiv_eq_ediv_of_nonneg (by omega)
  have hmonths : (7834 * month).tdiv 256 = 7834 * month / 256 :=
    Int.tdiv_eq_ediv_of_nonneg (by omega)
  simp (disch := omega) only [shiftedDayInWords?, hfour, hcentury, hera, hmonths, fit?_of_fits,
    Option.bind_eq_bind, Option.bind_some]

/-- **The Julian formula does not overflow** in the years that texts may name. -/
theorem julianDayInWords?_eq {year month day : Int} (hyear : -4713 ≤ year ∧ year ≤ 294276)
    (hmonth : 1 ≤ month ∧ month ≤ 12) (hday : 1 ≤ day ∧ day ≤ 31) :
    julianDayInWords? year month day = some (julianDay year month day) := by
  unfold julianDayInWords? julianDay
  split
  · simp (disch := omega) only [fit?_of_fits, shiftedDayInWords?_eq, Option.bind_eq_bind,
      Option.bind_some]
  · simp (disch := omega) only [fit?_of_fits, shiftedDayInWords?_eq, Option.bind_eq_bind,
      Option.bind_some]

/-- Neither does the count of days from 1970 on. -/
theorem dayNumberInWords?_eq {year month day : Int} (hyear : -4713 ≤ year ∧ year ≤ 294276)
    (hmonth : 1 ≤ month ∧ month ≤ 12) (hday : 1 ≤ day ∧ day ≤ 31) :
    dayNumberInWords? year month day = some (dayNumber year month day) := by
  have hbounds : -2147483648 ≤ dayNumber year month day ∧
      dayNumber year month day ≤ 2147483647 := by
    rw [Date.dayNumber_eq (by omega) (by omega)]
    split <;> omega
  rw [dayNumberInWords?, julianDayInWords?_eq hyear hmonth hday]
  exact fit?_of_fits hbounds.1 hbounds.2

/-! ## The formula and the calendar -/

/-- The first of a month and the length of the month lead to the first of the next one. -/
theorem dayNumber_next_month {year month : Int} (hyear : -4799 ≤ year)
    (hmonth : 1 ≤ month ∧ month ≤ 12) :
    dayNumber year month 1 + daysInMonth year month =
      if month = 12 then dayNumber (year + 1) 1 1 else dayNumber year (month + 1) 1 := by
  split
  · next hlast =>
    subst hlast
    have hdecember : daysInMonth year 12 = 31 := rfl
    rw [hdecember, Date.dayNumber_eq hyear (by decide), Date.dayNumber_eq (by omega) (by decide),
      if_pos (by decide), if_neg (by decide)]
    omega
  · next hlast =>
    exact (dayNumber_month_succ hyear hmonth.1 (by omega)).symm

theorem julianDay_eq (year month day : Int) :
    julianDay year month day = dayNumber year month day + 2440588 :=
  (Int.sub_add_cancel _ _).symm

namespace Civil

/-- A second is no earlier than the years in which the formula holds if its year is not. -/
theorem le_of_year_ofWall {w : Int} (h : -4713 ≤ (ofWall w).year) : -2472632 * 86400 ≤ w := by
  obtain ⟨era, year, month, days, ⟨hy, hm, hd, -, hsum⟩, heq⟩ :=
    Date.ofDayNumber_eq_ofMarch (w / 86400)
  simp only [daysBeforeYear, daysBeforeMonth] at hd hsum
  simp only [ofWall, heq, Date.ofMarch] at h
  split at h <;> omega

/-- The reading of a second that has a date is counted back to the second. -/
theorem wall?_ofWall {w : Int} (hw : HasDate w) (hyear : -4713 ≤ (ofWall w).year) :
    (ofWall w).wall? = some w := by
  rw [wall?, count_ofWall (le_of_year_ofWall hyear), if_pos hw]

end Civil

/-- **The Julian formula is the proleptic Gregorian calendar**, for the years that texts may name.
Within a month it counts days, from the first of a month it comes to the first of the next one after
as many days as the month has by its rules, and it starts from the epoch.  No step of it overflows.
The reading of any second of such a year that has a date is counted back to that second. -/
theorem julianDay_counts_calendar {year month day : Int} (hyear : -4713 ≤ year ∧ year ≤ 294276)
    (hmonth : 1 ≤ month ∧ month ≤ 12) (hday : 1 ≤ day ∧ day ≤ 31) :
    julianDay year month day = julianDay year month 1 + day - 1 ∧
      julianDay year month 1 + daysInMonth year month =
        (if month = 12 then julianDay (year + 1) 1 1 else julianDay year (month + 1) 1) ∧
      julianDay 1970 1 1 = 2440588 ∧
      (julianDayInWords? year month day = some (julianDay year month day) ∧
        dayNumberInWords? year month day = some (dayNumber year month day)) ∧
      ∀ w, Civil.HasDate w → (Civil.ofWall w).year = year → (Civil.ofWall w).wall? = some w := by
  refine ⟨?_, ?_, by decide, ⟨julianDayInWords?_eq hyear hmonth hday,
    dayNumberInWords?_eq hyear hmonth hday⟩, ?_⟩
  · have hfirst := dayNumber_eq_first year month day
    rw [julianDay_eq, julianDay_eq, hfirst]
    omega
  · have hnext := dayNumber_next_month (show -4799 ≤ year by omega) hmonth
    simp only [julianDay_eq]
    split at hnext <;> omega
  · rintro w hw rfl
    exact Civil.wall?_ofWall hw hyear.1

/-- In the first of these years December leads to the next year, and the last second of the year is
counted back. -/
theorem julianDay_counts_calendar_first_year :
    julianDay (-4713) 12 31 = julianDay (-4713) 12 1 + 31 - 1 ∧
      julianDay (-4713) 12 1 + daysInMonth (-4713) 12 = julianDay (-4712) 1 1 ∧
      dayNumberInWords? (-4713) 12 31 = some (dayNumber (-4713) 12 31) ∧
      (Civil.ofWall (-210863520001)).wall? = some (-210863520001) := by
  obtain ⟨hday, hnext, -, hwords, hback⟩ :=
    @julianDay_counts_calendar (-4713) 12 31 (by decide) (by decide) (by decide)
  exact ⟨hday, hnext, hwords.2, hback _ (by decide) (by decide)⟩

end Horology
