import Horology.Calendar.Civil
import Mathlib.Tactic.IntervalCases

/-!
# The date of a day number

`Date.ofDayNumber` finds the year and the month of a day by their mean lengths, and `dayNumber`
counts days by the Julian formula.  The two are independent: this module shows that the date found
is one of the calendar and that counting its days gives the number it was found for.

## Main definitions

* `yearOfEra_spec` — the year found is the one whose days include the given day.
* `Date.IsProper` — that a month and a day are those of a calendar.
* `isProper_ofDayNumber`, `dayNumber_ofDayNumber` — the two facts about the date of a day number.
* `le_year_ofDayNumber_iff` — the days that belong to a year or to later ones.
* `Civil.count_ofWall`, `Civil.exists_ofWall` — the same for a reading of calendar and clock.
-/

namespace Horology

/-! ## Years of an era -/

/-- The day of an era less what its leap days add beyond a year of 365 days. -/
def leveledDay (day : Int) : Int := day - day / 1460 + day / 36524 - day / 146096

theorem leveledDay_mono {a b : Int} (h : a ≤ b) : leveledDay a ≤ leveledDay b := by
  simp only [leveledDay]
  omega

-- The bounds at both ends of a year are no linear consequence of the rounding, so all years of an
-- era are looked at; monotonicity then gives every day in between.
theorem le_leveledDay_first :
    ∀ y : Fin 400, 365 * (y : Int) ≤ leveledDay (daysBeforeYear y) := by
  decide +kernel

theorem leveledDay_last_lt :
    ∀ y : Fin 399, leveledDay (daysBeforeYear (y + 1) - 1) < 365 * ((y : Int) + 1) := by
  decide +kernel

/-- The year found for a day of an era is one of the era, and its days include the given one.  The
last year of an era ends with the era. -/
theorem yearOfEra_spec {e : Int} (h0 : 0 ≤ e) (h1 : e ≤ 146096) :
    (0 ≤ yearOfEra e ∧ yearOfEra e ≤ 399) ∧ daysBeforeYear (yearOfEra e) ≤ e ∧
      (e < daysBeforeYear (yearOfEra e + 1) ∨ yearOfEra e = 399) := by
  have hrange : 0 ≤ yearOfEra e ∧ yearOfEra e ≤ 399 := by
    simp only [yearOfEra]
    omega
  have hfloor : 365 * yearOfEra e ≤ leveledDay e ∧ leveledDay e < 365 * (yearOfEra e + 1) := by
    simp only [yearOfEra, leveledDay]
    omega
  generalize yearOfEra e = y at hrange hfloor ⊢
  refine ⟨hrange, ?_, ?_⟩
  · by_contra hlt
    have hpos : 1 ≤ y := by
      by_contra hy
      obtain rfl : y = 0 := by omega
      exact hlt h0
    have hmono := leveledDay_mono (show e ≤ daysBeforeYear y - 1 by omega)
    have hlast := leveledDay_last_lt ⟨(y - 1).toNat, by omega⟩
    simp only [Int.toNat_of_nonneg (show 0 ≤ y - 1 by omega), Int.sub_add_cancel] at hlast
    omega
  · by_contra hle
    have hmono := leveledDay_mono (show daysBeforeYear (y + 1) ≤ e by omega)
    have hfirst := le_leveledDay_first ⟨(y + 1).toNat, by omega⟩
    simp only [Int.toNat_of_nonneg (show 0 ≤ y + 1 by omega)] at hfirst
    omega

/-! ## Months of a year -/

/-- The Julian formula and the mean length of a month count the same days before a month. -/
theorem monthDays_eq {s : Int} (h0 : 0 ≤ s) (h1 : s ≤ 11) :
    Int.tdiv (7834 * (s + 4)) 256 = daysBeforeMonth s + 122 := by
  interval_cases s <;> decide

/-- The month found for a day of a year that begins in March is one of twelve, and its days include
the given one. -/
theorem monthOfYear_spec {d : Int} (h0 : 0 ≤ d) (h1 : d ≤ 365) :
    (0 ≤ (5 * d + 2) / 153 ∧ (5 * d + 2) / 153 ≤ 11) ∧
      daysBeforeMonth ((5 * d + 2) / 153) ≤ d ∧ d < daysBeforeMonth ((5 * d + 2) / 153 + 1) := by
  simp only [daysBeforeMonth]
  omega

namespace Date

/-- No month has more than 31 days. -/
theorem daysInMonth_le (year month : Int) : daysInMonth year month ≤ 31 := by
  unfold daysInMonth
  split
  · exact Int.le_refl 31
  · split
    · decide
    · split
      · split <;> decide
      · decide

/-- A date whose month is one of the calendar and whose day is one of the month. -/
structure IsProper (d : Date) : Prop where
  month : 1 ≤ d.month ∧ d.month ≤ 12
  day : 1 ≤ d.day ∧ d.day ≤ daysInMonth d.year d.month

/-- The date a number of days after the first of a month, the month counted from March of a year
of an era. -/
def ofMarch (era year month days : Int) : Date where
  year := year + era * 400 + (if month < 10 then 0 else 1)
  month := if month < 10 then month + 3 else month - 9
  day := days + 1

/-- Where a day number lies in its era: which year, which month, and how many days into it. -/
structure Place (n era year month days : Int) : Prop where
  year_range : 0 ≤ year ∧ year ≤ 399
  month_range : 0 ≤ month ∧ month ≤ 11
  days_range : 0 ≤ days ∧ daysBeforeMonth month + days < daysBeforeMonth (month + 1)
  /-- The day lies before the next year, or in the last year of the era, which has a leap day. -/
  inYear : daysBeforeYear year + daysBeforeMonth month + days < daysBeforeYear (year + 1) ∨
    year = 399 ∧ daysBeforeMonth month + days ≤ 365
  sum_eq : n + 719468 = era * 146097 + daysBeforeYear year + daysBeforeMonth month + days

/-- The date of a day number is the one of its place in its era. -/
theorem ofDayNumber_eq_ofMarch (n : Int) :
    ∃ era year month days, Place n era year month days ∧
      ofDayNumber n = ofMarch era year month days := by
  have he : 0 ≤ (n + 719468) % 146097 ∧ (n + 719468) % 146097 ≤ 146096 := by omega
  have hera := Int.mul_ediv_add_emod (n + 719468) 146097
  obtain ⟨hyear, hfirst, hlast⟩ := yearOfEra_spec he.1 he.2
  simp only [ofDayNumber]
  generalize (n + 719468) % 146097 = e at *
  generalize yearOfEra e = y at *
  have hday : 0 ≤ e - daysBeforeYear y ∧ e - daysBeforeYear y ≤ 365 := by
    rcases hlast with hlast | rfl
    · simp only [daysBeforeYear] at *
      omega
    · simp only [daysBeforeYear] at *
      omega
  obtain ⟨hmonth, hbegin, hend⟩ := monthOfYear_spec hday.1 hday.2
  generalize (5 * (e - daysBeforeYear y) + 2) / 153 = s at *
  refine ⟨(n + 719468) / 146097, y, s, e - daysBeforeYear y - daysBeforeMonth s,
    ⟨hyear, hmonth, by omega, by omega, by omega⟩, ?_⟩
  by_cases hs : s < 10
  · have : ¬ s + 3 ≤ 2 := by omega
    simp [ofMarch, hs, this]
  · have : s - 9 ≤ 2 := by omega
    simp [ofMarch, hs, this]

/-- A place in an era has a proper date. -/
theorem Place.isProper {n era year month days : Int} (h : Place n era year month days) :
    (ofMarch era year month days).IsProper := by
  obtain ⟨⟨hy0, hy1⟩, ⟨hm0, hm1⟩, ⟨hd0, hd1⟩, hin, -⟩ := h
  constructor
  · simp only [ofMarch]
    split <;> omega
  · simp only [ofMarch]
    refine ⟨by omega, ?_⟩
    by_cases hfeb : month = 11
    · subst hfeb
      -- Only the last day of February hangs on the year.
      have hleap : days = 28 → isLeapYear (year + era * 400 + 1) = true := by
        intro h28
        simp only [isLeapYear, Bool.and_eq_true, Bool.or_eq_true, beq_iff_eq, bne_iff_ne, ne_eq]
        simp only [daysBeforeYear, daysBeforeMonth] at hin
        omega
      simp only [daysBeforeMonth] at hd1 hin
      simp only [daysInMonth]
      by_cases h28 : days = 28
      · simp [h28, hleap h28]
      · simp only [daysBeforeYear] at hin
        norm_num
        split <;> omega
    · interval_cases month <;> simp_all [daysBeforeMonth, daysInMonth] <;> omega

/-- The Julian formula on a date given by its month counted from March, for years from -4800 on:
quotients of what is not negative are floors. -/
theorem dayNumber_ofMarch {era year month days : Int} (hy : 0 ≤ year + era * 400 + 4800)
    (hm : 0 ≤ month ∧ month ≤ 11) :
    dayNumber (ofMarch era year month days).year (ofMarch era year month days).month
        (ofMarch era year month days).day =
      (year + era * 400 + 4800) * 365 - 32167 +
        ((year + era * 400 + 4800) / 4 - (year + era * 400 + 4800) / 100
          + (year + era * 400 + 4800) / 100 / 4) +
        (daysBeforeMonth month + 122 + (days + 1)) - epochJulianDay := by
  have hdays := monthDays_eq hm.1 hm.2
  have hcentury : 0 ≤ (year + era * 400 + 4800) / 100 := by omega
  simp only [dayNumber, julianDay, ofMarch]
  by_cases hs : month < 10
  · have hmonth : month + 3 > 2 := by omega
    simp only [hs, hmonth, if_true, show month + 3 + 1 = month + 4 by omega, Int.add_zero, hdays,
      Int.tdiv_eq_ediv_of_nonneg hy, Int.tdiv_eq_ediv_of_nonneg hcentury]
  · have hmonth : ¬ month - 9 > 2 := by omega
    have hyear : year + era * 400 + 1 + 4799 = year + era * 400 + 4800 := by omega
    simp only [hs, hmonth, if_false, show month - 9 + 13 = month + 4 by omega, hyear, hdays,
      Int.tdiv_eq_ediv_of_nonneg hy, Int.tdiv_eq_ediv_of_nonneg hcentury]

/-- A day number has a proper date. -/
theorem isProper_ofDayNumber (n : Int) : (ofDayNumber n).IsProper := by
  obtain ⟨era, year, month, days, hplace, heq⟩ := ofDayNumber_eq_ofMarch n
  rw [heq]
  exact hplace.isProper

/-- Counting the days of the date of a day number gives the number, for years from -4800 on. -/
theorem dayNumber_ofDayNumber {n : Int} (hn : -2472632 ≤ n) :
    dayNumber (ofDayNumber n).year (ofDayNumber n).month (ofDayNumber n).day = n := by
  obtain ⟨era, year, month, days, ⟨hy, hm, hd, hin, hsum⟩, heq⟩ := ofDayNumber_eq_ofMarch n
  have hnonneg : 0 ≤ year + era * 400 + 4800 := by
    simp only [daysBeforeYear, daysBeforeMonth] at hd hin hsum
    omega
  rw [heq, dayNumber_ofMarch hnonneg hm]
  simp only [daysBeforeYear, epochJulianDay] at hsum ⊢
  omega

/-! ## Years of day numbers -/

/-- The formula for a year from -4799 on, where truncated quotients are floors. -/
theorem dayNumber_eq {year : Int} (hyear : -4799 ≤ year) {month : Int} (hmonth : 0 ≤ month)
    (day : Int) :
    dayNumber year month day =
      (if month > 2 then
        (year + 4800) * 365 + ((year + 4800) / 4 - (year + 4800) / 100 + (year + 4800) / 100 / 4)
          + 7834 * (month + 1) / 256
      else
        (year + 4799) * 365 + ((year + 4799) / 4 - (year + 4799) / 100 + (year + 4799) / 100 / 4)
          + 7834 * (month + 13) / 256) + day - 2472755 := by
  have hnonneg : 0 ≤ year + 4799 := by omega
  have hcentury : 0 ≤ (year + 4799) / 100 := by omega
  have hnonneg' : 0 ≤ year + 4800 := by omega
  have hcentury' : 0 ≤ (year + 4800) / 100 := by omega
  simp only [dayNumber, julianDay, epochJulianDay]
  split
  · simp only [Int.tdiv_eq_ediv_of_nonneg hnonneg', Int.tdiv_eq_ediv_of_nonneg hcentury',
      Int.tdiv_eq_ediv_of_nonneg (show 0 ≤ 7834 * (month + 1) by omega)]
    omega
  · simp only [Int.tdiv_eq_ediv_of_nonneg hnonneg, Int.tdiv_eq_ediv_of_nonneg hcentury,
      Int.tdiv_eq_ediv_of_nonneg (show 0 ≤ 7834 * (month + 13) by omega)]
    omega

/-- Years follow each other, from -4799 on. -/
theorem dayNumber_newYear_lt {y y' : Int} (hy : -4799 ≤ y) (h : y < y') :
    dayNumber y 1 1 < dayNumber y' 1 1 := by
  rw [dayNumber_eq hy (by decide), dayNumber_eq (by omega) (by decide)]
  simp only [show ¬ (1 : Int) > 2 by decide, if_false]
  omega

theorem dayNumber_newYear_le {y y' : Int} (hy : -4799 ≤ y) (h : y ≤ y') :
    dayNumber y 1 1 ≤ dayNumber y' 1 1 := by
  rcases Int.lt_or_eq_of_le h with hlt | rfl
  · exact (dayNumber_newYear_lt hy hlt).le
  · exact Int.le_refl _

/-- The days of a proper date lie in its year, from -4799 on. -/
theorem IsProper.dayNumber_mem_year {d : Date} (hd : d.IsProper) (hy : -4799 ≤ d.year) :
    dayNumber d.year 1 1 ≤ dayNumber d.year d.month d.day ∧
      dayNumber d.year d.month d.day < dayNumber (d.year + 1) 1 1 := by
  obtain ⟨⟨hm0, hm1⟩, hd0, hd1⟩ := hd
  have hlast : d.day ≤ 31 := Int.le_trans hd1 (daysInMonth_le _ _)
  rw [dayNumber_eq hy (by decide), dayNumber_eq hy (by omega), dayNumber_eq (by omega) (by decide)]
  simp only [show ¬ (1 : Int) > 2 by decide, if_false]
  split <;> omega

theorem year_ofDayNumber_ge {n : Int} (hn : -2472326 ≤ n) : -4799 ≤ (ofDayNumber n).year := by
  obtain ⟨era, year, month, days, ⟨hy, hm, hd, hin, hsum⟩, heq⟩ := ofDayNumber_eq_ofMarch n
  simp only [daysBeforeYear, daysBeforeMonth] at hd hin hsum
  rw [heq]
  simp only [ofMarch]
  split <;> omega

/-- Before March of year 0 no year is positive. -/
theorem year_ofDayNumber_nonpos {n : Int} (hn : n < -719468) : (ofDayNumber n).year ≤ 0 := by
  obtain ⟨era, year, month, days, ⟨hy, hm, hd, -, hsum⟩, heq⟩ := ofDayNumber_eq_ofMarch n
  simp only [daysBeforeYear, daysBeforeMonth] at hd hsum
  rw [heq]
  simp only [ofMarch]
  split <;> omega

/-- A year has begun by a day exactly if the date of the day is in that year or a later one. -/
theorem le_year_ofDayNumber_iff {n y : Int} (hn : -2472326 ≤ n) (hy : -4799 ≤ y) :
    y ≤ (ofDayNumber n).year ↔ dayNumber y 1 1 ≤ n := by
  have hyear := year_ofDayNumber_ge hn
  obtain ⟨hfirst, hlast⟩ := (isProper_ofDayNumber n).dayNumber_mem_year hyear
  rw [dayNumber_ofDayNumber (by omega)] at hfirst hlast
  constructor
  · intro hle
    exact (dayNumber_newYear_le hy hle).trans hfirst
  · intro hle
    by_contra hlt
    have hnext := dayNumber_newYear_le (show -4799 ≤ (ofDayNumber n).year + 1 by omega)
      (show (ofDayNumber n).year + 1 ≤ y by omega)
    omega

end Date

/-! ## Readings of calendar and clock -/

namespace Civil

/-- Counting the seconds of a reading gives the count it was made from, for years from -4800 on. -/
theorem count_ofWall {w : Int} (hw : -2472632 * 86400 ≤ w) : (ofWall w).count = w := by
  have hday := Date.dayNumber_ofDayNumber (n := w / 86400) (by omega)
  simp only [count, ofWall, hday]
  omega

/-- The clock time of a reading made from a count lies within a day. -/
theorem clock_ofWall (w : Int) :
    (0 ≤ (ofWall w).hour ∧ (ofWall w).hour ≤ 23) ∧ (0 ≤ (ofWall w).minute ∧ (ofWall w).minute ≤ 59)
      ∧ 0 ≤ (ofWall w).second ∧ (ofWall w).second ≤ 59 := by
  simp only [ofWall]
  omega

/-- A reading made from a count exists if its year is one that texts may name. -/
theorem exists_ofWall {w : Int} (hyear : -4713 ≤ (ofWall w).year ∧ (ofWall w).year ≤ 294276) :
    (ofWall w).Exists := by
  have hdate := Date.isProper_ofDayNumber (w / 86400)
  have hclock := clock_ofWall w
  exact ⟨hyear, hdate.month, hdate.day, ⟨hclock.1.1, by omega⟩, ⟨hclock.2.1.1, by omega⟩,
    hclock.2.2.1, by omega⟩

end Civil

end Horology
