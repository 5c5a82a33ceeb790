/-!
# Dates of the proleptic Gregorian calendar

Years are astronomical, so the year before year 1 is year 0.  Days are counted two ways: by the
Julian day number, a closed formula that also accepts days beyond the end of a month and lets them
spill into the next one, and by the day number, which is 0 for 1 January 1970.

## Main definitions

* `isLeapYear`, `daysInMonth` — the calendar by its rules.
* `julianDay`, `dayNumber` — the calendar by its formula.
* `Date.ofDayNumber` — the date of a day number.
* `weekday` — the day of the week of a day number, Sunday being 0.
-/

namespace Horology

/-- Every fourth year is a leap year, except three of every four full centuries. -/
def isLeapYear (year : Int) : Bool :=
  year % 4 == 0 && (year % 100 != 0 || year % 400 == 0)

/-- The length of a month, and 0 for a number that is no month. -/
def daysInMonth (year month : Int) : Int :=
  if month == 1 || month == 3 || month == 5 || month == 7 || month == 8 || month == 10
      || month == 12 then 31
  else if month == 4 || month == 6 || month == 9 || month == 11 then 30
  else if month == 2 then if isLeapYear year then 29 else 28
  else 0

/-- The Julian day number of a date.

Years begin in March here, so that a leap day ends its year; quotients are truncated, which is the
floor for the years the readers admit. -/
def julianDay (year month day : Int) : Int :=
  let m := if month > 2 then month + 1 else month + 13
  let y := if month > 2 then year + 4800 else year + 4799
  let century := Int.tdiv y 100
  y * 365 - 32167 + (Int.tdiv y 4 - century + Int.tdiv century 4) + (Int.tdiv (7834 * m) 256 + day)

/-- The Julian day number of 1 January 1970. -/
def epochJulianDay : Int := 2440588

/-- Days since 1 January 1970. -/
def dayNumber (year month day : Int) : Int := julianDay year month day - epochJulianDay

/-- A day of the month further on is that many days further on. -/
theorem dayNumber_add (year month day n : Int) :
    dayNumber year month (day + n) = dayNumber year month day + n := by
  simp only [dayNumber, julianDay]
  omega

/-- A calendar date. -/
structure Date where
  year : Int
  month : Int
  day : Int
  deriving DecidableEq, Repr

/-- The year of an era of 400 years that a day of the era falls in; years begin in March. -/
def yearOfEra (day : Int) : Int := (day - day / 1460 + day / 36524 - day / 146096) / 365

/-- The days of an era before a year of it; years begin in March. -/
def daysBeforeYear (year : Int) : Int := 365 * year + year / 4 - year / 100

/-- The days of a year before a month of it; March is month 0. -/
def daysBeforeMonth (month : Int) : Int := (153 * month + 2) / 5

/-- The date of a day number.

The count is moved to 1 March of year 0 and cut into eras of 400 years, of which each has the same
number of days; within an era the year, and within a year the month, follow from their mean
lengths. -/
def Date.ofDayNumber (n : Int) : Date :=
  let z := n + 719468
  let dayOfEra := z % 146097
  let year := yearOfEra dayOfEra
  let dayOfYear := dayOfEra - daysBeforeYear year
  let shifted := (5 * dayOfYear + 2) / 153
  let month := if shifted < 10 then shifted + 3 else shifted - 9
  { year := year + z / 146097 * 400 + (if month ≤ 2 then 1 else 0)
    month := month
    day := dayOfYear - daysBeforeMonth shifted + 1 }

/-- The day of the week, Sunday being 0; day 0 is a Thursday. -/
def weekday (dayNumber : Int) : Int := (dayNumber + 4) % 7

end Horology
