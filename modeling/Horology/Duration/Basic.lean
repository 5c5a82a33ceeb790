import Horology.Word

/-!
# Durations

A duration keeps years, months, days, hours, minutes, seconds and microseconds apart, each with a
sign of its own, because they are not interchangeable until someone fixes the length of a year and
of a month.  Every field fits a signed 64-bit word; a step that would leave it is a fault.

## Main definitions

* `Duration` — the seven fields.
* `DurationFault` — the two ways in which a text is no duration.
* `fit` — a number that must fit 64 bits.
* `Duration.negate?` — the opposite duration.
* `Duration.totalSeconds` — the length in seconds, by fixed lengths of year and month.
-/

namespace Horology

/-- A span by calendar and clock, each field with a sign of its own. -/
structure Duration where
  years : Int := 0
  months : Int := 0
  days : Int := 0
  hours : Int := 0
  minutes : Int := 0
  seconds : Int := 0
  micros : Int := 0
  deriving DecidableEq, Repr, Inhabited

/-- Why a text is no duration. -/
inductive DurationFault where
  /-- It does not follow the grammar. -/
  | badFormat
  /-- A number in it, or a field it adds up to, is too large. -/
  | overflow
  deriving DecidableEq, Repr

/-- A number that must fit a signed 64-bit word. -/
def fit (n : Int) : Except DurationFault Int := if Fits64 n then .ok n else .error .overflow

theorem fit_of_fits {n : Int} (h : Fits64 n) : fit n = .ok n := if_pos h

theorem fit_eq_ok_iff {n m : Int} : fit n = .ok m ↔ Fits64 n ∧ n = m := by
  unfold fit
  split <;> simp_all

/-- Two steps succeed together when the first succeeds and the second does on its result. -/
theorem bind_eq_ok_iff {ε α β : Type} {step : Except ε α} {next : α → Except ε β} {b : β} :
    (step >>= next) = .ok b ↔ ∃ a, step = .ok a ∧ next a = .ok b := by
  cases step with
  | error f => simp [bind, Except.bind]
  | ok a => simp [bind, Except.bind]

namespace Duration

/-- The empty duration. -/
def zero : Duration := {}

/-- The opposite of a duration, a fault if the opposite of a field does not fit. -/
def negate? (d : Duration) : Except DurationFault Duration := do
  return {
    years := ← fit (-d.years)
    months := ← fit (-d.months)
    days := ← fit (-d.days)
    hours := ← fit (-d.hours)
    minutes := ← fit (-d.minutes)
    seconds := ← fit (-d.seconds)
    micros := ← fit (-d.micros) }

/-- Seconds in a year of 365.25 days. -/
def secondsPerYear : Int := 31557600

/-- Seconds in a month of 30 days. -/
def secondsPerMonth : Int := 2592000

/-- Seconds in a day. -/
def secondsPerDay : Int := 86400

/-- The length of a duration in seconds; microseconds do not count. -/
def totalSeconds (d : Duration) : Int :=
  (d.hours * 60 + d.minutes) * 60 + d.seconds + d.years * secondsPerYear
    + (d.months * 30 + d.days) * secondsPerDay

/-- The fields of a number of seconds, largest units first, all with the sign of the number. -/
def ofSeconds (n : Int) : Duration :=
  let afterYears := Int.tmod n secondsPerYear
  let afterMonths := Int.tmod afterYears secondsPerMonth
  let afterDays := Int.tmod afterMonths secondsPerDay
  let afterHours := Int.tmod afterDays 3600
  { years := Int.tdiv n secondsPerYear
    months := Int.tdiv afterYears secondsPerMonth
    days := Int.tdiv afterMonths secondsPerDay
    hours := Int.tdiv afterDays 3600
    minutes := Int.tdiv afterHours 60
    seconds := Int.tmod afterHours 60 }

/-- The fields of a number of seconds add up to it. -/
theorem totalSeconds_ofSeconds (n : Int) : (ofSeconds n).totalSeconds = n := by
  simp only [ofSeconds, totalSeconds, secondsPerYear, secondsPerMonth, secondsPerDay]
  have years := Int.mul_tdiv_add_tmod n 31557600
  have months := Int.mul_tdiv_add_tmod (Int.tmod n 31557600) 2592000
  have days := Int.mul_tdiv_add_tmod (Int.tmod (Int.tmod n 31557600) 2592000) 86400
  have hours :=
    Int.mul_tdiv_add_tmod (Int.tmod (Int.tmod (Int.tmod n 31557600) 2592000) 86400) 3600
  have minutes := Int.mul_tdiv_add_tmod
    (Int.tmod (Int.tmod (Int.tmod (Int.tmod n 31557600) 2592000) 86400) 3600) 60
  omega

end Duration

end Horology
