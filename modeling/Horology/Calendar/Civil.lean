import Horology.Calendar.Date

/-!
# Civil readings

A civil reading is what calendar and clock on the wall show, without a zone.  Read as if the wall
stood at UTC it is a count of seconds since 1970, and the other way round.

## Main definitions

* `Civil` — year, month, day, hour, minute and second.
* `Civil.count` — the seconds of a reading, fields beyond their range spilling over.
* `Civil.HasDate` — that a count of seconds is within the years of the calendar.
* `Civil.wall?` — the seconds of a reading within those years.
* `Civil.ofWall` — the reading of a count of seconds.
* `Civil.Exists` — that calendar and clock can show a reading.
-/

namespace Horology

/-- A reading of calendar and clock. -/
structure Civil where
  year : Int
  month : Int
  day : Int
  hour : Int
  minute : Int
  second : Int
  deriving DecidableEq, Repr

namespace Civil

/-- Seconds from 1970-01-01 00:00:00 to a reading on the same wall.  A day past the end of its
month, an hour 24 and a second 60 run on into what follows them. -/
def count (c : Civil) : Int :=
  dayNumber c.year c.month c.day * 86400 + c.hour * 3600 + c.minute * 60 + c.second

/-- The first second of the year -262143. -/
def firstSecond : Int := -8334601228800

/-- The last second of the year 262142. -/
def lastSecond : Int := 8210266876799

/-- The seconds since 1970-01-01 00:00:00 that have a date: those of the years -262143 to 262142, on
a wall as in UTC. -/
def HasDate (n : Int) : Prop := firstSecond ≤ n ∧ n ≤ lastSecond

instance (n : Int) : Decidable (HasDate n) := inferInstanceAs (Decidable (_ ∧ _))

/-- The count of a reading, as long as it has a date. -/
def wall? (c : Civil) : Option Int := if HasDate c.count then some c.count else none

/-- The reading a number of seconds after 1970-01-01 00:00:00. -/
def ofWall (w : Int) : Civil :=
  let date := Date.ofDayNumber (w / 86400)
  let clock := w % 86400
  { year := date.year, month := date.month, day := date.day
    hour := clock / 3600, minute := clock / 60 % 60, second := clock % 60 }

/-- The readings a date/time text may name: a year between -4713 and 294276, a day of the calendar,
and a clock time up to 24:59:60. -/
def Exists (c : Civil) : Prop :=
  (-4713 ≤ c.year ∧ c.year ≤ 294276) ∧ (1 ≤ c.month ∧ c.month ≤ 12) ∧
    (1 ≤ c.day ∧ c.day ≤ daysInMonth c.year c.month) ∧ (0 ≤ c.hour ∧ c.hour ≤ 24) ∧
      (0 ≤ c.minute ∧ c.minute < 60) ∧ 0 ≤ c.second ∧ c.second ≤ 60

instance (c : Civil) : Decidable c.Exists := inferInstanceAs (Decidable (_ ∧ _))

end Civil

end Horology
