import Horology.Duration.Quantity

/-!
# Units of time

A quantity of a unit is added to the field of a duration that the unit belongs to.  What its
fraction is worth spills into the finer fields: below a month through days of 24 hours, above one
through months.

## Main definitions

* `TimeUnit` — the units, each with its spellings.
* `TimeUnit.ofWord?` — the unit a word spells.
* `Duration.add?` — a duration with a quantity of a unit added.
-/

namespace Horology

/-- The units a quantity can have. -/
inductive TimeUnit where
  | microsecond
  | millisecond
  | second
  | minute
  | hour
  | day
  | week
  | month
  | year
  | decade
  | century
  | millennium
  deriving DecidableEq, Repr

namespace TimeUnit

/-- All units. -/
def all : List TimeUnit :=
  [microsecond, millisecond, second, minute, hour, day, week, month, year, decade, century,
    millennium]

/-- The ways to spell a unit, in lower case. -/
def spellings : TimeUnit → List String
  | microsecond => ["microsecond", "microseconds", "microsecon", "usec", "usecs", "us"]
  | millisecond => ["millisecond", "milliseconds", "millisecon", "msec", "msecs", "ms"]
  | second => ["second", "seconds", "sec", "secs", "s"]
  | minute => ["minute", "minutes", "min", "mins", "m"]
  | hour => ["hour", "hours", "hr", "hrs", "h"]
  | day => ["day", "days", "d"]
  | week => ["week", "weeks", "w"]
  | month => ["month", "months", "mon", "mons"]
  | year => ["year", "years", "yr", "yrs", "y"]
  | decade => ["decade", "decades", "dec", "decs"]
  | century => ["century", "centuries", "cent", "c"]
  | millennium => ["millennium", "millennia", "mil", "mils"]

/-- The unit that a word in lower case spells. -/
def ofWord? (word : String) : Option TimeUnit := all.find? fun u => u.spellings.contains word

end TimeUnit

namespace Duration

/-- A duration with more years. -/
def addYears (d : Duration) (n : Int) : Except DurationFault Duration := do
  return { d with years := ← fit (d.years + n) }

/-- A duration with more months. -/
def addMonths (d : Duration) (n : Int) : Except DurationFault Duration := do
  return { d with months := ← fit (d.months + n) }

/-- A duration with more days. -/
def addDays (d : Duration) (n : Int) : Except DurationFault Duration := do
  return { d with days := ← fit (d.days + n) }

/-- A duration with more hours. -/
def addHours (d : Duration) (n : Int) : Except DurationFault Duration := do
  return { d with hours := ← fit (d.hours + n) }

/-- A duration with more minutes. -/
def addMinutes (d : Duration) (n : Int) : Except DurationFault Duration := do
  return { d with minutes := ← fit (d.minutes + n) }

/-- A duration with more seconds. -/
def addSeconds (d : Duration) (n : Int) : Except DurationFault Duration := do
  return { d with seconds := ← fit (d.seconds + n) }

/-- A duration with more microseconds. -/
def addMicros (d : Duration) (n : Int) : Except DurationFault Duration := do
  return { d with micros := ← fit (d.micros + n) }

/-- The integer nearest to a double; a fault from nine quintillions on. -/
def nearest (x : Rat) : Except DurationFault Int :=
  if (roundHalfEven x).natAbs < 9000000000000000000 then .ok (roundHalfEven x)
  else .error .overflow

/-- The microseconds nearest to a fraction of a second. -/
def nearestMicros (fraction : Rat) : Except DurationFault Int :=
  nearest (Binary64.round (fraction * 1000000))

/-- A duration with a fraction of `scale` seconds added, in whole seconds and microseconds. -/
def spillSeconds (d : Duration) (fraction : Rat) (scale : Int) :
    Except DurationFault Duration :=
  if fraction = 0 then .ok d
  else do
    let seconds := Binary64.round (fraction * scale)
    let whole := truncate seconds
    let d ← d.addSeconds (← nearest whole)
    d.addMicros (← nearestMicros (Binary64.round (seconds - whole)))

/-- A duration with a fraction of `scale` days added, in whole days, seconds and microseconds. -/
def spillDays (d : Duration) (fraction : Rat) (scale : Int) : Except DurationFault Duration :=
  if fraction = 0 then .ok d
  else do
    let days := Binary64.round (fraction * scale)
    let whole := truncate days
    let d ← d.addDays (← nearest whole)
    d.spillSeconds (Binary64.round (days - whole)) secondsPerDay

/-- A duration with a quantity of `scale` years added; the fraction counts in whole months. -/
def addManyYears (d : Duration) (q : Quantity) (scale : Int) : Except DurationFault Duration := do
  let d ← d.addYears (← fit (q.whole * scale))
  d.addMonths (truncate (Binary64.round (q.fraction * (12 * scale))))

/-- A quantity as one double. -/
def double (q : Quantity) : Rat := Binary64.round (Binary64.round q.whole + q.fraction)

/-- A duration with a quantity of a unit added. -/
def add? (d : Duration) (q : Quantity) : TimeUnit → Except DurationFault Duration
  | .microsecond => do d.addMicros (← nearest (double q))
  | .millisecond => do d.addMicros (← nearest (Binary64.round (double q * 1000)))
  | .second => do
    let d ← d.addSeconds q.whole
    d.addMicros (← nearestMicros q.fraction)
  | .minute => do
    let d ← d.addMinutes q.whole
    d.spillSeconds q.fraction 60
  | .hour => do
    let d ← d.addHours q.whole
    d.spillSeconds q.fraction 3600
  | .day => do
    let d ← d.addDays q.whole
    d.spillSeconds q.fraction secondsPerDay
  | .week => do
    let d ← d.addDays (← fit (q.whole * 7))
    d.spillDays q.fraction 7
  | .month => do
    let d ← d.addMonths q.whole
    d.spillDays q.fraction 30
  | .year => d.addManyYears q 1
  | .decade => d.addManyYears q 10
  | .century => d.addManyYears q 100
  | .millennium => d.addManyYears q 1000

end Duration

end Horology
