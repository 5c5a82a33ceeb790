import Horology.Moment.Basic
import Horology.Timestamp

/-!
# Moments and timestamps

A moment becomes a timestamp as the wall reading of the session's zone or in UTC; a timestamp
becomes a moment where a finite one exists.  The ends of time go into each other, and what has no
counterpart is an error.

## Main definitions

* `Moment.toWall`, `Moment.ofWall` — conversion through the wall reading of a zone.
* `Moment.toUtc`, `Moment.ofUtc` — conversion through UTC.
* `Moment.ofClock`, `Session.timeOfDay` — the session's clock as a moment and as a text.
-/

namespace Horology

namespace Moment

/-- The timestamp of the wall reading that a zone shows at a moment. -/
def toWall (zone : TimeZone) (t : Moment) : Except Error Timestamp :=
  match ofRaw t.raw with
  | .beginning => .ok .beginning
  | .ending => .ok .ending
  | .invalid => .error .momentWithoutTimestamp
  | .seconds n =>
    match (zone.zoned n.toInt).civil.wall? with
    | some w => .ok (.count w 0)
    | none => .error .timestampOutOfRange

/-- The timestamp of a moment in UTC. -/
def toUtc (t : Moment) : Except Error Timestamp :=
  match ofRaw t.raw with
  | .beginning => .ok .beginning
  | .ending => .ok .ending
  | .invalid => .error .momentWithoutTimestamp
  | .seconds n => .ok (.count n.toInt 0)

/-- A moment that must be finite. -/
def finite (t : Moment) : Except Error Moment :=
  if t.isFinite then .ok t else .error .timestampOutOfRange

/-- The moment at which a zone shows the wall reading of a timestamp. -/
def ofWall (zone : TimeZone) : Timestamp → Except Error Moment
  | .beginning => .ok .beginning
  | .ending => .ok .ending
  | .count w _ =>
    let c := Civil.ofWall w
    finite (ofCivil c (zone.eastShowing c))

/-- The moment of a timestamp in UTC. -/
def ofUtc : Timestamp → Except Error Moment
  | .beginning => .ok .beginning
  | .ending => .ok .ending
  | .count u _ => finite (ofCivil (.ofWall u) 0)

/-- The moment that the clock of a session shows; invalid once that is past the last day. -/
def ofClock (session : Session) : Moment := ofCivil (.ofWall session.second) 0

end Moment

/-- The clock of a session as a text: weekday, month, day, clock time with microseconds, year and
zone. -/
def Session.timeOfDay (session : Session) : String :=
  let z := session.zone.zoned session.second
  let zone :=
    match session.zone.abbreviationAt session.second with
    | some abbreviation => abbreviation.toList
    | none => Offset.writeFull z.east
  String.ofList
    (weekdayAbbreviation z.weekday ++ ' ' :: monthAbbreviation z.civil.month
      ++ ' ' :: Civil.twoDigits z.civil.day ++ ' ' :: z.civil.writeClock
      ++ '.' :: Numeral.padded 6 (session.now % 1000000).toNat
      ++ ' ' :: Civil.fourDigits z.civil.year ++ ' ' :: zone)

end Horology
