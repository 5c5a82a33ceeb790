import Horology.Moment.Slots
import Horology.Zone.Abbreviation

/-!
# Readings of a date/time text

A date/time text is either a reserved word alone, or names a civil reading together with the offset
it is to be taken at: the one given as a number, that of a zone named by a word, or the one that
the session zone has for it.

## Main definitions

* `DateReading` — what a text is found to be.
* `DateSlots.civil` — the civil reading that filled slots name.
* `zoneWordOffset` — the offset that a zone word stands for.
* `DateReading.read` — the reading of a text in a session.
-/

namespace Horology

/-- What a date/time text is found to be. -/
inductive DateReading where
  /-- A civil reading at an offset in seconds east of UTC. -/
  | civil (c : Civil) (east : Int)
  | epoch
  | late
  | early
  | invalid
  deriving DecidableEq, Repr

/-- The hour that counts from midnight, for one that counts from midnight or noon. -/
def hourOfHalf (afternoon : Bool) (hour : Int) : Int :=
  if !afternoon && hour == 12 then 0
  else if afternoon && hour < 12 then hour + 12
  else hour

/-- The hour of a clock time with what is said about noon; the hour must be one of a half day. -/
def hourOfClock (afternoon : Option Bool) (hour : Int) : Except DateFault Int :=
  match afternoon with
  | none => .ok hour
  | some half => if 0 ≤ hour ∧ hour ≤ 12 then .ok (hourOfHalf half hour) else .error .outOfRange

/-- The civil reading that filled slots name.  The date must be complete; the clock time is
midnight if none is given; year 1 before the common era is year 0. -/
def DateSlots.civil (slots : DateSlots) : Except DateFault Civil :=
  match slots.year, slots.month, slots.day with
  | some year, some month, some day => do
    let (hour, minute, second) := slots.clock.getD (0, 0, 0)
    let hour ← hourOfClock slots.afternoon hour
    let c : Civil :=
      { year := if slots.beforeChrist then 1 - year else year
        month, day, hour, minute, second }
    if c.Exists then .ok c else .error .outOfRange
  | _, _, _ => .error .badSyntax

/-- The offset of the first regime of a zone that shows a civil reading under an abbreviation,
letter case aside.  The reading must have a date in UTC under that regime, not only on the wall. -/
def ZoneRules.offsetCalled? (rules : ZoneRules) (word : List Char) (c : Civil) : Option Int :=
  match c.wall? with
  | some w =>
    ((rules.regimesShowing w).find? fun r =>
      decide (Civil.HasDate (w - r.offset)) && lower r.abbreviation.toList == lower word).map
      (·.offset)
  | none => none

/-- The same for the zone of a session; a bare offset has no abbreviation. -/
def TimeZone.offsetCalled? (zone : TimeZone) (word : List Char) (c : Civil) : Option Int :=
  match zone with
  | .named _ rules => rules.offsetCalled? word c
  | .fixed _ => none

/-- The offset that a zone word stands for: the session zone's own abbreviations come first, then
those understood in any session, then the names of zones. -/
def zoneWordOffset (session : Session) (word : List Char) (c : Civil) : Except DateFault Int :=
  match session.zone.offsetCalled? word c with
  | some east => .ok east
  | none =>
    match abbreviationOffset? (String.ofList (lower word)) with
    | some east => .ok east
    | none =>
      match session.rulesOf? (String.ofList word) with
      | some rules => .ok ((TimeZone.named (String.ofList word) rules).eastShowing c)
      | none => .error (.unknownZone (String.ofList word))

/-- The offset at which a civil reading is to be taken, by what its text says about the zone. -/
def DateSlots.east (slots : DateSlots) (session : Session) (c : Civil) : Except DateFault Int :=
  match slots.offset, slots.zoneWord with
  | some east, _ => .ok east
  | none, some word => zoneWordOffset session word c
  | none, none => .ok (session.zone.eastShowing c)

namespace DateReading

/-- The reading of a reserved word. -/
def ofReserved (session : Session) : ReservedWord → DateReading
  | .epoch => .epoch
  | .infinity => .late
  | .minusInfinity => .early
  | .invalid => .invalid
  | .now =>
    let east := session.zone.eastAt session.second
    .civil (.ofWall (session.second + east)) east
  | .midnight daysOff =>
    let wall := session.second + session.zone.eastAt session.second
    let c := Civil.ofWall ((wall / 86400 + daysOff) * 86400)
    .civil c (session.zone.eastShowing c)

/-- The reserved word that fields consist of. -/
def reserved? : List DateField → Option ReservedWord
  | [.word text] => ReservedWord.ofText? (String.ofList (lower text))
  | [.signedWord text] => ReservedWord.ofText? (String.ofList (lower text))
  | _ => none

/-- The reading that fields name by date and clock time. -/
def ofDate (session : Session) (fields : List DateField) : Except DateFault DateReading := do
  let slots ← DateSlots.ofFields session.dateOrder fields
  let c ← slots.civil
  return .civil c (← slots.east session c)

/-- The reading of fields. -/
def ofFields (session : Session) (fields : List DateField) : Except DateFault DateReading :=
  match reserved? fields with
  | some word => .ok (ofReserved session word)
  | none => ofDate session fields

/-- The reading of a text in a session. -/
def read (session : Session) (text : List Char) : Except DateFault DateReading :=
  match DateField.ofText? text with
  | some fields => ofFields session fields
  | none => .error .badSyntax

end DateReading

end Horology
