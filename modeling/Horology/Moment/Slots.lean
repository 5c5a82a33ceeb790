import Horology.Moment.Field
import Horology.Settings
import Horology.Text.Numeral
import Horology.Zone.Offset

/-!
# Slots of a date/time text

Reading a date/time text means filling the slots of a date and a clock time from its fields, one
field after another.  What a field fills depends on its kind, on its length if it is a number, on
the date order of the session if it is a date of digits, and on which slots are filled already.

## Main definitions

* `DateSlots` — what is known so far.
* `DateSlots.place` — the slots after one more field.
* `DateSlots.ofFields` — the slots that fields fill.
* `DateFault` — the ways in which a text names no date.
-/

namespace Horology

/-- Why a text names no date and time. -/
inductive DateFault where
  | badSyntax
  | outOfRange
  | unknownZone (word : String)
  deriving DecidableEq, Repr

/-- The error that reports a fault in the text of a moment. -/
def DateFault.error (input : String) : DateFault → Error
  | .badSyntax => .badSyntax .moment input
  | .outOfRange => .fieldOutOfRange .moment input
  | .unknownZone word => .unknownZone word

/-- The words that stand for a moment without naming its date. -/
inductive ReservedWord where
  | epoch
  | infinity
  | minusInfinity
  | invalid
  /-- The second that the session's clock shows. -/
  | now
  /-- Midnight of the day that the session's clock shows, or of a day as many days off. -/
  | midnight (daysOff : Int)
  deriving DecidableEq, Repr

/-- The reserved word that a text in lower case is. -/
def ReservedWord.ofText? (text : String) : Option ReservedWord :=
  [("epoch", .epoch), ("infinity", .infinity), ("+infinity", .infinity),
    ("-infinity", .minusInfinity), ("invalid", .invalid), ("now", .now), ("today", .midnight 0),
    ("tomorrow", .midnight 1), ("yesterday", .midnight (-1))].lookup text

/-- The months by name, in lower case, short and long. -/
def monthNames : List (String × Int) :=
  [("jan", 1), ("january", 1), ("feb", 2), ("february", 2), ("mar", 3), ("march", 3), ("apr", 4),
    ("april", 4), ("may", 5), ("jun", 6), ("june", 6), ("jul", 7), ("july", 7), ("aug", 8),
    ("august", 8), ("sep", 9), ("sept", 9), ("september", 9), ("oct", 10), ("october", 10),
    ("nov", 11), ("november", 11), ("dec", 12), ("december", 12)]

/-- The words that may stand in a date without saying anything: weekdays, the era that is meant
anyway, and the letter between date and clock time. -/
def idleWords : List String :=
  ["sun", "sunday", "mon", "monday", "tue", "tues", "tuesday", "wed", "wednesday", "thu", "thur",
    "thurs", "thursday", "fri", "friday", "sat", "saturday", "t", "ad"]

/-- What a word of a date/time text is. -/
inductive DateWordSense where
  | month (n : Int)
  | idle
  /-- Before noon or after it. -/
  | half (afternoon : Bool)
  | beforeChrist
  | reserved
  /-- Any other word is taken for a time zone. -/
  | zone
  deriving DecidableEq, Repr

/-- What a word in lower case is. -/
def DateWordSense.ofWord (word : String) : DateWordSense :=
  match monthNames.lookup word with
  | some n => .month n
  | none =>
    if idleWords.contains word then .idle
    else if word = "am" then .half false
    else if word = "pm" then .half true
    else if word = "bc" then .beforeChrist
    else if (ReservedWord.ofText? word).isSome then .reserved
    else .zone

/-- The year that digits stand for: up to two digits are a year from 1970 to 2069. -/
def yearOfDigits (digits : List Char) (value : Int) : Int :=
  if 2 < digits.length then value else if value < 70 then 2000 + value else 1900 + value

/-- What the fields of a date/time text have said so far. -/
structure DateSlots where
  year : Option Int := none
  month : Option Int := none
  day : Option Int := none
  /-- Hour, minute and second. -/
  clock : Option (Int × Int × Int) := none
  /-- Whether the clock time is before noon or after it. -/
  afternoon : Option Bool := none
  beforeChrist : Bool := false
  /-- A numeric offset, in seconds east of UTC. -/
  offset : Option Int := none
  zoneWord : Option (List Char) := none
  deriving DecidableEq, Repr

namespace DateSlots

/-- Hour, minute and second of a clock time; a fraction of the second is dropped. -/
def clock? (text : List Char) : Option (Int × Int × Int) :=
  match text.splitOn ':' with
  | [h, m] => do return (← Numeral.readWord? h, ← Numeral.readWord? m, 0)
  | [h, m, s] => do
    let whole := s.takeWhile (· != '.')
    let fraction := (s.dropWhile (· != '.')).drop 1
    if fraction.all Char.isDigit then
      return (← Numeral.readWord? h, ← Numeral.readWord? m, ← Numeral.readWord? whole)
    else none
  | _ => none

/-- A number of eight digits is a whole date while neither year nor month is known; one of up to
two is the day while that is not; any other is the year while that is not. -/
def placeNumber (slots : DateSlots) (digits : List Char) : Except DateFault DateSlots :=
  match Numeral.readWord? digits with
  | none => .error .outOfRange
  | some n =>
    if digits.length = 8 ∧ slots.year = none ∧ slots.month = none then
      .ok { slots with
        year := some (n / 10000), month := some (n / 100 % 100), day := some (n % 100) }
    else if digits.length ≤ 2 ∧ slots.day = none then .ok { slots with day := some n }
    else if slots.year = none then .ok { slots with year := some (yearOfDigits digits n) }
    else .error .badSyntax

/-- The parts of a date of digits as year, month and day.  A first part of more than two digits is
the year; otherwise the date order decides, and the order that puts the year first gives way to a
last part of more than two digits. -/
def arrange (order : DateOrder) (a b c : List Char) : List Char × List Char × List Char :=
  if 2 < a.length then (a, b, c)
  else
    match order with
    | .dmy => (c, b, a)
    | .ymd => if c.length ≤ 2 then (a, b, c) else (c, a, b)
    | .mdy => (c, a, b)

/-- A date of digits fills year, month and day, of which none may be known. -/
def placeDate (order : DateOrder) (slots : DateSlots) (text : List Char) (separator : Char) :
    Except DateFault DateSlots :=
  if slots.year.isSome || slots.month.isSome || slots.day.isSome then .error .badSyntax
  else
    match text.splitOn separator with
    | [a, b, c] =>
      let (y, m, d) := arrange order a b c
      match Numeral.readWord? y, Numeral.readWord? m, Numeral.readWord? d with
      | some year, some month, some day =>
        .ok { slots with year := some (yearOfDigits y year), month := some month, day := some day }
      | _, _, _ => .error .outOfRange
    | _ => .error .badSyntax

/-- A clock time fills the clock, which may not be known. -/
def placeTime (slots : DateSlots) (text : List Char) : Except DateFault DateSlots :=
  if slots.clock.isSome then .error .badSyntax
  else
    match clock? text with
    | some clock => .ok { slots with clock := some clock }
    | none => .error .badSyntax

/-- Whether an offset or a zone word has been found. -/
def hasZone (slots : DateSlots) : Bool := slots.offset.isSome || slots.zoneWord.isSome

/-- A numeric offset fills the zone, which may not be known. -/
def placeOffset (slots : DateSlots) (text : List Char) : Except DateFault DateSlots :=
  if slots.hasZone then .error .badSyntax
  else
    match Offset.read? text with
    | some east => .ok { slots with offset := some east }
    | none => .error .badSyntax

/-- A word fills the slot that it makes sense for; month and zone may not be known. -/
def placeWord (slots : DateSlots) (text : List Char) : Except DateFault DateSlots :=
  match DateWordSense.ofWord (String.ofList (lower text)) with
  | .month n =>
    if slots.month.isSome then .error .badSyntax else .ok { slots with month := some n }
  | .idle => .ok slots
  | .half afternoon => .ok { slots with afternoon := some afternoon }
  | .beforeChrist => .ok { slots with beforeChrist := true }
  | .reserved => .error .badSyntax
  | .zone => if slots.hasZone then .error .badSyntax else .ok { slots with zoneWord := some text }

/-- The slots after one more field. -/
def place (order : DateOrder) (slots : DateSlots) : DateField → Except DateFault DateSlots
  | .number digits => slots.placeNumber digits
  | .date text separator => slots.placeDate order text separator
  | .time text => slots.placeTime text
  | .word text => slots.placeWord text
  | .offset text => slots.placeOffset text
  | .signedWord _ => .error .badSyntax

/-- The slots that fields fill, from the first to the last. -/
def ofFields (order : DateOrder) (fields : List DateField) : Except DateFault DateSlots :=
  fields.foldlM (place order) {}

end DateSlots

end Horology
