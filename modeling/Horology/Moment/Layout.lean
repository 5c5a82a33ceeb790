import Horology.Settings
import Horology.Text.Numeral

/-!
# Layouts of a zoned reading

What calendar and clock show in a zone is written in one of four date styles.  The zone comes last:
as a number in the ISO style and wherever it has no abbreviation, and as its abbreviation otherwise.

## Main definitions

* `Zoned.write` — the text of a zoned reading.
* `Civil.writeIso` — date and clock time with dashes and colons.
* `Civil.writeWall` — the same with a sign for years beyond four digits.
-/

namespace Horology

/-- The months as they are written. -/
def monthAbbreviations : List String :=
  ["Jan", "Feb", "Mar", "Apr", "May", "Jun", "Jul", "Aug", "Sep", "Oct", "Nov", "Dec"]

/-- The days of the week as they are written, from Sunday on. -/
def weekdayAbbreviations : List String := ["Sun", "Mon", "Tue", "Wed", "Thu", "Fri", "Sat"]

/-- The name of a month as it is written; the nearest month for a number that is none. -/
def monthAbbreviation (month : Int) : List Char :=
  (monthAbbreviations.getD (min (month - 1).toNat 11) "").toList

/-- The name of a day of the week as it is written. -/
def weekdayAbbreviation (weekday : Int) : List Char :=
  (weekdayAbbreviations.getD (weekday % 7).toNat "").toList

namespace Civil

/-- A number in at least two digits. -/
def twoDigits (n : Int) : List Char := Numeral.paddedInt 2 n

/-- A year in at least four digits. -/
def fourDigits (n : Int) : List Char := Numeral.paddedInt 4 n

/-- The clock time with colons. -/
def writeClock (c : Civil) : List Char :=
  twoDigits c.hour ++ ':' :: twoDigits c.minute ++ ':' :: twoDigits c.second

/-- Date and clock time with dashes and colons. -/
def writeIso (c : Civil) : List Char :=
  fourDigits c.year ++ '-' :: twoDigits c.month ++ '-' :: twoDigits c.day ++ ' ' :: c.writeClock

/-- Date and clock time with slashes, day and month in the order of the session. -/
def writeSql (c : Civil) (order : DateOrder) : List Char :=
  let first := if order = .dmy then c.day else c.month
  let second := if order = .dmy then c.month else c.day
  twoDigits first ++ '/' :: twoDigits second ++ '/' :: fourDigits c.year ++ ' ' :: c.writeClock

/-- Date and clock time with points, the day first. -/
def writeGerman (c : Civil) : List Char :=
  twoDigits c.day ++ '.' :: twoDigits c.month ++ '.' :: fourDigits c.year ++ ' ' :: c.writeClock

/-- Weekday, day and month by name in the order of the session, clock time and year. -/
def writePostgres (c : Civil) (weekday : Int) (order : DateOrder) : List Char :=
  let month := monthAbbreviation c.month
  weekdayAbbreviation weekday ++
    (if order = .dmy then ' ' :: twoDigits c.day ++ ' ' :: month
      else ' ' :: month ++ ' ' :: twoDigits c.day)
    ++ ' ' :: c.writeClock ++ ' ' :: fourDigits c.year

/-- Date and clock time with dashes and colons; a year beyond four digits has a sign. -/
def writeWall (c : Civil) : List Char :=
  (if 0 ≤ c.year ∧ c.year ≤ 9999 then fourDigits c.year
    else (if c.year < 0 then '-' else '+') :: Numeral.padded 4 c.year.natAbs)
    ++ '-' :: twoDigits c.month ++ '-' :: twoDigits c.day ++ ' ' :: c.writeClock

end Civil

namespace Zoned

/-- Date and clock time in a style. -/
def writeCivil (z : Zoned) (style : DateStyle) (order : DateOrder) : List Char :=
  match style with
  | .iso => z.civil.writeIso
  | .sql => z.civil.writeSql order
  | .german => z.civil.writeGerman
  | .postgres => z.civil.writePostgres z.weekday order

/-- The zone as it follows date and clock time in a style. -/
def writeZone (z : Zoned) (style : DateStyle) : List Char :=
  match style, z.abbreviation with
  | .iso, _ => Offset.write z.east
  | _, some abbreviation => ' ' :: abbreviation
  | .postgres, none => ' ' :: Offset.write z.east
  | _, none => Offset.write z.east

/-- The text of a zoned reading in a style. -/
def write (z : Zoned) (style : DateStyle) (order : DateOrder) : List Char :=
  z.writeCivil style order ++ z.writeZone style

end Zoned

end Horology
