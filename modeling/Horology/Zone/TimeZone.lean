import Horology.Calendar.Civil
import Horology.Error
import Horology.Text.Character
import Horology.Zone.Offset
import Horology.Zone.Rules

/-!
# Time zones of a session

A session reads and shows wall readings in one zone, which is either a named zone with its rules or
a bare numeric offset.  A bare offset knows no daylight saving and no abbreviation.

Which names there are, and what rules each has, comes from a database of zones that is no part of
the library: whatever looks a name up takes the lookup, a function from names to rules.

## Main definitions

* `TimeZone` — a zone of either kind.
* `TimeZone.readIn` — the zone that a setting names, where names have given rules.
* `TimeZone.display` — the text of a zone as a setting.
* `TimeZone.eastAt`, `TimeZone.eastShowing` — the offset at a UTC second and for a wall reading.
* `Zoned`, `TimeZone.zoned` — what a zone shows at a UTC second.
-/

namespace Horology

/-- The zone of a session. -/
inductive TimeZone where
  /-- A zone with its rules, under the name it was asked for. -/
  | named (name : String) (rules : ZoneRules)
  /-- An offset in seconds east of UTC. -/
  | fixed (east : Int)
  deriving DecidableEq, Repr

namespace TimeZone

/-- The zone of UTC under its own name. -/
def utc : TimeZone := .named "UTC" .utc

/-- Whether a zone is a bare offset. -/
def isFixed : TimeZone → Bool
  | .named .. => false
  | .fixed _ => true

/-- The words that mean UTC in a setting, in any letter case. -/
def utcWords : List String := ["utc", "gmt", "z", "zulu"]

section Named

variable (rulesOf? : String → Option ZoneRules)

/-- The zone named by a trimmed text: a word for UTC, a signed offset, or a name that has rules. -/
def ofText? (text : List Char) : Option TimeZone :=
  if utcWords.contains (String.ofList (lower text)) then some utc
  else if text.head? = some '+' ∨ text.head? = some '-' then (Offset.read? text).map .fixed
  else (rulesOf? (String.ofList text)).map (.named (String.ofList text))

/-- The zone that the value of a setting names, where names have given rules; white space around it
does not count. -/
def readIn (value : String) : Except Error TimeZone :=
  match ofText? rulesOf? (trim value.toList) with
  | some zone => .ok zone
  | none => .error (.badSetting .timeZone value)

end Named

/-- A zone as the value of a setting. -/
def display : TimeZone → String
  | .named name _ => name
  | .fixed east => String.ofList (Offset.writeFull east)

/-- The offset in force at a UTC second, in seconds east. -/
def eastAt : TimeZone → Int → Int
  | .named _ rules, u => (rules.regimeAt u).offset
  | .fixed east, _ => east

/-- The offset that a wall reading is taken to have, in seconds east.  In a named zone a reading
beyond the years of the calendar counts as UTC. -/
def eastShowing : TimeZone → Civil → Int
  | .named _ rules, c => (c.wall?.map rules.offsetShowing).getD 0
  | .fixed east, _ => east

/-- The abbreviation in force at a UTC second; a bare offset has none. -/
def abbreviationAt : TimeZone → Int → Option String
  | .named _ rules, u => some (rules.regimeAt u).abbreviation
  | .fixed _, _ => none

end TimeZone

/-- What calendar and clock show in a zone, with the offset they are set to. -/
structure Zoned where
  civil : Civil
  /-- The day of the week, Sunday being 0. -/
  weekday : Int
  /-- Seconds east of UTC. -/
  east : Int
  /-- The zone's abbreviation; a bare offset has none. -/
  abbreviation : Option (List Char)
  deriving DecidableEq, Repr

/-- The most characters of an abbreviation that are written. -/
def abbreviationWidth : Nat := 10

/-- What a zone shows at a UTC second. -/
def TimeZone.zoned (zone : TimeZone) (u : Int) : Zoned :=
  let wall := u + zone.eastAt u
  { civil := .ofWall wall
    weekday := Horology.weekday (wall / 86400)
    east := zone.eastAt u
    abbreviation := (zone.abbreviationAt u).map fun a => a.toList.take abbreviationWidth }

end Horology
