import Horology.Moment.Basic
import Horology.Moment.Layout
import Horology.Moment.Reading

/-!
# Texts of a moment

A finite moment is written as what calendar and clock show in the session's zone; the three
reserved ones have words.  Reading takes every layout that writing produces, in any style, and the
usual hand-written forms besides.

## Main definitions

* `Moment.read` — the moment of a text in a session.
* `Moment.write` — the text of a moment under given settings.
-/

namespace Horology.Moment

/-- The moment that a reading of a text names. -/
def ofReading : DateReading → Moment
  | .civil c east => ofCivil c east
  | .epoch => epoch
  | .late => .ending
  | .early => .beginning
  | .invalid => .invalid

/-- The moment of a text in a session. -/
def read (session : Session) (text : String) : Except Error Moment :=
  match DateReading.read session text.toList with
  | .ok reading => .ok (ofReading reading)
  | .error fault => .error (fault.error text)

/-- The characters of the text of a moment.  The word alone decides, so that a moment holding a
reserved word as a number is written as what the word is reserved for. -/
def chars (settings : Settings) (t : Moment) : List Char :=
  match ofRaw t.raw with
  | .invalid => "invalid".toList
  | .ending => "infinity".toList
  | .beginning => "-infinity".toList
  | .seconds n => (settings.zone.zoned n.toInt).write settings.dateStyle settings.dateOrder

/-- The text of a moment under given settings. -/
def write (settings : Settings) (t : Moment) : String := String.ofList (chars settings t)

instance : ToString Moment := ⟨write {}⟩

end Horology.Moment
