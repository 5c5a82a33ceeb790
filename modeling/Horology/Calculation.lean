import Horology.Moment.Conversion
import Horology.Span.CalendarSpan
import Horology.Span.Text
import Horology.TimeRange.Literal

/-!
# Calculations

A calculation holds no value at first and makes values by calls, one after another.  A call reads a
text, converts a timestamp or a calendar span, or computes with values held, and each call has a
session or a zone of its own.  No call takes a word, a message or a tree, so that all values come
from texts, richer types and the constants.  A call that fails leaves the values held as they are.

## Main definitions

* `Value` — a moment, a span or a range.
* `Call` — the calls, and `Call.value?` what they yield.
* `Calculation.runFrom`, `Calculation.run` — the values held after a list of calls.
-/

namespace Horology

/-- A value of any of the three types. -/
inductive Value where
  | moment (t : Moment)
  | span (s : Span)
  | range (r : TimeRange)
  deriving DecidableEq, Repr

namespace Value

/-- The value that the text of a value is read as. -/
def reread (session : Session) : Value → Except Error Value
  | .moment t => (Moment.read session (t.write session.toSettings)).map .moment
  | .span s => (Span.read (s.write session.toSettings)).map .span
  | .range r => (TimeRange.read session (r.write session.toSettings)).map .range

/-- The value that comes back from the richer form of a value: of a moment, its wall reading in the
session's zone; of a span, its calendar form.  A range has none. -/
def convert? (session : Session) : Value → Option (Except Error Value)
  | .moment t => some (((t.toWall session.zone).bind (Moment.ofWall session.zone)).map .moment)
  | .span s => some (s.toCalendar.map fun c => .span (.ofCalendar c))
  | .range _ => none

/-- The sum of a moment and a span. -/
def add? : Value → Value → Option Value
  | .moment t, .span s => some (.moment (t + s))
  | _, _ => none

/-- The difference of a moment and a span. -/
def sub? : Value → Value → Option Value
  | .moment t, .span s => some (.moment (t - s))
  | _, _ => none

/-- The range between two moments. -/
def between? : Value → Value → Option Value
  | .moment a, .moment b => some (.range (.between a b))
  | _, _ => none

end Value

/-- The calls of a calculation; `a` and `b` are places among the values held. -/
inductive Call where
  /-- Yields the moment of word 0. -/
  | epoch
  /-- Yields the empty span. -/
  | zero
  /-- Yields the undefined range. -/
  | undefined
  /-- Yields the moment that the clock of a session shows. -/
  | clock (session : Session)
  /-- Yields the moment of a text. -/
  | readMoment (session : Session) (text : String)
  /-- Yields the span of a text. -/
  | readSpan (text : String)
  /-- Yields the range of a text. -/
  | readRange (session : Session) (text : String)
  /-- Yields the moment of a timestamp that is a wall reading. -/
  | ofWall (zone : TimeZone) (timestamp : Timestamp)
  /-- Yields the moment of a timestamp in UTC. -/
  | ofUtc (timestamp : Timestamp)
  /-- Yields the span of a calendar span. -/
  | ofCalendar (c : CalendarSpan)
  /-- Yields the sum of a moment and a span. -/
  | add (a b : Nat)
  /-- Yields the difference of a moment and a span. -/
  | sub (a b : Nat)
  /-- Yields the range between two moments. -/
  | between (a b : Nat)
  /-- Yields the first endpoint of a range, valid or not. -/
  | first (a : Nat)
  /-- Yields the last endpoint of a range, valid or not. -/
  | last (a : Nat)
  /-- Yields the moment a range starts with. -/
  | start (a : Nat)
  /-- Yields the moment a range stops with. -/
  | stop (a : Nat)
  /-- Yields the length of a range. -/
  | length (a : Nat)
  /-- Yields what the text of a value is read as. -/
  | reread (session : Session) (a : Nat)
  /-- Yields what comes back from the richer form of a value. -/
  | convert (session : Session) (a : Nat)

namespace Call

/-- What an operation makes of two of the values held. -/
def both (held : List Value) (operation : Value → Value → Option Value) (a b : Nat) :
    Option Value :=
  match held[a]?, held[b]? with
  | some v, some w => operation v w
  | _, _ => none

/-- What an operation makes of a range among the values held. -/
def ofRange (held : List Value) (operation : TimeRange → Value) (a : Nat) : Option Value :=
  match held[a]? with
  | some (.range r) => some (operation r)
  | _ => none

/-- The value that a call yields; none if it fails, or if what it is to compute with is not held or
of another type. -/
def value? (held : List Value) : Call → Option Value
  | epoch => some (.moment .epoch)
  | zero => some (.span .zero)
  | undefined => some (.range .undefined)
  | clock session => some (.moment (.ofClock session))
  | readMoment session text => ((Moment.read session text).map .moment).toOption
  | readSpan text => ((Span.read text).map .span).toOption
  | readRange session text => ((TimeRange.read session text).map .range).toOption
  | ofWall zone timestamp => ((Moment.ofWall zone timestamp).map .moment).toOption
  | ofUtc timestamp => ((Moment.ofUtc timestamp).map .moment).toOption
  | ofCalendar c => some (.span (.ofCalendar c))
  | add a b => both held Value.add? a b
  | sub a b => both held Value.sub? a b
  | between a b => both held Value.between? a b
  | first a => ofRange held (fun r => .moment r.first) a
  | last a => ofRange held (fun r => .moment r.last) a
  | start a => ofRange held (fun r => .moment r.start) a
  | stop a => ofRange held (fun r => .moment r.stop) a
  | length a => ofRange held (fun r => .span r.length) a
  | reread session a => held[a]?.bind fun v => (v.reread session).toOption
  | convert session a =>
    held[a]?.bind fun v => (v.convert? session).bind fun converted => converted.toOption

end Call

namespace Calculation

/-- The values held after calls, given those held before. -/
def runFrom (held : List Value) : List Call → List Value
  | [] => held
  | call :: calls => runFrom (held ++ (call.value? held).toList) calls

/-- The values held after a list of calls. -/
def run (calls : List Call) : List Value := runFrom [] calls

end Calculation

end Horology
