import Horology.Calendar.Civil
import Horology.Span.Basic

/-!
# Moments

A moment is a number of seconds since 1970-01-01 00:00:00 UTC in a signed 32-bit word, of which
three words are reserved: for the beginning of time, for its end, and for the invalid moment.  A
moment may also hold a reserved word as if it were a number; order, text and all else go by the
word, so it is then equal to what the word is reserved for.

## Main definitions

* `Moment`, `Moment.raw`, `Moment.ofRaw` — moments and their words.
* `Moment.isFinite`, `Moment.isInvalid` — the classes of moments.
* `Moment.order` — the order of moments, invalid ones last.
* `Moment.add`, `Moment.sub` — moments a span later and earlier.
* `Moment.ofCivil` — the moment of a civil reading.
-/

namespace Horology

/-- A point in time, to the second. -/
inductive Moment where
  | seconds (n : Int32)
  /-- Before all others. -/
  | beginning
  /-- After all others. -/
  | ending
  | invalid
  deriving DecidableEq, Repr, Inhabited

namespace Moment

/-- The word reserved for the beginning of time. -/
def beginningRaw : Int32 := Int32.minValue

/-- The word reserved for the end of time. -/
def endingRaw : Int32 := 2147483644

/-- The word reserved for the invalid moment. -/
def invalidRaw : Int32 := 2147483646

/-- The moment 1970-01-01 00:00:00 UTC. -/
def epoch : Moment := .seconds 0

/-- The moment of a word. -/
def ofRaw (raw : Int32) : Moment :=
  if raw = beginningRaw then .beginning
  else if raw = endingRaw then .ending
  else if raw = invalidRaw then .invalid
  else .seconds raw

/-- The word of a moment. -/
def raw : Moment → Int32
  | .seconds n => n
  | .beginning => beginningRaw
  | .ending => endingRaw
  | .invalid => invalidRaw

/-- Whether a moment lies strictly between the beginning and the end of time. -/
def isFinite (t : Moment) : Bool := beginningRaw < t.raw && t.raw < endingRaw

/-- Whether a moment holds the word reserved for the invalid one. -/
def isInvalid (t : Moment) : Bool := t.raw == invalidRaw

/-- The seconds of a finite moment. -/
def seconds? (t : Moment) : Option Int32 := if t.isFinite then some t.raw else none

/-- The order of moments: by their words, but invalid ones equal and after all others. -/
def order (a b : Moment) : Ordering :=
  match a.isInvalid, b.isInvalid with
  | true, true => .eq
  | true, false => .gt
  | false, true => .lt
  | false, false => compare a.raw.toInt b.raw.toInt

instance : Ord Moment := ⟨order⟩

instance : LT Moment := ltOfOrd

instance : LE Moment := leOfOrd

instance : DecidableLT Moment := fun a b => inferInstanceAs (Decidable (compare a b = .lt))

instance : DecidableLE Moment := fun a b =>
  inferInstanceAs (Decidable ((compare a b).isLE = true))

instance : BEq Moment := ⟨fun a b => a.order b == .eq⟩

/-- What a hash of a moment is made from. -/
def key (t : Moment) : Int32 := t.raw

instance : Hashable Moment := ⟨fun t => hash t.key⟩

/-- The earlier of two moments, the first of two equal ones. -/
def earlier (a b : Moment) : Moment := if b < a then b else a

/-- The later of two moments, the second of two equal ones. -/
def later (a b : Moment) : Moment := if b < a then a else b

/-- Whether a span can be added to a word without leaving the finite moments.  The bound is moved
by the span, and not the word, so that nothing wraps. -/
def canAdd (t s : Int32) : Bool :=
  (0 < s && t < endingRaw - s) || (s ≤ 0 && beginningRaw - s < t)

/-- Whether a span can be taken from a word without leaving the finite moments. -/
def canSub (t s : Int32) : Bool :=
  (0 < s && beginningRaw + s < t) || (s ≤ 0 && t < endingRaw + s)

/-- The moment a span later; invalid unless it and the given one are finite and the span valid. -/
def add (t : Moment) (s : Span) : Moment :=
  match s.seconds? with
  | some n => if t.isFinite && canAdd t.raw n then .seconds (t.raw + n) else .invalid
  | none => .invalid

/-- The moment a span earlier; invalid unless it and the given one are finite and the span
valid. -/
def sub (t : Moment) (s : Span) : Moment :=
  match s.seconds? with
  | some n => if t.isFinite && canSub t.raw n then .seconds (t.raw - n) else .invalid
  | none => .invalid

instance : HAdd Moment Span Moment := ⟨add⟩

instance : HSub Moment Span Moment := ⟨sub⟩

/-- The first day that moments have, 13 December 1901.  Words begin with its last hours, at
20:45:52. -/
def firstDay : Int := -24856

/-- The last day that moments have, 18 January 2038.  Every second of it fits a word, while words go
on into the day after. -/
def lastDay : Int := 24854

/-- Whether the fields of a reading are within the bounds that moments admit: a year from 1901 to
2038, a day up to 31 whatever the month, a clock time up to 24:00:00, and seconds up to 60. -/
def admits (c : Civil) : Bool :=
  (1901 ≤ c.year && c.year ≤ 2038) && (1 ≤ c.month && c.month ≤ 12) && (1 ≤ c.day && c.day ≤ 31)
    && (0 ≤ c.hour && c.hour ≤ 24) && !(c.hour == 24 && (0 < c.minute || 0 < c.second))
    && (0 ≤ c.minute && c.minute ≤ 59) && (0 ≤ c.second && c.second ≤ 60)

/-- The second of a day and a clock time at an offset, in words that wrap at every step. -/
def wrappedSecond (day : Int) (c : Civil) (east : Int) : Int32 :=
  let minutes := (.ofInt day * 24 + .ofInt c.hour) * 60 + .ofInt c.minute
  minutes * 60 + .ofInt c.second - .ofInt east

/-- Whether a second has the wrong sign for its day.  On the ten days at either end, clock time and
offset can carry the sum out of the word, and then its sign is the opposite one. -/
def hasWrapped (day : Int) (second : Int32) : Bool :=
  (lastDay - 10 ≤ day && second < 0) || (day ≤ firstDay + 10 && 0 < second)

/-- The moment of a civil reading at an offset in seconds east of UTC; invalid unless it is
finite. -/
def ofCivil (c : Civil) (east : Int) : Moment :=
  let day := dayNumber c.year c.month c.day
  let second := wrappedSecond day c east
  if !admits c then .invalid
  else if !(firstDay ≤ day && day ≤ lastDay) then .invalid
  else if hasWrapped day second then .invalid
  else if (ofRaw second).isFinite then ofRaw second
  else .invalid

@[simp] theorem raw_ofRaw (n : Int32) : (ofRaw n).raw = n := by
  unfold ofRaw
  split
  · simp_all [raw]
  · split
    · simp_all [raw]
    · split <;> simp_all [raw]

end Moment

end Horology
