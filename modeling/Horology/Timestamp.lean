import Horology.Moment.Layout

/-!
# Timestamps

A timestamp reaches beyond the years of a moment and has a fraction of a second.  It counts seconds
since 1970-01-01 00:00:00, either on a wall in some zone or in UTC, whichever a conversion says; and
it has two unbounded ends of its own.

## Main definitions

* `Timestamp` — a count of seconds and nanoseconds, or an end.
* `Timestamp.order` — the order of timestamps.
* `Timestamp.writeWall`, `Timestamp.writeUtc` — the texts of a wall reading and of a UTC second.
-/

namespace Horology

/-- A point in time, to the nanosecond. -/
inductive Timestamp where
  | beginning
  /-- Whole seconds, rounded down, and the nanoseconds above them. -/
  | count (seconds : Int) (nanos : Nat)
  | ending
  deriving DecidableEq, Repr

namespace Timestamp

/-- Whether a timestamp is neither end. -/
def isFinite : Timestamp → Bool
  | .count .. => true
  | _ => false

/-- The whole seconds of a timestamp that is neither end. -/
def seconds? : Timestamp → Option Int
  | .count seconds _ => some seconds
  | _ => none

/-- The order of timestamps: the beginning first, the end last, others by seconds and
nanoseconds. -/
def order : Timestamp → Timestamp → Ordering
  | .beginning, .beginning => .eq
  | .beginning, _ => .lt
  | _, .beginning => .gt
  | .ending, .ending => .eq
  | .ending, _ => .gt
  | _, .ending => .lt
  | .count s n, .count s' n' => (compare s s').then (compare n n')

instance : Ord Timestamp := ⟨order⟩

instance : LT Timestamp := ltOfOrd

instance : LE Timestamp := leOfOrd

/-- A fraction of a second in as many groups of three decimals as it needs. -/
def writeNanos (nanos : Nat) : List Char :=
  if nanos = 0 then []
  else if nanos % 1000000 = 0 then '.' :: Numeral.padded 3 (nanos / 1000000)
  else if nanos % 1000 = 0 then '.' :: Numeral.padded 6 (nanos / 1000)
  else '.' :: Numeral.padded 9 nanos

/-- The text of a timestamp, given how a finite one continues. -/
def writeWith (suffix : List Char) : Timestamp → List Char
  | .beginning => "-infinity".toList
  | .count seconds nanos => (Civil.ofWall seconds).writeWall ++ writeNanos nanos ++ suffix
  | .ending => "infinity".toList

/-- The text of a timestamp that is a wall reading. -/
def writeWall (t : Timestamp) : String := String.ofList (t.writeWith [])

/-- The text of a timestamp in UTC. -/
def writeUtc (t : Timestamp) : String := String.ofList (t.writeWith " UTC".toList)

end Timestamp

end Horology
