import Horology.Moment.Basic

/-!
# Time ranges

A time range is closed and lies between two moments.  Ranges made from moments put the earlier one
first; a range taken from its parts keeps them as they come.  A range with an invalid endpoint is
invalid as a whole, which its status says; every way to make a range has to see to that.

Order and equality of ranges look at the length alone.  Lengths are differences of words and wrap
beyond 68 years.

## Main definitions

* `TimeRange`, `TimeRange.between`, `TimeRange.undefined`, `TimeRange.ofParts` — ranges and the
  ways to make them.
* `RangeStatus.ofEndpoints` — whether a range between two moments is valid.
* `TimeRange.length` — the length of a valid range with finite endpoints.
* `TimeRange.containsMoment`, `TimeRange.contains`, `TimeRange.overlaps`, `TimeRange.same` — ranges
  as sets of moments.
* `TimeRange.hasLength` — comparison of the length with a span.
* `TimeRange.order` — the order of ranges by length.
-/

namespace Horology

/-- Whether a range is valid. -/
inductive RangeStatus where
  | invalid
  | valid
  deriving DecidableEq, Repr

namespace RangeStatus

/-- The status of a range by its endpoints. -/
def ofEndpoints (first last : Moment) : RangeStatus :=
  if first.isInvalid || last.isInvalid then .invalid else .valid

/-- The word of a status. -/
def raw : RangeStatus → Int32
  | .invalid => 0
  | .valid => 1

/-- Which of two endpoints comes first has no part in the status. -/
theorem ofEndpoints_comm (a b : Moment) : ofEndpoints a b = ofEndpoints b a := by
  simp only [ofEndpoints, Bool.or_comm]

/-- Sorting two endpoints keeps their status. -/
theorem ofEndpoints_sorted (a b : Moment) :
    ofEndpoints (a.earlier b) (a.later b) = ofEndpoints a b := by
  unfold Moment.earlier Moment.later
  split
  · exact ofEndpoints_comm b a
  · rfl

end RangeStatus

/-- A closed range of time, with the status that its endpoints give it. -/
structure TimeRange where
  status : RangeStatus
  first : Moment
  last : Moment
  status_eq : status = .ofEndpoints first last
  deriving DecidableEq, Repr

namespace TimeRange

/-- The range between two moments, given in either order. -/
def between (a b : Moment) : TimeRange where
  status := .ofEndpoints a b
  first := a.earlier b
  last := a.later b
  status_eq := (RangeStatus.ofEndpoints_sorted a b).symm

/-- The range that is undefined. -/
def undefined : TimeRange := ⟨.invalid, .invalid, .invalid, rfl⟩

/-- Whether the status of a range is the valid one. -/
def isValid (r : TimeRange) : Bool := r.status == .valid

/-- The range of two endpoints as they are; none if the word of their status is not the given
one. -/
def ofParts? (status : Int32) (first last : Moment) : Option TimeRange :=
  let expected := RangeStatus.ofEndpoints first last
  if status = expected.raw then some ⟨expected, first, last, rfl⟩ else none

/-- The endpoint a valid range begins with. -/
def start (r : TimeRange) : Moment := if r.isValid then r.first else .invalid

/-- The endpoint a valid range ends with. -/
def stop (r : TimeRange) : Moment := if r.isValid then r.last else .invalid

/-- The difference of the words of the endpoints. -/
def rawLength (r : TimeRange) : Int32 := r.last.raw - r.first.raw

/-- The length of a valid range with finite endpoints; any other is invalid. -/
def length (r : TimeRange) : Span :=
  if r.isValid && r.first.isFinite && r.last.isFinite then .ofRaw r.rawLength else .invalid

/-- The length of a range in days, in double precision. -/
def days? (r : TimeRange) : Option Float := r.length.toFloat?.map fun s => s * (1 / 86400)

/-- Whether a moment lies within a valid range, endpoints included. -/
def containsMoment (r : TimeRange) (t : Moment) : Bool :=
  r.isValid && !t.isInvalid && decide (r.first ≤ t) && decide (t ≤ r.last)

/-- Whether a valid range contains another. -/
def contains (r r' : TimeRange) : Bool :=
  r.isValid && r'.isValid && decide (r.first ≤ r'.first) && decide (r'.last ≤ r.last)

/-- Whether two valid ranges have a moment in common. -/
def overlaps (r r' : TimeRange) : Bool :=
  r.isValid && r'.isValid && !(decide (r.last < r'.first) || decide (r'.last < r.first))

/-- Whether two valid ranges have equal endpoints. -/
def same (r r' : TimeRange) : Bool :=
  r.isValid && r'.isValid && r.first == r'.first && r.last == r'.last

/-- How the length of a range compares with a span, if both are valid. -/
def compareLength? (r : TimeRange) (s : Span) : Option Ordering :=
  match r.isValid, r.length.seconds?, s.seconds? with
  | true, some n, some m => some (compare n.toInt m.toInt)
  | _, _, _ => none

/-- Whether the length of a range stands in a relation to a span; never if either is invalid. -/
def hasLength (r : TimeRange) (relation : Ordering → Bool) (s : Span) : Bool :=
  (r.compareLength? s).any relation

/-- Whether the length equals a span. -/
def lengthEq (r : TimeRange) (s : Span) : Bool := r.hasLength Ordering.isEq s

/-- Whether the length differs from a span. -/
def lengthNe (r : TimeRange) (s : Span) : Bool := r.hasLength Ordering.isNe s

/-- Whether the length is shorter than a span. -/
def lengthLt (r : TimeRange) (s : Span) : Bool := r.hasLength Ordering.isLT s

/-- Whether the length is longer than a span. -/
def lengthGt (r : TimeRange) (s : Span) : Bool := r.hasLength Ordering.isGT s

/-- Whether the length is at most a span. -/
def lengthLe (r : TimeRange) (s : Span) : Bool := r.hasLength Ordering.isLE s

/-- Whether the length is at least a span. -/
def lengthGe (r : TimeRange) (s : Span) : Bool := r.hasLength Ordering.isGE s

/-- The order of ranges: valid ones by the word of their length, invalid ones equal and after all
others.  Reserved words count as the numbers they are. -/
def order (r r' : TimeRange) : Ordering :=
  match r.isValid, r'.isValid with
  | false, false => .eq
  | false, true => .gt
  | true, false => .lt
  | true, true => compare r.rawLength.toInt r'.rawLength.toInt

instance : Ord TimeRange := ⟨order⟩

instance : LT TimeRange := ltOfOrd

instance : LE TimeRange := leOfOrd

instance : DecidableLT TimeRange := fun a b => inferInstanceAs (Decidable (compare a b = .lt))

instance : DecidableLE TimeRange := fun a b =>
  inferInstanceAs (Decidable ((compare a b).isLE = true))

instance : BEq TimeRange := ⟨fun a b => a.order b == .eq⟩

/-- What a hash of a range is made from: the word of its length, and nothing if it is invalid. -/
def key (r : TimeRange) : Option Int32 := if r.isValid then some r.rawLength else none

instance : Hashable TimeRange := ⟨fun r => hash r.key⟩

end TimeRange

end Horology
