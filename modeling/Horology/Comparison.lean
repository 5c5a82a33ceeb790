import Horology.Message

/-!
# Comparisons and hashes

Code that sorts values asks how two of them compare, as an `Ordering` or as a number; code that
hashes them asks for bytes.  A word is fed to a hasher in the byte order of the machine, and a range
begins with a byte that says whether it is valid.

## Main definitions

* `partialCompare?`, `indexCompare` — the comparison of two values in the forms it is asked for.
* `ByteOrder.bytes` — the bytes of a word on a machine.
* `Moment.hashBytes`, `Span.hashBytes`, `TimeRange.hashBytes` — what a hasher is fed.
-/

namespace Horology

/-- A comparison as a number. -/
def comparisonWord : Ordering → Int32
  | .lt => -1
  | .eq => 0
  | .gt => 1

section Ord

variable {α : Type} [Ord α]

/-- How two values compare, for code that admits values that do not; any two do. -/
def partialCompare? (a b : α) : Option Ordering := some (compare a b)

/-- How two values compare, for the code of an index. -/
def indexCompare (a b : α) : Int32 := comparisonWord (compare a b)

end Ord

/-- The orders in which a machine keeps the bytes of a word. -/
inductive ByteOrder where
  | bigEndian
  | littleEndian
  deriving DecidableEq, Repr

/-- The bytes of a word as a machine keeps them. -/
def ByteOrder.bytes : ByteOrder → Int32 → List UInt8
  | .bigEndian, w => Message.ofWord w
  | .littleEndian, w => (Message.ofWord w).reverse

/-- The bytes that a hasher is fed for a moment. -/
def Moment.hashBytes (order : ByteOrder) (t : Moment) : List UInt8 := order.bytes t.key

/-- The bytes that a hasher is fed for a span. -/
def Span.hashBytes (order : ByteOrder) (s : Span) : List UInt8 := order.bytes s.key

/-- The bytes that a hasher is fed for a range: one byte if it is invalid, and five if it is
valid. -/
def TimeRange.hashBytes (order : ByteOrder) (r : TimeRange) : List UInt8 :=
  match r.key with
  | none => [0]
  | some length => 1 :: order.bytes length

end Horology
