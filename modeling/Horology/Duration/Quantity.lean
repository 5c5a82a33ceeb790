import Horology.Duration.Basic
import Horology.Duration.Binary64
import Horology.Text.Character
import Horology.Text.Numeral

/-!
# Quantities

A quantity is a decimal number as it stands in the text of a duration, before its unit: a whole part
that must fit 64 bits, and a fraction in double precision, both with the sign of the number.

## Main definitions

* `Quantity.scan` — the quantity at the front of a text, and what follows it.
* `length_lt_of_scan` — scanning consumes text.
-/

namespace Horology

/-- A decimal number, its whole part and its fraction of equal sign. -/
structure Quantity where
  whole : Int
  fraction : Rat
  deriving DecidableEq, Repr

namespace Quantity

/-- Whether a text begins with a minus sign, and the text after a sign of either kind. -/
def splitSign : List Char → Bool × List Char
  | '-' :: cs => (true, cs)
  | '+' :: cs => (false, cs)
  | cs => (false, cs)

/-- The number a run of digits denotes, 0 for an empty one; a fault if it does not fit. -/
def wholePart (digits : List Char) : Except DurationFault Int := fit (Numeral.value digits)

/-- The fraction that the digits after the point denote, in double precision. -/
def fractionPart (digits : List Char) : Rat :=
  Binary64.round (mkRat (Numeral.value digits) (Nat.pow 10 digits.length))

/-- The quantity of a sign, the digits before the point and those after it. -/
def ofDigits (negative : Bool) (digits decimals : List Char) : Except DurationFault Quantity := do
  let whole ← wholePart digits
  let fraction := fractionPart decimals
  return if negative then ⟨-whole, -fraction⟩ else ⟨whole, fraction⟩

/-- The quantity at the front of a text, and what follows it.

A sign is optional, and so are the digits on either side of a point; without a point there must be
digits. -/
def scan (cs : List Char) : Except DurationFault (Quantity × List Char) :=
  let negative := (splitSign cs).1
  let body := (splitSign cs).2
  let digits := body.takeWhile Char.isDigit
  match body.dropWhile Char.isDigit with
  | '.' :: rest => do
    return (← ofDigits negative digits (rest.takeWhile Char.isDigit),
      rest.dropWhile Char.isDigit)
  | rest =>
    if digits.isEmpty then .error .badFormat
    else do return (← ofDigits negative digits [], rest)

theorem length_splitSign_le (cs : List Char) : (splitSign cs).2.length ≤ cs.length := by
  unfold splitSign
  split <;> simp

/-- Scanning a quantity consumes text. -/
theorem length_lt_of_scan {cs rest : List Char} {q : Quantity} (h : scan cs = .ok (q, rest)) :
    rest.length < cs.length := by
  have hsign := length_splitSign_le cs
  have hparts := congrArg List.length
    (List.takeWhile_append_dropWhile (p := Char.isDigit) (l := (splitSign cs).2))
  rw [List.length_append] at hparts
  simp only [scan] at h
  split at h
  · next tail htail =>
    rw [htail, List.length_cons] at hparts
    obtain ⟨_, -, h⟩ := bind_eq_ok_iff.1 h
    obtain ⟨-, rfl⟩ := Prod.mk.inj (Except.ok.inj h)
    have := length_dropped_le Char.isDigit tail
    omega
  · split at h
    · cases h
    · next hne =>
      obtain ⟨_, -, h⟩ := bind_eq_ok_iff.1 h
      obtain ⟨-, rfl⟩ := Prod.mk.inj (Except.ok.inj h)
      have : ((splitSign cs).2.takeWhile Char.isDigit) ≠ [] := by simpa using hne
      have := List.length_pos_iff.2 this
      omega

end Quantity

end Horology
