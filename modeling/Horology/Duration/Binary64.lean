/-!
# Rounding to double precision

Fractions of units are kept and scaled in double precision.  A double is represented by the rational
number it stands for, and every operation is the exact one followed by `Binary64.round`; the
magnitudes met here stay far below the overflow threshold, and the sign of zero never shows.

## Main definitions

* `roundHalfEven` — the nearest integer, a half going to the even neighbour.
* `Binary64.round` — the nearest double, a tie going to the even significand.
* `truncate` — the integer part towards zero.
-/

namespace Horology

/-- The integer nearest to a rational; of two equally near ones, the even one. -/
def roundHalfEven (x : Rat) : Int :=
  let below := x.floor
  let rest := x - below
  if rest < 1 / 2 then below
  else if 1 / 2 < rest then below + 1
  else if below % 2 = 0 then below
  else below + 1

/-- The integer part of a rational, cut off towards zero. -/
def truncate (x : Rat) : Int := Int.tdiv x.num x.den

namespace Binary64

/-- The exponent `k` with `2 ^ k ≤ n / d < 2 ^ (k + 1)`, for positive `n` and `d`. -/
def log2 (n d : Nat) : Int :=
  let k : Int := (Nat.log2 n : Int) - Nat.log2 d
  if (2 : Rat) ^ k ≤ (n : Rat) / d then k else k - 1

/-- The exponent of the last binary place that a double of the magnitude of `x` has: 52 places
below the first one, but none below that of the least subnormal. -/
def lastPlace (x : Rat) : Int := max (-1074) (log2 x.num.natAbs x.den - 52)

/-- The double nearest to a rational; of two equally near ones, the one with even significand. -/
def round (x : Rat) : Rat :=
  if x = 0 then 0
  else
    let place := (2 : Rat) ^ lastPlace x
    roundHalfEven (x / place) * place

end Binary64

@[simp] theorem roundHalfEven_intCast (n : Int) : roundHalfEven n = n := by
  simp only [roundHalfEven, Rat.floor_intCast, Rat.sub_self]
  exact if_pos (by decide +kernel)

@[simp] theorem truncate_intCast (n : Int) : truncate n = n := by
  simp [truncate]

@[simp] theorem Binary64.round_zero : Binary64.round 0 = 0 := by
  simp [Binary64.round]

end Horology
