/-!
# Fixed-width words

Moments and spans live in signed 32-bit words, the fields of a duration in signed 64-bit ones.
Sums and products are formed over the integers and then asked whether they fit; where an operation
is defined to wrap, it works on `Int32` directly.

## Main definitions

* `word? n` — the 32-bit word holding `n`, if there is one.
* `Fits64 n` — that `n` is a signed 64-bit number.
-/

namespace Horology

/-- The 32-bit word holding an integer, if there is one. -/
def word? (n : Int) : Option Int32 :=
  if -2147483648 ≤ n ∧ n ≤ 2147483647 then some (Int32.ofInt n) else none

/-- The integers a signed 64-bit word can hold. -/
def Fits64 (n : Int) : Prop := -9223372036854775808 ≤ n ∧ n ≤ 9223372036854775807

instance (n : Int) : Decidable (Fits64 n) := inferInstanceAs (Decidable (_ ∧ _))

/-- A word found by `word?` holds the number it was found for. -/
theorem toInt_of_word? {n : Int} {w : Int32} (h : word? n = some w) : w.toInt = n := by
  unfold word? at h
  split at h
  · obtain rfl := Option.some.inj h
    exact Int32.toInt_ofInt_of_le (by simpa using by omega) (by simpa using by omega)
  · exact absurd h (by simp)

/-- Every word is found again from the number it holds. -/
theorem word?_toInt (w : Int32) : word? w.toInt = some w := by
  have hlo := w.minValue_le_toInt
  have hhi := w.toInt_le
  simp only [Int32.toInt_minValue, Int32.toInt_maxValue] at hlo hhi
  simp only [word?, Int32.ofInt_toInt, ite_eq_left_iff]
  intro h
  omega

end Horology
