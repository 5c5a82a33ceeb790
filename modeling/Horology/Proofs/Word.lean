import Horology.Word

/-!
# Numbers reduced to words

A number within the range of a signed 32-bit word is kept by its word; a number one period beyond
the range on either side is moved by the period.

## Main definitions

* `toInt_ofInt_of_fits` — numbers within the range.
* `toInt_ofInt_below`, `toInt_ofInt_above` — numbers up to a period beyond it.
* `toInt_mem` — the range.
* `toInt_add_of_fits`, `toInt_sub_of_fits`, `toInt_neg_of_fits` — sums, differences and opposites
  within the range.
-/

namespace Horology.Word

/-- A word holds a number of its range. -/
theorem toInt_mem (w : Int32) : -2147483648 ≤ w.toInt ∧ w.toInt ≤ 2147483647 := by
  have hlo := w.le_toInt
  have hhi := w.toInt_lt
  omega

/-- A number within the range is kept. -/
theorem toInt_ofInt_of_fits {x : Int} (h0 : -2147483648 ≤ x) (h1 : x ≤ 2147483647) :
    (Int32.ofInt x).toInt = x :=
  Int32.toInt_ofInt_of_le (by omega) (by omega)

/-- A sum within the range is exact. -/
theorem toInt_add_of_fits {a b : Int32} (h0 : -2147483648 ≤ a.toInt + b.toInt)
    (h1 : a.toInt + b.toInt ≤ 2147483647) : (a + b).toInt = a.toInt + b.toInt := by
  have hsum : a + b = .ofInt (a.toInt + b.toInt) := by
    rw [Int32.ofInt_add, Int32.ofInt_toInt, Int32.ofInt_toInt]
  rw [hsum, toInt_ofInt_of_fits h0 h1]

/-- A difference within the range is exact. -/
theorem toInt_sub_of_fits {a b : Int32} (h0 : -2147483648 ≤ a.toInt - b.toInt)
    (h1 : a.toInt - b.toInt ≤ 2147483647) : (a - b).toInt = a.toInt - b.toInt := by
  have hdifference : a - b = .ofInt (a.toInt - b.toInt) := by
    rw [Int32.ofInt_sub, Int32.ofInt_toInt, Int32.ofInt_toInt]
  rw [hdifference, toInt_ofInt_of_fits h0 h1]

/-- The opposite of a number other than the least one is exact. -/
theorem toInt_neg_of_fits {a : Int32} (h : -2147483648 < a.toInt) : (-a).toInt = -a.toInt := by
  have hhi := (toInt_mem a).2
  have hzero := Int32.toInt_zero
  rw [← Int32.zero_sub, toInt_sub_of_fits (by omega) (by omega)]
  omega

/-- A number below the range is moved up by a period. -/
theorem toInt_ofInt_below {x : Int} (h0 : -6442450944 ≤ x) (h1 : x < -2147483648) :
    (Int32.ofInt x).toInt = x + 4294967296 := by
  rw [Int32.toInt_ofInt, Int.bmod_eq_emod]
  simp only [Int32.size]
  split <;> omega

/-- A number above the range is moved down by a period. -/
theorem toInt_ofInt_above {x : Int} (h0 : 2147483647 < x) (h1 : x < 6442450944) :
    (Int32.ofInt x).toInt = x - 4294967296 := by
  rw [Int32.toInt_ofInt, Int.bmod_eq_emod]
  simp only [Int32.size]
  split <;> omega

end Horology.Word
