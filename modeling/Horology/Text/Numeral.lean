/-!
# Decimal numerals

Reading and writing of numbers in decimal digits, as used inside dates, clock times, offsets and
spans.

## Main definitions

* `Numeral.read?` — the number a text of digits denotes.
* `Numeral.readWord?` — the same for numbers that fit a 32-bit word.
* `Numeral.write`, `Numeral.padded` — a number in digits, the latter with leading zeros.
* `Numeral.writeInt`, `Numeral.paddedInt` — the same for signed numbers; a sign counts towards the
  width.
-/

namespace Horology.Numeral

/-- The number a run of digits denotes, most significant digit first. -/
def value (ds : List Char) : Nat := Nat.ofDigitChars 10 ds 0

/-- The number a text denotes that is a non-empty run of digits and nothing else. -/
def read? (cs : List Char) : Option Nat :=
  if !cs.isEmpty && cs.all Char.isDigit then some (value cs) else none

/-- The number a run of digits denotes, if it fits a signed 32-bit word. -/
def readWord? (cs : List Char) : Option Int :=
  match read? cs with
  | some n => if n ≤ 2147483647 then some n else none
  | none => none

/-- The digits of a number, without leading zeros. -/
def write (n : Nat) : List Char := Nat.toDigits 10 n

/-- The digits of a number, with leading zeros up to a width. -/
def padded (width n : Nat) : List Char :=
  List.replicate (width - (write n).length) '0' ++ write n

/-- The digits of a signed number; only a minus sign is written. -/
def writeInt (z : Int) : List Char :=
  if z < 0 then '-' :: write z.natAbs else write z.natAbs

/-- A signed number with zeros between sign and digits up to a width. -/
def paddedInt (width : Nat) (z : Int) : List Char :=
  if z < 0 then '-' :: padded (width - 1) z.natAbs else padded width z.natAbs

theorem write_ne_nil (n : Nat) : write n ≠ [] := Nat.toDigits_ne_nil

theorem isDigit_of_mem_write {n : Nat} {c : Char} (h : c ∈ write n) : c.isDigit :=
  Nat.isDigit_of_mem_toDigits (by decide) (by decide) h

theorem padded_ne_nil (width n : Nat) : padded width n ≠ [] := by
  simp [padded, write_ne_nil]

theorem isDigit_of_mem_padded {width n : Nat} {c : Char} (h : c ∈ padded width n) : c.isDigit := by
  rcases List.mem_append.1 h with h | h
  · rw [List.eq_of_mem_replicate h]; rfl
  · exact isDigit_of_mem_write h

@[simp] theorem value_write (n : Nat) : value (write n) = n := Nat.ofDigitChars_ten_toDigits

@[simp] theorem value_padded (width n : Nat) : value (padded width n) = n := by
  simp [value, padded, write, Nat.ofDigitChars_append, Nat.ofDigitChars_ten_toDigits]

theorem read?_eq_some {cs : List Char} (hne : cs ≠ []) (hd : ∀ c ∈ cs, c.isDigit) :
    read? cs = some (value cs) := by
  simp [read?, hne, List.all_eq_true.2 hd]

/-- What `write` writes, `read?` reads. -/
@[simp] theorem read?_write (n : Nat) : read? (write n) = some n := by
  rw [read?_eq_some (write_ne_nil n) fun _ => isDigit_of_mem_write, value_write]

/-- What `padded` writes, `read?` reads. -/
@[simp] theorem read?_padded (width n : Nat) : read? (padded width n) = some n := by
  rw [read?_eq_some (padded_ne_nil width n) fun _ => isDigit_of_mem_padded, value_padded]

/-- Only a non-empty run of digits is read. -/
theorem read?_eq_some_iff {cs : List Char} {n : Nat} :
    read? cs = some n ↔ cs ≠ [] ∧ (∀ c ∈ cs, c.isDigit) ∧ value cs = n := by
  simp [read?, List.all_eq_true, and_assoc]

end Horology.Numeral
