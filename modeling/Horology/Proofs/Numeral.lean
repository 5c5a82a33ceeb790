import Horology.Text.Numeral
import Mathlib.Algebra.Group.Int.Defs
import Mathlib.Algebra.Group.Nat.Defs

/-!
# Runs of digits

Dates, clock times, offsets and spans are read from runs of digits and written with leading zeros up
to a width.  A number that fits the width is written in exactly that many digits, so a reader that
looks at the length of a run sees what the writer meant.

## Main definitions

* `Numeral.IsRun` — a non-empty run of digits.
* `length_padded` — the digits of a number that fits its width.
* `readWord?_paddedInt` — what is written with leading zeros is read as the number it was.
* `IsRun.splitOn_three` — runs with a separator between them are the pieces between separators.
-/

namespace Horology.Numeral

/-- A non-empty run of digits. -/
structure IsRun (cs : List Char) : Prop where
  ne_nil : cs ≠ []
  isDigit : ∀ c ∈ cs, c.isDigit

theorem isRun_write (n : Nat) : IsRun (write n) :=
  ⟨write_ne_nil n, fun _ => isDigit_of_mem_write⟩

theorem isRun_padded (width n : Nat) : IsRun (padded width n) :=
  ⟨padded_ne_nil width n, fun _ => isDigit_of_mem_padded⟩

/-- A number below a power of ten has at most that many digits. -/
theorem length_write_le {width n : Nat} (hw : 0 < width) (hn : n < 10 ^ width) :
    (write n).length ≤ width :=
  (Nat.length_toDigits_le_iff (by decide) hw).2 hn

/-- A number below a power of ten is padded to exactly that many digits. -/
theorem length_padded {width n : Nat} (hw : 0 < width) (hn : n < 10 ^ width) :
    (padded width n).length = width := by
  have hle := length_write_le hw hn
  simp only [padded, List.length_append, List.length_replicate]
  omega

/-- Every number has a digit, so that padding to one digit does nothing. -/
theorem padded_one (n : Nat) : padded 1 n = write n := by
  have hpos : 0 < (write n).length := List.length_pos_iff.2 (write_ne_nil n)
  rw [padded, Nat.sub_eq_zero_of_le hpos]
  rfl

/-- A number that is not negative is padded without a sign. -/
theorem paddedInt_of_nonneg {width : Nat} {z : Int} (hz : 0 ≤ z) :
    paddedInt width z = padded width z.natAbs :=
  if_neg (by omega)

theorem isRun_paddedInt {width : Nat} {z : Int} (hz : 0 ≤ z) : IsRun (paddedInt width z) := by
  rw [paddedInt_of_nonneg hz]
  exact isRun_padded width z.natAbs

theorem length_paddedInt {width : Nat} {z : Int} (hw : 0 < width) (hz : 0 ≤ z)
    (hlt : z.natAbs < 10 ^ width) : (paddedInt width z).length = width := by
  rw [paddedInt_of_nonneg hz]
  exact length_padded hw hlt

/-- Only runs of digits are read. -/
theorem isRun_of_read? {cs : List Char} {n : Nat} (h : read? cs = some n) : IsRun cs := by
  obtain ⟨hne, hdigit, -⟩ := read?_eq_some_iff.1 h
  exact ⟨hne, hdigit⟩

/-- A run of digits is read as its value when that fits a word. -/
theorem readWord?_eq_some {cs : List Char} {n : Nat} (hread : read? cs = some n)
    (hn : n ≤ 2147483647) : readWord? cs = some (n : Int) := by
  simp only [readWord?, hread, if_pos hn]

/-- A number that fits a word is read back from its padded digits. -/
theorem readWord?_paddedInt {width : Nat} {z : Int} (hz : 0 ≤ z) (hle : z ≤ 2147483647) :
    readWord? (paddedInt width z) = some z := by
  rw [paddedInt_of_nonneg hz, readWord?_eq_some (read?_padded width z.natAbs) (by omega)]
  simp only [Option.some.injEq]
  omega

theorem exists_read?_of_readWord? {cs : List Char} {z : Int} (h : readWord? cs = some z) :
    ∃ n : Nat, read? cs = some n ∧ z = n := by
  unfold readWord? at h
  split at h
  · next n hread =>
    split at h
    · exact ⟨n, hread, (Option.some.inj h).symm⟩
    · cases h
  · cases h

theorem isRun_of_readWord? {cs : List Char} {z : Int} (h : readWord? cs = some z) : IsRun cs := by
  obtain ⟨n, hread, -⟩ := exists_read?_of_readWord? h
  exact isRun_of_read? hread

/-- Digits alone spell no negative number. -/
theorem nonneg_of_readWord? {cs : List Char} {z : Int} (h : readWord? cs = some z) : 0 ≤ z := by
  obtain ⟨n, -, rfl⟩ := exists_read?_of_readWord? h
  exact Int.natCast_nonneg n

/-- Runs may follow each other. -/
theorem IsRun.append {a b : List Char} (ha : IsRun a) (hb : IsRun b) : IsRun (a ++ b) :=
  ⟨List.append_ne_nil_of_left_ne_nil ha.ne_nil b,
    fun c hc => (List.mem_append.1 hc).elim (ha.isDigit c) (hb.isDigit c)⟩

/-- Digits behind others count the others by a power of ten. -/
theorem value_append (a b : List Char) : value (a ++ b) = 10 ^ b.length * value a + value b := by
  rw [value, Nat.ofDigitChars_append, Nat.ofDigitChars_eq_ofDigitChars_zero]
  rfl

theorem readWord?_append {a b : List Char} {x y : Int} (ha : readWord? a = some x)
    (hb : readWord? b = some y) (hle : 10 ^ b.length * x + y ≤ 2147483647) :
    readWord? (a ++ b) = some (10 ^ b.length * x + y) := by
  obtain ⟨m, hm, rfl⟩ := exists_read?_of_readWord? ha
  obtain ⟨n, hn, rfl⟩ := exists_read?_of_readWord? hb
  have hrun := (isRun_of_read? hm).append (isRun_of_read? hn)
  have hread : read? (a ++ b) = some (10 ^ b.length * m + n) := by
    rw [read?_eq_some hrun.ne_nil hrun.isDigit, value_append, (read?_eq_some_iff.1 hm).2.2,
      (read?_eq_some_iff.1 hn).2.2]
  have hcast : ((10 ^ b.length * m + n : Nat) : Int) = 10 ^ b.length * m + n := by push_cast; rfl
  rw [← hcast] at hle ⊢
  exact readWord?_eq_some hread (Int.ofNat_le.1 hle)

/-! ## Runs between separators -/

/-- A run of digits has no other character in it. -/
theorem IsRun.not_mem {cs : List Char} (h : IsRun cs) {sep : Char} (hsep : sep.isDigit = false) :
    sep ∉ cs := by
  intro hmem
  have hdigit := h.isDigit sep hmem
  rw [hsep] at hdigit
  exact Bool.false_ne_true hdigit

/-- A run without separators is one piece. -/
theorem IsRun.splitOn_one {a : List Char} (ha : IsRun a) {sep : Char} (hsep : sep.isDigit = false) :
    a.splitOn sep = [a] :=
  List.splitOn_eq_singleton (ha.not_mem hsep)

/-- Two runs with a separator between them are two pieces. -/
theorem IsRun.splitOn_two {a b : List Char} (ha : IsRun a) (hb : IsRun b) {sep : Char}
    (hsep : sep.isDigit = false) : (a ++ sep :: b).splitOn sep = [a, b] := by
  rw [List.splitOn_append_cons_self_of_not_mem (ha.not_mem hsep), hb.splitOn_one hsep]

/-- Three runs with separators between them are three pieces. -/
theorem IsRun.splitOn_three {a b c : List Char} (ha : IsRun a) (hb : IsRun b) (hc : IsRun c)
    {sep : Char} (hsep : sep.isDigit = false) :
    (a ++ sep :: b ++ sep :: c).splitOn sep = [a, b, c] := by
  rw [List.append_assoc, List.cons_append,
    List.splitOn_append_cons_self_of_not_mem (ha.not_mem hsep), hb.splitOn_two hc hsep]

end Horology.Numeral
