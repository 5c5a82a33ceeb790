import Horology.Duration.Quantity
import Horology.Proofs.Numeral
import Horology.Proofs.Text

/-!
# Whole quantities

A quantity without a fraction is a sign, if there is one, and a run of digits.  It is scanned as the
number it stands for as long as its digits fit 64 bits, whatever follows that neither goes on with
digits nor begins decimals.

## Main definitions

* `Quantity.ofInt` — a whole number as a quantity.
* `Quantity.IsNumber` — the texts of a whole number.
* `Quantity.scan_of_isNumber` — scanning such a text.
-/

namespace Horology.Quantity

open Numeral (IsRun isRun_write)

/-- A whole number as a quantity. -/
def ofInt (n : Int) : Quantity := ⟨n, 0⟩

/-- That a text is a whole number whose digits fit 64 bits: digits alone, or behind a sign. -/
inductive IsNumber : List Char → Int → Prop where
  | plain {ds : List Char} {n : Nat} (hds : IsRun ds) (hread : Numeral.read? ds = some n)
    (hfits : n ≤ 9223372036854775807) : IsNumber ds n
  | plus {ds : List Char} {n : Nat} (hds : IsRun ds) (hread : Numeral.read? ds = some n)
    (hfits : n ≤ 9223372036854775807) : IsNumber ('+' :: ds) n
  | minus {ds : List Char} {n : Nat} (hds : IsRun ds) (hread : Numeral.read? ds = some n)
    (hfits : n ≤ 9223372036854775807) : IsNumber ('-' :: ds) (-n)

variable {cs : List Char} {z : Int}

theorem isNumber_write {n : Nat} (h : n ≤ 9223372036854775807) : IsNumber (Numeral.write n) n :=
  .plain (isRun_write n) (Numeral.read?_write n) h

theorem isNumber_writeInt (h : z.natAbs ≤ 9223372036854775807) :
    IsNumber (Numeral.writeInt z) z := by
  unfold Numeral.writeInt
  split
  · have hminus := IsNumber.minus (isRun_write z.natAbs) (Numeral.read?_write z.natAbs) h
    rwa [show -(z.natAbs : Int) = z by omega] at hminus
  · have hplain := isNumber_write h
    rwa [show (z.natAbs : Int) = z by omega] at hplain

/-- A plus sign may precede the digits of a number that is not negative. -/
theorem isNumber_plus_writeInt (h0 : 0 ≤ z) (h : z.natAbs ≤ 9223372036854775807) :
    IsNumber ('+' :: Numeral.writeInt z) z := by
  have hplus := IsNumber.plus (isRun_write z.natAbs) (Numeral.read?_write z.natAbs) h
  rw [Numeral.writeInt, if_neg (by omega)]
  rwa [show (z.natAbs : Int) = z by omega] at hplus

/-- A number fits 64 bits, and so does its opposite. -/
theorem IsNumber.bound (h : IsNumber cs z) :
    -9223372036854775807 ≤ z ∧ z ≤ 9223372036854775807 := by
  cases h <;> omega

/-- A number is signs and digits. -/
theorem IsNumber.isDigit_or_sign (h : IsNumber cs z) :
    ∀ c ∈ cs, c.isDigit ∨ c = '+' ∨ c = '-' := by
  intro c hc
  cases h with
  | plain hds => exact .inl (hds.isDigit c hc)
  | plus hds =>
    rcases List.mem_cons.1 hc with rfl | hc
    · exact .inr (.inl rfl)
    · exact .inl (hds.isDigit c hc)
  | minus hds =>
    rcases List.mem_cons.1 hc with rfl | hc
    · exact .inr (.inr rfl)
    · exact .inl (hds.isDigit c hc)

theorem IsNumber.ne_nil (h : IsNumber cs z) : cs ≠ [] := by
  cases h with
  | plain hds => exact hds.ne_nil
  | plus => exact List.cons_ne_nil _ _
  | minus => exact List.cons_ne_nil _ _

/-! ## Scanning -/

/-- Digits alone have no sign. -/
theorem splitSign_of_isRun {ds : List Char} (hds : IsRun ds) (rest : List Char) :
    splitSign (ds ++ rest) = (false, ds ++ rest) := by
  cases ds with
  | nil => exact absurd rfl hds.ne_nil
  | cons d ds =>
    have hd := hds.isDigit d List.mem_cons_self
    have hminus : d ≠ '-' := ne_of_class hd rfl
    have hplus : d ≠ '+' := ne_of_class hd rfl
    rw [List.cons_append, splitSign]
    · intro _ heq
      exact hminus (List.cons.inj heq).1
    · intro _ heq
      exact hplus (List.cons.inj heq).1

@[simp] theorem fractionPart_nil : fractionPart [] = 0 := by
  simp [fractionPart, Numeral.value, Nat.ofDigitChars]

/-- The quantity of a sign and of digits without decimals. -/
theorem ofDigits_nil (negative : Bool) (ds : List Char) :
    ofDigits negative ds [] = do
      let n ← fit (Numeral.value ds)
      return ofInt (if negative then -n else n) := by
  rw [ofDigits, wholePart]
  cases fit (Numeral.value ds) with
  | error fault => rfl
  | ok n => cases negative <;> simp [bind, Except.bind, pure, Except.pure, ofInt]

/-- What may follow a whole number without being taken for a part of it. -/
def endsWhole (c : Char) : Bool := c.isDigit || c == '.'

/-- Digits behind a sign, if there is one, are scanned as a whole number. -/
theorem scan_of_isRun {ds rest : List Char} {negative : Bool} (hds : IsRun ds)
    (hrest : Stops endsWhole rest) (hsign : splitSign cs = (negative, ds ++ rest)) :
    scan cs = do return (← ofDigits negative ds [], rest) := by
  have hdigit : Stops Char.isDigit rest := by
    intro c hc
    exact (Bool.or_eq_false_iff.1 (hrest c hc)).1
  have hpoint : ∀ tail, rest ≠ '.' :: tail := by
    rintro tail rfl
    exact absurd (stops_cons.1 hrest) (by decide)
  have hne : ds.isEmpty = false := by simpa using hds.ne_nil
  simp only [scan, hsign, takeWhile_of_stops hds.isDigit hdigit,
    dropWhile_of_stops hds.isDigit hdigit, hne, Bool.false_eq_true, if_false]

/-- **A whole number is scanned as itself.** -/
theorem scan_of_isNumber (h : IsNumber cs z) {rest : List Char} (hrest : Stops endsWhole rest) :
    scan (cs ++ rest) = .ok (ofInt z, rest) := by
  -- Behind the sign, scanning is the same for every number.
  have hscan {negative : Bool} {ds : List Char} {n : Nat} (hds : IsRun ds)
      (hread : Numeral.read? ds = some n) (hfits : n ≤ 9223372036854775807) {text : List Char}
      (hsign : splitSign text = (negative, ds ++ rest)) :
      scan text = .ok (ofInt (if negative then -n else n), rest) := by
    have hn : Fits64 (n : Int) := by
      refine ⟨?_, ?_⟩ <;> omega
    rw [scan_of_isRun hds hrest hsign, ofDigits_nil, (Numeral.read?_eq_some_iff.1 hread).2.2,
      fit_of_fits hn]
    rfl
  cases h with
  | plain hds hread hfits => exact hscan hds hread hfits (splitSign_of_isRun hds rest)
  | @plus ds _ hds hread hfits =>
    have hsign : splitSign ('+' :: ds ++ rest) = (false, ds ++ rest) := rfl
    exact hscan hds hread hfits hsign
  | @minus ds _ hds hread hfits =>
    have hsign : splitSign ('-' :: ds ++ rest) = (true, ds ++ rest) := rfl
    exact hscan hds hread hfits hsign

end Horology.Quantity
