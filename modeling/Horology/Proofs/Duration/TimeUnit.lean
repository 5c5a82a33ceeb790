import Horology.Duration.TimeUnit
import Horology.Proofs.Duration.Quantity

/-!
# Adding whole quantities

A whole number of a unit of a second or more is added exactly, to the one field that the unit
belongs to, and is a fault when the number scaled to that field or the sum leaves 64 bits.

## Main definitions

* `TimeUnit.isWhole`, `TimeUnit.scale` — the units of whole seconds, and their size in their field.
* `Duration.plus` — a duration with a number of a unit added.
* `Duration.add?_ofInt` — what adding a whole quantity comes to.
* `Duration.Step` — that a number of a unit leads from one duration to another.
-/

namespace Horology

namespace TimeUnit

/-- Whether a unit is a second or more. -/
def isWhole : TimeUnit → Bool
  | microsecond | millisecond => false
  | _ => true

/-- How many of the unit that a field counts make one of a unit added to the field. -/
def scale : TimeUnit → Int
  | millisecond => 1000
  | week => 7
  | decade => 10
  | century => 100
  | millennium => 1000
  | _ => 1

end TimeUnit

namespace Duration

/-- That every field fits 64 bits. -/
def Fits (d : Duration) : Prop :=
  Fits64 d.years ∧ Fits64 d.months ∧ Fits64 d.days ∧ Fits64 d.hours ∧ Fits64 d.minutes ∧
    Fits64 d.seconds ∧ Fits64 d.micros

instance (d : Duration) : Decidable d.Fits := inferInstanceAs (Decidable (_ ∧ _))

theorem fits_zero : zero.Fits := by decide

/-- A duration with more of what a unit counts in its field. -/
def plus (d : Duration) (n : Int) (unit : TimeUnit) : Duration :=
  let n := n * unit.scale
  match unit with
  | .microsecond | .millisecond => { d with micros := d.micros + n }
  | .second => { d with seconds := d.seconds + n }
  | .minute => { d with minutes := d.minutes + n }
  | .hour => { d with hours := d.hours + n }
  | .day | .week => { d with days := d.days + n }
  | .month => { d with months := d.months + n }
  | .year | .decade | .century | .millennium => { d with years := d.years + n }

@[simp] theorem plus_zero (d : Duration) (unit : TimeUnit) : d.plus 0 unit = d := by
  cases unit <;> simp [plus]

/-! ## The steps of adding -/

theorem fit_bind {α : Type} (n : Int) (next : Int → Except DurationFault α) :
    (fit n >>= next) = if Fits64 n then next n else .error .overflow := by
  unfold fit
  split <;> rfl

theorem ok_bind {α β : Type} (a : α) (next : α → Except DurationFault β) :
    ((.ok a : Except DurationFault α) >>= next) = next a := rfl

@[simp] theorem spillSeconds_zero (d : Duration) (scale : Int) :
    d.spillSeconds 0 scale = .ok d := if_pos rfl

@[simp] theorem spillDays_zero (d : Duration) (scale : Int) : d.spillDays 0 scale = .ok d :=
  if_pos rfl

@[simp] theorem nearestMicros_zero : nearestMicros 0 = .ok 0 := by
  have hround : roundHalfEven 0 = 0 := roundHalfEven_intCast 0
  simp [nearestMicros, nearest, hround]

/-- No months are added for a whole number of years. -/
theorem truncate_fraction_zero (scale : Int) :
    truncate (Binary64.round (0 * (12 * (scale : Rat)))) = 0 := by
  rw [Rat.zero_mul, Binary64.round_zero]
  exact truncate_intCast 0

/-- Years are scaled, and the scaled number is added to the years. -/
theorem addManyYears_ofInt {d : Duration} (hd : d.Fits) (n scale : Int) :
    d.addManyYears (.ofInt n) scale =
      if Fits64 (n * scale) ∧ Fits64 (d.years + n * scale) then
        .ok { d with years := d.years + n * scale }
      else .error .overflow := by
  have hmonths := hd.2.1
  simp only [addManyYears, Quantity.ofInt, fit_bind, addYears, addMonths, truncate_fraction_zero]
  by_cases hscaled : Fits64 (n * scale)
  · by_cases hsum : Fits64 (d.years + n * scale)
    · simp [hscaled, hsum, bind, Except.bind, pure, Except.pure, hmonths]
    · simp [hscaled, hsum, bind, Except.bind]
  · simp [hscaled]

/-- **A whole quantity is added exactly.**  It is a fault if the number of the unit, scaled to the
field, or the sum does not fit. -/
theorem add?_ofInt {d : Duration} (hd : d.Fits) {n : Int} (hn : Fits64 n) {unit : TimeUnit}
    (hunit : unit.isWhole = true) :
    d.add? (.ofInt n) unit =
      if Fits64 (n * unit.scale) ∧ (d.plus n unit).Fits then .ok (d.plus n unit)
      else .error .overflow := by
  obtain ⟨hyears, hmonths, hdays, hhours, hminutes, hseconds, hmicros⟩ := id hd
  cases unit with
  | microsecond => cases hunit
  | millisecond => cases hunit
  | second =>
    have hstay {d' : Duration} (h : Fits64 d'.micros) : d'.addMicros 0 = .ok d' := by
      rw [addMicros, Int.add_zero, fit_of_fits h]
      rfl
    by_cases h : Fits64 (d.seconds + n) <;>
      simp [add?, Quantity.ofInt, addSeconds, fit_bind, ok_bind, plus, TimeUnit.scale, Fits, *]
  | minute =>
    by_cases h : Fits64 (d.minutes + n) <;>
      simp [add?, Quantity.ofInt, addMinutes, fit_bind, plus, TimeUnit.scale, Fits, *]
  | hour =>
    by_cases h : Fits64 (d.hours + n) <;>
      simp [add?, Quantity.ofInt, addHours, fit_bind, plus, TimeUnit.scale, Fits, *]
  | day =>
    by_cases h : Fits64 (d.days + n) <;>
      simp [add?, Quantity.ofInt, addDays, fit_bind, plus, TimeUnit.scale, Fits, *]
  | week =>
    by_cases hscaled : Fits64 (n * 7)
    · by_cases h : Fits64 (d.days + n * 7) <;>
        simp [add?, Quantity.ofInt, addDays, fit_bind, plus, TimeUnit.scale, Fits, *]
    · simp [add?, Quantity.ofInt, fit_bind, plus, TimeUnit.scale, Fits, *]
  | month =>
    by_cases h : Fits64 (d.months + n) <;>
      simp [add?, Quantity.ofInt, addMonths, fit_bind, plus, TimeUnit.scale, Fits, *]
  | year => simpa [add?, plus, TimeUnit.scale, Fits, *] using addManyYears_ofInt hd n 1
  | decade => simpa [add?, plus, TimeUnit.scale, Fits, *] using addManyYears_ofInt hd n 10
  | century => simpa [add?, plus, TimeUnit.scale, Fits, *] using addManyYears_ofInt hd n 100
  | millennium => simpa [add?, plus, TimeUnit.scale, Fits, *] using addManyYears_ofInt hd n 1000

/-- That a number of a unit, with digits that fit, is added to a duration and gives another. -/
structure Step (d : Duration) (n : Int) (unit : TimeUnit) (d' : Duration) : Prop where
  bound : n.natAbs ≤ 9223372036854775807
  add : d.add? (.ofInt n) unit = .ok d'
  stay : n = 0 → d' = d

/-- A number of a unit that a field counts is added if the sum fits. -/
theorem step_plus {d : Duration} (hd : d.Fits) {n : Int} (hn : n.natAbs ≤ 9223372036854775807)
    {unit : TimeUnit} (hunit : unit.isWhole = true) (hscale : unit.scale = 1)
    (hplus : (d.plus n unit).Fits) : Step d n unit (d.plus n unit) := by
  have hfits : Fits64 n := by
    refine ⟨?_, ?_⟩ <;> omega
  refine ⟨hn, ?_, ?_⟩
  · rw [add?_ofInt hd hfits hunit, if_pos]
    rw [hscale, Int.mul_one]
    exact ⟨hfits, hplus⟩
  · rintro rfl
    exact plus_zero d unit

end Duration

end Horology
