import Horology.Proofs.Span.Calendar

/-!
# Small units

Numbers of milliseconds and microseconds are scaled in double precision, which holds every integer
below `2 ^ 53`.  Up to there the duration of such a number has exactly its microseconds.  A span
keeps none of them, whole seconds included: the text of any such number is read as the empty span,
where a calendar span of as many microseconds becomes the span of the seconds in them.

## Main definitions

* `Binary64.round_intCast` — integers that are doubles.
* `Duration.add?_small` — numbers of milliseconds and microseconds are added exactly.
* `Span.ofCalendar_micros` — the span of microseconds on their own.
* `Span.read_small` — the two ways from a number of a small unit to a span.
-/

namespace Horology

/-! ## Integers in double precision -/

namespace Binary64

/-- An integer of at most 53 binary digits has its first one no further than 52 places up. -/
theorem log2_le {n : Nat} (h : n < 2 ^ 53) : log2 n 1 ≤ 52 := by
  have hfirst : Nat.log2 n ≤ 52 := by
    by_cases h0 : n = 0
    · rw [h0]
      decide
    · have hlt := (Nat.log2_lt h0).2 h
      omega
  have hone : Nat.log2 1 = 0 := by decide
  simp only [log2, hone]
  split <;> omega

/-- **An integer below `2 ^ 53` is a double.** -/
theorem round_intCast {z : Int} (h : z.natAbs < 2 ^ 53) : round (z : Rat) = z := by
  by_cases h0 : z = 0
  · rw [h0]
    exact round_zero
  · -- The last place stands at or behind the point, so that the integer is a multiple of it.
    obtain ⟨m, hm⟩ : ∃ m : Nat, lastPlace (z : Rat) = -(m : Int) := by
      refine ⟨(-lastPlace (z : Rat)).toNat, ?_⟩
      have hlast : lastPlace (z : Rat) ≤ 0 := by
        have hfirst := log2_le h
        simp only [lastPlace, Rat.num_intCast, Rat.den_intCast]
        omega
      omega
    have hpos : (2 : Rat) ^ m ≠ 0 := Rat.ne_of_gt (Rat.pow_pos (by decide))
    have hplace : (2 : Rat) ^ lastPlace (z : Rat) = ((2 : Rat) ^ m)⁻¹ := by
      rw [hm, Rat.zpow_neg, Rat.zpow_natCast]
    have hcount : (z : Rat) / ((2 : Rat) ^ m)⁻¹ = ((z * 2 ^ m : Int) : Rat) := by
      rw [Rat.div_def, Rat.inv_inv, Rat.intCast_mul, Rat.intCast_pow]
      rfl
    have hnonzero : (z : Rat) ≠ 0 := fun hz => h0 (Rat.intCast_eq_zero_iff.1 hz)
    simp only [round, if_neg hnonzero, hplace, hcount, roundHalfEven_intCast]
    calc ((z * 2 ^ m : Int) : Rat) * ((2 : Rat) ^ m)⁻¹
        = (z : Rat) * ((2 : Rat) ^ m * ((2 : Rat) ^ m)⁻¹) := by
          rw [Rat.intCast_mul, Rat.intCast_pow, Rat.mul_assoc]
          rfl
      _ = z := by rw [Rat.mul_inv_cancel _ hpos, Rat.mul_one]

end Binary64

namespace Duration

/-- A whole number below `2 ^ 53` is one double. -/
theorem double_ofInt {n : Int} (hn : n.natAbs < 2 ^ 53) : double (.ofInt n) = n := by
  have hround := Binary64.round_intCast hn
  rw [double, Quantity.ofInt, hround, Rat.add_zero, hround]

/-- An integer below `2 ^ 53` is its own nearest integer. -/
theorem nearest_intCast {n : Int} (hn : n.natAbs < 2 ^ 53) : nearest (n : Rat) = .ok n := by
  rw [nearest, roundHalfEven_intCast, if_pos (by omega)]

/-- **A number of milliseconds or microseconds is added exactly** while its microseconds stay below
`2 ^ 53`. -/
theorem add?_small {d : Duration} {n : Int} {unit : TimeUnit} (hunit : unit.isWhole = false)
    (hn : (n * unit.scale).natAbs < 2 ^ 53) (hfits : Fits64 (d.micros + n * unit.scale)) :
    d.add? (.ofInt n) unit = .ok (d.plus n unit) := by
  have hadd : d.addMicros (n * unit.scale) =
      .ok { d with micros := d.micros + n * unit.scale } := by
    rw [addMicros, fit_of_fits hfits]
    rfl
  cases unit with
  | microsecond =>
    simp only [TimeUnit.scale, Int.mul_one] at *
    rw [add?, double_ofInt hn, nearest_intCast hn, ok_bind, hadd]
    simp [plus, TimeUnit.scale]
  | millisecond =>
    simp only [TimeUnit.scale] at *
    have hscaled : (n : Rat) * 1000 = ((n * 1000 : Int) : Rat) := by
      rw [Rat.intCast_mul]
      rfl
    rw [add?, double_ofInt (by omega), hscaled, Binary64.round_intCast hn, nearest_intCast hn,
      ok_bind, hadd]
    rfl
  | _ => cases hunit

/-- Small units do not lengthen a duration. -/
theorem totalSeconds_plus_small (d : Duration) (n : Int) {unit : TimeUnit}
    (hunit : unit.isWhole = false) : (d.plus n unit).totalSeconds = d.totalSeconds := by
  cases unit with
  | microsecond => rfl
  | millisecond => rfl
  | _ => cases hunit

end Duration

namespace Span

open Duration DurationPhrase

/-- **Microseconds on their own become the whole seconds in them.** -/
theorem ofCalendar_micros {m : Int} (hm : m.natAbs ≤ 1000000000000000) :
    ofCalendar ⟨0, 0, .ofInt m⟩ = .seconds (.ofInt (Int.tdiv m 1000000)) := by
  have hmicros : (Int64.ofInt m).toInt = m := Int64.toInt_ofInt_of_le (by omega) (by omega)
  have hcut := cut_spec (u := 1000000) (by decide) m
  have hword : word? (Int.tdiv m 1000000) = some (.ofInt (Int.tdiv m 1000000)) :=
    if_pos (by omega)
  have hint := toInt_of_word? hword
  have hcalendar : microsPerCalendar (Int.tdiv (0 : Int32).toInt 12) (Int.tmod (0 : Int32).toInt 12)
      (0 : Int32).toInt = 0 := by decide
  have htotal : microsPerCalendar (Int.tdiv (0 : Int32).toInt 12) (Int.tmod (0 : Int32).toInt 12)
      (0 : Int32).toInt + (Int64.ofInt m).toInt = m := by rw [hcalendar, hmicros, Int.zero_add]
  rw [CalendarSpan.ofCalendar_of_total (c := ⟨0, 0, .ofInt m⟩) htotal, hword]
  exact ofRaw_eq_seconds (by omega)

/-- No whole second is in fewer than a million microseconds. -/
theorem ofCalendar_micros_eq_zero_iff {m : Int} (hm : m.natAbs ≤ 1000000000000000) :
    ofCalendar ⟨0, 0, .ofInt m⟩ = .zero ↔ m.natAbs < 1000000 := by
  have hcut := cut_spec (u := 1000000) (by decide) m
  have hint : (Int32.ofInt (Int.tdiv m 1000000)).toInt = Int.tdiv m 1000000 :=
    Word.toInt_ofInt_of_fits (by omega) (by omega)
  have hzero : (0 : Int32).toInt = 0 := rfl
  rw [ofCalendar_micros hm, zero, Span.seconds.injEq, ← Int32.toInt_inj, hint, hzero]
  omega

variable {n : Int} {unit : TimeUnit} {w : List Char}

/-- **A number of a small unit is read as the empty span, whatever seconds are in it.**  The
duration of the text has its microseconds, but a span made from a duration leaves them aside; a
calendar span of as many microseconds becomes the span of the whole seconds in them.  The two agree
exactly below one second. -/
theorem read_small (hw : SpellsUnit w unit) (hunit : unit.isWhole = false)
    (hn : n.natAbs ≤ 1000000000000) :
    Duration.read (Numeral.writeInt n ++ ' ' :: w) =
        .ok (.delta { micros := n * unit.scale }) ∧
      read (.ofList (Numeral.writeInt n ++ ' ' :: w)) = .ok .zero ∧
      ofCalendar ⟨0, 0, .ofInt (n * unit.scale)⟩ =
        .seconds (.ofInt (Int.tdiv (n * unit.scale) 1000000)) ∧
      (read (.ofList (Numeral.writeInt n ++ ' ' :: w)) =
          .ok (ofCalendar ⟨0, 0, .ofInt (n * unit.scale)⟩) ↔
        (n * unit.scale).natAbs < 1000000) := by
  have hmicros : (n * unit.scale).natAbs ≤ 1000000000000000 := by
    cases unit with
    | microsecond | millisecond =>
      simp only [TimeUnit.scale]
      omega
    | _ => cases hunit
  have hadd : Duration.zero.add? (.ofInt n) unit = .ok (Duration.zero.plus n unit) := by
    refine add?_small hunit (by omega) ⟨?_, ?_⟩
    all_goals
      simp only [Duration.zero]
      omega
  have hphrase := read_of_adds (adds_number_unit (Quantity.isNumber_writeInt (by omega)) hw hadd)
  have hread : read (.ofList (Numeral.writeInt n ++ ' ' :: w)) = .ok .zero := by
    rw [← String.toList_ofList (l := Numeral.writeInt n ++ ' ' :: w)] at hphrase
    rw [read_of_delta (read_of_phrase hphrase), totalSeconds_plus_small _ _ hunit]
    rfl
  refine ⟨?_, hread, ofCalendar_micros hmicros, ?_⟩
  · rw [read_of_phrase hphrase]
    cases unit with
    | microsecond | millisecond => simp [plus, Duration.zero]
    | _ => cases hunit
  · rw [hread, Except.ok.injEq, eq_comm, ofCalendar_micros_eq_zero_iff hmicros]

/-- A second and a half of milliseconds is read as the empty span, and so is a second of
microseconds; as calendar spans both are one second. -/
theorem read_small_second :
    read "1500 ms" = .ok .zero ∧ ofCalendar ⟨0, 0, 1500000⟩ = .seconds 1 ∧
      read "1000000 us" = .ok .zero ∧ ofCalendar ⟨0, 0, 1000000⟩ = .seconds 1 := by
  have hmilli : SpellsUnit "ms".toList .millisecond := by decide
  have hmicro : SpellsUnit "us".toList .microsecond := by decide
  obtain ⟨-, hms, hmsCalendar, -⟩ := read_small (n := 1500) hmilli rfl (by decide)
  obtain ⟨-, hus, husCalendar, -⟩ := read_small (n := 1000000) hmicro rfl (by decide)
  exact ⟨hms, hmsCalendar, hus, husCalendar⟩

end Span

end Horology
