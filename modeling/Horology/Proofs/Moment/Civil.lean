import Horology.Moment.Basic
import Horology.Proofs.Word

/-!
# The moment of a civil reading

The second of a civil reading is computed in wrapping 32-bit arithmetic, and the sign of the result
is held against the day to find out whether it has wrapped.  This module shows that the arithmetic
loses nothing: a reading within the admitted bounds names the moment of its exact second, or the
invalid one where that second is not finite.

## Main definitions

* `Moment.isFinite_iff`, `ofRaw_eq_seconds` — finite moments by the number they hold.
* `Moment.Names` — that a reading at an offset names a finite moment.
* `Moment.InBounds` — the bounds of the fields of a reading.
* `Moment.ofCivil_eq`, `Moment.ofCivil_exact` — the moment of a reading, by its exact second.
* `Moment.isFinite_or_eq_invalid_ofCivil` — that it is never a reserved word under another name.
-/

namespace Horology.Moment

theorem toInt_beginningRaw : beginningRaw.toInt = -2147483648 := rfl

theorem toInt_endingRaw : endingRaw.toInt = 2147483644 := rfl

/-- A moment is finite if its word lies strictly between the first two reserved ones. -/
theorem isFinite_iff {t : Moment} :
    t.isFinite = true ↔ -2147483648 < t.raw.toInt ∧ t.raw.toInt < 2147483644 := by
  simp only [isFinite, Bool.and_eq_true, decide_eq_true_eq, Int32.lt_iff_toInt_lt,
    toInt_beginningRaw, toInt_endingRaw]

/-- The moment of a word between the first two reserved ones holds the word as a number. -/
theorem ofRaw_eq_seconds {n : Int32} (h0 : -2147483648 < n.toInt) (h1 : n.toInt < 2147483644) :
    ofRaw n = .seconds n := by
  have hne (m : Int32) (hm : n.toInt ≠ m.toInt) : n ≠ m := by
    rintro rfl
    exact hm rfl
  have hbeginning := toInt_beginningRaw
  have hending := toInt_endingRaw
  have hinvalid : invalidRaw.toInt = 2147483646 := rfl
  rw [ofRaw, if_neg (hne _ (by omega)), if_neg (hne _ (by omega)), if_neg (hne _ (by omega))]

/-- A finite moment holds its word as a number. -/
theorem ofRaw_raw_of_isFinite {t : Moment} (h : t.isFinite = true) : ofRaw t.raw = t := by
  obtain ⟨h0, h1⟩ := isFinite_iff.1 h
  cases t with
  | seconds n => exact ofRaw_eq_seconds h0 h1
  | beginning => cases h
  | ending => cases h
  | invalid => cases h

theorem eq_seconds_of_isFinite {t : Moment} (h : t.isFinite = true) : t = .seconds t.raw := by
  obtain ⟨h0, h1⟩ := isFinite_iff.1 h
  rw [← ofRaw_eq_seconds h0 h1, ofRaw_raw_of_isFinite h]

theorem isInvalid_of_isFinite {t : Moment} (h : t.isFinite = true) : t.isInvalid = false := by
  refine Bool.eq_false_iff.2 fun hinvalid => ?_
  have hword : t.raw = invalidRaw := beq_iff_eq.1 hinvalid
  rw [isFinite, hword] at h
  cases h

/-- That a reading at an offset names a finite moment: its fields are admitted, its day is one of
those that moments have, and its exact second lies between the first two reserved words. -/
structure Names (c : Civil) (east : Int) : Prop where
  admitted : admits c = true
  day : firstDay ≤ dayNumber c.year c.month c.day ∧ dayNumber c.year c.month c.day ≤ lastDay
  second : -2147483648 < c.count - east ∧ c.count - east < 2147483644

theorem names_iff {c : Civil} {east : Int} :
    Names c east ↔ admits c = true ∧
      (firstDay ≤ dayNumber c.year c.month c.day ∧ dayNumber c.year c.month c.day ≤ lastDay) ∧
        -2147483648 < c.count - east ∧ c.count - east < 2147483644 :=
  ⟨fun h => ⟨h.admitted, h.day, h.second⟩, fun h => ⟨h.1, h.2.1, h.2.2⟩⟩

instance (c : Civil) (east : Int) : Decidable (Names c east) := decidable_of_iff' _ names_iff

/-- The bounds of the fields of a reading that moments admit.  A day may be one that its month does
not have, and the hour 24 stands for midnight alone. -/
structure InBounds (c : Civil) : Prop where
  year : 1901 ≤ c.year ∧ c.year ≤ 2038
  month : 1 ≤ c.month ∧ c.month ≤ 12
  day : 1 ≤ c.day ∧ c.day ≤ 31
  hour : 0 ≤ c.hour ∧ c.hour ≤ 24
  midnight : c.hour = 24 → c.minute = 0 ∧ c.second = 0
  minute : 0 ≤ c.minute ∧ c.minute ≤ 59
  second : 0 ≤ c.second ∧ c.second ≤ 60

theorem admits_iff {c : Civil} : admits c = true ↔ InBounds c := by
  simp only [admits, Bool.and_eq_true, Bool.not_eq_true', Bool.and_eq_false_iff,
    beq_eq_false_iff_ne, Bool.or_eq_false_iff, decide_eq_true_eq, decide_eq_false_iff_not]
  constructor
  · rintro ⟨⟨⟨⟨⟨⟨hyear, hmonth⟩, hday⟩, hhour⟩, hmidnight⟩, hminute⟩, hsecond⟩
    exact ⟨hyear, hmonth, hday, hhour, by omega, hminute, hsecond⟩
  · rintro ⟨hyear, hmonth, hday, hhour, hmidnight, hminute, hsecond⟩
    exact ⟨⟨⟨⟨⟨⟨hyear, hmonth⟩, hday⟩, hhour⟩, by omega⟩, hminute⟩, hsecond⟩

/-- The clock time of an admitted reading lies within a day and its leap second. -/
theorem clock_of_admits {c : Civil} (h : admits c = true) :
    0 ≤ c.hour * 3600 + c.minute * 60 + c.second ∧
      c.hour * 3600 + c.minute * 60 + c.second ≤ 86400 := by
  obtain ⟨-, -, -, hhour, hmidnight, hminute, hsecond⟩ := admits_iff.1 h
  omega

/-- The wrapped second is the exact one, reduced to a word: reducing commutes with every step. -/
theorem wrappedSecond_eq (c : Civil) (east : Int) :
    wrappedSecond (dayNumber c.year c.month c.day) c east = .ofInt (c.count - east) := by
  have hcount : c.count - east =
      ((dayNumber c.year c.month c.day * 24 + c.hour) * 60 + c.minute) * 60 + c.second - east := by
    rw [Civil.count]
    omega
  simp only [hcount, wrappedSecond, Int32.ofInt_sub, Int32.ofInt_add, Int32.ofInt_mul]
  rfl

/-- A second has the wrong sign for its day exactly if it has left the range of words. -/
theorem hasWrapped_iff {day x : Int} (hday : firstDay ≤ day ∧ day ≤ lastDay)
    (hx : day * 86400 - 86400 < x ∧ x < day * 86400 + 172800) :
    hasWrapped day (.ofInt x) = true ↔ ¬ (-2147483648 ≤ x ∧ x ≤ 2147483647) := by
  simp only [hasWrapped, Bool.or_eq_true, Bool.and_eq_true, decide_eq_true_eq,
    Int32.lt_iff_toInt_lt, Int32.toInt_zero]
  simp only [firstDay, lastDay] at hday ⊢
  by_cases hlo : x < -2147483648
  · rw [Word.toInt_ofInt_below (by omega) hlo]
    omega
  · by_cases hhi : 2147483647 < x
    · rw [Word.toInt_ofInt_above hhi (by omega)]
      omega
    · rw [Word.toInt_ofInt_of_fits (by omega) (by omega)]
      omega

/-- **The moment of a reading is that of its exact second.**  The reading must be admitted, its day
be one that moments have, and the second be finite; otherwise the moment is invalid. -/
theorem ofCivil_eq (c : Civil) {east : Int} (heast : east.natAbs < 86400) :
    ofCivil c east =
      if Names c east then .seconds (.ofInt (c.count - east)) else .invalid := by
  have hcount : c.count = dayNumber c.year c.month c.day * 86400
      + (c.hour * 3600 + c.minute * 60 + c.second) := by
    simp only [Civil.count]
    omega
  simp only [ofCivil, names_iff, wrappedSecond_eq]
  by_cases hadmits : admits c = true
  · by_cases hday : firstDay ≤ dayNumber c.year c.month c.day ∧
        dayNumber c.year c.month c.day ≤ lastDay
    · have hclock := clock_of_admits hadmits
      have hwrapped := hasWrapped_iff (x := c.count - east) hday (by omega)
      generalize dayNumber c.year c.month c.day = day at *
      generalize c.count - east = x at *
      simp only [hadmits, hday, and_self, decide_true, Bool.and_self, Bool.not_true,
        Bool.false_eq_true, if_false, true_and]
      by_cases hfits : -2147483648 ≤ x ∧ x ≤ 2147483647
      · have hword := Word.toInt_ofInt_of_fits hfits.1 hfits.2
        rw [if_neg (fun h => hwrapped.1 h hfits)]
        by_cases hfinite : -2147483648 < x ∧ x < 2147483644
        · have hseconds : ofRaw (.ofInt x) = .seconds (.ofInt x) :=
            ofRaw_eq_seconds (by omega) (by omega)
          rw [if_pos (isFinite_iff.2 (by rw [raw_ofRaw]; omega)), if_pos hfinite, hseconds]
        · have hraw : ¬ (ofRaw (.ofInt x)).isFinite = true := by
            rw [isFinite_iff, raw_ofRaw]
            omega
          rw [if_neg hraw, if_neg hfinite]
      · rw [if_pos (hwrapped.2 hfits), if_neg (by omega)]
    · have hout : (!(decide (firstDay ≤ dayNumber c.year c.month c.day)
          && decide (dayNumber c.year c.month c.day ≤ lastDay))) = true := by
        simp only [Bool.not_eq_true', Bool.and_eq_false_iff, decide_eq_false_iff_not]
        omega
      rw [if_neg (by simp [hadmits]), if_pos hout, if_neg (fun h => hday h.2.1)]
  · rw [if_pos (by simp [hadmits]), if_neg (fun h => hadmits h.1)]

/-- **Neither the wrapping of words nor the test of its sign costs a reading.**  A reading with
fields within the bounds, a day that moments have and a finite second has the moment of just that
second, and every other reading the invalid one. -/
theorem ofCivil_exact (c : Civil) {east : Int} (heast : east.natAbs < 86400) :
    let day := dayNumber c.year c.month c.day
    let second := day * 86400 + c.hour * 3600 + c.minute * 60 + c.second - east
    let named := InBounds c ∧ (-24856 ≤ day ∧ day ≤ 24854) ∧
      -2147483648 < second ∧ second < 2147483644
    (∀ n : Int32, ofCivil c east = .seconds n ↔ named ∧ n.toInt = second) ∧
      (ofCivil c east = .invalid ↔ ¬ named) := by
  intro day second named
  have hnamed : named ↔ Names c east := by
    rw [names_iff, admits_iff]
    rfl
  rw [ofCivil_eq c heast]
  by_cases h : Names c east
  · have hfinite : -2147483648 < second ∧ second < 2147483644 := h.second
    have hword : (Int32.ofInt second).toInt = second :=
      Word.toInt_ofInt_of_fits (by omega) (by omega)
    rw [if_pos h]
    refine ⟨fun n => ?_, by simpa using hnamed.2 h⟩
    constructor
    · intro heq
      obtain rfl : Int32.ofInt second = n := seconds.inj heq
      exact ⟨hnamed.2 h, hword⟩
    · rintro ⟨-, hn⟩
      rw [← Int32.ofInt_toInt n, hn]
      rfl
  · rw [if_neg h]
    refine ⟨fun n => ⟨nofun, fun hn => absurd (hnamed.1 hn.1) h⟩, ?_⟩
    exact iff_of_true rfl (mt hnamed.1 h)

/-- Four hours west of UTC the last day of moments has the last finite second.  Fifteen hours west
its sum wraps, and the reading names no moment. -/
theorem ofCivil_exact_last_day :
    ofCivil ⟨2038, 1, 18, 23, 14, 3⟩ (-14400) = .seconds 2147483643 ∧
      ofCivil ⟨2038, 1, 18, 23, 0, 0⟩ (-54000) = .invalid := by
  have hbounds : InBounds ⟨2038, 1, 18, 23, 14, 3⟩ := by constructor <;> decide
  constructor
  · exact ((ofCivil_exact _ (by decide)).1 _).2 ⟨⟨hbounds, by decide, by decide⟩, by decide⟩
  · refine (ofCivil_exact _ (by decide)).2.2 fun h => ?_
    exact absurd h.2.2.2 (by decide)

/-- A reading that names a finite moment has its second. -/
theorem count_of_ofCivil {c : Civil} {east : Int} (heast : east.natAbs < 86400) {n : Int32}
    (h : ofCivil c east = .seconds n) : c.count - east = n.toInt := by
  rw [ofCivil_eq c heast] at h
  split at h
  · next hnames =>
    have hsecond := hnames.second
    obtain rfl := Moment.seconds.inj h
    exact (Word.toInt_ofInt_of_fits (by omega) (by omega)).symm
  · cases h

/-- A reading names a finite moment or the invalid one, at any offset. -/
theorem isFinite_or_eq_invalid_ofCivil (c : Civil) (east : Int) :
    (ofCivil c east).isFinite = true ∨ ofCivil c east = .invalid := by
  unfold ofCivil
  dsimp only
  split
  · exact .inr rfl
  · split
    · exact .inr rfl
    · split
      · exact .inr rfl
      · split
        · next hfinite => exact .inl hfinite
        · exact .inr rfl

end Horology.Moment
