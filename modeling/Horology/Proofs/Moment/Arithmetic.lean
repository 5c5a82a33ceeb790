import Horology.Proofs.Moment.Civil

/-!
# Moments plus and minus spans

A span is added to a moment in words, behind a guard that moves the bound by the span and not the
moment.  On the side of the span's sign that bound stays within the words, so the guard decides
about integers, and the sum is the exact one or the moment is invalid.  Taking a span off is adding
its opposite, which every valid span has.

## Main definitions

* `Span.opposite` — the span of the same length in the other direction.
* `Moment.ofSecond` — the moment of an exact second.
* `Moment.ExactBounds` — that the bounds of the two guards do not wrap.
* `Moment.add_sub_exact` — sums and differences are those of integers.
-/

namespace Horology

namespace Span

/-- The span of the same length in the other direction; the invalid span is its own opposite. -/
def opposite (s : Span) : Span := ofRaw (-s.raw)

/-- The opposite of a valid span has the opposite seconds. -/
theorem toInt_raw_opposite {s : Span} (hs : s.isValid = true) :
    s.opposite.raw.toInt = -s.raw.toInt := by
  rw [opposite, raw_ofRaw, Word.toInt_neg_of_fits (isValid_iff.1 hs)]

theorem isValid_opposite {s : Span} (hs : s.isValid = true) : s.opposite.isValid = true := by
  have hword := Word.toInt_mem s.raw
  rw [isValid_iff, toInt_raw_opposite hs]
  omega

end Span

namespace Moment

/-- The moment of an exact second; invalid unless it lies strictly between the words of the
beginning and of the end of time. -/
def ofSecond (x : Int) : Moment :=
  if -2147483648 < x ∧ x < 2147483644 then .seconds (.ofInt x) else .invalid

/-- That neither guard moves its bound out of the words: each bound is moved only on the side of the
span's sign that draws it in. -/
structure ExactBounds (n : Int32) : Prop where
  addBelowEnding : 0 < n → (endingRaw - n).toInt = endingRaw.toInt - n.toInt
  addAboveBeginning : n ≤ 0 → (beginningRaw - n).toInt = beginningRaw.toInt - n.toInt
  subAboveBeginning : 0 < n → (beginningRaw + n).toInt = beginningRaw.toInt + n.toInt
  subBelowEnding : n ≤ 0 → (endingRaw + n).toInt = endingRaw.toInt + n.toInt

variable {t : Moment} {s : Span} {w n : Int32}

/-! ## The guards -/

theorem exactBounds (hn : -2147483648 < n.toInt) : ExactBounds n := by
  have hword := Word.toInt_mem n
  have hbeginning := toInt_beginningRaw
  have hending := toInt_endingRaw
  constructor <;> simp only [Int32.lt_iff_toInt_lt, Int32.le_iff_toInt_le, Int32.toInt_zero] <;>
    intro hsign
  · exact Word.toInt_sub_of_fits (by omega) (by omega)
  · exact Word.toInt_sub_of_fits (by omega) (by omega)
  · exact Word.toInt_add_of_fits (by omega) (by omega)
  · exact Word.toInt_add_of_fits (by omega) (by omega)

/-- Behind its guard the sum of a finite moment's word and a span's lies between the bounds. -/
theorem canAdd_iff (hn : -2147483648 < n.toInt)
    (hw : -2147483648 < w.toInt ∧ w.toInt < 2147483644) :
    canAdd w n = true ↔ -2147483648 < w.toInt + n.toInt ∧ w.toInt + n.toInt < 2147483644 := by
  obtain ⟨hbelow, habove, -, -⟩ := exactBounds hn
  simp only [Int32.lt_iff_toInt_lt, Int32.le_iff_toInt_le, Int32.toInt_zero, toInt_beginningRaw,
    toInt_endingRaw] at hbelow habove
  simp only [canAdd, Bool.or_eq_true, Bool.and_eq_true, decide_eq_true_eq, Int32.lt_iff_toInt_lt,
    Int32.le_iff_toInt_le, Int32.toInt_zero]
  by_cases hsign : 0 < n.toInt
  · rw [hbelow hsign]
    omega
  · rw [habove (by omega)]
    omega

/-- The same for the difference. -/
theorem canSub_iff (hn : -2147483648 < n.toInt)
    (hw : -2147483648 < w.toInt ∧ w.toInt < 2147483644) :
    canSub w n = true ↔ -2147483648 < w.toInt - n.toInt ∧ w.toInt - n.toInt < 2147483644 := by
  obtain ⟨-, -, habove, hbelow⟩ := exactBounds hn
  simp only [Int32.lt_iff_toInt_lt, Int32.le_iff_toInt_le, Int32.toInt_zero, toInt_beginningRaw,
    toInt_endingRaw] at hbelow habove
  simp only [canSub, Bool.or_eq_true, Bool.and_eq_true, decide_eq_true_eq, Int32.lt_iff_toInt_lt,
    Int32.le_iff_toInt_le, Int32.toInt_zero]
  by_cases hsign : 0 < n.toInt
  · rw [habove hsign]
    omega
  · rw [hbelow (by omega)]
    omega

/-! ## Sums and differences -/

/-- A sum is that of the integers. -/
theorem add_eq (t : Moment) (s : Span) :
    t + s = if t.isFinite = true ∧ s.isValid = true then ofSecond (t.raw.toInt + s.raw.toInt)
      else .invalid := by
  show add t s = _
  by_cases hs : s.isValid = true
  · by_cases ht : t.isFinite = true
    · have hguard := canAdd_iff (Span.isValid_iff.1 hs) (isFinite_iff.1 ht)
      simp only [add, Span.seconds?_of_isValid hs, ht, hs, hguard, ofSecond, Bool.true_and,
        and_self, if_true, Int32.ofInt_add, Int32.ofInt_toInt]
    · simp [add, Span.seconds?_of_isValid hs, ht]
  · simp [add, Span.seconds?_of_not_isValid hs, hs]

/-- A difference is that of the integers. -/
theorem sub_eq (t : Moment) (s : Span) :
    t - s = if t.isFinite = true ∧ s.isValid = true then ofSecond (t.raw.toInt - s.raw.toInt)
      else .invalid := by
  show sub t s = _
  by_cases hs : s.isValid = true
  · by_cases ht : t.isFinite = true
    · have hguard := canSub_iff (Span.isValid_iff.1 hs) (isFinite_iff.1 ht)
      simp only [sub, Span.seconds?_of_isValid hs, ht, hs, hguard, ofSecond, Bool.true_and,
        and_self, if_true, Int32.ofInt_sub, Int32.ofInt_toInt]
    · simp [sub, Span.seconds?_of_isValid hs, ht]
  · simp [sub, Span.seconds?_of_not_isValid hs, hs]

/-- Taking a valid span off is adding its opposite. -/
theorem sub_eq_add_opposite (t : Moment) {s : Span} (hs : s.isValid = true) :
    t - s = t + s.opposite := by
  rw [sub_eq, add_eq, Span.toInt_raw_opposite hs, Int.sub_eq_add_neg]
  simp only [hs, Span.isValid_opposite hs]

/-- A finite sum has finite and valid parts, and its word is the exact sum. -/
theorem toInt_raw_add {t : Moment} {s : Span} (h : (t + s).isFinite = true) :
    t.isFinite = true ∧ s.isValid = true ∧ (t + s).raw.toInt = t.raw.toInt + s.raw.toInt := by
  rw [add_eq] at h ⊢
  split at h
  · next hparts =>
    rw [if_pos hparts]
    unfold ofSecond at h ⊢
    split at h
    · next hbounds =>
      rw [if_pos hbounds]
      exact ⟨hparts.1, hparts.2, Word.toInt_ofInt_of_fits (by omega) (by omega)⟩
    · cases h
  · cases h

/-- The moment of the second of a finite moment is that moment. -/
theorem ofSecond_toInt_raw {t : Moment} (ht : t.isFinite = true) : ofSecond t.raw.toInt = t := by
  rw [ofSecond, if_pos (isFinite_iff.1 ht), Int32.ofInt_toInt, ← eq_seconds_of_isFinite ht]

/-- Taking off what was added gives back the moment, if the sum is finite. -/
theorem add_sub_cancel_of_isFinite {t : Moment} {s : Span} (h : (t + s).isFinite = true) :
    t + s - s = t := by
  obtain ⟨ht, hs, hsum⟩ := toInt_raw_add h
  rw [sub_eq, if_pos ⟨h, hs⟩, hsum, Int.add_sub_cancel, ofSecond_toInt_raw ht]

/-- **Adding and taking off is exact.**  The sum of a finite moment and a valid span is the moment
of the exact second, which is invalid unless it lies strictly between the beginning and the end of
time, and the difference likewise; with any other moment or span both are invalid.  For a valid span
neither guard moves a bound out of the words, and taking the span off is adding its opposite.  What
is added to a finite sum can be taken off again. -/
theorem add_sub_exact (t : Moment) (s : Span) :
    (t + s = if t.isFinite = true ∧ s.isValid = true then ofSecond (t.raw.toInt + s.raw.toInt)
      else .invalid) ∧
    (t - s = if t.isFinite = true ∧ s.isValid = true then ofSecond (t.raw.toInt - s.raw.toInt)
      else .invalid) ∧
    (s.isValid = true → ExactBounds s.raw ∧ s.opposite.raw.toInt = -s.raw.toInt ∧
      t - s = t + s.opposite) ∧
    ((t + s).isFinite = true → t + s - s = t) :=
  ⟨add_eq t s, sub_eq t s,
    fun hs => ⟨exactBounds (Span.isValid_iff.1 hs), Span.toInt_raw_opposite hs,
      sub_eq_add_opposite t hs⟩,
    add_sub_cancel_of_isFinite⟩

/-- From the last finite second the longest negative span leads to the second -4, and back; the same
span the other way leads nowhere. -/
theorem add_sub_exact_last_second :
    let t : Moment := .seconds 2147483643
    let s : Span := .seconds (-2147483647)
    t + s = .seconds (-4) ∧ t - s = .invalid ∧ t - s = t + Span.seconds 2147483647 ∧
      t + s - s = t := by
  intro t s
  obtain ⟨hadd, hsub, hvalid, hback⟩ := add_sub_exact t s
  obtain ⟨-, -, hopposite⟩ := hvalid (by decide)
  exact ⟨hadd.trans (by decide), hsub.trans (by decide), hopposite.trans (by decide),
    hback (by decide)⟩

end Moment

end Horology
