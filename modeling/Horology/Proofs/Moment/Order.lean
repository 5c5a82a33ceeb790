import Horology.Moment.Basic

/-!
# The order of moments

Valid moments are in the order of their words, and an invalid one is after all of them and equal to
any other invalid one.

## Main definitions

* `Moment.le_iff`, `lt_iff`, `beq_iff` — order and equality by the words of moments.
* `earlier_le_later` — two moments sorted.
-/

namespace Horology

namespace Moment

theorem le_iff {a b : Moment} :
    a ≤ b ↔ b.isInvalid = true ∨ a.isInvalid = false ∧ a.raw.toInt ≤ b.raw.toInt := by
  show (order a b).isLE = true ↔ _
  unfold order
  cases a.isInvalid <;> cases b.isInvalid <;> simp [Int.isLE_compare]

theorem lt_iff {a b : Moment} :
    a < b ↔ a.isInvalid = false ∧ (b.isInvalid = true ∨ a.raw.toInt < b.raw.toInt) := by
  show order a b = .lt ↔ _
  unfold order
  cases a.isInvalid <;> cases b.isInvalid <;> simp [Int.compare_eq_lt]

/-- Moments other than the invalid one are in the order of their words. -/
theorem le_iff_of_valid {a b : Moment} (ha : a.isInvalid = false) (hb : b.isInvalid = false) :
    a ≤ b ↔ a.raw.toInt ≤ b.raw.toInt := by
  simp [le_iff, ha, hb]

theorem lt_iff_of_valid {a b : Moment} (ha : a.isInvalid = false) (hb : b.isInvalid = false) :
    a < b ↔ a.raw.toInt < b.raw.toInt := by
  simp [lt_iff, ha, hb]

/-- Moments are equal exactly if their words are. -/
theorem beq_iff {a b : Moment} : (a == b) = true ↔ a.raw = b.raw := by
  have hinvalid (t : Moment) : t.isInvalid = true ↔ t.raw = invalidRaw := beq_iff_eq
  show (order a b == .eq) = true ↔ _
  unfold order
  cases ha : a.isInvalid <;> cases hb : b.isInvalid
  case false.false => simp [Int32.toInt_inj]
  case true.true => simp [(hinvalid a).1 ha, (hinvalid b).1 hb]
  case false.true =>
    refine iff_of_false (by simp) fun heq => ?_
    rw [(hinvalid a).2 (heq.trans ((hinvalid b).1 hb))] at ha
    cases ha
  case true.false =>
    refine iff_of_false (by simp) fun heq => ?_
    rw [(hinvalid b).2 (heq.symm.trans ((hinvalid a).1 ha))] at hb
    cases hb

/-- A moment is equal to that of its word. -/
theorem ofRaw_raw_beq (t : Moment) : (ofRaw t.raw == t) = true := by
  rw [beq_iff, raw_ofRaw]

/-- The moment that is not later comes first. -/
theorem earlier_le_later (a b : Moment) : a.earlier b ≤ a.later b := by
  unfold earlier later
  by_cases h : b < a
  · rw [if_pos h, if_pos h, le_iff]
    obtain ⟨hb, ha | hlt⟩ := lt_iff.1 h
    · exact .inl ha
    · exact .inr ⟨hb, Int.le_of_lt hlt⟩
  · rw [if_neg h, if_neg h, le_iff]
    cases hb : b.isInvalid with
    | true => exact .inl rfl
    | false =>
      have hlt : ¬ (a.isInvalid = true ∨ b.raw.toInt < a.raw.toInt) :=
        fun hba => h (lt_iff.2 ⟨hb, hba⟩)
      rw [not_or, Bool.not_eq_true, Int.not_lt] at hlt
      exact .inr hlt

end Moment

end Horology
