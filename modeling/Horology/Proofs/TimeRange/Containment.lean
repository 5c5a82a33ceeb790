import Horology.Proofs.TimeRange
import Mathlib.Data.Set.Basic

/-!
# Ranges as sets

A valid range in order stands for the set of moments within it.  Containment of ranges is inclusion
of these sets, and ranges overlap if the sets meet: since both endpoints of a range lie within it,
comparing endpoints comes to the same as comparing sets, although the invalid moment leaves a hole
among the words and what has no place in the order belongs to no set.

## Main definitions

* `TimeRange.moments` — the moments within a range.
* `TimeRange.MeansSets` — that the predicates of two ranges are those of their sets.
* `TimeRange.predicates_mean_sets` — that they are, and what follows.
-/

namespace Horology.TimeRange

/-- The moments within a range, invalid ones left out. -/
def moments (r : TimeRange) : Set Moment := {t | t.isInvalid = false ∧ r.containsMoment t = true}

/-- That containment, overlap and sameness of two ranges are inclusion, meeting and mutual inclusion
of their sets. -/
structure MeansSets (r q : TimeRange) : Prop where
  contains : r.contains q = true ↔ q.moments ⊆ r.moments
  overlaps : r.overlaps q = true ↔ (r.moments ∩ q.moments).Nonempty
  same : r.same q = true ↔ r.contains q = true ∧ q.contains r = true

variable {r q p : TimeRange} {t : Moment}

/-! ## The predicates in words -/

theorem mem_moments_iff (h : r.isValid = true) :
    t ∈ r.moments ↔ t.isInvalid = false ∧ r.first.raw.toInt ≤ t.raw.toInt ∧
      t.raw.toInt ≤ r.last.raw.toInt := by
  obtain ⟨hfirst, hlast⟩ := isInvalid_of_isValid h
  refine and_congr_right fun ht => ?_
  rw [containsMoment, h, ht, Bool.and_eq_true, Bool.and_eq_true, decide_eq_true_eq,
    decide_eq_true_eq, Moment.le_iff_of_valid hfirst ht, Moment.le_iff_of_valid ht hlast]
  simp

theorem contains_iff :
    r.contains q = true ↔ (r.isValid = true ∧ q.isValid = true) ∧
      r.first.raw.toInt ≤ q.first.raw.toInt ∧ q.last.raw.toInt ≤ r.last.raw.toInt := by
  simp only [contains, Bool.and_eq_true, decide_eq_true_eq, and_assoc]
  refine and_congr_right fun hr => and_congr_right fun hq => ?_
  obtain ⟨hfirst, hlast⟩ := isInvalid_of_isValid hr
  obtain ⟨hfirst', hlast'⟩ := isInvalid_of_isValid hq
  rw [Moment.le_iff_of_valid hfirst hfirst', Moment.le_iff_of_valid hlast' hlast]

theorem overlaps_iff :
    r.overlaps q = true ↔ (r.isValid = true ∧ q.isValid = true) ∧
      q.first.raw.toInt ≤ r.last.raw.toInt ∧ r.first.raw.toInt ≤ q.last.raw.toInt := by
  simp only [overlaps, Bool.and_eq_true, Bool.not_eq_true', Bool.or_eq_false_iff,
    decide_eq_false_iff_not, and_assoc]
  refine and_congr_right fun hr => and_congr_right fun hq => ?_
  obtain ⟨hfirst, hlast⟩ := isInvalid_of_isValid hr
  obtain ⟨hfirst', hlast'⟩ := isInvalid_of_isValid hq
  rw [Moment.lt_iff_of_valid hlast hfirst', Moment.lt_iff_of_valid hlast' hfirst, Int.not_lt,
    Int.not_lt]

theorem same_iff :
    r.same q = true ↔ (r.isValid = true ∧ q.isValid = true) ∧
      r.first.raw.toInt = q.first.raw.toInt ∧ r.last.raw.toInt = q.last.raw.toInt := by
  simp only [same, Bool.and_eq_true, Moment.beq_iff, Int32.toInt_inj, and_assoc]

/-! ## The predicates as sets -/

/-- Both endpoints of a valid range in order lie within it. -/
theorem IsOrdered.endpoints_mem (h : r.IsOrdered) (hvalid : r.isValid = true) :
    r.first ∈ r.moments ∧ r.last ∈ r.moments := by
  obtain ⟨hfirst, hlast⟩ := isInvalid_of_isValid hvalid
  have hle := h.toInt_le hvalid
  exact ⟨(mem_moments_iff hvalid).2 ⟨hfirst, Int.le_refl _, hle⟩,
    (mem_moments_iff hvalid).2 ⟨hlast, hle, Int.le_refl _⟩⟩

theorem contains_iff_subset (hr : r.isValid = true) (hq : q.isValid = true) (h : q.IsOrdered) :
    r.contains q = true ↔ q.moments ⊆ r.moments := by
  rw [contains_iff]
  constructor
  · rintro ⟨-, hfirst, hlast⟩ t ht
    obtain ⟨hvalid, hge, hle⟩ := (mem_moments_iff hq).1 ht
    exact (mem_moments_iff hr).2 ⟨hvalid, Int.le_trans hfirst hge, Int.le_trans hle hlast⟩
  · intro hsub
    obtain ⟨hfirst, hlast⟩ := h.endpoints_mem hq
    obtain ⟨-, hge, -⟩ := (mem_moments_iff hr).1 (hsub hfirst)
    obtain ⟨-, -, hle⟩ := (mem_moments_iff hr).1 (hsub hlast)
    exact ⟨⟨hr, hq⟩, hge, hle⟩

theorem overlaps_iff_meet (hr : r.isValid = true) (hq : q.isValid = true) (h : r.IsOrdered)
    (h' : q.IsOrdered) : r.overlaps q = true ↔ (r.moments ∩ q.moments).Nonempty := by
  rw [overlaps_iff]
  constructor
  · rintro ⟨-, hbegun, hbegun'⟩
    -- The later one of the two beginnings lies within both.
    by_cases hle : r.first.raw.toInt ≤ q.first.raw.toInt
    · obtain ⟨hvalid, -⟩ := isInvalid_of_isValid hq
      exact ⟨q.first, (mem_moments_iff hr).2 ⟨hvalid, hle, hbegun⟩, (h'.endpoints_mem hq).1⟩
    · obtain ⟨hvalid, -⟩ := isInvalid_of_isValid hr
      exact ⟨r.first, (h.endpoints_mem hr).1, (mem_moments_iff hq).2 ⟨hvalid, by omega, hbegun'⟩⟩
  · rintro ⟨t, ht, ht'⟩
    obtain ⟨-, hge, hle⟩ := (mem_moments_iff hr).1 ht
    obtain ⟨-, hge', hle'⟩ := (mem_moments_iff hq).1 ht'
    exact ⟨⟨hr, hq⟩, Int.le_trans hge' hle, Int.le_trans hge hle'⟩

/-- Ranges are the same if each contains the other. -/
theorem same_iff_contains :
    r.same q = true ↔ r.contains q = true ∧ q.contains r = true := by
  rw [same_iff, contains_iff, contains_iff]
  constructor
  · rintro ⟨⟨hr, hq⟩, hfirst, hlast⟩
    exact ⟨⟨⟨hr, hq⟩, hfirst.le, hlast.ge⟩, ⟨hq, hr⟩, hfirst.ge, hlast.le⟩
  · rintro ⟨⟨hvalid, hfirst, hlast⟩, -, hfirst', hlast'⟩
    exact ⟨hvalid, Int.le_antisymm hfirst hfirst', Int.le_antisymm hlast' hlast⟩

/-- **Range predicates mean what sets mean.**  Of two valid ranges in order, one contains the other
if every moment within that lies within it, the two overlap if some moment lies within both, and
they are the same if each contains the other.  With an invalid range none of this holds, nor does
anything lie within an invalid range, nor an invalid moment within any.  Containment is thus a
partial order up to sameness, overlap is symmetric, and what is contained overlaps. -/
theorem predicates_mean_sets :
    (∀ r q : TimeRange, r.isValid = true → q.isValid = true → r.IsOrdered → q.IsOrdered →
      MeansSets r q) ∧
    (∀ r q : TimeRange, r.isValid = false ∨ q.isValid = false →
      r.contains q = false ∧ r.overlaps q = false ∧ r.same q = false) ∧
    (∀ (r : TimeRange) (t : Moment), r.isValid = false ∨ t.isInvalid = true →
      r.containsMoment t = false) ∧
    (∀ r : TimeRange, r.isValid = true → r.contains r = true) ∧
    (∀ r q p : TimeRange, r.contains q = true → q.contains p = true → r.contains p = true) ∧
    (∀ r q : TimeRange, r.overlaps q = q.overlaps r) ∧
    ∀ r q : TimeRange, q.IsOrdered → r.contains q = true → r.overlaps q = true := by
  refine ⟨?_, ?_, ?_, ?_, ?_, ?_, ?_⟩
  · intro r q hr hq h h'
    exact ⟨contains_iff_subset hr hq h', overlaps_iff_meet hr hq h h', same_iff_contains⟩
  · rintro r q (h | h) <;> simp [contains, overlaps, same, h]
  · rintro r t (h | h) <;> simp [containsMoment, h]
  · intro r h
    exact contains_iff.2 ⟨⟨h, h⟩, Int.le_refl _, Int.le_refl _⟩
  · intro r q p hrq hqp
    obtain ⟨⟨hr, -⟩, hfirst, hlast⟩ := contains_iff.1 hrq
    obtain ⟨⟨-, hp⟩, hfirst', hlast'⟩ := contains_iff.1 hqp
    exact contains_iff.2 ⟨⟨hr, hp⟩, Int.le_trans hfirst hfirst', Int.le_trans hlast' hlast⟩
  · intro r q
    rw [Bool.eq_iff_iff, overlaps_iff, overlaps_iff, and_comm (a := r.isValid = true),
      and_comm (a := q.first.raw.toInt ≤ _)]
  · intro r q h hcontains
    obtain ⟨hvalid, hfirst, hlast⟩ := contains_iff.1 hcontains
    have hle := h.toInt_le hvalid.2
    exact overlaps_iff.2 ⟨hvalid, Int.le_trans hle hlast, Int.le_trans hfirst hle⟩

/-- Ranges that touch in one moment overlap there, and a moment further they do not; the range that
ends with the greatest word contains the one that ends with the end of time, whatever lies between
the two. -/
theorem predicates_mean_sets_touching :
    (between (.seconds 0) (.seconds 100)).MeansSets (between (.seconds 100) (.seconds 200)) ∧
    (∃ t, t ∈ (between (.seconds 0) (.seconds 100)).moments ∩
      (between (.seconds 100) (.seconds 200)).moments) ∧
    ¬ ((between (.seconds 0) (.seconds 100)).moments ∩
      (between (.seconds 101) (.seconds 200)).moments).Nonempty ∧
    (between .beginning .ending).moments ⊆ (between .beginning (.seconds 2147483647)).moments := by
  obtain ⟨hmeans, -⟩ := predicates_mean_sets
  have hsets (a b c d : Moment) (h : (between a b).isValid = true)
      (h' : (between c d).isValid = true) : (between a b).MeansSets (between c d) :=
    hmeans _ _ h h' (isOrdered_between a b) (isOrdered_between c d)
  have htouching := hsets (.seconds 0) (.seconds 100) (.seconds 100) (.seconds 200) (by decide)
    (by decide)
  have hapart := hsets (.seconds 0) (.seconds 100) (.seconds 101) (.seconds 200) (by decide)
    (by decide)
  have hends := hsets .beginning (.seconds 2147483647) .beginning .ending (by decide) (by decide)
  refine ⟨htouching, htouching.overlaps.1 (by decide), ?_, hends.contains.1 (by decide)⟩
  rw [← hapart.overlaps]
  decide

end Horology.TimeRange
