import Horology.Moment.Conversion
import Horology.Proofs.Moment.Order
import Horology.Proofs.Moment.Text

/-!
# Moments and UTC timestamps

A timestamp in UTC becomes the moment of its whole second.  The way there leads through the fields
of a calendar reading and admits only days of which every second fits a word, so that the last
finite seconds cannot be reached.  Every moment but an invalid one has a timestamp in UTC, and
finite moments and the ends of time are in the order of their timestamps.

## Main definitions

* `Moment.year_ofWall_iff` — the seconds of the years that moments admit.
* `Moment.ofUtc_count` — the seconds that become moments.
* `Moment.instant` — the timestamp of a moment.
* `Moment.compare_instant` — the order of moments by their timestamps.
* `Moment.utc_correspondence` — the two conversions, each and one after the other.
-/

namespace Horology.Moment

/-! ## From timestamps to moments -/

/-- The years of an admitted reading. -/
theorem year_of_admits {c : Civil} (h : admits c = true) : 1901 ≤ c.year ∧ c.year ≤ 2038 := by
  simp only [admits, Bool.and_eq_true, decide_eq_true_eq] at h
  omega

/-- The calendar shows an admitted year exactly from the first second of 1901 to the last of
2038. -/
theorem year_ofWall_iff (u : Int) :
    (1901 ≤ (Civil.ofWall u).year ∧ (Civil.ofWall u).year ≤ 2038) ↔
      -2177452800 ≤ u ∧ u < 2177452800 := by
  refine ⟨fun hyear => ?_, year_ofWall⟩
  simp only [Civil.ofWall] at hyear
  by_cases hlate : -719468 ≤ u / 86400
  · have h1901 : dayNumber 1901 1 1 = -25202 := by decide
    have h2039 : dayNumber 2039 1 1 = 25202 := by decide
    have hfirst := Date.le_year_ofDayNumber_iff (n := u / 86400) (y := 1901) (by omega) (by decide)
    have hlast := Date.le_year_ofDayNumber_iff (n := u / 86400) (y := 2039) (by omega) (by decide)
    omega
  · have := Date.year_ofDayNumber_nonpos (n := u / 86400) (by omega)
    omega

/-- The moment of a reading in UTC, for any second at all. -/
theorem ofCivil_ofWall_zero (u : Int) :
    ofCivil (.ofWall u) 0 =
      if -2147483648 < u ∧ u < 2147472000 then .seconds (.ofInt u) else .invalid := by
  by_cases hu : -2177452800 ≤ u ∧ u < 2177452800
  · rw [ofCivil_of_wall hu (by decide), Int.sub_zero]
    refine if_congr ?_ rfl rfl
    simp only [firstDay, lastDay]
    omega
  · have hnames : ¬ Names (.ofWall u) 0 := fun h =>
      hu ((year_ofWall_iff u).1 (year_of_admits h.admitted))
    rw [ofCivil_eq _ (by decide), if_neg hnames, if_neg (by omega)]

/-- The seconds that become moments, whatever fraction follows them. -/
theorem ofUtc_count (u : Int) (nanos : Nat) :
    ofUtc (.count u nanos) =
      if -2147483647 ≤ u ∧ u ≤ 2147471999 then .ok (.seconds (.ofInt u))
      else .error .timestampOutOfRange := by
  rw [ofUtc, ofCivil_ofWall_zero]
  by_cases hu : -2147483648 < u ∧ u < 2147472000
  · have hword : (Int32.ofInt u).toInt = u := Word.toInt_ofInt_of_fits (by omega) (by omega)
    have hfinite : isFinite (.seconds (.ofInt u)) = true :=
      isFinite_iff.2 (by simp only [raw, hword]; omega)
    rw [if_pos hu, if_pos (by omega), finite, if_pos hfinite]
  · rw [if_neg hu, if_neg (by omega)]
    rfl

/-! ## From moments to timestamps -/

/-- The timestamp of a moment in UTC: its second, or the matching end. -/
def instant (t : Moment) : Timestamp :=
  if t.raw = beginningRaw then .beginning
  else if t.raw = endingRaw then .ending
  else .count t.raw.toInt 0

/-- Only an invalid moment has no timestamp. -/
theorem toUtc_eq (t : Moment) :
    t.toUtc = if t.isInvalid = true then .error .momentWithoutTimestamp else .ok t.instant := by
  have hinvalid : t.isInvalid = true ↔ t.raw = invalidRaw := beq_iff_eq
  simp only [hinvalid]
  unfold toUtc ofRaw instant
  by_cases hbeginning : t.raw = beginningRaw
  · rw [if_pos hbeginning, if_pos hbeginning, hbeginning]
    rfl
  · by_cases hending : t.raw = endingRaw
    · rw [hending]
      rfl
    · by_cases hword : t.raw = invalidRaw
      · rw [hword]
        rfl
      · rw [if_neg hbeginning, if_neg hending, if_neg hword, if_neg hword, if_neg hbeginning,
          if_neg hending]

/-- The timestamp of a moment becomes the moment of the same word, unless its day is the one that
cannot be reached. -/
theorem ofUtc_instant (t : Moment) :
    ofUtc t.instant =
      if 2147472000 ≤ t.raw.toInt ∧ t.raw ≠ endingRaw then .error .timestampOutOfRange
      else .ok (ofRaw t.raw) := by
  unfold instant
  by_cases hbeginning : t.raw = beginningRaw
  · rw [hbeginning]
    rfl
  · by_cases hending : t.raw = endingRaw
    · rw [hending]
      rfl
    · have hfirst : t.raw.toInt ≠ beginningRaw.toInt := fun h => hbeginning (Int32.toInt_inj.1 h)
      rw [toInt_beginningRaw] at hfirst
      have hword := Word.toInt_mem t.raw
      rw [if_neg hbeginning, if_neg hending, ofUtc_count]
      by_cases hlast : 2147472000 ≤ t.raw.toInt
      · rw [if_neg (by omega), if_pos ⟨hlast, hending⟩]
      · rw [if_pos (by omega), if_neg (fun h => hlast h.1), Int32.ofInt_toInt,
          ofRaw_eq_seconds (by omega) (by omega)]

/-! ## Order -/

/-- A moment that is finite or an end of time. -/
def IsFiniteOrEnd (t : Moment) : Prop :=
  t.isFinite = true ∨ t.raw = beginningRaw ∨ t.raw = endingRaw

instance (t : Moment) : Decidable t.IsFiniteOrEnd := inferInstanceAs (Decidable (_ ∨ _))

/-- The timestamp of such a moment, and where its word lies. -/
theorem instant_cases {t : Moment} (ht : t.IsFiniteOrEnd) :
    t.instant = .beginning ∧ t.raw.toInt = -2147483648 ∨
      t.instant = .ending ∧ t.raw.toInt = 2147483644 ∨
      t.instant = .count t.raw.toInt 0 ∧ -2147483648 < t.raw.toInt ∧ t.raw.toInt < 2147483644 := by
  rcases ht with ht | ht | ht
  · have hfinite := isFinite_iff.1 ht
    have hbeginning : t.raw ≠ beginningRaw := fun h => absurd (h ▸ hfinite.1) (by decide)
    have hending : t.raw ≠ endingRaw := fun h => absurd (h ▸ hfinite.2) (by decide)
    exact .inr (.inr ⟨by rw [instant, if_neg hbeginning, if_neg hending], hfinite⟩)
  · exact .inl ⟨by rw [instant, if_pos ht], by rw [ht]; rfl⟩
  · exact .inr (.inl ⟨by rw [instant, ht]; rfl, by rw [ht]; rfl⟩)

theorem isInvalid_of_isFiniteOrEnd {t : Moment} (ht : t.IsFiniteOrEnd) : t.isInvalid = false := by
  refine Bool.eq_false_iff.2 fun hinvalid => ?_
  have hword : t.raw.toInt = 2147483646 := congrArg Int32.toInt (beq_iff_eq.1 hinvalid)
  rcases instant_cases ht with h | h | h <;> omega

/-- Moments and their timestamps are in the same order. -/
theorem compare_instant {a b : Moment} (ha : a.IsFiniteOrEnd) (hb : b.IsFiniteOrEnd) :
    compare a.instant b.instant = compare a b := by
  have hmoments : compare a b = compare a.raw.toInt b.raw.toInt := by
    show order a b = _
    rw [order, isInvalid_of_isFiniteOrEnd ha, isInvalid_of_isFiniteOrEnd hb]
  rw [hmoments]
  show Timestamp.order _ _ = _
  rcases instant_cases ha with ⟨ha, hworda⟩ | ⟨ha, hworda⟩ | ⟨ha, hworda⟩
  · rcases instant_cases hb with ⟨hb, hwordb⟩ | ⟨hb, hwordb⟩ | ⟨hb, hwordb⟩ <;> rw [ha, hb]
    · exact (Int.compare_eq_eq.2 (by omega)).symm
    · exact (Int.compare_eq_lt.2 (by omega)).symm
    · exact (Int.compare_eq_lt.2 (by omega)).symm
  · rcases instant_cases hb with ⟨hb, hwordb⟩ | ⟨hb, hwordb⟩ | ⟨hb, hwordb⟩ <;> rw [ha, hb]
    · exact (Int.compare_eq_gt.2 (by omega)).symm
    · exact (Int.compare_eq_eq.2 (by omega)).symm
    · exact (Int.compare_eq_gt.2 (by omega)).symm
  · rcases instant_cases hb with ⟨hb, hwordb⟩ | ⟨hb, hwordb⟩ | ⟨hb, hwordb⟩ <;> rw [ha, hb]
    · exact (Int.compare_eq_gt.2 (by omega)).symm
    · exact (Int.compare_eq_lt.2 (by omega)).symm
    · exact Ordering.then_eq

/-- **Moments correspond to their timestamps in UTC.**  A timestamp becomes the moment of its whole
second if that is finite and of a day that moments have, and is out of range otherwise; an end
becomes the matching end.  Every moment that is not invalid has a timestamp, which becomes the
moment of the same word again, unless that lies behind the last day.  On finite moments and the ends
of time the order is that of the timestamps. -/
theorem utc_correspondence :
    (∀ (u : Int) (nanos : Nat), ofUtc (.count u nanos) =
      if -2147483647 ≤ u ∧ u ≤ 2147471999 then .ok (.seconds (.ofInt u))
      else .error .timestampOutOfRange) ∧
    (ofUtc .beginning = .ok .beginning ∧ ofUtc .ending = .ok .ending) ∧
    (∀ t : Moment, t.isInvalid = true → t.toUtc = .error .momentWithoutTimestamp) ∧
    (∀ t : Moment, t.isInvalid = false → t.toUtc = .ok t.instant ∧
      (ofUtc t.instant = if 2147472000 ≤ t.raw.toInt ∧ t.raw ≠ endingRaw
        then .error .timestampOutOfRange else .ok (ofRaw t.raw)) ∧ (ofRaw t.raw == t) = true) ∧
    (∀ a b : Moment, a.IsFiniteOrEnd → b.IsFiniteOrEnd →
      a.toUtc = .ok a.instant ∧ b.toUtc = .ok b.instant ∧
        compare a.instant b.instant = compare a b) := by
  have hvalid (t : Moment) (ht : t.isInvalid = false) : t.toUtc = .ok t.instant := by
    rw [toUtc_eq, ht]
    rfl
  refine ⟨ofUtc_count, ⟨rfl, rfl⟩, fun t ht => ?_, fun t ht => ?_, fun a b ha hb => ?_⟩
  · rw [toUtc_eq, if_pos ht]
  · exact ⟨hvalid t ht, ofUtc_instant t, ofRaw_raw_beq t⟩
  · exact ⟨hvalid a (isInvalid_of_isFiniteOrEnd ha), hvalid b (isInvalid_of_isFiniteOrEnd hb),
      compare_instant ha hb⟩

/-- The first second behind the last day has a timestamp before the end of time, and that timestamp
is out of range; the word reserved for the invalid moment has none, whoever holds it. -/
theorem utc_correspondence_behind_last_day :
    let t : Moment := .seconds 2147472000
    t.toUtc = .ok (.count 2147472000 0) ∧ t.toUtc.bind ofUtc = .error .timestampOutOfRange ∧
      compare (Timestamp.count 2147472000 0) .ending = .lt ∧
      (Moment.seconds 2147483646).toUtc = .error .momentWithoutTimestamp := by
  intro t
  obtain ⟨-, -, hinvalid, hvalid, horder⟩ := utc_correspondence
  obtain ⟨hto, hback, -⟩ := hvalid t rfl
  refine ⟨hto, ?_, (horder t .ending (by decide) (by decide)).2.2.trans (by decide),
    hinvalid _ rfl⟩
  rw [hto]
  exact hback.trans (if_pos (by decide))

end Horology.Moment
