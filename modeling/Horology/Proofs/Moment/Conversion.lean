import Horology.Moment.Conversion
import Horology.Proofs.Moment.Text
import Horology.Proofs.Zone.Showing

/-!
# Wall readings of a named zone name moments

A timestamp without a zone is a wall reading, and the session's zone must say which second it means.
In a named zone whose changes are at least two days apart that is the last second showing the
reading.  A finite moment thus goes to its wall reading and comes back as itself, or as the later of
the two moments that show the reading.

## Main definitions

* `TimeZone.eastShowing_named` — the offset of a plain reading in a named zone.
* `Moment.toWall_of_isFinite`, `Moment.ofWall_count` — the two conversions.
* `Moment.named_resolves_wall` — the offset of every plain reading, and the way to the wall and
  back.
-/

namespace Horology

/-! ## Plain readings -/

/-- A plain reading has a date, and so has what is within a day of it. -/
theorem Civil.IsPlain.hasDate_of_near {c : Civil} (hc : c.IsPlain) {n : Int}
    (hn : (c.count - n).natAbs ≤ 86400) : HasDate n := by
  obtain ⟨-, hmonth, hday, hhour, hminute, hsecond⟩ := hc.isReading
  have hyear := hc.year
  have hproper : Date.IsProper ⟨c.year, c.month, c.day⟩ := ⟨hmonth, hday⟩
  have hmem : dayNumber c.year 1 1 ≤ dayNumber c.year c.month c.day ∧
      dayNumber c.year c.month c.day < dayNumber (c.year + 1) 1 1 :=
    hproper.dayNumber_mem_year (show -4799 ≤ c.year by omega)
  have h0 : dayNumber 0 1 1 ≤ dayNumber c.year 1 1 :=
    Date.dayNumber_newYear_le (by decide) hyear.1
  have h9999 : dayNumber (c.year + 1) 1 1 ≤ dayNumber 10000 1 1 :=
    Date.dayNumber_newYear_le (by omega) (by omega)
  rw [show dayNumber 0 1 1 = -719528 by decide] at h0
  rw [show dayNumber 10000 1 1 = 2932897 by decide] at h9999
  simp only [count] at hn
  simp only [HasDate, firstSecond, lastSecond]
  omega

theorem Civil.IsPlain.hasDate {c : Civil} (hc : c.IsPlain) : HasDate c.count :=
  hc.hasDate_of_near (by omega)

theorem Civil.IsPlain.wall? {c : Civil} (hc : c.IsPlain) : c.wall? = some c.count :=
  if_pos hc.hasDate

/-- A named zone puts on a plain reading the offset that it has for its count. -/
theorem TimeZone.eastShowing_named {name : String} {z : ZoneRules} {c : Civil} (hc : c.IsPlain) :
    (named name z).eastShowing c = z.offsetShowing c.count := by
  rw [eastShowing, hc.wall?]
  rfl

namespace Moment

variable {name : String} {z : ZoneRules} {t : Moment}

/-! ## The two conversions -/

/-- A finite moment becomes the reading that a zone shows at its second. -/
theorem toWall_of_isFinite (zone : TimeZone) (ht : t.isFinite = true)
    (hday : (zone.eastAt t.raw.toInt).natAbs < 86400) :
    t.toWall zone = .ok (.count (t.raw.toInt + zone.eastAt t.raw.toInt) 0) := by
  have hfinite := isFinite_iff.1 ht
  have hwall := (isPlain_of_wall (w := t.raw.toInt + zone.eastAt t.raw.toInt) (by omega)).wall?
  rw [Civil.count_ofWall (by omega)] at hwall
  have hcivil : (zone.zoned t.raw.toInt).civil.wall?
      = some (t.raw.toInt + zone.eastAt t.raw.toInt) := hwall
  unfold toWall
  rw [ofRaw_eq_seconds hfinite.1 hfinite.2]
  simp only [hcivil]

/-- The moment of a reading in a named zone: its day must be one that moments have, and its second
be finite. -/
theorem ofWall_count {w : Int} (hw : -2177452800 ≤ w ∧ w < 2177452800)
    (hday : (z.offsetShowing w).natAbs < 86400) (nanos : Nat) :
    ofWall (.named name z) (.count w nanos) =
      if (firstDay ≤ w / 86400 ∧ w / 86400 ≤ lastDay) ∧
          -2147483648 < w - z.offsetShowing w ∧ w - z.offsetShowing w < 2147483644
        then .ok (.seconds (.ofInt (w - z.offsetShowing w))) else .error .timestampOutOfRange := by
  rw [ofWall, TimeZone.eastShowing_named (isPlain_of_wall hw), Civil.count_ofWall (by omega),
    ofCivil_of_wall hw hday]
  split
  · next h =>
    have hword : (Int32.ofInt (w - z.offsetShowing w)).toInt = w - z.offsetShowing w :=
      Word.toInt_ofInt_of_fits (by omega) (by omega)
    exact if_pos (isFinite_iff.2 (by simp only [raw, hword]; exact h.2))
  · rfl

/-- To the wall and back, a finite moment comes to the last second that shows its reading. -/
theorem ofWall_toWall_of_isGreatest (hz : z.IsSpaced) (hday : z.IsBelowDay)
    (ht : t.isFinite = true) {u : Int}
    (hu : IsGreatest {v | z.Shows v (t.raw.toInt + (z.regimeAt t.raw.toInt).offset)} u) :
    (t.toWall (.named name z)).bind (ofWall (.named name z)) =
      if firstDay ≤ t.localDay (.named name z) ∧ t.localDay (.named name z) ≤ lastDay ∧
          u < 2147483644
        then .ok (.seconds (.ofInt u)) else .error .timestampOutOfRange := by
  have hfinite := isFinite_iff.1 ht
  have hown := hday t.raw.toInt
  have hlast : t.raw.toInt ≤ u := hu.2 (show t.raw.toInt + _ = _ from rfl)
  have heast : z.offsetShowing (t.raw.toInt + (z.regimeAt t.raw.toInt).offset)
      = (z.regimeAt u).offset := (ZoneRules.offsetShowing_eq_iff hz hday).2 (.shown hu)
  have hshows : u + (z.regimeAt u).offset = t.raw.toInt + (z.regimeAt t.raw.toInt).offset := hu.1
  have hsecond : t.raw.toInt + (z.regimeAt t.raw.toInt).offset - (z.regimeAt u).offset = u := by
    omega
  rw [toWall_of_isFinite (.named name z) ht hown]
  refine (ofWall_count (w := t.raw.toInt + (z.regimeAt t.raw.toInt).offset) (by omega)
    (heast ▸ hday u) 0).trans ?_
  rw [heast, hsecond]
  refine if_congr ?_ rfl rfl
  simp only [localDay, TimeZone.eastAt]
  omega

/-! ## Resolution of wall readings -/

/-- **A named zone resolves wall readings.**  Its changes are at least two days apart, and its
offsets are below a day.

The offset put on a plain reading is the one that the reading has: that of the last second showing
it, and for a reading that no second shows, the one from right before clocks were set forward past
it.  A finite moment that goes to the wall and back therefore comes to the last second showing its
reading, which is its own if no other second shows the reading.  There is a fault instead exactly
if that second is past the finite ones, or the day on the wall is before the first or after the last
one of moments. -/
theorem named_resolves_wall (name : String) {z : ZoneRules} (hz : z.IsSpaced)
    (hday : z.IsBelowDay) :
    (∀ c : Civil, c.IsPlain → ∀ east,
      (TimeZone.named name z).eastShowing c = east ↔ z.HasOffset c.count east) ∧
    ∀ t : Moment, t.isFinite = true →
      ∃ u, IsGreatest {v | z.Shows v (t.raw.toInt + (z.regimeAt t.raw.toInt).offset)} u ∧
        (t.toWall (.named name z)).bind (ofWall (.named name z)) =
          if firstDay ≤ t.localDay (.named name z) ∧ t.localDay (.named name z) ≤ lastDay ∧
              u < 2147483644
            then .ok (.seconds (.ofInt u)) else .error .timestampOutOfRange := by
  constructor
  · intro c hc east
    rw [TimeZone.eastShowing_named hc]
    exact ZoneRules.offsetShowing_eq_iff hz hday
  · intro t ht
    have hshows : z.Shows t.raw.toInt (t.raw.toInt + (z.regimeAt t.raw.toInt).offset) := rfl
    obtain ⟨u, hu⟩ := hshows.exists_isGreatest hz.isSorted
    exact ⟨u, hu, ofWall_toWall_of_isGreatest hz hday ht hu⟩

/-- With clocks set back from one hour east to UTC at second 0, the second half an hour before goes
to the reading 00:30 and comes back as the one half an hour after. -/
theorem named_resolves_wall_repeated :
    let z : ZoneRules := ⟨⟨3600, "CET"⟩, [(0, ⟨0, "UTC"⟩)]⟩
    z.IsSpaced ∧ z.IsBelowDay ∧
      ((Moment.seconds (-1800)).toWall (.named "Zone" z)).bind (ofWall (.named "Zone" z)) =
        .ok (.seconds 1800) := by
  intro z
  have hspaced : z.IsSpaced := by decide
  have hday : z.IsBelowDay := ZoneRules.isBelowDay_of_regimes (by decide)
  have hlast : IsGreatest {v | z.Shows v 1800} 1800 := by
    constructor
    · rfl
    · intro v hv
      have hv : v + (z.regimeAt v).offset = 1800 := hv
      have hregimes : ∀ r ∈ z.regimes, 0 ≤ r.offset := by decide
      have := hregimes _ (z.regimeAt_mem v)
      omega
  obtain ⟨u, hu, hback⟩ :=
    (named_resolves_wall "Zone" hspaced hday).2 (.seconds (-1800)) (by decide)
  obtain rfl : u = 1800 := hu.unique hlast
  exact ⟨hspaced, hday, hback.trans (if_pos (by decide))⟩

/-- So far west that its day is before the first one of moments, the first finite second goes to a
reading that no other second shows, and does not come back. -/
theorem ofWall_toWall_far_west :
    let z : ZoneRules := .constant ⟨-74754, "WEST"⟩
    let t : Moment := .seconds (-2147483647)
    (z.IsSpaced ∧ z.IsBelowDay) ∧ t.isFinite = true ∧
      t.localDay (.named "Zone" z) ≤ lastDay ∧
      (∀ u, z.Shows u (t.raw.toInt + (z.regimeAt t.raw.toInt).offset) ↔ u = t.raw.toInt) ∧
      (t.toWall (.named "Zone" z)).bind (ofWall (.named "Zone" z)) =
        .error .timestampOutOfRange := by
  refine ⟨⟨by decide, ZoneRules.isBelowDay_of_regimes (by decide)⟩, rfl, by decide, ?_, by decide⟩
  intro u
  rw [ZoneRules.shows_constant, ZoneRules.regimeAt_constant]
  omega

end Moment

end Horology
