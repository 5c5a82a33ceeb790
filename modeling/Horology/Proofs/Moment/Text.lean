import Horology.Moment.Text
import Horology.Proofs.Calendar
import Horology.Proofs.Moment.Civil
import Horology.Proofs.Moment.Layout
import Horology.Proofs.Zone

/-!
# Texts of moments are read back

Where settings write offsets as numbers, the text of a finite moment says which second it is, and
reading finds that second again.  One day is lost: the last local day on which moments end has
seconds that do not fit a word, so the readers refuse all of it.

## Main definitions

* `Moment.localDay` — the day that calendars in a zone show at a moment.
* `Settings.WritesOffsets` — the settings whose texts carry numeric offsets.
* `read_write_eq_ofCivil` — what is read is the moment of the reading that was written.
* `names_ofWall_iff`, `ofCivil_of_wall` — the readings that name a finite moment.
* `read_write_of_isFinite` — the round trip.
-/

namespace Horology

/-- The settings whose texts carry numeric offsets that are read in the order they are written in:
the ISO style in any zone, and the other styles where the zone is a bare offset, the German one
with days first.  The offsets must be of the size that texts can carry. -/
structure Settings.WritesOffsets (settings : Settings) : Prop where
  near : settings.zone.IsNear
  numeric : settings.dateStyle = .iso ∨ settings.zone.isFixed = true
  german : settings.dateStyle = .german → settings.dateOrder = .dmy

namespace Moment

/-- The number of the day that calendars in a zone show at a moment. -/
def localDay (zone : TimeZone) (t : Moment) : Int :=
  (t.raw.toInt + zone.eastAt t.raw.toInt) / 86400

/-- A finite moment is written as what its zone shows. -/
theorem chars_of_isFinite {t : Moment} (h : t.isFinite = true) (settings : Settings) :
    chars settings t =
      (settings.zone.zoned t.raw.toInt).write settings.dateStyle settings.dateOrder := by
  rw [chars, ofRaw_raw_of_isFinite h]
  rw [eq_seconds_of_isFinite h]
  rfl

/-! ## Readings of finite seconds -/

section Wall

variable {w u east : Int}

/-- The calendar shows a year from 1901 to 2038 as long as the wall is within those years. -/
theorem year_ofWall (hw : -2177452800 ≤ w ∧ w < 2177452800) :
    1901 ≤ (Civil.ofWall w).year ∧ (Civil.ofWall w).year ≤ 2038 := by
  have h1901 : dayNumber 1901 1 1 = -25202 := by decide
  have h2039 : dayNumber 2039 1 1 = 25202 := by decide
  have hfirst := Date.le_year_ofDayNumber_iff (n := w / 86400) (y := 1901) (by omega) (by decide)
  have hlast := Date.le_year_ofDayNumber_iff (n := w / 86400) (y := 2039) (by omega) (by decide)
  simp only [Civil.ofWall]
  omega

theorem isPlain_of_wall (hw : -2177452800 ≤ w ∧ w < 2177452800) : (Civil.ofWall w).IsPlain := by
  have hyear := year_ofWall hw
  exact ⟨Civil.exists_ofWall (by omega), by omega⟩

/-- The fields of the reading are within the bounds of moments. -/
theorem admits_ofWall (hw : -2177452800 ≤ w ∧ w < 2177452800) :
    admits (Civil.ofWall w) = true := by
  have hyear := year_ofWall hw
  have hplain := isPlain_of_wall hw
  have hmonth := hplain.month
  have hday := hplain.day
  have hclock := Civil.clock_ofWall w
  have hhour : ((Civil.ofWall w).hour == 24) = false := by
    simp only [beq_eq_false_iff_ne, ne_eq]
    omega
  simp only [admits, hhour, Bool.false_and, Bool.not_false, Bool.and_true, Bool.and_eq_true,
    decide_eq_true_eq]
  omega

/-- A reading of those years names a finite moment if its day is one that moments have and its
second is finite. -/
theorem names_ofWall_iff (hw : -2177452800 ≤ w ∧ w < 2177452800) :
    Names (.ofWall w) east ↔ (firstDay ≤ w / 86400 ∧ w / 86400 ≤ lastDay) ∧
      -2147483648 < w - east ∧ w - east < 2147483644 := by
  have hday : dayNumber (Civil.ofWall w).year (Civil.ofWall w).month (Civil.ofWall w).day
      = w / 86400 := Date.dayNumber_ofDayNumber (by omega)
  have hcount : (Civil.ofWall w).count = w := Civil.count_ofWall (by omega)
  rw [names_iff, hday, hcount]
  exact and_iff_right (admits_ofWall hw)

/-- The moment of a reading of those years. -/
theorem ofCivil_of_wall (hw : -2177452800 ≤ w ∧ w < 2177452800) (heast : east.natAbs < 86400) :
    ofCivil (.ofWall w) east =
      if (firstDay ≤ w / 86400 ∧ w / 86400 ≤ lastDay) ∧
          -2147483648 < w - east ∧ w - east < 2147483644
        then .seconds (.ofInt (w - east)) else .invalid := by
  have hcount : (Civil.ofWall w).count = w := Civil.count_ofWall (by omega)
  rw [ofCivil_eq _ heast, hcount]
  exact if_congr (names_ofWall_iff hw) rfl rfl

/-- A near zone shows at a finite second a reading that is written without loss. -/
theorem isPlain_ofWall (hu : -2147483648 < u ∧ u < 2147483644) (heast : east.natAbs < 57600) :
    (Civil.ofWall (u + east)).IsPlain :=
  isPlain_of_wall (by omega)

/-- The moment of the reading that a near zone shows at a finite second. -/
theorem ofCivil_ofWall (hu : -2147483648 < u ∧ u < 2147483644) (heast : east.natAbs < 57600) :
    ofCivil (.ofWall (u + east)) east =
      if (u + east) / 86400 ≤ lastDay then .seconds (.ofInt u) else .invalid := by
  have hfirst : firstDay ≤ (u + east) / 86400 := by
    simp only [firstDay]
    omega
  rw [ofCivil_of_wall (by omega) (by omega), Int.add_sub_cancel]
  refine if_congr ?_ rfl rfl
  exact ⟨fun h => h.1.2, fun h => ⟨⟨hfirst, h⟩, hu⟩⟩

end Wall

/-! ## The round trip -/

/-- What is read from the text of a finite moment is the reading that was written.  The ISO style is
read so in any session. -/
theorem read_write_eq_ofCivil {settings : Settings} (hsettings : settings.WritesOffsets)
    {t : Moment} (ht : t.isFinite = true) {session : Session}
    (hsession : session.toSettings = settings ∨ settings.dateStyle = .iso) :
    read session (t.write settings) =
      .ok (ofCivil (.ofWall (t.raw.toInt + settings.zone.eastAt t.raw.toInt))
        (settings.zone.eastAt t.raw.toInt)) := by
  have hnear := hsettings.near t.raw.toInt
  have hplain : (settings.zone.zoned t.raw.toInt).civil.IsPlain :=
    isPlain_ofWall (isFinite_iff.1 ht) hnear
  have hnumeric : settings.dateStyle = .iso ∨
      (settings.zone.zoned t.raw.toInt).abbreviation = none := by
    rcases hsettings.numeric with hiso | hfixed
    · exact .inl hiso
    · cases hzone : settings.zone with
      | named name rules => rw [hzone] at hfixed; cases hfixed
      | fixed east => exact .inr rfl
  have horder : settings.dateStyle = .iso ∨ session.dateOrder = settings.dateOrder ∧
      (settings.dateStyle = .german → settings.dateOrder = .dmy) := by
    rcases hsession with rfl | hiso
    · exact .inr ⟨rfl, hsettings.german⟩
    · exact .inl hiso
  rw [read, write, String.toList_ofList, chars_of_isFinite ht,
    DateReading.read_write hplain hnear hnumeric horder]
  rfl

/-- **A finite moment is read back from its text**, unless its local day is past the last one of
moments, which makes it invalid.  The session that reads has the settings that wrote; a text in
the ISO style is read back in any other one too. -/
theorem read_write_of_isFinite {settings : Settings} (hsettings : settings.WritesOffsets)
    {t : Moment} (ht : t.isFinite = true) {session : Session}
    (hsession : session.toSettings = settings ∨ settings.dateStyle = .iso) :
    read session (t.write settings) =
      .ok (if t.localDay settings.zone ≤ lastDay then t else .invalid) := by
  rw [read_write_eq_ofCivil hsettings ht hsession,
    ofCivil_ofWall (isFinite_iff.1 ht) (hsettings.near _), Int32.ofInt_toInt,
    ← eq_seconds_of_isFinite ht]
  rfl

/-- The last finite second is read back west of UTC, where its local day is one before the last; its
text in UTC names the invalid moment in any session. -/
theorem read_write_last_second :
    let session : Session :=
      { dateStyle := .german, dateOrder := .dmy, zone := .fixed (-34201), now := 0,
        rulesOf? := fun _ => none }
    read session (write session.toSettings (.seconds 2147483643)) = .ok (.seconds 2147483643) ∧
      read session (write {} (.seconds 2147483643)) = .ok .invalid := by
  intro session
  constructor
  · refine (read_write_of_isFinite ⟨TimeZone.isNear_fixed.2 (by decide), .inr rfl, fun _ => rfl⟩ rfl
      (.inl rfl)).trans (congrArg Except.ok (if_pos ?_))
    decide
  · refine (read_write_of_isFinite ⟨TimeZone.isNear_utc, .inl rfl, fun h => by cases h⟩ rfl
      (.inr rfl)).trans (congrArg Except.ok (if_neg ?_))
    decide

end Moment

end Horology
