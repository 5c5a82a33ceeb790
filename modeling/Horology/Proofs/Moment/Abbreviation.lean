import Horology.Proofs.Moment.Conversion
import Mathlib.Data.List.Find

/-!
# Texts of moments with a zone abbreviation are read back

In a named zone, every style but the ISO one writes the zone as its abbreviation.  As a number with
a sign, an abbreviation is read as the offset it gives.  As a word, it is looked up among the
regimes of the session zone that show the reading, and the first one called so is taken.  A text is
therefore read back, unless it is also the text of an earlier second: clocks may be set back without
a change of word, and the reader then takes the first of the seconds that look alike.

## Main definitions

* `Regime.HasWord`, `Regime.HasDigits`, `Regime.IsLegible` — abbreviations that are read.
* `ZoneRules.LooksLike` — seconds with the same reading and the same word.
* `DateReading.read_write_word`, `DateReading.read_write_digits` — the reading of a layout with an
  abbreviation.
* `Settings.WritesAbbreviations`, `Moment.read_write_of_writesAbbreviations` — the round trip.
-/

namespace Horology

open Numeral (IsRun)

/-! ## Abbreviations -/

/-- A word of letters: short enough to be written whole, and nothing but a zone to the reader. -/
structure Regime.HasWord (r : Regime) : Prop where
  ne_nil : r.abbreviation.toList ≠ []
  letters : ∀ c ∈ r.abbreviation.toList, c.isAlpha
  length_le : r.abbreviation.toList.length ≤ abbreviationWidth
  sense : DateWordSense.ofWord (String.ofList (lower r.abbreviation.toList)) = .zone

instance (r : Regime) : Decidable r.HasWord :=
  decidable_of_iff
    (r.abbreviation.toList ≠ [] ∧ r.abbreviation.toList.all Char.isAlpha = true ∧
      r.abbreviation.toList.length ≤ abbreviationWidth ∧
      DateWordSense.ofWord (String.ofList (lower r.abbreviation.toList)) = .zone)
    ⟨fun h => ⟨h.1, List.all_eq_true.1 h.2.1, h.2.2.1, h.2.2.2⟩,
      fun h => ⟨h.ne_nil, List.all_eq_true.2 h.letters, h.length_le, h.sense⟩⟩

/-- A sign and digits that are read as the offset. -/
structure Regime.HasDigits (r : Regime) : Prop where
  digits : ∃ sign ds, r.abbreviation.toList = sign :: ds ∧ ∀ c ∈ ds, c.isDigit
  offset : Offset.read? r.abbreviation.toList = some r.offset

/-- An abbreviation that a reader can make sense of. -/
def Regime.IsLegible (r : Regime) : Prop := r.HasWord ∨ r.HasDigits

/-- The clocks show at `v` the reading that they show at `u`, and the abbreviation at `u` is of
letters and is, letter case aside, the one at `v`. -/
def ZoneRules.LooksLike (z : ZoneRules) (v u : Int) : Prop :=
  z.Shows v (u + (z.regimeAt u).offset) ∧ (∀ c ∈ (z.regimeAt u).abbreviation.toList, c.isAlpha) ∧
    lower (z.regimeAt v).abbreviation.toList = lower (z.regimeAt u).abbreviation.toList

namespace Regime

variable {r : Regime}

/-- The digits of an abbreviation with their sign. -/
theorem HasDigits.shape (h : r.HasDigits) :
    ∃ sign ds, r.abbreviation.toList = sign :: ds ∧ (sign = '+' ∨ sign = '-') ∧ IsRun ds ∧
      ds.length ≤ 4 := by
  obtain ⟨sign, ds, htext, hds⟩ := h.digits
  exact ⟨sign, ds, htext, Offset.shape_of_read?_digits hds (htext ▸ h.offset)⟩

/-- An abbreviation of digits has a sign, which is no letter. -/
theorem HasDigits.not_letters (h : r.HasDigits) : ¬ ∀ c ∈ r.abbreviation.toList, c.isAlpha := by
  obtain ⟨sign, ds, htext, hsign, -⟩ := h.shape
  intro hletters
  have hletter := hletters sign (htext ▸ List.mem_cons_self)
  rcases hsign with rfl | rfl
  · cases hletter
  · cases hletter

/-- An abbreviation that is read is written whole. -/
theorem IsLegible.take_abbreviation (h : r.IsLegible) :
    r.abbreviation.toList.take abbreviationWidth = r.abbreviation.toList := by
  apply List.take_of_length_le
  rcases h with hword | hdigits
  · exact hword.length_le
  · obtain ⟨sign, ds, htext, -, -, hlength⟩ := hdigits.shape
    rw [htext, List.length_cons, abbreviationWidth]
    omega

end Regime

/-- The name of a zone that is known by its offset alone. -/
example : Regime.HasDigits ⟨-12600, "-0330"⟩ :=
  ⟨⟨'-', "0330".toList, rfl, List.all_eq_true.1 rfl⟩, by decide⟩

/-! ## Layouts with an abbreviation -/

namespace DateField

/-- A layout with an abbreviation is cut into the fields of date and clock time and those of the
abbreviation. -/
theorem ofText?_write_abbreviation {z : Zoned} (hz : z.civil.IsPlain) {style : DateStyle}
    (hstyle : style ≠ .iso) {word : List Char} (hword : z.abbreviation = some word)
    (order : DateOrder) :
    ofText? (z.write style order) = (ofText? word).map (z.fields style order ++ ·) := by
  rw [ofText?_write hz, Zoned.writeZone_of_abbreviation hstyle hword, ofText?_gap rfl]

theorem ofText?_hasWord {r : Regime} (h : r.HasWord) :
    ofText? r.abbreviation.toList = some [.word r.abbreviation.toList] := by
  have hcut := ofText?_word h.ne_nil h.letters (stops_nil inWord)
  rwa [List.append_nil, ofText?_nil] at hcut

theorem ofText?_hasDigits {r : Regime} (h : r.HasDigits) :
    ofText? r.abbreviation.toList = some [.offset r.abbreviation.toList] := by
  obtain ⟨sign, ds, htext, hsign, hds, -⟩ := h.shape
  obtain ⟨d, body, rfl⟩ := List.exists_cons_of_ne_nil hds.ne_nil
  rw [htext]
  refine ofText?_offset hsign (hds.isDigit d List.mem_cons_self) ?_
  intro c hc
  simp [inOffset, hds.isDigit c hc]

end DateField

namespace DateReading

variable {z : Zoned} {style : DateStyle} {order : DateOrder} {session : Session} {r : Regime}

/-- A layout with a word is read as the reading it was written for, at the offset that the word
stands for. -/
theorem read_write_word (hz : z.civil.IsPlain) (hstyle : style ≠ .iso) (hr : r.HasWord)
    (hword : z.abbreviation = some r.abbreviation.toList)
    (horder : session.dateOrder = order ∧ (style = .german → order = .dmy)) :
    read session (z.write style order) =
      (zoneWordOffset session r.abbreviation.toList z.civil).map (.civil z.civil) := by
  have htext : DateField.ofText? (z.write style order) =
      some (z.fields style order ++ [.word r.abbreviation.toList]) := by
    rw [DateField.ofText?_write_abbreviation hz hstyle hword, DateField.ofText?_hasWord hr]
    rfl
  have hplace : DateSlots.place session.dateOrder (.ofCivil z.civil)
      (.word r.abbreviation.toList) = .ok { DateSlots.ofCivil z.civil with
        offset := none, zoneWord := some r.abbreviation.toList } := by
    rw [DateSlots.place, DateSlots.placeWord, hr.sense]
    rfl
  exact read_of_fields hz (.inr horder) htext hplace

/-- A layout with digits is read as the reading and the offset that it was written for. -/
theorem read_write_digits (hz : z.civil.IsPlain) (hstyle : style ≠ .iso) (hr : r.HasDigits)
    (hword : z.abbreviation = some r.abbreviation.toList)
    (horder : session.dateOrder = order ∧ (style = .german → order = .dmy)) :
    read session (z.write style order) = .ok (.civil z.civil r.offset) := by
  have htext : DateField.ofText? (z.write style order) =
      some (z.fields style order ++ [.offset r.abbreviation.toList]) := by
    rw [DateField.ofText?_write_abbreviation hz hstyle hword, DateField.ofText?_hasDigits hr]
    rfl
  have hplace : DateSlots.place session.dateOrder (.ofCivil z.civil)
      (.offset r.abbreviation.toList) = .ok { DateSlots.ofCivil z.civil with
        offset := some r.offset, zoneWord := none } := by
    rw [DateSlots.place, DateSlots.placeOffset, hr.offset]
    rfl
  exact read_of_fields hz (.inr horder) htext hplace

end DateReading

/-! ## Words of the session zone -/

/-- An abbreviation of the session zone goes before any other meaning of the word. -/
theorem zoneWordOffset_of_offsetCalled? {session : Session} {word : List Char} {c : Civil}
    {east : Int} (h : session.zone.offsetCalled? word c = some east) :
    zoneWordOffset session word c = .ok east := by
  rw [zoneWordOffset, h]

namespace ZoneRules

variable {z : ZoneRules} {c : Civil} {u : Int}

/-- Every regime that shows a plain reading gives it a date in UTC, so the word alone decides. -/
theorem offsetCalled?_of_isPlain (hz : z.IsSorted) (hday : z.IsBelowDay) (hc : c.IsPlain)
    (word : List Char) :
    z.offsetCalled? word c =
      ((z.regimesShowing c.count).find? fun r => lower r.abbreviation.toList == lower word).map
        (·.offset) := by
  -- The definition is opened by itself, as its equation is slow to be proved.
  delta offsetCalled?
  rw [hc.wall?]
  refine congrArg (Option.map Regime.offset) (List.find?_congr ?_)
  intro r hr
  have hdate : Civil.HasDate (c.count - r.offset) := by
    have hoffset := hday (c.count - r.offset)
    rw [(mem_regimesShowing hz).1 hr] at hoffset
    apply hc.hasDate_of_near
    omega
  rw [decide_eq_true hdate, Bool.true_and]

/-- The abbreviation at a second that shows a reading stands for the offset at the first second that
shows the reading under it. -/
theorem exists_zoneWordOffset_of_shows {session : Session} {name : String}
    (hzone : session.zone = .named name z) (hz : z.IsSorted) (hday : z.IsBelowDay)
    (hc : c.IsPlain) (hu : z.Shows u c.count) :
    ∃ v, IsLeast {v | z.Shows v c.count ∧ lower (z.regimeAt v).abbreviation.toList =
        lower (z.regimeAt u).abbreviation.toList} v ∧
      zoneWordOffset session (z.regimeAt u).abbreviation.toList c =
        .ok (z.regimeAt v).offset := by
  have hcalled : session.zone.offsetCalled? (z.regimeAt u).abbreviation.toList c =
      z.offsetCalled? (z.regimeAt u).abbreviation.toList c := by
    rw [hzone]
    rfl
  rw [offsetCalled?_of_isPlain hz hday hc] at hcalled
  cases hr : (z.regimesShowing c.count).find? fun r =>
      lower r.abbreviation.toList == lower (z.regimeAt u).abbreviation.toList with
  | none =>
    have hnot := List.find?_eq_none.1 hr _ (hu.mem_regimesShowing hz)
    exact absurd (beq_self_eq_true _) hnot
  | some r =>
    have hleast := isLeast_of_find? hz hr
    simp only [beq_iff_eq] at hleast
    refine ⟨_, hleast, ?_⟩
    rw [(mem_regimesShowing hz).1 (List.mem_of_find?_eq_some hr)]
    rw [hr, Option.map_some] at hcalled
    exact zoneWordOffset_of_offsetCalled? hcalled

/-- Under a word, the seconds that look like a given one are those that show its reading under its
word. -/
theorem looksLike_iff_of_hasWord (h : (z.regimeAt u).HasWord) {v : Int} :
    v = u ∨ z.LooksLike v u ↔
      z.Shows v (u + (z.regimeAt u).offset) ∧ lower (z.regimeAt v).abbreviation.toList =
        lower (z.regimeAt u).abbreviation.toList := by
  constructor
  · rintro (rfl | ⟨hshows, -, hword⟩)
    · exact ⟨rfl, rfl⟩
    · exact ⟨hshows, hword⟩
  · rintro ⟨hshows, hword⟩
    exact .inr ⟨hshows, h.letters, hword⟩

/-- Under digits, no other second looks like a given one. -/
theorem looksLike_iff_of_hasDigits (h : (z.regimeAt u).HasDigits) {v : Int} :
    v = u ∨ z.LooksLike v u ↔ v = u := by
  constructor
  · rintro (rfl | ⟨-, hletters, -⟩)
    · rfl
    · exact absurd hletters h.not_letters
  · exact .inl

end ZoneRules

/-! ## The round trip -/

/-- The settings whose texts carry abbreviations that are read in the order they are written in: a
named zone in any style but the ISO one, the German one with days first.  The zone has offsets of
the size that texts can carry, and abbreviations that a reader can make sense of. -/
structure Settings.WritesAbbreviations (settings : Settings) (name : String) (z : ZoneRules) :
    Prop where
  zone : settings.zone = .named name z
  sorted : z.IsSorted
  near : settings.zone.IsNear
  legible : ∀ r ∈ z.regimes, r.IsLegible
  style : settings.dateStyle ≠ .iso
  german : settings.dateStyle = .german → settings.dateOrder = .dmy

namespace Moment

variable {name : String} {z : ZoneRules} {t : Moment}

/-- The reading of a finite moment, taken at the offset of a second that shows it no later, is the
moment of that second if it is finite. -/
theorem ofCivil_of_shows (hnear : (TimeZone.named name z).IsNear) (ht : t.isFinite = true)
    (hday : t.localDay (.named name z) ≤ lastDay) {u : Int} (hle : u ≤ t.raw.toInt)
    (hu : z.Shows u (t.raw.toInt + (z.regimeAt t.raw.toInt).offset)) :
    ofCivil (.ofWall (t.raw.toInt + (z.regimeAt t.raw.toInt).offset)) (z.regimeAt u).offset =
      if u = t.raw.toInt then t
      else if -2147483648 < u then .seconds (.ofInt u) else .invalid := by
  have hfinite := isFinite_iff.1 ht
  have hown : (z.regimeAt t.raw.toInt).offset.natAbs < 57600 := hnear t.raw.toInt
  have hother : (z.regimeAt u).offset.natAbs < 57600 := hnear u
  have hlast : (t.raw.toInt + (z.regimeAt t.raw.toInt).offset) / 86400 ≤ lastDay := hday
  have hfirst : firstDay ≤ (t.raw.toInt + (z.regimeAt t.raw.toInt).offset) / 86400 := by
    simp only [firstDay]
    omega
  have hsecond : t.raw.toInt + (z.regimeAt t.raw.toInt).offset - (z.regimeAt u).offset = u := by
    have hu : u + (z.regimeAt u).offset = _ := hu
    omega
  rw [ofCivil_of_wall (by omega) (by omega), hsecond]
  by_cases heq : u = t.raw.toInt
  · rw [if_pos ⟨⟨hfirst, hlast⟩, by omega⟩, if_pos heq, heq, Int32.ofInt_toInt,
      ← eq_seconds_of_isFinite ht]
  · rw [if_neg heq]
    refine if_congr ?_ rfl rfl
    exact ⟨fun h => h.2.1, fun h => ⟨⟨hfirst, hlast⟩, h, by omega⟩⟩

/-- The text of a finite moment is read as the reading it was written for, at the offset of the
first second that looks like its own. -/
theorem exists_read_chars {session : Session}
    (hsettings : session.toSettings.WritesAbbreviations name z) (ht : t.isFinite = true) :
    ∃ u, IsLeast {v | v = t.raw.toInt ∨ z.LooksLike v t.raw.toInt} u ∧
      z.Shows u (t.raw.toInt + (z.regimeAt t.raw.toInt).offset) ∧
      DateReading.read session (chars session.toSettings t) =
        .ok (.civil (.ofWall (t.raw.toInt + (z.regimeAt t.raw.toInt).offset))
          (z.regimeAt u).offset) := by
  obtain ⟨hzone, hsorted, hnear, hlegible, hstyle, hgerman⟩ := hsettings
  rw [hzone] at hnear
  have hfinite := isFinite_iff.1 ht
  have hown : (z.regimeAt t.raw.toInt).offset.natAbs < 57600 := hnear t.raw.toInt
  have hregime := hlegible _ (z.regimeAt_mem t.raw.toInt)
  have hshows : z.Shows t.raw.toInt (t.raw.toInt + (z.regimeAt t.raw.toInt).offset) := rfl
  have hplain : (Civil.ofWall (t.raw.toInt + (z.regimeAt t.raw.toInt).offset)).IsPlain :=
    isPlain_ofWall hfinite hown
  have hcount : (Civil.ofWall (t.raw.toInt + (z.regimeAt t.raw.toInt).offset)).count =
      t.raw.toInt + (z.regimeAt t.raw.toInt).offset := Civil.count_ofWall (by omega)
  have habbreviation : ((TimeZone.named name z).zoned t.raw.toInt).abbreviation =
      some (z.regimeAt t.raw.toInt).abbreviation.toList :=
    congrArg some hregime.take_abbreviation
  have horder : session.dateOrder = session.dateOrder ∧
      (session.dateStyle = .german → session.dateOrder = .dmy) := ⟨rfl, hgerman⟩
  rw [chars_of_isFinite ht, hzone]
  rcases hregime with hword | hdigits
  · obtain ⟨u, hleast, hoffset⟩ := ZoneRules.exists_zoneWordOffset_of_shows hzone hsorted
      (ZoneRules.isBelowDay_of_isNear hnear) hplain (hcount.symm ▸ hshows)
    rw [hcount] at hleast
    refine ⟨u, ?_, hleast.1.1, ?_⟩
    · simpa only [ZoneRules.looksLike_iff_of_hasWord hword] using hleast
    · have hread := DateReading.read_write_word hplain hstyle hword habbreviation horder
      exact hread.trans (congrArg (Except.map _) hoffset)
  · refine ⟨t.raw.toInt, ?_, hshows, ?_⟩
    · simp only [ZoneRules.looksLike_iff_of_hasDigits hdigits]
      exact isLeast_singleton
    · exact DateReading.read_write_digits hplain hstyle hdigits habbreviation horder

/-- **A finite moment is read back from its text with an abbreviation**, unless an earlier second
shows the same reading under the same word of letters; the text is then read as the first such
second, which makes it invalid if that second is not finite. -/
theorem read_write_of_writesAbbreviations {session : Session}
    (hsettings : session.toSettings.WritesAbbreviations name z) (ht : t.isFinite = true)
    (hday : t.localDay session.zone ≤ lastDay) :
    ∃ u, IsLeast {v | v = t.raw.toInt ∨ z.LooksLike v t.raw.toInt} u ∧
      read session (t.write session.toSettings) =
        .ok (if u = t.raw.toInt then t
          else if -2147483648 < u then .seconds (.ofInt u) else .invalid) := by
  obtain ⟨u, hleast, hshows, hread⟩ := exists_read_chars hsettings ht
  have hnear := hsettings.near
  rw [hsettings.zone] at hnear hday
  refine ⟨u, hleast, ?_⟩
  rw [read, write, String.toList_ofList, hread]
  exact congrArg Except.ok (ofCivil_of_shows hnear ht hday (hleast.2 (.inl rfl)) hshows)

/-- With clocks set back from one hour east to UTC at second 0, without a change of word, the
seconds half an hour before and after have one text, which is read as the earlier one. -/
theorem read_write_of_writesAbbreviations_repeated :
    let z : ZoneRules := ⟨⟨3600, "WET"⟩, [(0, ⟨0, "wet"⟩)]⟩
    let session : Session :=
      { dateStyle := .german, dateOrder := .dmy, zone := .named "Zone" z, now := 0,
        rulesOf? := fun _ => none }
    session.toSettings.WritesAbbreviations "Zone" z ∧
      read session (write session.toSettings (.seconds (-1800))) = .ok (.seconds (-1800)) ∧
      read session (write session.toSettings (.seconds 1800)) = .ok (.seconds (-1800)) := by
  intro z session
  have hoffset (u : Int) : 0 ≤ (z.regimeAt u).offset ∧ (z.regimeAt u).offset ≤ 3600 :=
    (by decide : ∀ r ∈ z.regimes, 0 ≤ r.offset ∧ r.offset ≤ 3600) _ (z.regimeAt_mem u)
  have hsettings : session.toSettings.WritesAbbreviations "Zone" z := by
    refine ⟨rfl, by decide, ?_, ?_, by decide, fun _ => rfl⟩
    · intro u
      have := hoffset u
      simp only [TimeZone.eastAt, session]
      omega
    · intro r hr
      exact .inl ((by decide : ∀ r ∈ z.regimes, r.HasWord) r hr)
  have hfirst (u : Int) (hu : u = -1800 ∨ u = 1800) :
      IsLeast {v | v = u ∨ z.LooksLike v u} (-1800) := by
    have hreading : u + (z.regimeAt u).offset = 1800 := by
      rcases hu with rfl | rfl <;> rfl
    constructor
    · rcases hu with rfl | rfl
      · exact .inl rfl
      · exact .inr ⟨rfl, List.all_eq_true.1 (by decide), by decide⟩
    · rintro v (rfl | ⟨hv, -⟩)
      · omega
      · have hv : v + (z.regimeAt v).offset = _ := hv
        have := hoffset v
        omega
  refine ⟨hsettings, ?_, ?_⟩
  · obtain ⟨u, hu, hread⟩ :=
      read_write_of_writesAbbreviations hsettings (t := .seconds (-1800)) (by decide) (by decide)
    obtain rfl : u = -1800 := hu.unique (hfirst _ (.inl rfl))
    exact hread
  · obtain ⟨u, hu, hread⟩ :=
      read_write_of_writesAbbreviations hsettings (t := .seconds 1800) (by decide) (by decide)
    obtain rfl : u = -1800 := hu.unique (hfirst _ (.inr rfl))
    exact hread

end Moment

end Horology
