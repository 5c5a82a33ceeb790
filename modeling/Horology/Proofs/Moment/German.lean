import Horology.Proofs.Calendar.Count
import Horology.Proofs.Moment.Text

/-!
# Texts in the German style

The German style writes days first in any session, while a reader takes a date of digits in the date
order of its session.  The two agree where that order has days first.  In the others, the usual one
among them, day and month change places: the text is read as another date, or refused if its day is
not the number of a month.

## Main definitions

* `Civil.swapped` — a reading with day and month in each other's place.
* `DateReading.read_write_german` — what a text in the German style is read as in the other orders.
* `Moment.read_write_german` — the moment that it is read as.
* `Moment.read_write_german_iff` — that it is read back exactly if days come first or day and month
  are the same.
-/

namespace Horology

/-! ## Day and month exchanged -/

namespace Civil

/-- A reading with day and month in each other's place. -/
def swapped (c : Civil) : Civil := { c with month := c.day, day := c.month }

theorem swapped_of_eq {c : Civil} (h : c.day = c.month) : c.swapped = c := by
  cases c
  cases h
  rfl

/-- The exchanged reading exists exactly if the day is the number of a month. -/
theorem exists_swapped_iff {c : Civil} (hc : c.Exists) : c.swapped.Exists ↔ c.day ≤ 12 := by
  obtain ⟨hyear, hmonth, hday, hclock⟩ := hc
  constructor
  · rintro ⟨-, hswapped, -⟩
    exact hswapped.2
  · intro hle
    have hlong := Date.le_daysInMonth c.year ⟨hday.1, hle⟩
    have hfits : c.month ≤ daysInMonth c.year c.day := by omega
    exact ⟨hyear, ⟨hday.1, hle⟩, ⟨hmonth.1, hfits⟩, hclock⟩

/-- It names another second unless day and month are the same. -/
theorem count_swapped_ne {c : Civil} (hc : c.Exists) (hle : c.day ≤ 12) (hne : c.day ≠ c.month) :
    c.swapped.count ≠ c.count := by
  obtain ⟨hyear, hmonth, hday, -⟩ := hc
  have hdays : dayNumber c.year c.day c.month ≠ dayNumber c.year c.month c.day := by
    rcases Int.lt_or_gt_of_ne hne with hlt | hlt
    · exact (dayNumber_lt_of_month_lt (by omega) hday.1 hlt hmonth.2 (by omega) hday.1).ne
    · exact (dayNumber_lt_of_month_lt (by omega) hmonth.1 hlt hle (by omega) hmonth.1).ne'
  simp only [count, swapped]
  omega

end Civil

/-! ## Reading -/

/-- In an order that does not have days first, the fields of the German style fill the slots of the
exchanged reading. -/
theorem DateSlots.foldlM_place_german {z : Zoned} (hz : z.civil.IsPlain) (order : DateOrder)
    {order' : DateOrder} (horder : order' ≠ .dmy) :
    (z.fields .german order).foldlM (place order') {} = .ok (ofCivil z.civil.swapped) := by
  have hplain := hz.fitsDigits
  have hswapped : (⟨z.civil.year, z.civil.day, z.civil.month⟩ : Date).FitsDigits :=
    ⟨hplain.year, hplain.day, hplain.month⟩
  have hdate : place order' {} (.date _ '.') = _ := place_yearLast hswapped rfl
  rw [if_neg horder] at hdate
  rw [Zoned.fields, foldlM_place_cons hdate, foldlM_place_cons (place_writeClock rfl hz.isReading)]
  rfl

/-- A text in the German style with a numeric offset is read as the exchanged reading, if that
exists. -/
theorem DateReading.read_write_german {z : Zoned} (hz : z.civil.IsPlain)
    (heast : z.east.natAbs < 57600) (hnumeric : z.abbreviation = none) (order : DateOrder)
    {session : Session} (horder : session.dateOrder ≠ .dmy) :
    read session (z.write .german order) =
      if z.civil.swapped.Exists then .ok (.civil z.civil.swapped z.east)
      else .error .outOfRange := by
  have htext : DateField.ofText? (z.write .german order) =
      some (z.fields .german order ++ [.offset (Offset.write z.east)]) := by
    rw [DateField.ofText?_write hz, DateField.ofText?_writeZone (.inr hnumeric)]
    rfl
  refine read_of_ofFields htext (reserved?_fields_append z .german order _) ?_
  rw [DateSlots.ofFields, List.foldlM_append, DateSlots.foldlM_place_german hz order horder]
  exact DateSlots.foldlM_place_cons (DateSlots.place_offset_write rfl heast) []

namespace Moment

variable {session : Session} {t : Moment}

/-- What a text in the German style with a numeric offset is read as where days do not come first:
day and month change places, and the text is refused if the day is not the number of a month. -/
theorem read_write_german (hstyle : session.dateStyle = .german)
    (hfixed : session.zone.isFixed = true) (hnear : session.zone.IsNear)
    (horder : session.dateOrder ≠ .dmy) (ht : t.isFinite = true) :
    let z := session.zone.zoned t.raw.toInt
    read session (t.write session.toSettings) =
      if z.civil.day ≤ 12 then .ok (ofCivil z.civil.swapped z.east)
      else .error (.fieldOutOfRange .moment (t.write session.toSettings)) := by
  intro z
  have hplain : z.civil.IsPlain := isPlain_ofWall (isFinite_iff.1 ht) (hnear _)
  have hnumeric : z.abbreviation = none := by
    cases hzone : session.zone with
    | named name rules => rw [hzone] at hfixed; cases hfixed
    | fixed east => simp only [z, hzone]; rfl
  have hchars : chars session.toSettings t = z.write .german session.dateOrder := by
    rw [chars_of_isFinite ht, hstyle]
  have hread := DateReading.read_write_german hplain (hnear _) hnumeric session.dateOrder horder
  rw [read, write, String.toList_ofList, hchars, hread]
  by_cases hday : z.civil.day ≤ 12
  · rw [if_pos ((Civil.exists_swapped_iff hplain.isReading).2 hday), if_pos hday]
    rfl
  · rw [if_neg (mt (Civil.exists_swapped_iff hplain.isReading).1 hday), if_neg hday]
    rfl

/-- The exchanged reading names another moment unless day and month are the same. -/
theorem ofCivil_swapped_ne (hnear : session.zone.IsNear) (ht : t.isFinite = true)
    (hle : (session.zone.zoned t.raw.toInt).civil.day ≤ 12)
    (hne : (session.zone.zoned t.raw.toInt).civil.day ≠
      (session.zone.zoned t.raw.toInt).civil.month) :
    ofCivil (session.zone.zoned t.raw.toInt).civil.swapped (session.zone.eastAt t.raw.toInt) ≠
      t := by
  have heast := hnear t.raw.toInt
  have hfinite := isFinite_iff.1 ht
  have hplain : (session.zone.zoned t.raw.toInt).civil.IsPlain := isPlain_ofWall hfinite heast
  have hcount : (session.zone.zoned t.raw.toInt).civil.count =
      t.raw.toInt + session.zone.eastAt t.raw.toInt := Civil.count_ofWall (by omega)
  intro heq
  have hswapped := count_of_ofCivil (by omega) (heq.trans (eq_seconds_of_isFinite ht))
  exact Civil.count_swapped_ne hplain.isReading hle hne (by omega)

/-- **A text in the German style is read back exactly if its session has days first**, or day and
month are the same anyway.  In the other orders the two change places: the text is read as the
moment of another date, or refused if the day is not the number of a month. -/
theorem read_write_german_iff (hstyle : session.dateStyle = .german)
    (hfixed : session.zone.isFixed = true) (hnear : session.zone.IsNear) (ht : t.isFinite = true)
    (hlast : t.localDay session.zone ≤ lastDay) :
    let z := session.zone.zoned t.raw.toInt
    (read session (t.write session.toSettings) = .ok t ↔
        session.dateOrder = .dmy ∨ z.civil.day = z.civil.month) ∧
      (session.dateOrder ≠ .dmy → read session (t.write session.toSettings) =
        if z.civil.day ≤ 12 then .ok (ofCivil z.civil.swapped z.east)
        else .error (.fieldOutOfRange .moment (t.write session.toSettings))) := by
  intro z
  refine ⟨?_, fun horder => read_write_german hstyle hfixed hnear horder ht⟩
  by_cases horder : session.dateOrder = .dmy
  · have hsettings : session.toSettings.WritesOffsets := ⟨hnear, .inr hfixed, fun _ => horder⟩
    have hback := read_write_of_isFinite hsettings ht (.inl rfl)
    rw [if_pos hlast] at hback
    exact iff_of_true hback (.inl horder)
  · have hplain : z.civil.IsPlain := isPlain_ofWall (isFinite_iff.1 ht) (hnear _)
    rw [read_write_german hstyle hfixed hnear horder ht, or_iff_right horder]
    by_cases hsame : z.civil.day = z.civil.month
    · have hback : ofCivil z.civil z.east = t := by
        refine (ofCivil_ofWall (isFinite_iff.1 ht) (hnear t.raw.toInt)).trans ?_
        rw [Int32.ofInt_toInt, ← eq_seconds_of_isFinite ht]
        exact if_pos hlast
      rw [Civil.swapped_of_eq hsame, if_pos (hsame ▸ hplain.month.2), hback]
      exact iff_of_true rfl hsame
    · refine iff_of_false ?_ hsame
      split
      · next hle => exact fun h => ofCivil_swapped_ne hnear ht hle hsame (Except.ok.inj h)
      · nofun

/-- In the German style and the usual date order, the second of January is read as the first of
February, and the thirteenth is refused. -/
theorem read_write_german_iff_january :
    let session : Session :=
      { dateStyle := .german, zone := .fixed 0, now := 0, rulesOf? := fun _ => none }
    read session (write session.toSettings (.seconds 86400)) ≠ .ok (.seconds 86400) ∧
      read session (write session.toSettings (.seconds 86400)) = .ok (.seconds 2678400) ∧
      read session (write session.toSettings (.seconds 1036800)) =
        .error (.fieldOutOfRange .moment (write session.toSettings (.seconds 1036800))) := by
  intro session
  have hnear : session.zone.IsNear := TimeZone.isNear_fixed.2 (by decide)
  have hstyle : session.dateStyle = .german := rfl
  obtain ⟨hback, hread⟩ := read_write_german_iff (t := .seconds 86400) hstyle rfl hnear (by decide)
    (by decide)
  have hrefused := (read_write_german_iff (t := .seconds 1036800) hstyle rfl hnear (by decide)
    (by decide)).2 (by decide)
  refine ⟨mt hback.1 (by decide), (hread (by decide)).trans ?_, hrefused.trans ?_⟩
  · rw [if_pos (by decide)]
    exact congrArg Except.ok (by decide)
  · rw [if_neg (by decide)]

end Moment

end Horology
