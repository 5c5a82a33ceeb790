import Horology.Moment.Text
import Horology.Proofs.Moment.Layout

/-!
# Layouts of a date mean the same date

A date may be written with the year first or last, with any of three separators or without one, and
with the name of its month.  All these layouts are cut into fields that fill year, month and day and
nothing else, so that what stands behind the date meets the same slots whichever layout was used:
the text names the same moment in all of them, or is refused in all of them for the same fault.

## Main definitions

* `DateLayout` — the layouts of a date.
* `DateLayout.Suits` — the layouts that a date of a month may have.
* `DateReading.behindDate` — what a date with something behind it is read as.
* `Moment.read_dateLayout` — that all layouts come to the same.
-/

namespace Horology

open DateField (AtGap atGap_cons atGap_nil separatesDate not_inClass_of_separatesDate)

/-! ## Eight digits -/

namespace Date.FitsDigits

variable {date : Date}

/-- Year, month and day side by side are one number. -/
theorem readWord?_packed (h : date.FitsDigits) :
    Numeral.readWord? (Civil.fourDigits date.year ++ Civil.twoDigits date.month ++
      Civil.twoDigits date.day) = some (date.year * 10000 + date.month * 100 + date.day) := by
  obtain ⟨hyear, hmonth, hday⟩ := h
  have hmonths := Numeral.readWord?_append (Civil.readWord?_fourDigits hyear.1 hyear.2)
    (Civil.readWord?_twoDigits hmonth.1 hmonth.2)
  rw [Civil.length_twoDigits hmonth.1 hmonth.2] at hmonths
  have hdays := Numeral.readWord?_append (hmonths (by omega))
    (Civil.readWord?_twoDigits hday.1 hday.2)
  rw [Civil.length_twoDigits hday.1 hday.2] at hdays
  rw [hdays (by omega), Option.some_inj]
  omega

/-- They are the whole date while nothing is known. -/
theorem place_packed (h : date.FitsDigits) (order : DateOrder) :
    DateSlots.place order {} (.number (Civil.fourDigits date.year ++ Civil.twoDigits date.month ++
      Civil.twoDigits date.day)) = .ok (DateSlots.ofDate date) := by
  have hread := h.readWord?_packed
  obtain ⟨hyear, hmonth, hday⟩ := h
  have hlength : (Civil.fourDigits date.year ++ Civil.twoDigits date.month ++
      Civil.twoDigits date.day).length = 8 := by
    rw [List.length_append, List.length_append, Civil.length_fourDigits hyear.1 hyear.2,
      Civil.length_twoDigits hmonth.1 hmonth.2, Civil.length_twoDigits hday.1 hday.2]
  have hyears : (date.year * 10000 + date.month * 100 + date.day) / 10000 = date.year := by omega
  have hmonths : (date.year * 10000 + date.month * 100 + date.day) / 100 % 100 = date.month := by
    omega
  have hdays : (date.year * 10000 + date.month * 100 + date.day) % 100 = date.day := by omega
  simp only [DateSlots.place, DateSlots.placeNumber, hread, hlength, hyears, hmonths, hdays,
    and_self, if_true, DateSlots.ofDate]

end Date.FitsDigits

/-! ## Names of months -/

/-- That a word is a name of a month, short or long, in any letter case. -/
def IsMonthName (month : Int) (name : List Char) : Prop :=
  (String.ofList (lower name), month) ∈ monthNames

instance (month : Int) (name : List Char) : Decidable (IsMonthName month name) :=
  inferInstanceAs (Decidable (_ ∈ _))

namespace IsMonthName

variable {month : Int} {name : List Char}

theorem letters (h : IsMonthName month name) : name ≠ [] ∧ ∀ c ∈ name, c.isAlpha := by
  have htable : ∀ entry ∈ monthNames,
      entry.1.toList ≠ [] ∧ entry.1.toList.all Char.isAlpha = true := by decide
  obtain ⟨hne, hall⟩ := htable _ h
  rw [String.toList_ofList] at hne hall
  exact ⟨fun hnil => hne (by rw [hnil, lower_nil]), isAlpha_of_lower (List.all_eq_true.1 hall)⟩

theorem place (h : IsMonthName month name) {order : DateOrder} {slots : DateSlots}
    (hmonth : slots.month = none) :
    DateSlots.place order slots (.word name) = .ok { slots with month := some month } := by
  have htable : ∀ entry ∈ monthNames, DateWordSense.ofWord entry.1 = .month entry.2 := by decide
  have hsense : DateWordSense.ofWord (String.ofList (lower name)) = .month month := htable _ h
  simp [DateSlots.place, DateSlots.placeWord, hsense, hmonth]

end IsMonthName

/-! ## Layouts -/

/-- The layouts of a date. -/
inductive DateLayout where
  /-- Year, month and day with separators. -/
  | yearFirst (sep : Char)
  /-- Year, month and day in eight digits. -/
  | packed
  /-- The year last, with separators; the date order says which of day and month is first. -/
  | yearLast (sep : Char)
  | dayNameYear (name : List Char)
  | nameDayYear (name : List Char)
  | yearNameDay (name : List Char)

namespace DateLayout

/-- That a date of a month may have a layout: its separator is one, or its name is one of the
month. -/
def Suits (month : Int) : DateLayout → Prop
  | yearFirst sep | yearLast sep => separatesDate sep
  | packed => True
  | dayNameYear name | nameDayYear name | yearNameDay name => IsMonthName month name

/-- A date in a layout. -/
def write (order : DateOrder) (date : Date) (layout : DateLayout) : List Char :=
  let year := Civil.fourDigits date.year
  let month := Civil.twoDigits date.month
  let day := Civil.twoDigits date.day
  match layout with
  | yearFirst sep => year ++ sep :: month ++ sep :: day
  | packed => year ++ month ++ day
  | yearLast sep =>
    if order = .dmy then day ++ sep :: month ++ sep :: year else month ++ sep :: day ++ sep :: year
  | dayNameYear name => day ++ ' ' :: name ++ ' ' :: year
  | nameDayYear name => name ++ ' ' :: day ++ ',' :: ' ' :: year
  | yearNameDay name => year ++ ' ' :: name ++ ' ' :: day

/-- The fields that a date in a layout consists of. -/
def fields (order : DateOrder) (date : Date) (layout : DateLayout) : List DateField :=
  let year := Civil.fourDigits date.year
  let day := Civil.twoDigits date.day
  match layout with
  | yearFirst sep | yearLast sep => [.date (layout.write order date) sep]
  | packed => [.number (layout.write order date)]
  | dayNameYear name => [.number day, .word name, .number year]
  | nameDayYear name => [.word name, .number day, .number year]
  | yearNameDay name => [.number year, .word name, .number day]

variable {date : Date} {layout : DateLayout}

/-- A date before a gap is cut into its fields. -/
theorem ofText?_write (hdate : date.FitsDigits) (hsuits : layout.Suits date.month)
    (order : DateOrder) {rest : List Char} (hrest : AtGap rest) :
    DateField.ofText? (layout.write order date ++ rest) =
      (DateField.ofText? rest).map (layout.fields order date ++ ·) := by
  have hyear := hdate.isRun_year
  have hmonth := hdate.isRun_month
  have hday := hdate.isRun_day
  cases layout with
  | yearFirst sep => exact DateField.ofText?_date_of_atGap hyear hmonth hday hsuits hrest
  | packed => exact DateField.ofText?_number_of_atGap ((hyear.append hmonth).append hday) hrest
  | yearLast sep =>
    by_cases horder : order = .dmy
    · simp only [fields, write, if_pos horder]
      exact DateField.ofText?_date_of_atGap hday hmonth hyear hsuits hrest
    · simp only [fields, write, if_neg horder]
      exact DateField.ofText?_date_of_atGap hmonth hday hyear hsuits hrest
  | dayNameYear name =>
    simp only [write, fields, List.append_assoc, List.cons_append]
    rw [DateField.ofText?_number hday, DateField.ofText?_word_blank hsuits.letters,
      DateField.ofText?_number_of_atGap hyear hrest, Option.map_map, Option.map_map]
    rfl
  | nameDayYear name =>
    -- The comma ends the day as a blank would, and the blank behind it is one more gap.
    simp only [write, fields, List.append_assoc, List.cons_append]
    rw [DateField.ofText?_word_blank hsuits.letters,
      DateField.ofText?_number_of_atGap hday (atGap_cons rfl _), DateField.ofText?_gap rfl,
      DateField.ofText?_gap rfl, DateField.ofText?_number_of_atGap hyear hrest, Option.map_map,
      Option.map_map]
    rfl
  | yearNameDay name =>
    simp only [write, fields, List.append_assoc, List.cons_append]
    rw [DateField.ofText?_number hyear, DateField.ofText?_word_blank hsuits.letters,
      DateField.ofText?_number_of_atGap hday hrest, Option.map_map, Option.map_map]
    rfl

/-- Whatever the layout, its fields fill year, month and day and nothing else. -/
theorem foldlM_place_fields (hdate : date.FitsDigits) (hsuits : layout.Suits date.month)
    (order : DateOrder) :
    (layout.fields order date).foldlM (DateSlots.place order) {} = .ok (.ofDate date) := by
  obtain ⟨hy0, hy1⟩ := hdate.year
  obtain ⟨hd0, hd1⟩ := hdate.day
  cases layout with
  | yearFirst sep =>
    have hsep := (not_inClass_of_separatesDate hsuits).1
    exact DateSlots.foldlM_place_cons (DateSlots.place_yearFirst hdate hsep) []
  | packed => exact DateSlots.foldlM_place_cons (hdate.place_packed order) []
  | yearLast sep =>
    have hsep := (not_inClass_of_separatesDate hsuits).1
    exact DateSlots.foldlM_place_cons (DateSlots.place_yearLast hdate hsep) []
  | dayNameYear name =>
    rw [fields, DateSlots.foldlM_place_cons (DateSlots.place_twoDigits rfl hd0 hd1),
      DateSlots.foldlM_place_cons (hsuits.place rfl)]
    exact DateSlots.foldlM_place_cons (DateSlots.place_fourDigits rfl hy0 hy1) []
  | nameDayYear name =>
    rw [fields, DateSlots.foldlM_place_cons (hsuits.place rfl),
      DateSlots.foldlM_place_cons (DateSlots.place_twoDigits rfl hd0 hd1)]
    exact DateSlots.foldlM_place_cons (DateSlots.place_fourDigits rfl hy0 hy1) []
  | yearNameDay name =>
    rw [fields, DateSlots.foldlM_place_cons (DateSlots.place_fourDigits rfl hy0 hy1),
      DateSlots.foldlM_place_cons (hsuits.place rfl)]
    exact DateSlots.foldlM_place_cons (DateSlots.place_twoDigits rfl hd0 hd1) []

/-- A date is no reserved word, whatever stands behind it. -/
theorem reserved?_fields_append (layout : DateLayout) (order : DateOrder) (date : Date)
    (more : List DateField) :
    DateReading.reserved? (layout.fields order date ++ more) = none := by
  cases layout <;> rfl

end DateLayout

/-! ## Readings -/

/-- What a date with something behind it is read as: the fields behind it fill slots of which year,
month and day are filled already. -/
def DateReading.behindDate (session : Session) (date : Date) (tail : List Char) :
    Except DateFault DateReading :=
  match DateField.ofText? tail with
  | some fields => do
    let slots ← fields.foldlM (DateSlots.place session.dateOrder) (.ofDate date)
    let c ← slots.civil
    return .civil c (← slots.east session c)
  | none => .error .badSyntax

/-- A text that begins with a date in some layout is read as if the date were known. -/
theorem DateLayout.read_write_append {date : Date} (hdate : date.FitsDigits) {layout : DateLayout}
    (hsuits : layout.Suits date.month) (session : Session) {tail : List Char}
    (htail : AtGap tail) :
    DateReading.read session (layout.write session.dateOrder date ++ tail) =
      DateReading.behindDate session date tail := by
  rw [DateReading.read, DateReading.behindDate,
    layout.ofText?_write hdate hsuits session.dateOrder htail]
  cases DateField.ofText? tail with
  | none => rfl
  | some more =>
    -- The fields of the date come first, and those behind it go on from the slots they filled.
    have hslots : DateSlots.ofFields session.dateOrder
        (layout.fields session.dateOrder date ++ more) =
        more.foldlM (DateSlots.place session.dateOrder) (.ofDate date) := by
      rw [DateSlots.ofFields, List.foldlM_append, layout.foldlM_place_fields hdate hsuits]
      rfl
    simp only [Option.map_some, DateReading.ofFields, reserved?_fields_append, DateReading.ofDate,
      hslots]

namespace Moment

/-- **All layouts of a date mean the same date.**  With anything behind it that a blank or a comma
keeps apart, the text comes to one outcome: the same moment whatever the layout, or the same fault,
which each text reports of itself. -/
theorem read_dateLayout {date : Date} (hdate : date.FitsDigits) (session : Session)
    {tail : List Char} (htail : AtGap tail) :
    ∃ outcome : Except DateFault Moment, ∀ layout : DateLayout, layout.Suits date.month →
      let text := String.ofList (layout.write session.dateOrder date ++ tail)
      read session text = outcome.mapError (·.error text) := by
  refine ⟨(DateReading.behindDate session date tail).map ofReading, fun layout hsuits => ?_⟩
  intro text
  rw [read, String.toList_ofList, layout.read_write_append hdate hsuits session htail]
  cases DateReading.behindDate session date tail with
  | ok reading => rfl
  | error fault => rfl

/-- An evening in a zone called by its name is the same with the name of the month as in eight
digits, and a day that February does not have is refused in any layout. -/
theorem read_dateLayout_february :
    let session : Session :=
      { now := 0,
        rulesOf? := fun name =>
          if name = "Europe/Paris" then some (.constant ⟨3600, "CET"⟩) else none }
    read session "FEBruary 28, 1970 10:00 pm Europe/Paris" = .ok (.seconds 5086800) ∧
      read session "02.29.1970" = .error (.fieldOutOfRange .moment "02.29.1970") := by
  intro session
  constructor
  · obtain ⟨outcome, h⟩ := read_dateLayout
      (show Date.FitsDigits ⟨1970, 2, 28⟩ from ⟨by decide, by decide, by decide⟩) session
      (show AtGap " 10:00 pm Europe/Paris".toList from atGap_cons (c := ' ') rfl _)
    have hpacked : read session "19700228 10:00 pm Europe/Paris" = _ := h .packed trivial
    have hnamed : read session "FEBruary 28, 1970 10:00 pm Europe/Paris" = _ :=
      h (.nameDayYear "FEBruary".toList) (show IsMonthName 2 "FEBruary".toList by decide)
    have hread : read session "19700228 10:00 pm Europe/Paris" = .ok (.seconds 5086800) := by
      decide +kernel
    cases outcome with
    | ok t => exact hnamed.trans (hpacked.symm.trans hread)
    | error fault => cases hpacked.symm.trans hread
  · obtain ⟨outcome, h⟩ := read_dateLayout
      (show Date.FitsDigits ⟨1970, 2, 29⟩ from ⟨by decide, by decide, by decide⟩) session
      atGap_nil
    have hpacked : read session "19700229" = _ := h .packed trivial
    have hdotted : read session "02.29.1970" = _ := h (.yearLast '.') rfl
    have hread : read session "19700229" = .error (.fieldOutOfRange .moment "19700229") := by
      decide +kernel
    cases outcome with
    | ok t => cases hpacked.symm.trans hread
    | error fault =>
      cases fault with
      | outOfRange => exact hdotted
      | badSyntax => cases hpacked.symm.trans hread
      | unknownZone word => cases hpacked.symm.trans hread

end Moment

end Horology
