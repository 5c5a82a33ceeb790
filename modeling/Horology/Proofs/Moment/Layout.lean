import Horology.Moment.Reading
import Horology.Proofs.Calendar
import Horology.Proofs.Moment.Field
import Horology.Proofs.Moment.Slots
import Horology.Proofs.Offset

/-!
# Layouts of a reading are read back

A reading of calendar and clock, written in any style, is cut into the fields it was written in, and
these fill the slots of the reading it was.  The ISO style is read back in any session; of the
others the date order must be the one they were written in, and days come first in the German style.
What the zone is written as comes last and fills one slot more; here it is a numeric offset.

## Main definitions

* `Civil.IsPlain` — the readings that are written without loss.
* `Zoned.fields` — the fields that date and clock time consist of in a style.
* `ofText?_writeCivil`, `foldlM_place_fields` — cutting them from a text, and filling slots.
* `read_of_fields` — the reading of date and clock time and one more field.
* `read_write` — the reading of a layout with a numeric offset.
-/

namespace Horology

/-- A reading that exists and has a year of four digits. -/
structure Civil.IsPlain (c : Civil) : Prop where
  isReading : c.Exists
  year : 0 ≤ c.year ∧ c.year ≤ 9999

namespace Civil

variable {c : Civil}

theorem IsPlain.month (h : c.IsPlain) : 1 ≤ c.month ∧ c.month ≤ 12 := h.isReading.2.1

theorem IsPlain.day (h : c.IsPlain) : 1 ≤ c.day ∧ c.day ≤ 31 :=
  ⟨h.isReading.2.2.1.1, Int.le_trans h.isReading.2.2.1.2 (Date.daysInMonth_le _ _)⟩

theorem IsPlain.fitsDigits (h : c.IsPlain) : (⟨c.year, c.month, c.day⟩ : Date).FitsDigits :=
  ⟨h.year, ⟨Int.le_trans (by decide) h.month.1, Int.le_trans h.month.2 (by decide)⟩,
    ⟨Int.le_trans (by decide) h.day.1, Int.le_trans h.day.2 (by decide)⟩⟩

end Civil

/-- The fields that date and clock time consist of in a style. -/
def Zoned.fields (z : Zoned) (style : DateStyle) (order : DateOrder) : List DateField :=
  let year := Civil.fourDigits z.civil.year
  let month := Civil.twoDigits z.civil.month
  let day := Civil.twoDigits z.civil.day
  let time := DateField.time z.civil.writeClock
  match style with
  | .iso => [.date (year ++ '-' :: month ++ '-' :: day) '-', time]
  | .sql =>
    if order = .dmy then [.date (day ++ '/' :: month ++ '/' :: year) '/', time]
    else [.date (month ++ '/' :: day ++ '/' :: year) '/', time]
  | .german => [.date (day ++ '.' :: month ++ '.' :: year) '.', time]
  | .postgres =>
    let name := DateField.word (monthAbbreviation z.civil.month)
    .word (weekdayAbbreviation z.weekday) ::
      (if order = .dmy then [.number day, name] else [name, .number day])
      ++ [time, .number year]

namespace Zoned

variable {z : Zoned} {style : DateStyle}

/-- A zone without an abbreviation, or in the ISO style, is written as its offset. -/
theorem writeZone_of_numeric (hnumeric : style = .iso ∨ z.abbreviation = none) :
    z.writeZone style =
      if style = .postgres then ' ' :: Offset.write z.east else Offset.write z.east := by
  cases style with
  | iso => rfl
  | sql => simp [writeZone, hnumeric.resolve_left (by decide)]
  | german => simp [writeZone, hnumeric.resolve_left (by decide)]
  | postgres => simp [writeZone, hnumeric.resolve_left (by decide)]

/-- Outside the ISO style, an abbreviation is written behind a blank. -/
theorem writeZone_of_abbreviation (hstyle : style ≠ .iso) {word : List Char}
    (hword : z.abbreviation = some word) : z.writeZone style = ' ' :: word := by
  cases style with
  | iso => exact absurd rfl hstyle
  | sql => simp only [writeZone, hword]
  | german => simp only [writeZone, hword]
  | postgres => simp only [writeZone, hword]

end Zoned

/-! ## Cutting -/

namespace DateField

/-- A written offset is a field by itself. -/
theorem ofText?_offset_write (east : Int) :
    ofText? (Offset.write east) = some [.offset (Offset.write east)] := by
  obtain ⟨d, body, hbody, hd⟩ := Offset.body_eq_cons east.natAbs
  have hinside : ∀ c ∈ d :: body, inOffset c := by
    intro c hc
    rcases Offset.isDigit_or_colon_of_mem_body (hbody ▸ hc) with h | rfl
    · simp [inOffset, h]
    · rfl
  rw [Offset.write_eq, hbody]
  exact ofText?_offset (Offset.sign_eq_or east) hd hinside

/-- A clock time is a field, as long as neither a letter follows nor what a clock time may go on
with. -/
theorem ofText?_clock {c : Civil} (hc : c.Exists) {rest : List Char} (htime : Stops inTime rest)
    (halpha : Stops Char.isAlpha rest) :
    ofText? (c.writeClock ++ rest) = (ofText? rest).map (.time c.writeClock :: ·) := by
  obtain ⟨-, -, -, hhour, hminute, hsecond⟩ := hc
  exact ofText?_time (Civil.isRun_twoDigits hhour.1) (Civil.isRun_twoDigits hminute.1)
    (Civil.isRun_twoDigits hsecond.1) htime halpha

/-- A clock time before a blank is a field. -/
theorem ofText?_clock_blank {c : Civil} (hc : c.Exists) (rest : List Char) :
    ofText? (c.writeClock ++ ' ' :: rest) = (ofText? rest).map (.time c.writeClock :: ·) := by
  rw [ofText?_clock hc (by simp [inTime]) (by simp), ofText?_gap rfl]

/-- A name of letters before a blank is a field. -/
theorem ofText?_word_blank {w : List Char} (hw : w ≠ [] ∧ ∀ c ∈ w, c.isAlpha)
    (rest : List Char) : ofText? (w ++ ' ' :: rest) = (ofText? rest).map (.word w :: ·) := by
  rw [ofText?_word hw.1 hw.2 (by simp [inWord]), ofText?_gap rfl]

theorem letters_monthAbbreviation (month : Int) :
    monthAbbreviation month ≠ [] ∧ ∀ c ∈ monthAbbreviation month, c.isAlpha := by
  rw [← List.all_eq_true]
  exact DateSlots.monthAbbreviation_induction (p := fun w => w ≠ [] ∧ w.all Char.isAlpha = true)
    (by decide) month

theorem letters_weekdayAbbreviation (weekday : Int) :
    weekdayAbbreviation weekday ≠ [] ∧ ∀ c ∈ weekdayAbbreviation weekday, c.isAlpha := by
  rw [← List.all_eq_true]
  exact DateSlots.weekdayAbbreviation_induction (p := fun w => w ≠ [] ∧ w.all Char.isAlpha = true)
    (by decide) weekday

/-- What may follow date and clock time in a style: after a blank anything, and right behind a clock
time what begins with a sign. -/
inductive Follows (style : DateStyle) : List Char → Prop
  | blank (rest : List Char) : Follows style (' ' :: rest)
  | sign (hstyle : style ≠ .postgres) {c : Char} (hc : c = '+' ∨ c = '-') (rest : List Char) :
    Follows style (c :: rest)

theorem Follows.stops {style : DateStyle} {rest : List Char} (h : Follows style rest) :
    Stops inTime rest ∧ Stops Char.isAlpha rest := by
  cases h with
  | blank rest => exact ⟨by simp [inTime], by simp⟩
  | sign _ hc rest => rcases hc with rfl | rfl <;> exact ⟨by simp [inTime], by simp⟩

/-- Date and clock time in a style are cut into their fields, and what follows into its own. -/
theorem ofText?_writeCivil {z : Zoned} (hz : z.civil.IsPlain) {style : DateStyle}
    (order : DateOrder) {rest : List Char} (hrest : Follows style rest) :
    ofText? (z.writeCivil style order ++ rest) =
      (ofText? rest).map (z.fields style order ++ ·) := by
  have hyear := Civil.isRun_fourDigits hz.year.1
  have hmonth0 : 0 ≤ z.civil.month := Int.le_trans (by decide) hz.month.1
  have hday0 : 0 ≤ z.civil.day := Int.le_trans (by decide) hz.day.1
  have hmonth := Civil.isRun_twoDigits hmonth0
  have hday := Civil.isRun_twoDigits hday0
  have hclock := ofText?_clock hz.isReading hrest.stops.1 hrest.stops.2
  cases style with
  | iso =>
    have hdate := ofText?_date hyear hmonth hday (show separatesDate '-' from rfl)
      (z.civil.writeClock ++ rest)
    simp only [Zoned.writeCivil, Civil.writeIso, Zoned.fields, List.append_assoc,
      List.cons_append] at hdate ⊢
    rw [hdate, hclock, Option.map_map]
    rfl
  | sql =>
    by_cases horder : order = .dmy
    · have hdate := ofText?_date hday hmonth hyear (show separatesDate '/' from rfl)
        (z.civil.writeClock ++ rest)
      simp only [Zoned.writeCivil, Civil.writeSql, horder, if_true, Zoned.fields,
        List.append_assoc, List.cons_append] at hdate ⊢
      rw [hdate, hclock, Option.map_map]
      rfl
    · have hdate := ofText?_date hmonth hday hyear (show separatesDate '/' from rfl)
        (z.civil.writeClock ++ rest)
      simp only [Zoned.writeCivil, Civil.writeSql, horder, if_false, Zoned.fields,
        List.append_assoc, List.cons_append] at hdate ⊢
      rw [hdate, hclock, Option.map_map]
      rfl
  | german =>
    have hdate := ofText?_date hday hmonth hyear (show separatesDate '.' from rfl)
      (z.civil.writeClock ++ rest)
    simp only [Zoned.writeCivil, Civil.writeGerman, Zoned.fields, List.append_assoc,
      List.cons_append] at hdate ⊢
    rw [hdate, hclock, Option.map_map]
    rfl
  | postgres =>
    have hweekday := letters_weekdayAbbreviation z.weekday
    have hname := letters_monthAbbreviation z.civil.month
    cases hrest with
    | sign hstyle => exact absurd rfl hstyle
    | blank rest =>
      simp only [Zoned.writeCivil, Civil.writePostgres, Zoned.fields, ofText?_gap (c := ' ') rfl]
      by_cases horder : order = .dmy
      · simp only [horder, if_true, List.append_assoc, List.cons_append, List.nil_append]
        rw [ofText?_word_blank hweekday, ofText?_number hday, ofText?_word_blank hname,
          ofText?_clock_blank hz.isReading, ofText?_number hyear]
        simp only [Option.map_map]
        rfl
      · simp only [horder, if_false, List.append_assoc, List.cons_append, List.nil_append]
        rw [ofText?_word_blank hweekday, ofText?_word_blank hname, ofText?_number hday,
          ofText?_clock_blank hz.isReading, ofText?_number hyear]
        simp only [Option.map_map]
        rfl

/-- The zone of a layout may follow its date and clock time. -/
theorem follows_writeZone (z : Zoned) (style : DateStyle) : Follows style (z.writeZone style) := by
  by_cases hnumeric : style = .iso ∨ z.abbreviation = none
  · rw [Zoned.writeZone_of_numeric hnumeric]
    split
    · exact .blank (Offset.write z.east)
    · next hstyle =>
      rw [Offset.write_eq]
      exact .sign hstyle (Offset.sign_eq_or z.east) _
  · obtain ⟨hstyle, hsome⟩ := not_or.1 hnumeric
    obtain ⟨word, hword⟩ := Option.ne_none_iff_exists'.1 hsome
    rw [Zoned.writeZone_of_abbreviation hstyle hword]
    exact .blank word

/-- A layout is cut into the fields of date and clock time and those of the zone. -/
theorem ofText?_write {z : Zoned} (hz : z.civil.IsPlain) (style : DateStyle) (order : DateOrder) :
    ofText? (z.write style order) = (ofText? (z.writeZone style)).map (z.fields style order ++ ·) :=
  ofText?_writeCivil hz order (follows_writeZone z style)

/-- A zone without an abbreviation, or in the ISO style, is one field, the offset. -/
theorem ofText?_writeZone {z : Zoned} {style : DateStyle}
    (hnumeric : style = .iso ∨ z.abbreviation = none) :
    ofText? (z.writeZone style) = some [.offset (Offset.write z.east)] := by
  rw [Zoned.writeZone_of_numeric hnumeric]
  split
  · rw [ofText?_gap rfl, ofText?_offset_write]
  · rw [ofText?_offset_write]

end DateField

/-! ## Filling slots -/

namespace DateSlots

/-- The slots that date and clock time of a reading fill. -/
def ofCivil (c : Civil) : DateSlots where
  year := some c.year
  month := some c.month
  day := some c.day
  clock := some (c.hour, c.minute, c.second)

/-- A written offset below sixteen hours is the offset while no zone is known. -/
theorem place_offset_write {order : DateOrder} {slots : DateSlots} {east : Int}
    (hzone : slots.hasZone = false) (heast : east.natAbs < 57600) :
    place order slots (.offset (Offset.write east)) = .ok { slots with offset := some east } := by
  simp [place, placeOffset, hzone, Offset.read?_write heast]

/-- Fields fill slots one after another. -/
theorem foldlM_place_cons {order : DateOrder} {slots slots' : DateSlots} {field : DateField}
    (h : place order slots field = .ok slots') (fields : List DateField) :
    (field :: fields).foldlM (place order) slots = fields.foldlM (place order) slots' := by
  rw [List.foldlM_cons, h]
  rfl

/-- After its date, a reading fills the clock. -/
theorem foldlM_place_date {order : DateOrder} {c : Civil} (hc : c.Exists) {text : List Char}
    {sep : Char} (hdate : place order {} (.date text sep) =
      .ok { year := some c.year, month := some c.month, day := some c.day }) :
    [.date text sep, .time c.writeClock].foldlM (place order) {} = .ok (ofCivil c) := by
  rw [foldlM_place_cons hdate, foldlM_place_cons (place_writeClock rfl hc)]
  rfl

/-- After day and month, a reading fills the clock and the year. -/
theorem foldlM_place_clock_year {order : DateOrder} {c : Civil} (hc : c.IsPlain) :
    [.time c.writeClock, .number (Civil.fourDigits c.year)].foldlM (place order)
        { month := some c.month, day := some c.day } = .ok (ofCivil c) := by
  rw [foldlM_place_cons (place_writeClock rfl hc.isReading),
    foldlM_place_cons (place_fourDigits rfl hc.year.1 hc.year.2)]
  rfl

/-- The fields of date and clock time fill the slots of their reading. -/
theorem foldlM_place_fields {z : Zoned} (hz : z.civil.IsPlain) {style : DateStyle}
    {order order' : DateOrder}
    (horder : style = .iso ∨ order' = order ∧ (style = .german → order = .dmy)) :
    (z.fields style order).foldlM (place order') {} = .ok (ofCivil z.civil) := by
  have hdate := hz.fitsDigits
  cases style with
  | iso =>
    have hplace : place order' {} (.date _ '-') = _ := place_yearFirst hdate rfl
    exact foldlM_place_date hz.isReading hplace
  | sql =>
    obtain ⟨rfl, -⟩ := horder.resolve_left (by decide)
    have hplace : place order' {} (.date _ '/') = _ := place_yearLast hdate rfl
    by_cases hdmy : order' = .dmy
    · rw [if_pos hdmy] at hplace
      simp only [Zoned.fields, if_pos hdmy]
      exact foldlM_place_date hz.isReading hplace
    · rw [if_neg hdmy] at hplace
      simp only [Zoned.fields, if_neg hdmy]
      exact foldlM_place_date hz.isReading hplace
  | german =>
    obtain ⟨rfl, hgerman⟩ := horder.resolve_left (by decide)
    have hplace : place order' {} (.date _ '.') = _ := place_yearLast hdate rfl
    rw [if_pos (hgerman rfl)] at hplace
    exact foldlM_place_date hz.isReading hplace
  | postgres =>
    by_cases hdmy : order = .dmy
    · simp only [Zoned.fields, if_pos hdmy, List.cons_append, List.nil_append]
      rw [foldlM_place_cons (place_weekdayAbbreviation _ _ _),
        foldlM_place_cons (place_twoDigits rfl hdate.day.1 hdate.day.2),
        foldlM_place_cons (place_monthAbbreviation rfl hz.month.1 hz.month.2)]
      exact foldlM_place_clock_year hz
    · simp only [Zoned.fields, if_neg hdmy, List.cons_append, List.nil_append]
      rw [foldlM_place_cons (place_weekdayAbbreviation _ _ _),
        foldlM_place_cons (place_monthAbbreviation rfl hz.month.1 hz.month.2),
        foldlM_place_cons (place_twoDigits rfl hdate.day.1 hdate.day.2)]
      exact foldlM_place_clock_year hz

/-- The slots of a reading name it if it exists, whatever is known about the zone. -/
theorem civil_ofCivil_eq (c : Civil) (offset : Option Int) (zoneWord : Option (List Char)) :
    ({ ofCivil c with offset, zoneWord } : DateSlots).civil =
      if c.Exists then .ok c else .error .outOfRange := by
  simp [DateSlots.civil, ofCivil, hourOfClock, bind, Except.bind]

theorem civil_ofCivil {c : Civil} (hc : c.Exists) (offset : Option Int)
    (zoneWord : Option (List Char)) :
    ({ ofCivil c with offset, zoneWord } : DateSlots).civil = .ok c := by
  rw [civil_ofCivil_eq, if_pos hc]

end DateSlots

/-! ## Reading -/

namespace DateReading

/-- Fields that fill the slots of a reading and an offset name it, if it exists. -/
theorem read_of_ofFields {session : Session} {text : List Char} {fields : List DateField}
    (htext : DateField.ofText? text = some fields) (hreserved : reserved? fields = none)
    {c : Civil} {east : Int}
    (hslots : DateSlots.ofFields session.dateOrder fields =
      .ok { DateSlots.ofCivil c with offset := some east }) :
    read session text = if c.Exists then .ok (.civil c east) else .error .outOfRange := by
  have hcivil : ({ DateSlots.ofCivil c with offset := some east } : DateSlots).civil =
      if c.Exists then .ok c else .error .outOfRange :=
    DateSlots.civil_ofCivil_eq c (some east) none
  rw [read, htext]
  simp only [ofFields, hreserved, ofDate, hslots, bind, Except.bind, hcivil]
  by_cases hc : c.Exists
  · rw [if_pos hc, if_pos hc]
    rfl
  · rw [if_neg hc, if_neg hc]

/-- No date and clock time with more behind it is a reserved word. -/
theorem reserved?_fields_append (z : Zoned) (style : DateStyle) (order : DateOrder)
    (field : DateField) : reserved? (z.fields style order ++ [field]) = none := by
  cases style with
  | iso => rfl
  | german => rfl
  | sql => by_cases hdmy : order = .dmy <;> simp [Zoned.fields, reserved?, hdmy]
  | postgres => by_cases hdmy : order = .dmy <;> simp [Zoned.fields, reserved?, hdmy]

/-- **Date and clock time are read as they were written**, at the offset that the one field behind
them says. -/
theorem read_of_fields {z : Zoned} (hz : z.civil.IsPlain) {style : DateStyle} {order : DateOrder}
    {session : Session}
    (horder : style = .iso ∨ session.dateOrder = order ∧ (style = .german → order = .dmy))
    {text : List Char} {field : DateField}
    (htext : DateField.ofText? text = some (z.fields style order ++ [field]))
    {offset : Option Int} {zoneWord : Option (List Char)}
    (hfield : DateSlots.place session.dateOrder (.ofCivil z.civil) field =
      .ok { DateSlots.ofCivil z.civil with offset, zoneWord }) :
    read session text =
      (({ DateSlots.ofCivil z.civil with offset, zoneWord } : DateSlots).east session
        z.civil).map (.civil z.civil) := by
  have hslots : DateSlots.ofFields session.dateOrder (z.fields style order ++ [field]) =
      .ok { DateSlots.ofCivil z.civil with offset, zoneWord } := by
    rw [DateSlots.ofFields, List.foldlM_append, DateSlots.foldlM_place_fields hz horder]
    exact DateSlots.foldlM_place_cons hfield []
  rw [read, htext]
  simp only [ofFields, reserved?_fields_append, ofDate, hslots, bind, Except.bind,
    DateSlots.civil_ofCivil hz.isReading]
  rfl

/-- **A layout with a numeric offset is read as the reading and the offset it was written for.** -/
theorem read_write {z : Zoned} (hz : z.civil.IsPlain) (heast : z.east.natAbs < 57600)
    {style : DateStyle} {order : DateOrder} (hnumeric : style = .iso ∨ z.abbreviation = none)
    {session : Session}
    (horder : style = .iso ∨ session.dateOrder = order ∧ (style = .german → order = .dmy)) :
    read session (z.write style order) = .ok (.civil z.civil z.east) := by
  have htext : DateField.ofText? (z.write style order) =
      some (z.fields style order ++ [.offset (Offset.write z.east)]) := by
    rw [DateField.ofText?_write hz, DateField.ofText?_writeZone hnumeric]
    rfl
  exact read_of_fields hz horder htext (DateSlots.place_offset_write rfl heast)

end DateReading

end Horology
