import Horology.Proofs.Calendar.Count
import Horology.Proofs.Moment.Text

/-!
# Date and clock time in digits, with an offset

A text that gives year, month, day, hour, minute and second in digits, in this order and however
many there are of them, and then an offset, means one second, which no setting of the session has a
say in.  What it comes to is said here without the readers: the text is refused if a number is out
of the range of its field, and otherwise it is the moment of the second that the calendar counts, or
the invalid one where no moment has that second.

## Main definitions

* `CivilDigits`, `CivilDigits.Spells` — the digits of the fields, and the reading that they spell.
* `Civil.Exceeds` — that a number is out of the range of its field.
* `Civil.countedSecond` — the second of a reading, by the rules of the calendar.
* `Moment.names_iff_of_exists` — the readings that name a finite moment.
* `Moment.read_of_spells` — what the text comes to.
-/

namespace Horology

open Numeral (isRun_of_readWord?)

/-! ## Readings -/

namespace Civil

/-- That a number is out of the range of its field: a year after 294276, a month or a day that the
calendar does not have, or a clock time past 24:59:60. -/
def Exceeds (c : Civil) : Prop :=
  294276 < c.year ∨ c.month < 1 ∨ 12 < c.month ∨ c.day < 1 ∨ daysInMonth c.year c.month < c.day ∨
    24 < c.hour ∨ 59 < c.minute ∨ 60 < c.second

instance (c : Civil) : Decidable c.Exceeds := inferInstanceAs (Decidable (_ ∨ _))

/-- The day of a reading since 1 January 1970, by the rules of the calendar. -/
def countedDay (c : Civil) : Int := Horology.countedDay c.year.toNat c.month.toNat c.day

/-- The second of a reading since 1 January 1970, by the rules of the calendar and the clock. -/
def countedSecond (c : Civil) : Int :=
  c.countedDay * 86400 + c.hour * 3600 + c.minute * 60 + c.second

variable {c : Civil}

theorem Exists.date (hc : c.Exists) : (⟨c.year, c.month, c.day⟩ : Date).IsProper :=
  ⟨hc.2.1, hc.2.2.1⟩

/-- The Julian formula finds the day that the calendar counts. -/
theorem dayNumber_eq_countedDay (hc : c.Exists) (hyear : 0 ≤ c.year) :
    dayNumber c.year c.month c.day = c.countedDay := by
  have hmonth := hc.2.1
  have hcount := Horology.dayNumber_eq_countedDay c.year.toNat
    (show 1 ≤ c.month.toNat ∧ c.month.toNat ≤ 12 by omega) c.day
  rwa [Int.toNat_of_nonneg hyear, Int.toNat_of_nonneg (by omega)] at hcount

theorem count_eq_countedSecond (hc : c.Exists) (hyear : 0 ≤ c.year) :
    c.count = c.countedSecond := by
  rw [count, countedSecond, dayNumber_eq_countedDay hc hyear]

end Civil

namespace Moment

variable {c : Civil} {east : Int}

/-- The days that moments have are of the years from 1901 to 2038. -/
theorem year_of_day (hc : c.Exists)
    (hday : firstDay ≤ dayNumber c.year c.month c.day ∧ dayNumber c.year c.month c.day ≤ lastDay) :
    1901 ≤ c.year ∧ c.year ≤ 2038 := by
  have hyear := hc.1.1
  have hyears : dayNumber c.year 1 1 ≤ dayNumber c.year c.month c.day ∧
      dayNumber c.year c.month c.day < dayNumber (c.year + 1) 1 1 :=
    hc.date.dayNumber_mem_year (show -4799 ≤ c.year by omega)
  have h1901 : dayNumber 1901 1 1 = -25202 := by decide
  have h2039 : dayNumber 2039 1 1 = 25202 := by decide
  simp only [firstDay, lastDay] at hday
  constructor
  · by_contra hlt
    have := Date.dayNumber_newYear_le (show -4799 ≤ c.year + 1 by omega)
      (show c.year + 1 ≤ 1901 by omega)
    omega
  · by_contra hlt
    have := Date.dayNumber_newYear_le (show -4799 ≤ 2039 by decide) (show 2039 ≤ c.year by omega)
    omega

/-- An existing reading names a finite moment if its clock time is not past 24:00:00, its day is one
that moments have, and its second is finite. -/
theorem names_iff_of_exists (hc : c.Exists) :
    Names c east ↔ (c.hour < 24 ∨ c.minute = 0 ∧ c.second = 0) ∧
      (firstDay ≤ dayNumber c.year c.month c.day ∧ dayNumber c.year c.month c.day ≤ lastDay) ∧
        -2147483648 < c.count - east ∧ c.count - east < 2147483644 := by
  rw [names_iff]
  refine and_congr_left fun h => ?_
  have hyear := year_of_day hc h.1
  have hmonth := hc.2.1
  have hday := hc.2.2.1
  have hlong := Date.daysInMonth_le c.year c.month
  have hclock := hc.2.2.2
  simp only [admits, Bool.and_eq_true, Bool.not_eq_true', Bool.and_eq_false_iff,
    beq_eq_false_iff_ne, Bool.or_eq_false_iff, decide_eq_true_eq, decide_eq_false_iff_not]
  omega

end Moment

/-! ## Texts -/

/-- The digits of a date and a clock time, field by field. -/
structure CivilDigits where
  year : List Char
  month : List Char
  day : List Char
  hour : List Char
  minute : List Char
  second : List Char

namespace CivilDigits

/-- The date, with dashes. -/
def date (d : CivilDigits) : List Char := d.year ++ '-' :: d.month ++ '-' :: d.day

/-- The clock time, with colons. -/
def clock (d : CivilDigits) : List Char := d.hour ++ ':' :: d.minute ++ ':' :: d.second

/-- Date and clock time with a blank between them. -/
def text (d : CivilDigits) : List Char := d.date ++ ' ' :: d.clock

/-- That the digits spell a reading: each field is a run of digits whose number fits a word, and the
year has three digits or more. -/
structure Spells (d : CivilDigits) (c : Civil) : Prop where
  longYear : 3 ≤ d.year.length
  year : Numeral.readWord? d.year = some c.year
  month : Numeral.readWord? d.month = some c.month
  day : Numeral.readWord? d.day = some c.day
  hour : Numeral.readWord? d.hour = some c.hour
  minute : Numeral.readWord? d.minute = some c.minute
  second : Numeral.readWord? d.second = some c.second

variable {d : CivilDigits} {c : Civil}

/-- A reading that is spelled has no negative number in it, so it exists unless a number is out of
its range. -/
theorem Spells.exists_iff (h : d.Spells c) : c.Exists ↔ ¬ c.Exceeds := by
  have hyear := Numeral.nonneg_of_readWord? h.year
  have hhour := Numeral.nonneg_of_readWord? h.hour
  have hminute := Numeral.nonneg_of_readWord? h.minute
  have hsecond := Numeral.nonneg_of_readWord? h.second
  simp only [Civil.Exists, Civil.Exceeds]
  omega

/-- The text is cut into a date, a clock time and the offset. -/
theorem Spells.ofText? (h : d.Spells c) {gap offset : List Char} (hgap : ∀ b ∈ gap, isBlank b)
    {east : Int} (hoffset : Offset.read? offset = some east) :
    DateField.ofText? (d.text ++ gap ++ offset) =
      some [.date d.date '-', .time d.clock, .offset offset] := by
  obtain ⟨sign, digit, body, rfl, hsign, hdigit, hbody⟩ := Offset.shape_of_read? hoffset
  -- Behind the clock time stands a blank or the sign of the offset, which no clock time has in it.
  have hstops {p : Char → Bool} (hblank : ∀ b, isBlank b → p b = false) (hplus : p '+' = false)
      (hminus : p '-' = false) : Stops p (gap ++ sign :: digit :: body) := by
    cases gap with
    | nil => rcases hsign with rfl | rfl <;> simpa
    | cons b gap => simpa using hblank b (hgap b List.mem_cons_self)
  have hclass (b : Char) (hb : isBlank b) := DateField.not_inClass_of_isGap
    (DateField.isGap_of_isBlank hb)
  have hdate := DateField.ofText?_date (isRun_of_readWord? h.year) (isRun_of_readWord? h.month)
    (isRun_of_readWord? h.day) (show DateField.separatesDate '-' from rfl)
    (d.clock ++ (gap ++ sign :: digit :: body))
  have htime := DateField.ofText?_time (isRun_of_readWord? h.hour) (isRun_of_readWord? h.minute)
    (isRun_of_readWord? h.second) (hstops (fun b hb => (hclass b hb).2.2.1) rfl rfl)
    (hstops (fun b hb => (hclass b hb).2.1) rfl rfl)
  have hcut : DateField.ofText? (gap ++ sign :: digit :: body) =
      some [.offset (sign :: digit :: body)] := by
    rw [DateField.ofText?_gaps fun b hb => DateField.isGap_of_isBlank (hgap b hb)]
    refine DateField.ofText?_offset hsign hdigit fun c hc => ?_
    rcases hbody c hc with hc | rfl
    · simp [DateField.inOffset, hc]
    · rfl
  have htext : d.text ++ gap ++ sign :: digit :: body =
      d.date ++ ' ' :: (d.clock ++ (gap ++ sign :: digit :: body)) := by
    simp [text]
  rw [htext]
  refine hdate.trans ?_
  rw [clock, htime, hcut]
  rfl

/-- Its fields fill the slots of the reading and the offset. -/
theorem Spells.ofFields (h : d.Spells c) {offset : List Char} {east : Int}
    (hoffset : Offset.read? offset = some east) (order : DateOrder) :
    DateSlots.ofFields order [.date d.date '-', .time d.clock, .offset offset] =
      .ok { DateSlots.ofCivil c with offset := some east } := by
  have hdate : DateSlots.place order {} (.date d.date '-') =
      .ok { year := some c.year, month := some c.month, day := some c.day } :=
    DateSlots.place_of_runs rfl rfl rfl rfl (isRun_of_readWord? h.year)
      (isRun_of_readWord? h.month) (isRun_of_readWord? h.day)
      (DateSlots.arrange_of_year_first h.longYear) h.longYear h.year h.month h.day
  have hclock : DateSlots.clock? d.clock = some (c.hour, c.minute, c.second) :=
    DateSlots.clock?_of_runs (isRun_of_readWord? h.hour) (isRun_of_readWord? h.minute)
      (isRun_of_readWord? h.second) h.hour h.minute h.second
  rw [DateSlots.ofFields, DateSlots.foldlM_place_cons hdate]
  simp only [List.foldlM_cons, List.foldlM_nil, DateSlots.place, DateSlots.placeTime,
    DateSlots.placeOffset, DateSlots.hasZone, hclock, hoffset]
  rfl

end CivilDigits

namespace Moment

/-- **What a date and a clock time in digits with an offset come to**, in any session.  The text is
refused if a number is out of the range of its field.  Otherwise it is the moment of the second that
calendar and clock count, taken at the offset; or the invalid one, if the clock time is past
24:00:00, the day is not one that moments have, or the second is not finite. -/
theorem read_of_spells {d : CivilDigits} {c : Civil} (h : d.Spells c) {gap offset : List Char}
    (hgap : ∀ b ∈ gap, isBlank b) {east : Int} (hoffset : Offset.read? offset = some east)
    (session : Session) :
    let text := String.ofList (d.text ++ gap ++ offset)
    read session text =
      if c.Exceeds then .error (.fieldOutOfRange .moment text)
      else .ok (if (c.hour < 24 ∨ c.minute = 0 ∧ c.second = 0) ∧
          (-24856 ≤ c.countedDay ∧ c.countedDay ≤ 24854) ∧
            -2147483648 < c.countedSecond - east ∧ c.countedSecond - east < 2147483644
        then .seconds (.ofInt (c.countedSecond - east)) else .invalid) := by
  intro text
  have hyear := Numeral.nonneg_of_readWord? h.year
  have heast := Offset.natAbs_lt_of_read? hoffset
  have hread : DateReading.read session text.toList =
      if c.Exists then .ok (.civil c east) else .error .outOfRange := by
    rw [String.toList_ofList]
    exact DateReading.read_of_ofFields (h.ofText? hgap hoffset) rfl (h.ofFields hoffset _)
  rw [read, hread]
  by_cases hc : c.Exists
  · have hnames : Names c east ↔ _ := names_iff_of_exists hc
    rw [Civil.dayNumber_eq_countedDay hc hyear, Civil.count_eq_countedSecond hc hyear] at hnames
    have hmoment := ofCivil_eq c (show east.natAbs < 86400 by omega)
    rw [Civil.count_eq_countedSecond hc hyear] at hmoment
    rw [if_pos hc, if_neg (h.exists_iff.1 hc)]
    exact congrArg Except.ok (hmoment.trans (if_congr hnames rfl rfl))
  · have hexceeds : c.Exceeds := by simpa [h.exists_iff] using hc
    rw [if_neg hc, if_pos hexceeds]
    rfl

/-- A leap second west of UTC is read.  A last day of February that the year does not have is
refused, and the second before the first finite one is invalid. -/
theorem read_of_spells_leap_second :
    let session : Session := { now := 0, rulesOf? := fun _ => none }
    read session "2016-12-031 23:59:60-3:30" = .ok (.seconds 1483241400) ∧
      read session "1900-2-29 0:0:0 +05" =
        .error (.fieldOutOfRange .moment "1900-2-29 0:0:0 +05") ∧
      read session "1901-12-13 20:45:52+00" = .ok .invalid := by
  intro session
  have hleap := read_of_spells (c := ⟨2016, 12, 31, 23, 59, 60⟩)
    (d := ⟨"2016".toList, "12".toList, "031".toList, "23".toList, "59".toList, "60".toList⟩)
    ⟨by decide, rfl, rfl, rfl, rfl, rfl, rfl⟩ (List.forall_mem_nil _)
    (show Offset.read? "-3:30".toList = some (-12600) by decide) session
  have hrefused := read_of_spells (c := ⟨1900, 2, 29, 0, 0, 0⟩)
    (d := ⟨"1900".toList, "2".toList, "29".toList, "0".toList, "0".toList, "0".toList⟩)
    ⟨by decide, rfl, rfl, rfl, rfl, rfl, rfl⟩
    (List.forall_mem_singleton.2 (show isBlank ' ' from rfl))
    (show Offset.read? "+05".toList = some 18000 by decide) session
  have hinvalid := read_of_spells (c := ⟨1901, 12, 13, 20, 45, 52⟩)
    (d := ⟨"1901".toList, "12".toList, "13".toList, "20".toList, "45".toList, "52".toList⟩)
    ⟨by decide, rfl, rfl, rfl, rfl, rfl, rfl⟩ (List.forall_mem_nil _)
    (show Offset.read? "+00".toList = some 0 by decide) session
  refine ⟨hleap.trans ?_, hrefused.trans ?_, hinvalid.trans ?_⟩
  · rw [if_neg (by decide), ← Civil.count_eq_countedSecond (by decide) (by decide),
      ← Civil.dayNumber_eq_countedDay (by decide) (by decide)]
    decide
  · rw [if_pos (by decide)]
    rfl
  · rw [if_neg (by decide), ← Civil.count_eq_countedSecond (by decide) (by decide),
      ← Civil.dayNumber_eq_countedDay (by decide) (by decide)]
    decide

end Moment

end Horology
