import Horology.Moment.Layout
import Horology.Moment.Slots
import Horology.Proofs.Numeral
import Horology.Proofs.Text
import Mathlib.Tactic.IntervalCases

/-!
# Fields that fill slots

What each kind of field does to the slots when it is what a writer writes: numbers in two or in four
digits, clock times, dates of three runs of digits, and the names of months and weekdays.

## Main definitions

* `clock?_writeClock` — a written clock time is read back.
* `place_of_runs` — the date that three runs of digits fill in.
* `Date.FitsDigits`, `place_yearFirst`, `place_yearLast` — dates as they are written in digits.
* `place_monthAbbreviation`, `place_weekdayAbbreviation` — names as they are written.
-/

namespace Horology

open Numeral (IsRun isRun_paddedInt length_paddedInt readWord?_paddedInt)

/-! ## Numbers of a civil reading -/

/-- A number from 0 to 99 is written in two digits. -/
theorem Civil.isRun_twoDigits {n : Int} (hn : 0 ≤ n) : IsRun (twoDigits n) := isRun_paddedInt hn

theorem Civil.length_twoDigits {n : Int} (h0 : 0 ≤ n) (h1 : n ≤ 99) :
    (twoDigits n).length = 2 :=
  length_paddedInt (by decide) h0 (by omega)

theorem Civil.readWord?_twoDigits {n : Int} (h0 : 0 ≤ n) (h1 : n ≤ 99) :
    Numeral.readWord? (twoDigits n) = some n :=
  readWord?_paddedInt h0 (by omega)

/-- A year from 0 to 9999 is written in four digits. -/
theorem Civil.isRun_fourDigits {n : Int} (hn : 0 ≤ n) : IsRun (fourDigits n) := isRun_paddedInt hn

theorem Civil.length_fourDigits {n : Int} (h0 : 0 ≤ n) (h1 : n ≤ 9999) :
    (fourDigits n).length = 4 :=
  length_paddedInt (by decide) h0 (by omega)

theorem Civil.readWord?_fourDigits {n : Int} (h0 : 0 ≤ n) (h1 : n ≤ 9999) :
    Numeral.readWord? (fourDigits n) = some n :=
  readWord?_paddedInt h0 (by omega)

/-- A date that four digits for the year and two each for month and day can spell, whether the
calendar has it or not. -/
structure Date.FitsDigits (date : Date) : Prop where
  year : 0 ≤ date.year ∧ date.year ≤ 9999
  month : 0 ≤ date.month ∧ date.month ≤ 99
  day : 0 ≤ date.day ∧ date.day ≤ 99

namespace Date.FitsDigits

variable {date : Date}

theorem isRun_year (h : date.FitsDigits) : IsRun (Civil.fourDigits date.year) :=
  Civil.isRun_fourDigits h.year.1

theorem isRun_month (h : date.FitsDigits) : IsRun (Civil.twoDigits date.month) :=
  Civil.isRun_twoDigits h.month.1

theorem isRun_day (h : date.FitsDigits) : IsRun (Civil.twoDigits date.day) :=
  Civil.isRun_twoDigits h.day.1

end Date.FitsDigits

namespace DateSlots

/-! ## Clock times -/

/-- Three runs of digits between colons are a clock time if each fits a word. -/
theorem clock?_of_runs {h m s : List Char} (hh : IsRun h) (hm : IsRun m) (hs : IsRun s)
    {hour minute second : Int} (hhour : Numeral.readWord? h = some hour)
    (hminute : Numeral.readWord? m = some minute) (hsecond : Numeral.readWord? s = some second) :
    clock? (h ++ ':' :: m ++ ':' :: s) = some (hour, minute, second) := by
  -- There is no point in the last run, so the whole run is the second.
  have hpoint : ∀ c ∈ s, (c != '.') = true := by
    intro c hc
    simpa using ne_of_class (hs.isDigit c hc) (show '.'.isDigit = false from rfl)
  have htake : s.takeWhile (· != '.') = s := by
    simpa using takeWhile_of_stops hpoint (stops_nil _)
  have hdrop : s.dropWhile (· != '.') = [] := by
    simpa using dropWhile_of_stops hpoint (stops_nil _)
  rw [clock?, hh.splitOn_three hm hs rfl]
  simp [htake, hdrop, hhour, hminute, hsecond]

/-- A clock time is read back from its text. -/
theorem clock?_writeClock {c : Civil} (hc : c.Exists) :
    clock? c.writeClock = some (c.hour, c.minute, c.second) := by
  obtain ⟨-, -, -, hhour, hminute, hsecond⟩ := hc
  exact clock?_of_runs (Civil.isRun_twoDigits hhour.1) (Civil.isRun_twoDigits hminute.1)
    (Civil.isRun_twoDigits hsecond.1) (Civil.readWord?_twoDigits hhour.1 (by omega))
    (Civil.readWord?_twoDigits hminute.1 (by omega))
    (Civil.readWord?_twoDigits hsecond.1 (by omega))

theorem place_writeClock {order : DateOrder} {slots : DateSlots} {c : Civil}
    (hslot : slots.clock = none) (hc : c.Exists) :
    place order slots (.time c.writeClock) =
      .ok { slots with clock := some (c.hour, c.minute, c.second) } := by
  simp [place, placeTime, hslot, clock?_writeClock hc]

/-! ## Dates -/

/-- Three runs of digits fill in a date, in the order that the session and the length of the runs
give them; a year of more than two digits stands for itself. -/
theorem place_of_runs {order : DateOrder} {slots : DateSlots} {a b c y m d : List Char}
    {sep : Char} {year month day : Int} (hsep : sep.isDigit = false)
    (hyear : slots.year = none) (hmonth : slots.month = none) (hday : slots.day = none)
    (ha : IsRun a) (hb : IsRun b) (hc : IsRun c) (harrange : arrange order a b c = (y, m, d))
    (hlength : 2 < y.length) (hy : Numeral.readWord? y = some year)
    (hm : Numeral.readWord? m = some month) (hd : Numeral.readWord? d = some day) :
    place order slots (.date (a ++ sep :: b ++ sep :: c) sep) =
      .ok { slots with year := some year, month := some month, day := some day } := by
  rw [place, placeDate, ha.splitOn_three hb hc hsep]
  simp [hyear, hmonth, hday, harrange, hy, hm, hd, yearOfDigits, hlength]

/-- A first run of more than two digits is the year in any order. -/
theorem arrange_of_year_first {order : DateOrder} {a b c : List Char} (ha : 2 < a.length) :
    arrange order a b c = (a, b, c) := if_pos ha

/-- A last run of more than two digits is the year in any order, after one of up to two. -/
theorem arrange_of_year_last {order : DateOrder} {a b c : List Char} (ha : a.length ≤ 2)
    (hc : 2 < c.length) :
    arrange order a b c = if order = .dmy then (c, b, a) else (c, a, b) := by
  have ha : ¬ 2 < a.length := by omega
  have hc : ¬ c.length ≤ 2 := by omega
  cases order <;> simp [arrange, ha, hc]

/-- The slots that a date fills. -/
def ofDate (date : Date) : DateSlots where
  year := some date.year
  month := some date.month
  day := some date.day

section Date

variable {order : DateOrder} {date : Date} {sep : Char}

/-- With the year first, a date of digits is read in any order. -/
theorem place_yearFirst (h : date.FitsDigits) (hsep : sep.isDigit = false) :
    place order {} (.date (Civil.fourDigits date.year ++ sep :: Civil.twoDigits date.month ++
      sep :: Civil.twoDigits date.day) sep) = .ok (ofDate date) := by
  have hlong : 2 < (Civil.fourDigits date.year).length := by
    rw [Civil.length_fourDigits h.year.1 h.year.2]
    decide
  exact place_of_runs hsep rfl rfl rfl h.isRun_year h.isRun_month h.isRun_day
    (arrange_of_year_first hlong) hlong (Civil.readWord?_fourDigits h.year.1 h.year.2)
    (Civil.readWord?_twoDigits h.month.1 h.month.2) (Civil.readWord?_twoDigits h.day.1 h.day.2)

/-- With the year last, the order says whether the day is first. -/
theorem place_yearLast (h : date.FitsDigits) (hsep : sep.isDigit = false) :
    place order {} (.date (if order = .dmy then
        Civil.twoDigits date.day ++ sep :: Civil.twoDigits date.month ++
          sep :: Civil.fourDigits date.year
      else
        Civil.twoDigits date.month ++ sep :: Civil.twoDigits date.day ++
          sep :: Civil.fourDigits date.year) sep) = .ok (ofDate date) := by
  have hlong : 2 < (Civil.fourDigits date.year).length := by
    rw [Civil.length_fourDigits h.year.1 h.year.2]
    decide
  have hmonth := (Civil.length_twoDigits h.month.1 h.month.2).le
  have hday := (Civil.length_twoDigits h.day.1 h.day.2).le
  have hreadYear := Civil.readWord?_fourDigits h.year.1 h.year.2
  have hreadMonth := Civil.readWord?_twoDigits h.month.1 h.month.2
  have hreadDay := Civil.readWord?_twoDigits h.day.1 h.day.2
  by_cases horder : order = .dmy
  · rw [if_pos horder]
    exact place_of_runs hsep rfl rfl rfl h.isRun_day h.isRun_month h.isRun_year
      ((arrange_of_year_last hday hlong).trans (if_pos horder)) hlong hreadYear hreadMonth hreadDay
  · rw [if_neg horder]
    exact place_of_runs hsep rfl rfl rfl h.isRun_month h.isRun_day h.isRun_year
      ((arrange_of_year_last hmonth hlong).trans (if_neg horder)) hlong hreadYear hreadMonth
      hreadDay

end Date

/-- Two digits are the day while that is not known. -/
theorem place_twoDigits {order : DateOrder} {slots : DateSlots} {n : Int}
    (hday : slots.day = none) (h0 : 0 ≤ n) (h1 : n ≤ 99) :
    place order slots (.number (Civil.twoDigits n)) = .ok { slots with day := some n } := by
  simp [place, placeNumber, Civil.readWord?_twoDigits h0 h1, Civil.length_twoDigits h0 h1, hday]

/-- Four digits are the year while that is not known. -/
theorem place_fourDigits {order : DateOrder} {slots : DateSlots} {n : Int}
    (hyear : slots.year = none) (h0 : 0 ≤ n) (h1 : n ≤ 9999) :
    place order slots (.number (Civil.fourDigits n)) = .ok { slots with year := some n } := by
  simp [place, placeNumber, Civil.readWord?_fourDigits h0 h1, Civil.length_fourDigits h0 h1, hyear,
    yearOfDigits]

/-! ## Names -/

/-- The name of a month makes sense as that month. -/
theorem ofWord_monthAbbreviation {n : Int} (h0 : 1 ≤ n) (h1 : n ≤ 12) :
    DateWordSense.ofWord (String.ofList (lower (monthAbbreviation n))) = .month n := by
  interval_cases n <;> rfl

theorem place_monthAbbreviation {order : DateOrder} {slots : DateSlots} {n : Int}
    (hmonth : slots.month = none) (h0 : 1 ≤ n) (h1 : n ≤ 12) :
    place order slots (.word (monthAbbreviation n)) = .ok { slots with month := some n } := by
  simp [place, placeWord, ofWord_monthAbbreviation h0 h1, hmonth]

theorem getD_mem_of_lt {names : List String} {i : Nat} (h : i < names.length) :
    names.getD i "" ∈ names := by
  rw [List.getD_eq_getElem?_getD, List.getElem?_eq_getElem h]
  exact List.getElem_mem h

/-- A property that the written names of all weekdays have, the name of any weekday has. -/
theorem weekdayAbbreviation_induction {p : List Char → Prop}
    (h : ∀ s ∈ weekdayAbbreviations, p s.toList) (weekday : Int) :
    p (weekdayAbbreviation weekday) := by
  have hlt : (weekday % 7).toNat < weekdayAbbreviations.length := by
    simp only [weekdayAbbreviations, List.length_cons, List.length_nil]
    omega
  exact h _ (getD_mem_of_lt hlt)

/-- The same for months. -/
theorem monthAbbreviation_induction {p : List Char → Prop}
    (h : ∀ s ∈ monthAbbreviations, p s.toList) (month : Int) : p (monthAbbreviation month) := by
  have hlt : min (month - 1).toNat 11 < monthAbbreviations.length := by
    simp only [monthAbbreviations, List.length_cons, List.length_nil]
    omega
  exact h _ (getD_mem_of_lt hlt)

/-- The name of a weekday says nothing. -/
theorem place_weekdayAbbreviation (order : DateOrder) (slots : DateSlots) (weekday : Int) :
    place order slots (.word (weekdayAbbreviation weekday)) = .ok slots := by
  have hidle : DateWordSense.ofWord (String.ofList (lower (weekdayAbbreviation weekday)))
      = .idle :=
    weekdayAbbreviation_induction
      (p := fun w => DateWordSense.ofWord (String.ofList (lower w)) = .idle) (by decide) weekday
  simp [place, placeWord, hidle]

end DateSlots

end Horology
