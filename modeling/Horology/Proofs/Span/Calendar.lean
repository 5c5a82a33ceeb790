import Horology.Proofs.Span
import Horology.Span.CalendarSpan

/-!
# Calendar spans and spans of seconds

A calendar span of whole seconds becomes a span of seconds in two ways, at once or through its text
in any style, and both come to the same number of seconds.  They part where the number fits no word:
the text is then refused, and the span made at once is the invalid one.

The way back loses something.  A span is cut into years of 365.25 days and months of 30 days, and a
year less a second holds more than twelve of these months; merged with the years into one number of
months, the twelve are taken for a year when that number is cut again.

## Main definitions

* `CalendarSpan.IsWhole`, `CalendarSpan.seconds` — calendar spans of whole seconds, and how many.
* `CalendarSpan.read_write_of_isWhole` — the two ways to a span of seconds.
* `Span.calendarGain` — the seconds that a span gains on its way to a calendar span and back.
* `Span.ofCalendar_toCalendar` — the way to a calendar span and back.
-/

namespace Horology

namespace Duration

/-- A number is cut by a unit into whole units and a rest below one, both in the direction of the
number. -/
theorem cut_spec {u : Int} (hu : 0 < u) (n : Int) :
    u * Int.tdiv n u + Int.tmod n u = n ∧ (Int.tmod n u).natAbs < u.natAbs ∧
      (0 ≤ n ∧ 0 ≤ Int.tdiv n u ∧ 0 ≤ Int.tmod n u ∨
        n ≤ 0 ∧ Int.tdiv n u ≤ 0 ∧ Int.tmod n u ≤ 0) := by
  refine ⟨Int.mul_tdiv_add_tmod n u, ?_, ?_⟩
  · rw [Int.natAbs_tmod]
    exact Nat.mod_lt _ (by omega)
  · rcases Int.le_total 0 n with hn | hn
    · exact .inl ⟨hn, Int.tdiv_nonneg hn (by omega), Int.tmod_nonneg u hn⟩
    · have hquotient := Int.tdiv_nonneg (show 0 ≤ -n by omega) (show 0 ≤ u by omega)
      have hrest := Int.tmod_nonneg u (show 0 ≤ -n by omega)
      rw [Int.neg_tdiv] at hquotient
      rw [Int.neg_tmod] at hrest
      exact .inr ⟨hn, by omega, by omega⟩

/-- Hours, minutes below sixty and seconds below sixty add up to the seconds they are cut from, and
are all in the direction of these. -/
theorem clock_spec (s : Int) :
    (Int.tdiv s 3600 * 60 + Int.tmod (Int.tdiv s 60) 60) * 60 + Int.tmod s 60 = s ∧
      (Int.tmod (Int.tdiv s 60) 60).natAbs ≤ 59 ∧ (Int.tmod s 60).natAbs ≤ 59 ∧
      (0 ≤ Int.tdiv s 3600 ∧ 0 ≤ Int.tmod (Int.tdiv s 60) 60 ∧ 0 ≤ Int.tmod s 60 ∨
        Int.tdiv s 3600 ≤ 0 ∧ Int.tmod (Int.tdiv s 60) 60 ≤ 0 ∧ Int.tmod s 60 ≤ 0) := by
  have hhour := cut_spec (u := 3600) (by decide) s
  have hminute := cut_spec (u := 60) (by decide) s
  have hsixty := cut_spec (u := 60) (by decide) (Int.tdiv s 60)
  refine ⟨?_, ?_, ?_, ?_⟩ <;> omega

end Duration

namespace CalendarSpan

open Duration

/-- That the microseconds of a calendar span are whole seconds. -/
def IsWhole (c : CalendarSpan) : Prop := (1000000 : Int) ∣ c.micros.toInt

instance (c : CalendarSpan) : Decidable c.IsWhole := inferInstanceAs (Decidable (_ ∣ _))

/-- The seconds of a calendar span, by years of 365.25 days and further months of 30 days. -/
def seconds (c : CalendarSpan) : Int :=
  Int.tdiv c.months.toInt 12 * 31557600 + (Int.tmod c.months.toInt 12 * 30 + c.days.toInt) * 86400
    + c.micros.toInt / 1000000

variable {c : CalendarSpan}

/-! ## Two ways to seconds -/

theorem tdiv_micros (hc : c.IsWhole) :
    Int.tdiv c.micros.toInt 1000000 = c.micros.toInt / 1000000 :=
  Int.tdiv_eq_ediv_of_dvd hc

/-- The fields of a calendar span of whole seconds are those of a duration that is written without
loss. -/
theorem isWhole_toDuration (hc : c.IsWhole) : c.toDuration.IsWhole := by
  obtain ⟨-, hminute, hsecond, hsign⟩ := clock_spec (Int.tdiv c.micros.toInt 1000000)
  refine ⟨?_, Int.tmod_eq_zero_of_dvd hc, hminute, hsecond, hsign⟩
  have hmonths := Word.toInt_mem c.months
  have hdays := Word.toInt_mem c.days
  have hlo := c.micros.le_toInt
  have hhi := c.micros.toInt_lt
  have hmicros : 1000000 * Int.tdiv c.micros.toInt 1000000 = c.micros.toInt :=
    Int.mul_tdiv_cancel' hc
  have hyears := Int.natAbs_tdiv_le_natAbs c.months.toInt 12
  have hrest := (cut_spec (u := 12) (by decide) c.months.toInt).2.1
  have hhours := Int.natAbs_tdiv_le_natAbs (Int.tdiv c.micros.toInt 1000000) 3600
  constructor
  case micros => simp [toDuration, Int.tmod_eq_zero_of_dvd hc]
  all_goals
    simp only [toDuration]
    omega

/-- The fields of a calendar span of whole seconds add up to its seconds. -/
theorem totalSeconds_toDuration (hc : c.IsWhole) : c.toDuration.totalSeconds = c.seconds := by
  have hclock := (clock_spec (c.micros.toInt / 1000000)).1
  simp only [toDuration, Duration.totalSeconds, seconds, Duration.secondsPerYear,
    Duration.secondsPerDay, tdiv_micros hc]
  omega

/-- A calendar span becomes the span of the whole seconds in all its microseconds. -/
theorem ofCalendar_of_total {total : Int}
    (h : Span.microsPerCalendar (Int.tdiv c.months.toInt 12) (Int.tmod c.months.toInt 12)
      c.days.toInt + c.micros.toInt = total) :
    Span.ofCalendar c = match word? (Int.tdiv total 1000000) with
      | some n => .ofRaw n
      | none => .invalid := by
  rw [← h]
  rfl

/-- A calendar span of whole seconds becomes the span of its seconds, if they fit a word. -/
theorem ofCalendar_of_isWhole (hc : c.IsWhole) :
    Span.ofCalendar c = if -2147483648 ≤ c.seconds ∧ c.seconds ≤ 2147483647
      then .ofRaw (.ofInt c.seconds) else .invalid := by
  have hmicros : 1000000 * (c.micros.toInt / 1000000) = c.micros.toInt := Int.mul_ediv_cancel' hc
  have htotal : Span.microsPerCalendar (Int.tdiv c.months.toInt 12) (Int.tmod c.months.toInt 12)
      c.days.toInt + c.micros.toInt = 1000000 * c.seconds := by
    simp only [Span.microsPerCalendar, seconds]
    omega
  have hcut : Int.tdiv (1000000 * c.seconds) 1000000 = c.seconds :=
    Int.mul_tdiv_cancel_left _ (by decide)
  rw [ofCalendar_of_total htotal, hcut, word?]
  by_cases hfits : -2147483648 ≤ c.seconds ∧ c.seconds ≤ 2147483647
  · simp only [if_pos hfits]
  · simp only [if_neg hfits]

/-- **A calendar span of whole seconds comes to the same seconds at once and through its text.**
Its text in any style is read as its fields.  If its seconds fit a word, the text is read as the
span of that word, which is also the span made at once; if not, the text is refused, and the span
made at once is the invalid one. -/
theorem read_write_of_isWhole (hc : c.IsWhole) (style : SpanStyle) :
    Duration.read (c.write style).toList = .ok (.delta c.toDuration) ∧
      (-2147483648 ≤ c.seconds ∧ c.seconds ≤ 2147483647 →
        Span.read (c.write style) = .ok (.ofRaw (.ofInt c.seconds)) ∧
          Span.ofCalendar c = .ofRaw (.ofInt c.seconds)) ∧
      (¬ (-2147483648 ≤ c.seconds ∧ c.seconds ≤ 2147483647) →
        Span.read (c.write style) = .error (.spanOutOfRange (c.write style)) ∧
          Span.ofCalendar c = .invalid) := by
  have hfields : Duration.read (c.write style).toList = .ok (.delta c.toDuration) := by
    rw [write, String.toList_ofList]
    exact Duration.read_write (isWhole_toDuration hc) style
  refine ⟨hfields, fun hfits => ⟨?_, ?_⟩, fun hfits => ⟨?_, ?_⟩⟩
  · rw [Span.read, hfields]
    simp only [totalSeconds_toDuration hc, word?, if_pos hfits]
  · rw [ofCalendar_of_isWhole hc, if_pos hfits]
  · rw [Span.read, hfields]
    simp only [totalSeconds_toDuration hc, word?, if_neg hfits]
  · rw [ofCalendar_of_isWhole hc, if_neg hfits]

/-- Eleven months back, 311 days on and 20:45:52 on are the least number of seconds that fits a
word; its text with one direction says so, and the word is the one reserved for the invalid span. -/
theorem read_write_of_isWhole_mixed :
    let c : CalendarSpan := ⟨-827, 311, 74752000000⟩
    c.IsWhole ∧ c.seconds = -2147483648 ∧ Span.read (c.write .verbose) = .ok .invalid ∧
      Span.ofCalendar c = .invalid := by
  intro c
  have hc : c.IsWhole := by decide
  have hfits : -2147483648 ≤ c.seconds ∧ c.seconds ≤ 2147483647 := by decide
  have hraw : Span.ofRaw (.ofInt c.seconds) = .invalid := by decide
  obtain ⟨hread, hspan⟩ := (read_write_of_isWhole hc .verbose).2.1 hfits
  exact ⟨hc, by decide, hread.trans (congrArg Except.ok hraw), hspan.trans hraw⟩

end CalendarSpan

/-! ## To a calendar span and back -/

namespace Span

open Duration

/-- Months added to full years in the same direction: cut again, they give as many more years as
they make up. -/
theorem cut_months {years months : Int} (hsign : 0 ≤ years ∧ 0 ≤ months ∨ years ≤ 0 ∧ months ≤ 0) :
    Int.tdiv (12 * years + months) 12 = years + Int.tdiv months 12 ∧
      Int.tmod (12 * years + months) 12 = Int.tmod months 12 := by
  have hmerged := cut_spec (u := 12) (by decide) (12 * years + months)
  have hmonths := cut_spec (u := 12) (by decide) months
  omega

/-- The seconds that a span gains on its way to a calendar span and back.  What is left of it behind
its full years may hold twelve months of 30 days; they become a year of 365.25 days. -/
def calendarGain (n : Int) : Int :=
  let rest := Int.tmod n secondsPerYear
  if 12 * secondsPerMonth ≤ rest then secondsPerYear - 12 * secondsPerMonth
  else if rest ≤ -(12 * secondsPerMonth) then 12 * secondsPerMonth - secondsPerYear
  else 0

/-- Twelve months of 30 days are 31104000 seconds, and a year of 365.25 days is 453600 seconds
longer. -/
theorem calendarGain_cases (n : Int) :
    31104000 ≤ Int.tmod n 31557600 ∧ calendarGain n = 453600 ∨
      Int.tmod n 31557600 ≤ -31104000 ∧ calendarGain n = -453600 ∨
      (Int.tmod n 31557600).natAbs < 31104000 ∧ calendarGain n = 0 := by
  have hgain : calendarGain n = if 31104000 ≤ Int.tmod n 31557600 then 453600
      else if Int.tmod n 31557600 ≤ -31104000 then -453600 else 0 := rfl
  rw [hgain]
  split
  · omega
  · split <;> omega

/-- The gain is that of the years which the months behind the full years make up. -/
theorem calendarGain_eq (n : Int) :
    calendarGain n = Int.tdiv (Int.tdiv (Int.tmod n 31557600) 2592000) 12 * 453600 := by
  have hyear := (cut_spec (u := 31557600) (by decide) n).2.1
  have hmonth := cut_spec (u := 2592000) (by decide) (Int.tmod n 31557600)
  have htwelve := cut_spec (u := 12) (by decide) (Int.tdiv (Int.tmod n 31557600) 2592000)
  generalize Int.tdiv (Int.tdiv (Int.tmod n 31557600) 2592000) 12 = years at *
  rcases calendarGain_cases n with ⟨hrest, hgain⟩ | ⟨hrest, hgain⟩ | ⟨hrest, hgain⟩
  · have hyears : years = 1 := by omega
    rw [hgain, hyears]
    rfl
  · have hyears : years = -1 := by omega
    rw [hgain, hyears]
    rfl
  · have hyears : years = 0 := by omega
    rw [hgain, hyears]
    rfl

/-- The seconds of a calendar span that holds full years merged with further months in the same
direction, and whole seconds: the years that the months make up count as years. -/
theorem seconds_of_fields {c : CalendarSpan} {years months clock : Int}
    (hmonths : c.months.toInt = 12 * years + months) (hmicros : c.micros.toInt = clock * 1000000)
    (hsign : 0 ≤ years ∧ 0 ≤ months ∨ years ≤ 0 ∧ months ≤ 0) :
    c.IsWhole ∧ c.seconds = (years + Int.tdiv months 12) * 31557600
      + (Int.tmod months 12 * 30 + c.days.toInt) * 86400 + clock := by
  obtain ⟨hquotient, hrest⟩ := cut_months hsign
  constructor
  · rw [CalendarSpan.IsWhole, hmicros]
    exact Int.dvd_mul_left _ _
  · rw [CalendarSpan.seconds, hmonths, hquotient, hrest, hmicros,
      Int.mul_ediv_cancel _ (by decide)]

/-- A valid span becomes a calendar span of whole seconds: its own and the gain. -/
theorem exists_toCalendar {s : Span} (hs : s.isValid = true) :
    ∃ c, s.toCalendar = .ok c ∧ c.IsWhole ∧
      c.seconds = s.raw.toInt + calendarGain s.raw.toInt := by
  have hword := Word.toInt_mem s.raw
  have hyear := cut_spec (u := 31557600) (by decide) s.raw.toInt
  have hmonth := cut_spec (u := 2592000) (by decide) (Int.tmod s.raw.toInt 31557600)
  have hday := cut_spec (u := 86400) (by decide)
    (Int.tmod (Int.tmod s.raw.toInt 31557600) 2592000)
  have hgain := calendarGain_eq s.raw.toInt
  refine ⟨_, by rw [toCalendar, seconds?_of_isValid hs], ?_⟩
  generalize s.raw.toInt = n at *
  simp only [secondsPerYear, secondsPerMonth, secondsPerDay]
  generalize Int.tdiv n 31557600 = years at *
  generalize Int.tmod n 31557600 = afterYears at *
  generalize Int.tdiv afterYears 2592000 = months at *
  generalize Int.tmod afterYears 2592000 = afterMonths at *
  generalize Int.tdiv afterMonths 86400 = days at *
  generalize Int.tmod afterMonths 86400 = clock at *
  have hmonthsWord : (Int32.ofInt (12 * years + months)).toInt = 12 * years + months :=
    Word.toInt_ofInt_of_fits (by omega) (by omega)
  have hdaysWord : (Int32.ofInt days).toInt = days :=
    Word.toInt_ofInt_of_fits (by omega) (by omega)
  have hmicrosWord : (Int64.ofInt (clock * 1000000)).toInt = clock * 1000000 :=
    Int64.toInt_ofInt_of_le (by omega) (by omega)
  obtain ⟨hwhole, hseconds⟩ := seconds_of_fields
    (c := ⟨.ofInt (12 * years + months), .ofInt days, .ofInt (clock * 1000000)⟩)
    hmonthsWord hmicrosWord (by omega)
  have htwelve := (cut_spec (u := 12) (by decide) months).1
  refine ⟨hwhole, ?_⟩
  rw [hseconds, hdaysWord, hgain]
  omega

/-- **A valid span goes to a calendar span and comes back with the gain**, so that it comes back as
itself exactly if what is left of it behind its full years is less than twelve months. -/
theorem ofCalendar_toCalendar (s : Span) (hs : s.isValid = true) :
    ∃ c, s.toCalendar = .ok c ∧
      (∃ back : Int32, ofCalendar c = .seconds back ∧
        back.toInt = s.raw.toInt + calendarGain s.raw.toInt) ∧
      ((ofCalendar c == s) = true ↔
        (Int.tmod s.raw.toInt secondsPerYear).natAbs < 12 * secondsPerMonth) := by
  have hword := Word.toInt_mem s.raw
  have hleast := isValid_iff.1 hs
  have hgain := calendarGain_cases s.raw.toInt
  obtain ⟨c, hc, hwhole, hseconds⟩ := exists_toCalendar hs
  -- The words end 18 days into a year, where nothing is gained yet.
  have hfits : -2147483648 < c.seconds ∧ c.seconds ≤ 2147483647 := by
    have hyear := cut_spec (u := 31557600) (by decide) s.raw.toInt
    omega
  have hback : (Int32.ofInt c.seconds).toInt = c.seconds :=
    Word.toInt_ofInt_of_fits (by omega) hfits.2
  have hspan : ofCalendar c = .seconds (.ofInt c.seconds) := by
    rw [CalendarSpan.ofCalendar_of_isWhole hwhole, if_pos (by omega),
      ofRaw_eq_seconds (by omega)]
  refine ⟨c, hc, ⟨_, hspan, hback.trans hseconds⟩, ?_⟩
  rw [beq_iff, hspan, raw, ← Int32.toInt_inj, hback, hseconds]
  simp only [secondsPerYear, secondsPerMonth]
  omega

/-- A span of 360 days comes back as one of 365.25 days. -/
theorem ofCalendar_toCalendar_twelve_months :
    (Span.seconds 31104000).isValid = true ∧
      ∃ c, (Span.seconds 31104000).toCalendar = .ok c ∧ ofCalendar c = .seconds 31557600 ∧
        (ofCalendar c == .seconds 31104000) = false := by
  have hvalid : (Span.seconds 31104000).isValid = true := rfl
  obtain ⟨c, hc, ⟨back, hback, hgain⟩, hsame⟩ := ofCalendar_toCalendar _ hvalid
  obtain rfl : back = 31557600 := Int32.toInt_inj.1 hgain
  exact ⟨hvalid, c, hc, hback, Bool.eq_false_iff.2 fun h => absurd (hsame.1 h) (by decide)⟩

end Span

end Horology
