import Horology.Duration.Layout
import Horology.Error
import Horology.Span.Basic

/-!
# Calendar spans

A calendar span keeps months, days and microseconds apart.  It turns into a span of seconds by fixed
lengths, years of 365.25 days and further months of 30 days, and a span of seconds is cut into one
by the same lengths.

## Main definitions

* `CalendarSpan` — months, days and microseconds.
* `CalendarSpan.toDuration`, `CalendarSpan.write` — its fields and its text.
* `Span.ofCalendar`, `Span.toCalendar` — the conversions.
-/

namespace Horology

/-- A span by the calendar: months and days have no fixed length, microseconds do. -/
structure CalendarSpan where
  months : Int32
  days : Int32
  micros : Int64
  deriving DecidableEq, Repr

namespace CalendarSpan

/-- The fields of a calendar span, each with the sign of the part it comes from. -/
def toDuration (c : CalendarSpan) : Duration :=
  let seconds := Int.tdiv c.micros.toInt 1000000
  { years := Int.tdiv c.months.toInt 12
    months := Int.tmod c.months.toInt 12
    days := c.days.toInt
    hours := Int.tdiv seconds 3600
    minutes := Int.tmod (Int.tdiv seconds 60) 60
    seconds := Int.tmod seconds 60
    micros := Int.tmod c.micros.toInt 1000000 }

/-- The text of a calendar span in a style. -/
def write (style : SpanStyle) (c : CalendarSpan) : String :=
  String.ofList (c.toDuration.write style)

instance : ToString CalendarSpan := ⟨write .postgres⟩

end CalendarSpan

namespace Span

/-- The microseconds of years of 365.25 days, months of 30 days, and days. -/
def microsPerCalendar (years months days : Int) : Int :=
  (365250000 * years + 30000000 * months + 1000000 * days) * 86400

/-- The span of a calendar span, cut to whole seconds towards zero; invalid if it does not fit. -/
def ofCalendar (c : CalendarSpan) : Span :=
  let micros := microsPerCalendar (Int.tdiv c.months.toInt 12) (Int.tmod c.months.toInt 12)
    c.days.toInt + c.micros.toInt
  match word? (Int.tdiv micros 1000000) with
  | some n => ofRaw n
  | none => .invalid

/-- The calendar span of a valid span: as many years, months and days as it holds, and the rest in
microseconds. -/
def toCalendar (s : Span) : Except Error CalendarSpan :=
  match s.seconds? with
  | none => .error .spanWithoutCalendar
  | some n =>
    let afterYears := Int.tmod n.toInt Duration.secondsPerYear
    let afterMonths := Int.tmod afterYears Duration.secondsPerMonth
    .ok {
      months := .ofInt (12 * Int.tdiv n.toInt Duration.secondsPerYear
        + Int.tdiv afterYears Duration.secondsPerMonth)
      days := .ofInt (Int.tdiv afterMonths Duration.secondsPerDay)
      micros := .ofInt (Int.tmod afterMonths Duration.secondsPerDay * 1000000) }

end Span

end Horology
