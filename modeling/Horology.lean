import Horology.Calculation
import Horology.Calendar.Civil
import Horology.Calendar.Date
import Horology.Comparison
import Horology.Duration.Basic
import Horology.Duration.Binary64
import Horology.Duration.Designator
import Horology.Duration.Layout
import Horology.Duration.Phrase
import Horology.Duration.Quantity
import Horology.Duration.TimeUnit
import Horology.Duration.Token
import Horology.Error
import Horology.Message
import Horology.Moment.Basic
import Horology.Moment.Conversion
import Horology.Moment.Field
import Horology.Moment.Layout
import Horology.Moment.Reading
import Horology.Moment.Slots
import Horology.Moment.Text
import Horology.Proofs.Calculation
import Horology.Proofs.Calendar
import Horology.Proofs.Calendar.Count
import Horology.Proofs.Calendar.Julian
import Horology.Proofs.Comparison
import Horology.Proofs.Duration.Agreement
import Horology.Proofs.Duration.Bare
import Horology.Proofs.Duration.Designator
import Horology.Proofs.Duration.Digitless
import Horology.Proofs.Duration.Layout
import Horology.Proofs.Duration.Opposite
import Horology.Proofs.Duration.Phrase
import Horology.Proofs.Duration.Quantity
import Horology.Proofs.Duration.Terms
import Horology.Proofs.Duration.TimeUnit
import Horology.Proofs.Message
import Horology.Proofs.Moment.Abbreviation
import Horology.Proofs.Moment.Arithmetic
import Horology.Proofs.Moment.Civil
import Horology.Proofs.Moment.Conversion
import Horology.Proofs.Moment.DateLayout
import Horology.Proofs.Moment.Digits
import Horology.Proofs.Moment.Field
import Horology.Proofs.Moment.German
import Horology.Proofs.Moment.Layout
import Horology.Proofs.Moment.Order
import Horology.Proofs.Moment.Rearrangement
import Horology.Proofs.Moment.Retention
import Horology.Proofs.Moment.Slots
import Horology.Proofs.Moment.Text
import Horology.Proofs.Moment.Utc
import Horology.Proofs.Moment.Wall
import Horology.Proofs.Numeral
import Horology.Proofs.Offset
import Horology.Proofs.Settings
import Horology.Proofs.Span
import Horology.Proofs.Span.Calendar
import Horology.Proofs.Span.Micros
import Horology.Proofs.Substitution
import Horology.Proofs.Text
import Horology.Proofs.TimeRange
import Horology.Proofs.TimeRange.Containment
import Horology.Proofs.TimeRange.Length
import Horology.Proofs.TimeRange.Literal
import Horology.Proofs.TimeRange.Text
import Horology.Proofs.Word
import Horology.Proofs.Zone
import Horology.Proofs.Zone.Setting
import Horology.Proofs.Zone.Showing
import Horology.Record
import Horology.Settings
import Horology.Span.Basic
import Horology.Span.CalendarSpan
import Horology.Span.Text
import Horology.Text.Character
import Horology.Text.Numeral
import Horology.TimeRange.Basic
import Horology.TimeRange.Literal
import Horology.Timestamp
import Horology.Word
import Horology.Zone.Abbreviation
import Horology.Zone.Offset
import Horology.Zone.Rules
import Horology.Zone.TimeZone
