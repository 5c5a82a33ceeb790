import Horology.Duration.Designator
import Horology.Duration.Layout
import Horology.Error
import Horology.Span.Basic

/-!
# Texts of a span

A span is written as the duration of as many years, months, days, hours, minutes and seconds as it
holds.  The invalid span is written as the duration of its reserved word, and that duration is read
as the invalid span again.

## Main definitions

* `Span.read` — the span of a text.
* `Span.write` — the text of a span under given settings.
-/

namespace Horology.Span

/-- The error that reports a fault in the text of a span. -/
def faultError (text : String) : DurationFault → Error
  | .badFormat => .badSyntax .span text
  | .overflow => .spanOutOfRange text

/-- The span of a text.  Its length must fit a word; microseconds do not count. -/
def read (text : String) : Except Error Span :=
  match Duration.read text.toList with
  | .error fault => .error (faultError text fault)
  | .ok .invalid => .error (.unexpectedWord "invalid" .span text)
  | .ok (.delta d) =>
    match word? d.totalSeconds with
    | some n => .ok (ofRaw n)
    | none => .error (.spanOutOfRange text)

/-- The text of a span in a style. -/
def writeIn (style : SpanStyle) (s : Span) : String :=
  String.ofList ((Duration.ofSeconds s.raw.toInt).write style)

/-- The text of a span under given settings. -/
def write (settings : Settings) (s : Span) : String := s.writeIn settings.spanStyle

instance : ToString Span := ⟨write {}⟩

end Horology.Span
