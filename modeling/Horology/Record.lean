import Horology.Settings
import Horology.Span.CalendarSpan
import Horology.TimeRange.Basic

/-!
# Records

Values are stored and exchanged as trees of data.  A moment or a span is its word; the larger types
are records of named fields, and are also read from lists that give exactly those fields in order.
A record may have fields nobody asks for, but must have all that are.

A tree that does not have the shape of a value is told apart from one that has it but breaks a rule
of the value's own, and of the latter the rule is reported.

## Main definitions

* `Datum` — trees of data.
* `RecordFault` — the two ways in which a tree is no value.
* `Moment.ofDatum`, `Span.ofDatum`, `TimeRange.ofDatum`, `CalendarSpan.ofDatum`,
  `TimeZone.ofDatumIn`, `Settings.ofDatumIn` — the readers.
* `Moment.toDatum` and so on — the writers.
-/

namespace Horology

/-- A tree of data.  Fields of a record are in the order of their names. -/
inductive Datum where
  | null
  | bool (b : Bool)
  | integer (n : Int)
  /-- A number written with a fraction or an exponent. -/
  | decimal
  | text (s : String)
  | list (items : List Datum)
  | record (fields : List (String × Datum))
  deriving Repr, Inhabited

/-- Why a tree is no value. -/
inductive RecordFault where
  /-- It does not have the shape of one. -/
  | shape
  /-- It has, but breaks a rule of the value's own. -/
  | refused (cause : Error)
  deriving DecidableEq, Repr

namespace Datum

/-- The 32-bit word that a tree is. -/
def word : Datum → Except RecordFault Int32
  | .integer n =>
    match word? n with
    | some w => .ok w
    | none => .error .shape
  | _ => .error .shape

/-- The 64-bit word that a tree is. -/
def word64 : Datum → Except RecordFault Int64
  | .integer n => if Fits64 n then .ok (.ofInt n) else .error .shape
  | _ => .error .shape

/-- The name that a tree is: a text, or a record of one field of that name with nothing in it. -/
def name? : Datum → Option String
  | .text s => some s
  | .record [(s, .null)] => some s
  | _ => none

/-- The choice that a name stands for, letter case included. -/
def choice {α : Type} (choices : List (String × α)) (datum : Datum) : Except RecordFault α :=
  match datum.name?.bind fun s => choices.lookup s with
  | some a => .ok a
  | none => .error .shape

/-- A field of a record, if it is there; what is there must be readable. -/
def field {α : Type} (fields : List (String × Datum)) (name : String)
    (read : Datum → Except RecordFault α) : Except RecordFault (Option α) :=
  match fields.lookup name with
  | some datum => (read datum).map some
  | none => .ok none

/-- What must be there. -/
def require {α : Type} : Option α → Except RecordFault α
  | some a => .ok a
  | none => .error .shape

end Datum

/-- The moment of a tree. -/
def Moment.ofDatum (datum : Datum) : Except RecordFault Moment := datum.word.map ofRaw

/-- The tree of a moment. -/
def Moment.toDatum (t : Moment) : Datum := .integer t.raw.toInt

/-- The span of a tree. -/
def Span.ofDatum (datum : Datum) : Except RecordFault Span := datum.word.map ofRaw

/-- The tree of a span. -/
def Span.toDatum (s : Span) : Datum := .integer s.raw.toInt

namespace TimeRange

/-- The range of its parts, if the word of its status is the one its endpoints give. -/
def ofParts (status : Int32) (first last : Moment) : Except RecordFault TimeRange :=
  match ofParts? status first last with
  | some r => .ok r
  | none => .error (.refused (.badStatus status))

/-- The range of a tree. -/
def ofDatum : Datum → Except RecordFault TimeRange
  | .record fields => do
    let last ← Datum.field fields "end" Moment.ofDatum
    let first ← Datum.field fields "start" Moment.ofDatum
    let status ← Datum.field fields "status" Datum.word
    ofParts (← Datum.require status) (← Datum.require first) (← Datum.require last)
  | .list [status, first, last] => do
    ofParts (← status.word) (← Moment.ofDatum first) (← Moment.ofDatum last)
  | _ => .error .shape

/-- The tree of a range. -/
def toDatum (r : TimeRange) : Datum :=
  .record [("end", r.last.toDatum), ("start", r.first.toDatum),
    ("status", .integer r.status.raw.toInt)]

end TimeRange

namespace CalendarSpan

/-- The calendar span of a tree. -/
def ofDatum : Datum → Except RecordFault CalendarSpan
  | .record fields => do
    let days ← Datum.field fields "days" Datum.word
    let micros ← Datum.field fields "micros" Datum.word64
    let months ← Datum.field fields "months" Datum.word
    return ⟨← Datum.require months, ← Datum.require days, ← Datum.require micros⟩
  | .list [months, days, micros] => do return ⟨← months.word, ← days.word, ← micros.word64⟩
  | _ => .error .shape

/-- The tree of a calendar span. -/
def toDatum (c : CalendarSpan) : Datum :=
  .record [("days", .integer c.days.toInt), ("micros", .integer c.micros.toInt),
    ("months", .integer c.months.toInt)]

end CalendarSpan

/-- The zone of a tree, where names have given rules. -/
def TimeZone.ofDatumIn (rulesOf? : String → Option ZoneRules) :
    Datum → Except RecordFault TimeZone
  | .text value =>
    match readIn rulesOf? value with
    | .ok zone => .ok zone
    | .error cause => .error (.refused cause)
  | _ => .error .shape

/-- The tree of a zone. -/
def TimeZone.toDatum (zone : TimeZone) : Datum := .text zone.display

/-- The names of the date styles in records. -/
def DateStyle.names : List (String × DateStyle) :=
  [("Iso", .iso), ("Sql", .sql), ("Postgres", .postgres), ("German", .german)]

/-- The names of the date orders in records. -/
def DateOrder.names : List (String × DateOrder) := [("Ymd", .ymd), ("Dmy", .dmy), ("Mdy", .mdy)]

/-- The names of the span styles in records. -/
def SpanStyle.names : List (String × SpanStyle) :=
  [("Postgres", .postgres), ("PostgresVerbose", .verbose), ("Iso8601", .iso8601)]

/-- The name of a date style in records. -/
def DateStyle.name : DateStyle → String
  | .iso => "Iso"
  | .sql => "Sql"
  | .postgres => "Postgres"
  | .german => "German"

/-- The name of a date order in records. -/
def DateOrder.name : DateOrder → String
  | .ymd => "Ymd"
  | .dmy => "Dmy"
  | .mdy => "Mdy"

/-- The name of a span style in records. -/
def SpanStyle.name : SpanStyle → String
  | .postgres => "Postgres"
  | .verbose => "PostgresVerbose"
  | .iso8601 => "Iso8601"

namespace Settings

/-- The settings of a tree, where zone names have given rules. -/
def ofDatumIn (rulesOf? : String → Option ZoneRules) : Datum → Except RecordFault Settings
  | .record fields => do
    let order ← Datum.field fields "date_order" (Datum.choice DateOrder.names)
    let style ← Datum.field fields "date_style" (Datum.choice DateStyle.names)
    let spanStyle ← Datum.field fields "interval_style" (Datum.choice SpanStyle.names)
    let zone ← Datum.field fields "time_zone" (TimeZone.ofDatumIn rulesOf?)
    return ⟨← Datum.require style, ← Datum.require order, ← Datum.require spanStyle,
      ← Datum.require zone⟩
  | .list (style :: order :: spanStyle :: zone :: rest) => do
    let style ← style.choice DateStyle.names
    let order ← order.choice DateOrder.names
    let spanStyle ← spanStyle.choice SpanStyle.names
    let zone ← TimeZone.ofDatumIn rulesOf? zone
    if rest.isEmpty then return ⟨style, order, spanStyle, zone⟩ else .error .shape
  | _ => .error .shape

/-- The tree of settings. -/
def toDatum (settings : Settings) : Datum :=
  .record [("date_order", .text settings.dateOrder.name),
    ("date_style", .text settings.dateStyle.name),
    ("interval_style", .text settings.spanStyle.name), ("time_zone", settings.zone.toDatum)]

end Settings

end Horology
