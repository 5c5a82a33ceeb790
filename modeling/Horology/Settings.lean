import Horology.Zone.TimeZone

/-!
# Session settings

The text of a value depends on how the session wants dates, spans and zones shown.  Writing takes
the settings alone; reading takes a session, which adds the clock that words such as `today` ask and
the zones that words may name.

## Main definitions

* `DateStyle`, `DateOrder`, `SpanStyle` — the choices a session has, each with its reader.
* `Settings` — one choice of each and a zone.
* `Settings.applyDateWords` — the combined setting of style and order.
* `Session` — settings, a clock and zones by name.
-/

namespace Horology

/-- The layouts of a moment. -/
inductive DateStyle where
  /-- Year, month and day in digits with dashes. -/
  | iso
  /-- Day and month in digits with slashes, the year last. -/
  | sql
  /-- Weekday and month by name, the year after the clock time. -/
  | postgres
  /-- Day, month and year in digits with points. -/
  | german
  deriving DecidableEq, Repr, Inhabited

/-- The orders of day, month and year in a date of digits. -/
inductive DateOrder where
  | ymd
  | dmy
  | mdy
  deriving DecidableEq, Repr, Inhabited

/-- The layouts of a span. -/
inductive SpanStyle where
  /-- Units by name, and hours, minutes and seconds as a clock time. -/
  | postgres
  /-- All units by name, with one word for the direction. -/
  | verbose
  /-- The designators of ISO 8601. -/
  | iso8601
  deriving DecidableEq, Repr, Inhabited

/-- A setting in the form its names are compared in: trimmed and in lower case. -/
def settingWord (value : String) : String := String.ofList (lower (trim value.toList))

/-- The date style a word names. -/
def DateStyle.ofWord? (word : String) : Option DateStyle :=
  [("iso", .iso), ("sql", .sql), ("postgres", .postgres), ("german", .german)].lookup word

/-- The date order a word names. -/
def DateOrder.ofWord? (word : String) : Option DateOrder :=
  [("ymd", .ymd), ("dmy", .dmy), ("euro", .dmy), ("european", .dmy), ("mdy", .mdy), ("us", .mdy),
    ("noneuro", .mdy), ("noneuropean", .mdy)].lookup word

/-- The span style a word names. -/
def SpanStyle.ofWord? (word : String) : Option SpanStyle :=
  [("postgres", .postgres), ("postgres_verbose", .verbose), ("iso_8601", .iso8601)].lookup word

/-- The choice that the value of a setting names, or the error that quotes the value. -/
def readSetting {α : Type} (parameter : Parameter) (ofWord? : String → Option α)
    (value : String) : Except Error α :=
  match ofWord? (settingWord value) with
  | some choice => .ok choice
  | none => .error (.badSetting parameter value)

/-- The date style that the value of a setting names. -/
def DateStyle.read : String → Except Error DateStyle := readSetting .dateStyle ofWord?

/-- The date order that the value of a setting names. -/
def DateOrder.read : String → Except Error DateOrder := readSetting .dateStyle ofWord?

/-- The span style that the value of a setting names. -/
def SpanStyle.read : String → Except Error SpanStyle := readSetting .spanStyle ofWord?

/-- How a session shows values, and in which zone. -/
structure Settings where
  dateStyle : DateStyle := .iso
  dateOrder : DateOrder := .mdy
  spanStyle : SpanStyle := .postgres
  zone : TimeZone := .utc
  deriving DecidableEq, Repr

instance : Inhabited Settings := ⟨{}⟩

/-- What one word of a combined date setting asks for. -/
inductive DateWord where
  | usual
  | style (s : DateStyle)
  | order (o : DateOrder)
  deriving DecidableEq, Repr

/-- What a word of a combined date setting asks for, if anything. -/
def DateWord.ofWord? (word : List Char) : Option DateWord :=
  if lower word = "default".toList then some .usual
  else
    match DateStyle.ofWord? (settingWord (String.ofList word)) with
    | some s => some (.style s)
    | none => (DateOrder.ofWord? (settingWord (String.ofList word))).map .order

/-- What the words of a combined date setting have asked for so far. -/
structure DateWish where
  style : Option DateStyle := none
  order : Option DateOrder := none
  /-- Whether the word for the usual setting was among them. -/
  usual : Bool := false
  deriving DecidableEq, Repr

namespace DateWish

/-- Whether a second choice agrees with the first, if there was one. -/
def agrees {α : Type} [DecidableEq α] (first : Option α) (second : α) : Bool :=
  match first with
  | none => true
  | some a => a == second

/-- A further word; none if it is no word of the setting or contradicts an earlier one. -/
def add? (wish : DateWish) (word : List Char) : Option DateWish :=
  match DateWord.ofWord? word with
  | none => none
  | some .usual => some { wish with usual := true }
  | some (.style s) => if agrees wish.style s then some { wish with style := some s } else none
  | some (.order o) => if agrees wish.order o then some { wish with order := some o } else none

/-- The wish that a list of words adds up to, if they are all known and agree. -/
def ofWords? (ws : List (List Char)) : Option DateWish := ws.foldlM add? {}

/-- Whether nothing was asked for. -/
def isEmpty (wish : DateWish) : Bool :=
  wish.style.isNone && wish.order.isNone && !wish.usual

/-- The style to set: the one named, else the usual one if that was asked for. -/
def finalStyle (wish : DateWish) : Option DateStyle :=
  wish.style.or (if wish.usual then some .iso else none)

/-- The order to set: the one named, else the usual one if that was asked for, else the one that
goes with the German style. -/
def finalOrder (wish : DateWish) : Option DateOrder :=
  wish.order.or
    (if wish.usual then some .mdy else if wish.style = some .german then some .dmy else none)

end DateWish

/-- Where the words of a combined date setting are cut. -/
def separatesDateWords (c : Char) : Bool := c == ',' || isBlank c

/-- The settings with date style and order as the words of a combined setting ask for. -/
def Settings.applyDateWords (settings : Settings) (value : String) : Except Error Settings :=
  match DateWish.ofWords? (words separatesDateWords value.toList) with
  | none => .error (.badSetting .dateStyle value)
  | some wish =>
    if wish.isEmpty then .error (.badSetting .dateStyle value)
    else .ok { settings with
      dateStyle := wish.finalStyle.getD settings.dateStyle
      dateOrder := wish.finalOrder.getD settings.dateOrder }

/-- A session: its settings, the clock it reads, and the zones that its texts may call by name. -/
structure Session extends Settings where
  /-- Microseconds since 1970-01-01 00:00:00 UTC. -/
  now : Int
  /-- The rules of the zone of a name, if there is a zone of that name.  Letter case counts. -/
  rulesOf? : String → Option ZoneRules

/-- The second that the clock of a session shows, in UTC. -/
def Session.second (session : Session) : Int := session.now / 1000000

end Horology
