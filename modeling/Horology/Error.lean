/-!
# Errors

One error type serves every reader and conversion.  A constructor names the cause of a failure and
carries what the message quotes; `Error.message` holds all the wording.

## Main definitions

* `ValueKind` — the three value types, as messages name them.
* `Parameter` — the session parameters, as messages name them.
* `Error`, `Error.message`, `Error.isSyntax`.
-/

namespace Horology

/-- The three value types a message can be about. -/
inductive ValueKind where
  | moment
  | span
  | range
  deriving DecidableEq, Repr

/-- The name a value type goes by in messages. -/
def ValueKind.name : ValueKind → String
  | .moment => "abstime"
  | .span => "reltime"
  | .range => "tinterval"

/-- The session parameters that are set by text. -/
inductive Parameter where
  | dateStyle
  | spanStyle
  | timeZone
  deriving DecidableEq, Repr

/-- The name a parameter goes by in messages. -/
def Parameter.name : Parameter → String
  | .dateStyle => "DateStyle"
  | .spanStyle => "IntervalStyle"
  | .timeZone => "TimeZone"

/-- The ways in which reading or converting a value fails. -/
inductive Error where
  /-- The text does not follow the grammar of its type. -/
  | badSyntax (kind : ValueKind) (input : String)
  /-- A quoted endpoint of a time range could not be read. -/
  | badEndpoint (input : String) (cause : Error)
  /-- The text follows the grammar but names a date or clock time that does not exist. -/
  | fieldOutOfRange (kind : ValueKind) (input : String)
  /-- A span has a part, or a total, too large for its word. -/
  | spanOutOfRange (input : String)
  /-- A word in the place of a time zone is none. -/
  | unknownZone (zone : String)
  /-- A reserved word was found that the type has no value for. -/
  | unexpectedWord (word : String) (kind : ValueKind) (input : String)
  /-- The binary message ends before the value does. -/
  | shortMessage (needed remaining : Nat)
  /-- A time range arrived with a status that its endpoints contradict. -/
  | badStatus (status : Int32)
  /-- The invalid moment has no timestamp. -/
  | momentWithoutTimestamp
  /-- The invalid span has no calendar form. -/
  | spanWithoutCalendar
  /-- A timestamp is no finite moment. -/
  | timestampOutOfRange
  /-- A session parameter was given a text that is none of its values. -/
  | badSetting (parameter : Parameter) (value : String)
  deriving DecidableEq, Repr

/-- The text a failure is reported with; inputs are quoted as they came. -/
def Error.message : Error → String
  | .badSyntax kind input =>
    "invalid input syntax for type " ++ kind.name ++ ": \"" ++ input ++ "\""
  | .badEndpoint input _ =>
    "invalid input syntax for type " ++ ValueKind.range.name ++ ": \"" ++ input ++ "\""
  | .fieldOutOfRange kind input =>
    "date/time field value out of range: \"" ++ input ++ "\" (type " ++ kind.name ++ ")"
  | .spanOutOfRange input => "interval field value out of range: \"" ++ input ++ "\""
  | .unknownZone zone => "time zone \"" ++ zone ++ "\" not recognized"
  | .unexpectedWord word kind input =>
    "unexpected date type " ++ word ++ " while parsing " ++ kind.name ++ " \"" ++ input ++ "\""
  | .shortMessage needed remaining =>
    "insufficient data left in message: needed " ++ toString needed ++ " bytes, "
      ++ toString remaining ++ " remaining"
  | .badStatus status =>
    "invalid status in external \"tinterval\" value: " ++ toString status.toInt
  | .momentWithoutTimestamp => "cannot convert abstime \"invalid\" to timestamp"
  | .spanWithoutCalendar => "cannot convert reltime \"invalid\" to interval"
  | .timestampOutOfRange => "timestamp out of range"
  | .badSetting parameter value =>
    "invalid value for parameter \"" ++ parameter.name ++ "\": \"" ++ value ++ "\""

/-- Whether a failure is one of grammar rather than of range or meaning. -/
def Error.isSyntax : Error → Bool
  | .badSyntax .. | .badEndpoint .. => true
  | _ => false

end Horology
