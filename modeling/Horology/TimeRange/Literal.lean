import Horology.Moment.Text
import Horology.TimeRange.Basic

/-!
# Literals of a time range

The literal of a range is a pair of quoted moments in brackets, with blanks between any two tokens.
Two forms stand for the undefined range: its name alone, and its name directly after the first
opening quote, whatever follows.  Anything else is an error that quotes the whole literal; where a
quoted text is no moment, the error carries the cause.

## Main definitions

* `RangeLiteral` — what a literal says.
* `RangeLiteral.read` — the literal of a text in a session.
* `TimeRange.read`, `TimeRange.write` — ranges and their texts.
-/

namespace Horology

/-- What the literal of a range says, its moments in the order they stand in. -/
inductive RangeLiteral where
  | undefined
  | between (a b : Moment)
  deriving DecidableEq, Repr

namespace RangeLiteral

/-- The name of the undefined range. -/
def undefinedName : List Char := "Undefined Range".toList

/-- What follows a given character after blanks, if that comes first. -/
def expect? (c : Char) (cs : List Char) : Option (List Char) :=
  match cs.dropWhile isBlank with
  | [] => none
  | d :: rest => if d = c then some rest else none

/-- The text up to the next quote, and what follows the quote. -/
def untilQuote? (cs : List Char) : Option (List Char × List Char) :=
  match cs.dropWhile (· != '"') with
  | [] => none
  | _ :: rest => some (cs.takeWhile (· != '"'), rest)

/-- A part of the literal `text` that must be there. -/
def require {α : Type} (text : String) : Option α → Except Error α
  | some a => .ok a
  | none => .error (.badSyntax .range text)

/-- The moment of a quoted text in the literal `text`. -/
def endpoint (session : Session) (text : String) (quoted : List Char) : Except Error Moment :=
  match Moment.read session (String.ofList quoted) with
  | .ok t => .ok t
  | .error cause => .error (.badEndpoint text cause)

/-- The moments of the literal `text`, from behind its first opening quote. -/
def readPair (session : Session) (text : String) (cs : List Char) :
    Except Error RangeLiteral := do
  let (quoted, rest) ← require text (untilQuote? cs)
  let a ← endpoint session text quoted
  let rest ← require text (expect? '"' rest)
  let (quoted, rest) ← require text (untilQuote? rest)
  let b ← endpoint session text quoted
  let rest ← require text (expect? ']' rest)
  if rest.isEmpty then return .between a b else .error (.badSyntax .range text)

/-- The literal of a text in a session. -/
def read (session : Session) (text : String) : Except Error RangeLiteral :=
  if trimWhere isBlank text.toList = undefinedName then .ok .undefined
  else do
    let rest ← require text (expect? '[' text.toList)
    let rest ← require text (expect? '"' rest)
    if undefinedName.isPrefixOf rest then return .undefined
    else readPair session text rest

end RangeLiteral

namespace TimeRange

/-- The range of a literal. -/
def ofLiteral : RangeLiteral → TimeRange
  | .undefined => undefined
  | .between a b => between a b

/-- The range of a text in a session. -/
def read (session : Session) (text : String) : Except Error TimeRange :=
  (RangeLiteral.read session text).map ofLiteral

/-- A text in quotes. -/
def quote (cs : List Char) : List Char := '"' :: cs ++ ['"']

/-- The characters of the text of a range. -/
def chars (settings : Settings) (r : TimeRange) : List Char :=
  if r.isValid then
    '[' :: quote (r.first.chars settings) ++ ' ' :: quote (r.last.chars settings) ++ [']']
  else '[' :: quote RangeLiteral.undefinedName ++ [']']

/-- The text of a range under given settings. -/
def write (settings : Settings) (r : TimeRange) : String := String.ofList (chars settings r)

instance : ToString TimeRange := ⟨write {}⟩

end TimeRange

end Horology
