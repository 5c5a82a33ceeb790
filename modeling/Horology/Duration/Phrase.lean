import Horology.Duration.Token

/-!
# Duration phrases

The primary grammar of durations: numbers with units, in any order and any number, clock times among
them, a marker at the front and the word `ago` at the end.  A number without a unit waits for a word
to give it one; at the end of the phrase it counts seconds.

## Main definitions

* `DurationReading` — what a text is found to be, a duration or the reserved word.
* `DurationPhrase.read` — the reading of a phrase.
-/

namespace Horology

/-- What the text of a span is found to be. -/
inductive DurationReading where
  | delta (d : Duration)
  /-- The word for an invalid value, standing alone. -/
  | invalid
  deriving DecidableEq, Repr

namespace DurationPhrase

/-- The word that turns the phrase before it into the opposite duration. -/
def agoWord : String := "ago"

/-- The word for an invalid value. -/
def invalidWord : String := "invalid"

/-- A duration with the number added that is still without a unit, in seconds. -/
def settle (d : Duration) : Option Quantity → Except DurationFault Duration
  | none => .ok d
  | some q => d.add? q .second

/-- A duration with a quantity added in the unit of a word. -/
def addWord (d : Duration) (q : Quantity) (word : String) : Except DurationFault Duration :=
  match TimeUnit.ofWord? word with
  | some unit => d.add? q unit
  | none => .error .badFormat

/-- A duration with a clock time added. -/
def addClock (d : Duration) (negative : Bool) (hours minutes seconds micros : Int) :
    Except DurationFault Duration := do
  let sign : Int := if negative then -1 else 1
  let d ← d.addHours (sign * hours)
  let d ← d.addMinutes (sign * minutes)
  let d ← d.addSeconds (sign * seconds)
  d.addMicros (sign * micros)

/-- The duration that tokens add up to, from `d` and a number still without a unit. -/
def sum (d : Duration) (pending : Option Quantity) :
    List DurationToken → Except DurationFault Duration
  | [] => settle d pending
  | .marker :: _ => .error .badFormat
  | .quantity q (some word) :: tokens =>
    if pending.isSome then .error .badFormat
    else do sum (← addWord d q word) none tokens
  | .quantity q none :: tokens =>
    if pending.isSome then .error .badFormat else sum d (some q) tokens
  | .clock negative hours minutes seconds micros :: tokens =>
    if pending.isSome then .error .badFormat
    else do sum (← addClock d negative hours minutes seconds micros) none tokens
  | .word w :: tokens =>
    if w = agoWord then
      match tokens with
      | [] => do (← settle d pending).negate?
      | _ :: _ => .error .badFormat
    else
      match TimeUnit.ofWord? w, pending with
      | some unit, some q => do sum (← d.add? q unit) none tokens
      | _, _ => .error .badFormat

/-- Tokens without the marker that may open them. -/
def dropMarker : List DurationToken → List DurationToken
  | .marker :: tokens => tokens
  | tokens => tokens

/-- The reading of the tokens of a phrase. -/
def ofTokens (tokens : List DurationToken) : Except DurationFault DurationReading :=
  if tokens.isEmpty then .error .badFormat
  else if tokens = [.word invalidWord] then .ok .invalid
  else (sum .zero none (dropMarker tokens)).map .delta

/-- The reading of a phrase. -/
def read (cs : List Char) : Except DurationFault DurationReading := do
  ofTokens (← DurationToken.ofText? cs)

end DurationPhrase

end Horology
