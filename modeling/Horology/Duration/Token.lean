import Horology.Duration.TimeUnit

/-!
# Tokens of a duration phrase

A phrase such as `@ 1 year 2 mons -04:05:06 ago` is cut at blanks, and each piece into tokens:
markers, numbers with or without a unit glued to them, clock times, and words.

## Main definitions

* `DurationToken` — the kinds of token.
* `DurationToken.clock?` — the token of a clock time.
* `DurationToken.ofText?` — the tokens of a phrase.
-/

namespace Horology

/-- The tokens of a duration phrase. -/
inductive DurationToken where
  /-- The at sign that may open a phrase. -/
  | marker
  /-- A number, with the word glued to it in lower case. -/
  | quantity (q : Quantity) (unit : Option String)
  /-- A clock time; the sign is that of the whole. -/
  | clock (negative : Bool) (hours minutes seconds micros : Int)
  /-- A word in lower case. -/
  | word (w : String)
  deriving DecidableEq, Repr

namespace DurationToken

/-- The number that a part of a clock time denotes, digits only. -/
def clockPart (cs : List Char) : Except DurationFault Int :=
  match Numeral.read? cs with
  | some n => fit n
  | none => .error .badFormat

/-- Seconds and microseconds of the last part of a clock time, which bears no sign. -/
def clockSeconds (cs : List Char) : Except DurationFault (Int × Int) := do
  let (q, rest) ← Quantity.scan cs
  if !rest.isEmpty || cs.head? == some '+' || cs.head? == some '-' then .error .badFormat
  else return (q.whole, ← Duration.nearestMicros q.fraction)

/-- The clock time of three parts, once its minutes and seconds are within an hour. -/
def ofClock (negative : Bool) (hours minutes : Int) (seconds : Int × Int) :
    Except DurationFault DurationToken :=
  if 59 < minutes || 60 < seconds.1 then .error .overflow
  else .ok (.clock negative hours minutes seconds.1 seconds.2)

/-- The token of a clock time `HH:MM` or `HH:MM:SS`, the seconds with or without a fraction. -/
def clock? (cs : List Char) : Except DurationFault DurationToken :=
  let negative := (Quantity.splitSign cs).1
  match (Quantity.splitSign cs).2.splitOn ':' with
  | [h, m] => do
    let hours ← clockPart h
    let minutes ← clockPart m
    ofClock negative hours minutes (0, 0)
  | h :: m :: s :: more => do
    let hours ← clockPart h
    let minutes ← clockPart m
    let seconds ← clockSeconds s
    if more.isEmpty then ofClock negative hours minutes seconds else .error .badFormat
  | _ => .error .badFormat

/-- The characters a number may begin with. -/
def beginsNumber (c : Char) : Bool := c.isDigit || c == '+' || c == '-' || c == '.'

/-- The characters that end the numeric stretch of a piece. -/
def endsNumber (c : Char) : Bool := c.isAlpha || c == '@'

/-- The word that letters make, if there are any. -/
def word? (letters : List Char) : Option String :=
  if letters.isEmpty then none else some (String.ofList (lower letters))

/-- The number that a whole text is. -/
def quantity? (cs : List Char) : Except DurationFault Quantity := do
  let (q, rest) ← Quantity.scan cs
  if rest.isEmpty then return q else .error .badFormat

/-- The tokens of a piece that has no blanks in it. -/
def ofPiece (cs : List Char) : Except DurationFault (List DurationToken) :=
  match cs with
  | [] => .ok []
  | c :: cs =>
    if c == '@' then do return .marker :: (← ofPiece cs)
    else if c.isAlpha then do
      let letters := c :: cs.takeWhile Char.isAlpha
      return .word (String.ofList (lower letters)) :: (← ofPiece (cs.dropWhile Char.isAlpha))
    else if beginsNumber c then
      let numeric := c :: cs.takeWhile fun c => !endsNumber c
      let rest := cs.dropWhile fun c => !endsNumber c
      if numeric.contains ':' then do
        let token ← clock? numeric
        return token :: (← ofPiece rest)
      else do
        let q ← quantity? numeric
        let token := .quantity q (word? (rest.takeWhile Char.isAlpha))
        return token :: (← ofPiece (rest.dropWhile Char.isAlpha))
    else if c == ',' then ofPiece cs
    else .error .badFormat
termination_by cs.length
decreasing_by
  all_goals simp only [List.length_cons]
  all_goals
    have := length_dropped_le Char.isAlpha cs
    have := length_dropped_le (fun c => !endsNumber c) cs
    have := length_dropped_le Char.isAlpha (cs.dropWhile fun c => !endsNumber c)
    omega

/-- The tokens of pieces one after another. -/
def ofPieces : List (List Char) → Except DurationFault (List DurationToken)
  | [] => .ok []
  | piece :: pieces => do
    let tokens ← ofPiece piece
    return tokens ++ (← ofPieces pieces)

/-- The tokens of a phrase. -/
def ofText? (cs : List Char) : Except DurationFault (List DurationToken) :=
  ofPieces (words isBlank cs)

end DurationToken

end Horology
