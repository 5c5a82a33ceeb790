import Horology.Duration.Basic
import Horology.Settings
import Horology.Text.Numeral

/-!
# Layouts of a duration

A duration is written in one of three styles.  The first writes units by name, each with its own
sign, and the clock part as a clock time with one sign; the second writes every unit by name with
one word for the direction, which the sign of the first field decides; the third writes the
designators of ISO 8601, each number with its own sign.  Fields that are zero are left out.

## Main definitions

* `Duration.write` — the text of a duration in a style.
* `Duration.writePostgres`, `Duration.writeVerbose`, `Duration.writeIso` — the three styles.
-/

namespace Horology.Duration

/-- Seconds without their sign, and microseconds as decimals without trailing zeros. -/
def writeSeconds (width : Nat) (seconds micros : Int) : List Char :=
  Numeral.padded width seconds.natAbs ++
    (if micros = 0 then []
      else '.' :: ((Numeral.padded 6 micros.natAbs).reverse.dropWhile (· == '0')).reverse)

/-- Whether a duration has hours, minutes, seconds or microseconds. -/
def hasClock (d : Duration) : Bool :=
  d.hours != 0 || d.minutes != 0 || d.seconds != 0 || d.micros != 0

/-- A text under way: what is written, whether that is nothing yet, and whether the direction of
what comes next is backwards unless it says otherwise. -/
structure Draft where
  text : List Char := []
  isFirst : Bool := true
  isBackward : Bool := false
  deriving DecidableEq, Repr

namespace Draft

/-- A field by name with its own sign; a plus sign where the field before was negative. -/
def signedField (draft : Draft) (value : Int) (unit : String) : Draft :=
  if value = 0 then draft
  else
    { text := draft.text ++ (if draft.isFirst then [] else [' '])
        ++ (if draft.isBackward && 0 < value then ['+'] else [])
        ++ Numeral.writeInt value ++ ' ' :: unit.toList ++ (if value = 1 then [] else ['s'])
      isFirst := false
      isBackward := value < 0 }

/-- A field by name, its sign relative to the direction that the first field gives. -/
def directedField (draft : Draft) (value : Int) (unit : String) : Draft :=
  if value = 0 then draft
  else
    let isBackward := if draft.isFirst then decide (value < 0) else draft.isBackward
    let shown := if isBackward then -value else value
    { text := draft.text ++ ' ' :: Numeral.writeInt shown ++ ' ' :: unit.toList
        ++ (if shown = 1 then [] else ['s'])
      isFirst := false
      isBackward }

/-- The seconds by name, their sign relative to the direction that the first field gives. -/
def directedSeconds (draft : Draft) (seconds micros : Int) : Draft :=
  if seconds = 0 ∧ micros = 0 then draft
  else
    let isNegative := decide (seconds < 0 ∨ seconds = 0 ∧ micros < 0)
    let isBackward := if draft.isFirst then isNegative else draft.isBackward
    { text := draft.text ++ ' ' :: (if isNegative = isBackward then [] else ['-'])
        ++ writeSeconds 1 seconds micros ++ " sec".toList
        ++ (if seconds.natAbs ≠ 1 ∨ micros ≠ 0 then ['s'] else [])
      isFirst := false
      isBackward }

end Draft

/-- Units by name, each with its own sign, and the clock part as a clock time. -/
def writePostgres (d : Duration) : List Char :=
  let draft : Draft := {}
  let draft := draft.signedField d.years "year"
  let draft := draft.signedField d.months "mon"
  let draft := draft.signedField d.days "day"
  if draft.isFirst || d.hasClock then
    let isNegative := decide (d.hours < 0 ∨ d.minutes < 0 ∨ d.seconds < 0 ∨ d.micros < 0)
    draft.text ++ (if draft.isFirst then [] else [' '])
      ++ (if isNegative then ['-'] else if draft.isBackward then ['+'] else [])
      ++ Numeral.padded 2 d.hours.natAbs ++ ':' :: Numeral.padded 2 d.minutes.natAbs
      ++ ':' :: writeSeconds 2 d.seconds d.micros
  else draft.text

/-- Every unit by name, and one word for the direction. -/
def writeVerbose (d : Duration) : List Char :=
  let draft : Draft := { text := ['@'] }
  let draft := draft.directedField d.years "year"
  let draft := draft.directedField d.months "mon"
  let draft := draft.directedField d.days "day"
  let draft := draft.directedField d.hours "hour"
  let draft := draft.directedField d.minutes "min"
  let draft := draft.directedSeconds d.seconds d.micros
  draft.text ++ (if draft.isFirst then [' ', '0'] else [])
    ++ (if draft.isBackward then " ago".toList else [])

/-- A number and its designator, unless the number is zero. -/
def designated (value : Int) (designator : Char) : List Char :=
  if value = 0 then [] else Numeral.writeInt value ++ [designator]

/-- The designators of ISO 8601. -/
def writeIso (d : Duration) : List Char :=
  if d = .zero then "PT0S".toList
  else
    'P' :: designated d.years 'Y' ++ designated d.months 'M' ++ designated d.days 'D'
      ++ (if d.hasClock then ['T'] else [])
      ++ designated d.hours 'H' ++ designated d.minutes 'M'
      ++ (if d.seconds = 0 ∧ d.micros = 0 then []
        else (if d.seconds < 0 ∨ d.micros < 0 then ['-'] else [])
          ++ writeSeconds 1 d.seconds d.micros ++ ['S'])

/-- The text of a duration in a style. -/
def write (d : Duration) : SpanStyle → List Char
  | .postgres => d.writePostgres
  | .verbose => d.writeVerbose
  | .iso8601 => d.writeIso

end Horology.Duration
