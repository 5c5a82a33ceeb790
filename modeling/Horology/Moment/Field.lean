import Horology.Text.Character

/-!
# Fields of a date/time text

A date/time text is cut into fields before anything is known about their meaning: numbers, dates of
digits, clock times, words, signed numbers and signed words.  Blanks and commas separate fields and
are otherwise nothing; a `T` between a field of digits and a digit is dropped.

## Main definitions

* `DateField` — the kinds of field.
* `DateField.ofText?` — the fields of a text, if it can be cut into fields.
-/

namespace Horology

/-- The fields of a date/time text, with their characters. -/
inductive DateField where
  | number (digits : List Char)
  /-- Numbers with one separator between them. -/
  | date (text : List Char) (separator : Char)
  | time (text : List Char)
  | word (text : List Char)
  /-- A sign with digits and colons. -/
  | offset (text : List Char)
  /-- A sign with letters. -/
  | signedWord (text : List Char)
  deriving DecidableEq, Repr

namespace DateField

/-- What may stand between two fields. -/
def isGap (c : Char) : Bool := isBlank c || c == ','

/-- What a clock time consists of. -/
def inTime (c : Char) : Bool := c.isDigit || c == ':' || c == '.'

/-- What a date of digits with a given separator consists of. -/
def inDate (separator c : Char) : Bool := c.isDigit || c == separator

/-- What a word may consist of after its first letter. -/
def inWord (c : Char) : Bool := c.isAlpha || c == '/' || c == '_'

/-- What an offset may consist of after its first digit. -/
def inOffset (c : Char) : Bool := c.isDigit || c == ':'

/-- The separators of a date of digits. -/
def separatesDate (c : Char) : Bool := c == '-' || c == '/' || c == '.'

/-- Whether a text begins with a character of a class. -/
def begins (p : Char → Bool) : List Char → Bool
  | [] => false
  | c :: _ => p c

/-- The field that digits and what follows them begin: a clock time before a colon, a date before
a separator and a digit, and a number otherwise. -/
def ofDigits (digits rest : List Char) : DateField :=
  match rest with
  | [] => .number digits
  | c :: tail =>
    if c == ':' then .time (digits ++ rest.takeWhile inTime)
    else if separatesDate c && begins Char.isDigit tail then
      .date (digits ++ rest.takeWhile (inDate c)) c
    else .number digits

/-- What is left after the field that digits and what follows them begin. -/
def afterDigits (rest : List Char) : List Char :=
  match rest with
  | [] => []
  | c :: tail =>
    if c == ':' then rest.dropWhile inTime
    else if separatesDate c && begins Char.isDigit tail then rest.dropWhile (inDate c)
    else rest

/-- A text without the `T` that may join a date to a clock time. -/
def dropJoint (cs : List Char) : List Char :=
  match cs with
  | c :: rest => if (c == 'T' || c == 't') && begins Char.isDigit rest then rest else cs
  | [] => []

theorem length_afterDigits_le (cs : List Char) : (afterDigits cs).length ≤ cs.length := by
  unfold afterDigits
  split
  · simp
  · next c tail =>
    split
    · exact length_dropped_le _ _
    · split
      · exact length_dropped_le _ _
      · simp

theorem length_dropJoint_le (cs : List Char) : (dropJoint cs).length ≤ cs.length := by
  unfold dropJoint
  split
  · split <;> simp
  · simp

/-- The fields of a text; none if a character stands where no field can begin. -/
def ofText? (cs : List Char) : Option (List DateField) :=
  match cs with
  | [] => some []
  | c :: cs =>
    if isGap c then ofText? cs
    else if c.isDigit then
      let rest := cs.dropWhile Char.isDigit
      (ofText? (dropJoint (afterDigits rest))).map
        (ofDigits (c :: cs.takeWhile Char.isDigit) rest :: ·)
    else if c.isAlpha then
      (ofText? (cs.dropWhile inWord)).map (.word (c :: cs.takeWhile inWord) :: ·)
    else if c == '+' || c == '-' then
      if begins Char.isDigit cs then
        (ofText? (cs.dropWhile inOffset)).map (.offset (c :: cs.takeWhile inOffset) :: ·)
      else if begins Char.isAlpha cs then
        (ofText? (cs.dropWhile Char.isAlpha)).map
          (.signedWord (c :: cs.takeWhile Char.isAlpha) :: ·)
      else none
    else none
termination_by cs.length
decreasing_by
  all_goals simp only [List.length_cons]
  · omega
  · have := length_dropJoint_le (afterDigits (cs.dropWhile Char.isDigit))
    have := length_afterDigits_le (cs.dropWhile Char.isDigit)
    have := length_dropped_le Char.isDigit cs
    omega
  · have := length_dropped_le inWord cs
    omega
  · have := length_dropped_le inOffset cs
    omega
  · have := length_dropped_le Char.isAlpha cs
    omega

end DateField

end Horology
