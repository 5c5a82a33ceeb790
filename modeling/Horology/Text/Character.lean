/-!
# Characters and words of the text forms

Every text form of the library is read as a list of characters.  This module fixes the character
classes the readers share, letter case, trimming, and the cutting of a text into words.

Letters and digits are the ASCII ones throughout, which is what `Char.isAlpha`, `Char.isDigit` and
`Char.toLower` decide; only the trimming of settings looks at Unicode.

## Main definitions

* `isBlank` — the five ASCII blanks the grammars skip.
* `isSpace` — the characters with the Unicode property `White_Space`.
* `lower` — ASCII lower case of a text.
* `trim` — a text without the Unicode white space around it.
* `words` — the non-empty pieces of a text between separators.
-/

namespace Horology

/-- The blanks of the grammars are space, tab, line feed, form feed and carriage return. -/
def isBlank (c : Char) : Bool :=
  c == ' ' || c == '\t' || c == '\n' || c == '\x0c' || c == '\r'

/-- The code point ranges of the Unicode property `White_Space`, first and last included. -/
def spaceRanges : List (Nat × Nat) :=
  [(0x09, 0x0D), (0x20, 0x20), (0x85, 0x85), (0xA0, 0xA0), (0x1680, 0x1680), (0x2000, 0x200A),
    (0x2028, 0x2029), (0x202F, 0x202F), (0x205F, 0x205F), (0x3000, 0x3000)]

/-- Membership in the Unicode property `White_Space`. -/
def isSpace (c : Char) : Bool :=
  spaceRanges.any fun (first, last) => first ≤ c.toNat && c.toNat ≤ last

/-- ASCII lower case; other characters stay. -/
def lower (cs : List Char) : List Char := cs.map Char.toLower

@[simp] theorem lower_nil : lower [] = [] := rfl

@[simp] theorem lower_append (xs ys : List Char) : lower (xs ++ ys) = lower xs ++ lower ys := by
  simp [lower]

/-- A text without the characters of a class at either end. -/
def trimWhere (p : Char → Bool) (cs : List Char) : List Char :=
  ((cs.dropWhile p).reverse.dropWhile p).reverse

/-- A text without the Unicode white space around it. -/
def trim (cs : List Char) : List Char := trimWhere isSpace cs

/-- Dropping from the front does not lengthen a text. -/
theorem length_dropped_le (p : Char → Bool) (cs : List Char) :
    (cs.dropWhile p).length ≤ cs.length :=
  (List.dropWhile_sublist p).length_le

/-- The non-empty pieces of a text between separators. -/
def words (separates : Char → Bool) (cs : List Char) : List (List Char) :=
  (cs.splitOnP separates).filter fun w => !w.isEmpty

end Horology
