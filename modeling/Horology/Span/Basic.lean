import Horology.Word

/-!
# Spans

A span is a signed number of seconds in a 32-bit word, of which one is reserved for the invalid
span.  A span may also hold the reserved word as if it were a number; it is then as invalid as the
invalid span itself, and equal to it.

## Main definitions

* `Span`, `Span.raw`, `Span.ofRaw` — spans and their words.
* `Span.order` — the order of spans, invalid ones last.
* `Span.key` — what a hash of a span is made from.
-/

namespace Horology

/-- A span of whole seconds. -/
inductive Span where
  | seconds (n : Int32)
  | invalid
  deriving DecidableEq, Repr, Inhabited

namespace Span

/-- The word reserved for the invalid span. -/
def invalidRaw : Int32 := Int32.minValue

/-- The empty span. -/
def zero : Span := .seconds 0

/-- The span of a word. -/
def ofRaw (raw : Int32) : Span := if raw = invalidRaw then .invalid else .seconds raw

/-- The word of a span. -/
def raw : Span → Int32
  | .seconds n => n
  | .invalid => invalidRaw

/-- Whether a span holds any word but the reserved one. -/
def isValid (s : Span) : Bool := s.raw != invalidRaw

/-- The seconds of a valid span. -/
def seconds? (s : Span) : Option Int32 := if s.isValid then some s.raw else none

/-- The seconds of a valid span in double precision. -/
def toFloat? (s : Span) : Option Float := s.seconds?.map fun n => Float.ofInt n.toInt

/-- The order of spans: valid ones by their seconds, invalid ones equal and after all others. -/
def order (a b : Span) : Ordering :=
  match a.isValid, b.isValid with
  | false, false => .eq
  | false, true => .gt
  | true, false => .lt
  | true, true => compare a.raw.toInt b.raw.toInt

instance : Ord Span := ⟨order⟩

instance : LT Span := ltOfOrd

instance : LE Span := leOfOrd

instance : DecidableLT Span := fun a b => inferInstanceAs (Decidable (compare a b = .lt))

instance : DecidableLE Span := fun a b => inferInstanceAs (Decidable ((compare a b).isLE = true))

instance : BEq Span := ⟨fun a b => a.order b == .eq⟩

/-- What a hash of a span is made from. -/
def key (s : Span) : Int32 := s.raw

instance : Hashable Span := ⟨fun s => hash s.key⟩

@[simp] theorem raw_ofRaw (n : Int32) : (ofRaw n).raw = n := by
  unfold ofRaw
  split <;> simp_all [raw]

/-- A span is valid if its word is above the least one. -/
theorem isValid_iff {s : Span} : s.isValid = true ↔ -2147483648 < s.raw.toInt := by
  have hleast : invalidRaw.toInt = -2147483648 := rfl
  have hlo := s.raw.le_toInt
  rw [isValid, bne_iff_ne, ne_eq, ← Int32.toInt_inj, hleast]
  omega

/-- The span of a word above the least one holds the word as a number. -/
theorem ofRaw_eq_seconds {n : Int32} (h : -2147483648 < n.toInt) : ofRaw n = .seconds n := by
  rw [ofRaw, if_neg]
  rintro rfl
  exact absurd h (by decide)

theorem seconds?_of_isValid {s : Span} (h : s.isValid = true) : s.seconds? = some s.raw :=
  if_pos h

theorem seconds?_of_not_isValid {s : Span} (h : ¬ s.isValid = true) : s.seconds? = none :=
  if_neg h

/-- Spans are equal exactly if their words are. -/
theorem beq_iff {a b : Span} : (a == b) = true ↔ a.raw = b.raw := by
  have hinvalid (s : Span) : s.isValid = false ↔ s.raw = invalidRaw := bne_eq_false_iff_eq
  show (order a b == .eq) = true ↔ _
  unfold order
  cases ha : a.isValid <;> cases hb : b.isValid
  case true.true => simp [Int32.toInt_inj]
  case false.false => simp [(hinvalid a).1 ha, (hinvalid b).1 hb]
  case false.true =>
    refine iff_of_false (by simp) fun heq => ?_
    rw [(hinvalid b).2 (heq.symm.trans ((hinvalid a).1 ha))] at hb
    cases hb
  case true.false =>
    refine iff_of_false (by simp) fun heq => ?_
    rw [(hinvalid a).2 (heq.trans ((hinvalid b).1 hb))] at ha
    cases ha

end Span

end Horology
