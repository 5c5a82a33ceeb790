import Horology.Comparison
import Horology.Proofs.TimeRange
import Horology.Proofs.Word

/-!
# Laws of comparison

Values of each of the three types are compared by rank: the word of a valid value, and a rank above
all words for the invalid ones, wherever the word reserved for them lies among the others.  Ranks
are integers, from whose order the laws of comparison follow for all three types at once.  The rank
of a range is the wrapped word of its length, so that it is ranges of equal length that are equal.
A hasher is fed a word of its own for each rank.

## Main definitions

* `lastIf`, `compare_lastIf` — ranks, and how they compare.
* `Moment.rank`, `Span.rank`, `TimeRange.rank` — the ranks of the three types.
* `lawfulBOrd_of_rank` — the laws that an order by rank obeys.
* `ComparisonLaws` — the laws of comparing and hashing.
* `comparison_laws` — all three types obey them.
-/

namespace Horology

/-! ## Ranks -/

/-- The rank of a word, or the one above all words. -/
def lastIf (invalid : Bool) (word : Int32) : Int := if invalid then 2147483648 else word.toInt

@[simp] theorem lastIf_true (w : Int32) : lastIf true w = 2147483648 := if_pos rfl

@[simp] theorem lastIf_false (w : Int32) : lastIf false w = w.toInt := if_neg Bool.false_ne_true

/-- Ranks compare as words do, with equal ranks for all that is invalid. -/
theorem compare_lastIf (i j : Bool) (v w : Int32) :
    compare (lastIf i v) (lastIf j w) =
      match i, j with
      | true, true => .eq
      | true, false => .gt
      | false, true => .lt
      | false, false => compare v.toInt w.toInt := by
  have hv := Word.toInt_mem v
  have hw := Word.toInt_mem w
  cases i <;> cases j <;> simp only [lastIf_true, lastIf_false]
  case true.true => exact Std.ReflCmp.compare_self
  case true.false =>
    rw [Int.compare_eq_gt]
    omega
  case false.true =>
    rw [Int.compare_eq_lt]
    omega

/-- Two ranks are equal if both are above all words, or both are the rank of the same word. -/
theorem lastIf_eq_iff {i j : Bool} {v w : Int32} :
    lastIf i v = lastIf j w ↔ i = j ∧ (i = false → v = w) := by
  have hv := Word.toInt_mem v
  have hw := Word.toInt_mem w
  cases i <;> cases j <;> simp [← Int32.toInt_inj] <;> omega

/-- The rank of a moment. -/
def Moment.rank (t : Moment) : Int := lastIf t.isInvalid t.raw

/-- The rank of a span. -/
def Span.rank (s : Span) : Int := lastIf (!s.isValid) s.raw

/-- The rank of a range. -/
def TimeRange.rank (r : TimeRange) : Int := lastIf (!r.isValid) r.rawLength

theorem Moment.compare_eq_rank (a b : Moment) : compare a b = compare a.rank b.rank := by
  rw [rank, rank, compare_lastIf]
  rfl

theorem Span.compare_eq_rank (a b : Span) : compare a b = compare a.rank b.rank := by
  rw [rank, rank, compare_lastIf]
  show order a b = _
  unfold order
  cases a.isValid <;> cases b.isValid <;> rfl

theorem TimeRange.compare_eq_rank (r r' : TimeRange) : compare r r' = compare r.rank r'.rank := by
  rw [rank, rank, compare_lastIf]
  show order r r' = _
  unfold order
  cases r.isValid <;> cases r'.isValid <;> rfl

/-! ## Laws of an order by rank -/

/-- A comparison by rank is oriented and transitive; equality and order that are taken from it agree
with it. -/
theorem lawfulBOrd_of_rank {α : Type} [Ord α] [BEq α] [LT α] [LE α] {rank : α → Int}
    (hrank : ∀ a b : α, compare a b = compare (rank a) (rank b))
    (hbeq : ∀ a b : α, (a == b) = (compare a b == .eq))
    (hlt : ∀ a b : α, a < b ↔ compare a b = .lt)
    (hle : ∀ a b : α, a ≤ b ↔ (compare a b).isLE = true) : Std.LawfulBOrd α where
  eq_swap := by
    intro a b
    rw [hrank a b, hrank b a]
    exact Std.OrientedCmp.eq_swap
  isLE_trans := by
    intro a b c hab hbc
    rw [hrank] at hab hbc ⊢
    exact Std.TransCmp.isLE_trans hab hbc
  compare_eq_iff_beq := by
    intro a b
    rw [hbeq, beq_iff_eq]
  eq_lt_iff_lt := (hlt _ _).symm
  isLE_iff_le := (hle _ _).symm

instance : Std.LawfulBOrd Moment :=
  lawfulBOrd_of_rank Moment.compare_eq_rank (fun _ _ => rfl) (fun _ _ => .rfl) (fun _ _ => .rfl)

instance : Std.LawfulBOrd Span :=
  lawfulBOrd_of_rank Span.compare_eq_rank (fun _ _ => rfl) (fun _ _ => .rfl) (fun _ _ => .rfl)

instance : Std.LawfulBOrd TimeRange :=
  lawfulBOrd_of_rank TimeRange.compare_eq_rank (fun _ _ => rfl) (fun _ _ => .rfl)
    (fun _ _ => .rfl)

/-- Values of equal rank are equal. -/
theorem beq_iff_rank {α : Type} [Ord α] [BEq α] [LT α] [LE α] [Std.LawfulBOrd α] {rank : α → Int}
    (hrank : ∀ a b : α, compare a b = compare (rank a) (rank b)) {a b : α} :
    (a == b) = true ↔ rank a = rank b := by
  rw [← Std.LawfulBEqOrd.compare_eq_iff_beq, hrank, Std.LawfulEqCmp.compare_eq_iff_eq]

/-! ## Hashes -/

/-- A word can be told from its bytes, in either order. -/
theorem ByteOrder.bytes_inj {order : ByteOrder} {w w' : Int32} :
    order.bytes w = order.bytes w' ↔ w = w' := by
  constructor
  · intro h
    cases order with
    | bigEndian => exact Message.ofWord_inj h
    | littleEndian => exact Message.ofWord_inj (List.reverse_inj.1 h)
  · rintro rfl
    rfl

/-- A range can be told by its hash as far as its validity and length go. -/
theorem TimeRange.hashBytes_inj {order : ByteOrder} {r r' : TimeRange} :
    r.hashBytes order = r'.hashBytes order ↔ r.key = r'.key := by
  unfold hashBytes
  cases r.key <;> cases r'.key <;> simp [ByteOrder.bytes_inj]

/-- Ranges are equal exactly if both are invalid, or both are valid and of one length. -/
theorem TimeRange.beq_iff_key {r r' : TimeRange} : (r == r') = true ↔ r.key = r'.key := by
  rw [beq_iff_rank compare_eq_rank, rank, rank, lastIf_eq_iff, key, key]
  cases r.isValid <;> cases r'.isValid <;> simp

/-! ## The laws -/

/-- Each comparison has a number of its own, negative for less and positive for greater. -/
theorem comparisonWord_iff (o : Ordering) :
    (comparisonWord o = -1 ↔ o = .lt) ∧ (comparisonWord o = 0 ↔ o = .eq) ∧
      (comparisonWord o = 1 ↔ o = .gt) := by
  cases o <;> decide

section Laws

variable {α : Type} [Ord α] [BEq α] [LT α] [LE α]

/-- That all ways to compare two values report one comparison.  An index is told -1, 0 or 1. -/
structure Reports (a b : α) (o : Ordering) : Prop where
  partialCompare : partialCompare? a b = some o
  index_lt : indexCompare a b = -1 ↔ o = .lt
  index_eq : indexCompare a b = 0 ↔ o = .eq
  index_gt : indexCompare a b = 1 ↔ o = .gt
  eq : (a == b) = true ↔ o = .eq
  ne : (a != b) = true ↔ o ≠ .eq
  lt : a < b ↔ o = .lt
  le : a ≤ b ↔ o ≠ .gt
  gt : a > b ↔ o = .gt
  ge : a ≥ b ↔ o ≠ .lt

/-- The laws of comparing and hashing the values of a type: a total preorder with one class of
invalid values after all others, reported alike in every form, and with hashes that are equal for
equal values only. -/
structure ComparisonLaws (α : Type) [Ord α] [BEq α] [LT α] [LE α] (isInvalid : α → Bool)
    (hashBytes : ByteOrder → α → List UInt8) : Prop where
  refl : ∀ a : α, compare a a = .eq
  swap : ∀ a b : α, compare a b = (compare b a).swap
  trans : ∀ a b c : α, a ≤ b → b ≤ c → a ≤ c
  total : ∀ a b : α, a ≤ b ∨ b ≤ a
  reports : ∀ a b : α, Reports a b (compare a b)
  invalid_eq : ∀ a b : α, isInvalid a = true → isInvalid b = true → compare a b = .eq
  invalid_gt : ∀ a b : α, isInvalid a = true → isInvalid b = false → compare a b = .gt
  hash : ∀ (order : ByteOrder) (a b : α), (a == b) = true ↔ hashBytes order a = hashBytes order b

/-- All ways to compare two values of a lawful order report their comparison. -/
theorem reports_compare [Std.LawfulBOrd α] (a b : α) : Reports a b (compare a b) where
  partialCompare := rfl
  index_lt := (comparisonWord_iff _).1
  index_eq := (comparisonWord_iff _).2.1
  index_gt := (comparisonWord_iff _).2.2
  eq := Std.LawfulBEqOrd.compare_eq_iff_beq.symm
  ne := by
    rw [bne, Bool.not_eq_true', ← Bool.not_eq_true, Std.LawfulBEqOrd.compare_eq_iff_beq.symm]
  lt := Std.LawfulLTCmp.eq_lt_iff_lt.symm
  le := Std.LawfulLECmp.ne_gt_iff_le.symm
  gt := Std.LawfulLTCmp.eq_gt_iff_gt.symm
  ge := Std.LawfulLECmp.ne_lt_iff_ge.symm

/-- A lawful order by rank obeys the laws, if hashes are equal for equal values only. -/
theorem comparisonLaws_of_rank [Std.LawfulBOrd α] {isInvalid : α → Bool} {word : α → Int32}
    {hashBytes : ByteOrder → α → List UInt8}
    (hrank : ∀ a b : α, compare a b =
      compare (lastIf (isInvalid a) (word a)) (lastIf (isInvalid b) (word b)))
    (hhash : ∀ (order : ByteOrder) (a b : α),
      (a == b) = true ↔ hashBytes order a = hashBytes order b) :
    ComparisonLaws α isInvalid hashBytes where
  refl := by
    intro a
    exact Std.ReflCmp.compare_self
  swap := by
    intro a b
    exact Std.OrientedCmp.eq_swap
  trans := by
    intro a b c hab hbc
    have hle (x y : α) : (compare x y).isLE = true ↔ x ≤ y := Std.LawfulLECmp.isLE_iff_le
    rw [← hle] at hab hbc ⊢
    exact Std.TransCmp.isLE_trans hab hbc
  total := by
    intro a b
    have hge : b ≤ a ↔ compare a b ≠ .lt := (reports_compare a b).ge
    rw [(reports_compare a b).le, hge]
    cases compare a b <;> simp
  reports := reports_compare
  invalid_eq := by
    intro a b ha hb
    rw [hrank, compare_lastIf, ha, hb]
  invalid_gt := by
    intro a b ha hb
    rw [hrank, compare_lastIf, ha, hb]
  hash := hhash

end Laws

/-- **Values of each type obey the laws of comparing and hashing**, whatever word they hold and
wherever they come from.  Invalid values are the last, although the word of the invalid moment is
not the greatest, and that of the invalid span is the least.  The invalid ranges are those whose
status says so, and those with an invalid endpoint. -/
theorem comparison_laws :
    ComparisonLaws Moment Moment.isInvalid Moment.hashBytes ∧
    ComparisonLaws Span (fun s => !s.isValid) Span.hashBytes ∧
    ComparisonLaws TimeRange (fun r => !r.isValid) TimeRange.hashBytes ∧
    (∃ t : Moment, t.isInvalid = false ∧ Moment.invalidRaw < t.raw) ∧
    (∀ s : Span, Span.invalidRaw ≤ s.raw) ∧
    ∀ r : TimeRange, (!r.isValid) = true ↔
      r.status = .invalid ∨ r.first.isInvalid = true ∨ r.last.isInvalid = true := by
  refine ⟨?_, ?_, ?_, ⟨.seconds 2147483647, by decide⟩, ?_, ?_⟩
  · apply comparisonLaws_of_rank Moment.compare_eq_rank
    intro order a b
    exact Moment.beq_iff.trans ByteOrder.bytes_inj.symm
  · apply comparisonLaws_of_rank Span.compare_eq_rank
    intro order s s'
    exact Span.beq_iff.trans ByteOrder.bytes_inj.symm
  · apply comparisonLaws_of_rank TimeRange.compare_eq_rank
    intro order r r'
    exact TimeRange.beq_iff_key.trans TimeRange.hashBytes_inj.symm
  · intro s
    exact Int32.minValue_le s.raw
  · intro r
    rw [← TimeRange.status_eq_invalid_iff, or_self, TimeRange.isValid]
    cases r.status <;> decide

end Horology
