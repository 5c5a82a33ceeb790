import Horology.Proofs.Moment.Arithmetic
import Horology.Proofs.TimeRange

/-!
# Lengths of ranges

The length of a range is the difference of two words, formed in words.  As long as the exact number
of seconds between them fits a word, length and exact number are one; beyond, the length is negative
or, for one number, invalid.  It is then never taken for another length: going by it from either end
leads out of the finite moments.

## Main definitions

* `TimeRange.extent` — the exact number of seconds between the endpoints.
* `TimeRange.CompareLength` — that the six comparisons with a span go by a number.
* `TimeRange.HasExactLength`, `HasWrappedLength`, `LacksLength` — the three cases.
* `TimeRange.length_against_extent` — which case holds, and how ranges compare.
-/

namespace Horology.TimeRange

/-- The exact number of seconds between the words of the endpoints. -/
def extent (r : TimeRange) : Int := r.last.raw.toInt - r.first.raw.toInt

/-- That both endpoints of a range are finite. -/
def IsFinite (r : TimeRange) : Prop := r.first.isFinite = true ∧ r.last.isFinite = true

/-- That the six comparisons of the length with a span are those of a number of seconds. -/
structure CompareLength (r : TimeRange) (x : Int) (s : Span) : Prop where
  eq : r.lengthEq s = true ↔ x = s.raw.toInt
  ne : r.lengthNe s = true ↔ x ≠ s.raw.toInt
  lt : r.lengthLt s = true ↔ x < s.raw.toInt
  gt : r.lengthGt s = true ↔ x > s.raw.toInt
  le : r.lengthLe s = true ↔ x ≤ s.raw.toInt
  ge : r.lengthGe s = true ↔ x ≥ s.raw.toInt

/-- That the length of a range is the exact one: it leads from each endpoint to the other, and
compares with every valid span as the exact number of seconds does. -/
structure HasExactLength (r : TimeRange) : Prop where
  length : r.length = .seconds (.ofInt r.extent) ∧ (Int32.ofInt r.extent).toInt = r.extent
  add : r.first + r.length = r.last
  sub : r.last - r.length = r.first
  compare : ∀ s : Span, s.isValid = true → r.CompareLength r.extent s

/-- That the length of a range is a period short: it leads from neither endpoint to a moment. -/
structure HasWrappedLength (r : TimeRange) : Prop where
  length : r.length = .ofRaw (.ofInt (r.extent - 4294967296)) ∧
    (Int32.ofInt (r.extent - 4294967296)).toInt = r.extent - 4294967296
  add : r.first + r.length = .invalid
  sub : r.last - r.length = .invalid

/-- That a range has no length, and none of the six comparisons with a span holds. -/
structure LacksLength (r : TimeRange) : Prop where
  length : r.length = .invalid
  compare : ∀ s : Span, r.lengthEq s = false ∧ r.lengthNe s = false ∧ r.lengthLt s = false ∧
    r.lengthGt s = false ∧ r.lengthLe s = false ∧ r.lengthGe s = false

variable {r r' : TimeRange} {s : Span}

/-! ## Extents -/

/-- The extent of a valid range in order is not negative. -/
theorem IsOrdered.extent_nonneg (h : r.IsOrdered) (hvalid : r.isValid = true) : 0 ≤ r.extent :=
  Int.sub_nonneg_of_le (h.toInt_le hvalid)

/-- A range with finite endpoints is valid. -/
theorem IsFinite.isValid (h : r.IsFinite) : r.isValid = true := by
  have hstatus : r.status = .valid := by
    rw [r.status_eq, RangeStatus.ofEndpoints, Moment.isInvalid_of_isFinite h.1,
      Moment.isInvalid_of_isFinite h.2]
    rfl
  rw [TimeRange.isValid, hstatus]
  rfl

/-- The words of finite endpoints bound their extent. -/
theorem IsFinite.bounds (h : r.IsFinite) :
    (-2147483648 < r.first.raw.toInt ∧ r.first.raw.toInt < 2147483644) ∧
      -2147483648 < r.last.raw.toInt ∧ r.last.raw.toInt < 2147483644 :=
  ⟨Moment.isFinite_iff.1 h.1, Moment.isFinite_iff.1 h.2⟩

theorem rawLength_eq (r : TimeRange) : r.rawLength = .ofInt r.extent := by
  rw [rawLength, extent, Int32.ofInt_sub, Int32.ofInt_toInt, Int32.ofInt_toInt]

/-- The word of the length is the extent, as long as that fits a word. -/
theorem IsOrdered.toInt_rawLength (h : r.IsOrdered) (hvalid : r.isValid = true)
    (hfits : r.extent ≤ 2147483647) : r.rawLength.toInt = r.extent := by
  have hnonneg := h.extent_nonneg hvalid
  rw [rawLength_eq, Word.toInt_ofInt_of_fits (by omega) hfits]

/-! ## The three cases -/

theorem length_of_isFinite (h : r.IsFinite) : r.length = .ofRaw r.rawLength := by
  rw [length, h.isValid, h.1, h.2]
  rfl

/-- Comparisons by a number go by it in all six forms. -/
theorem compareLength_of_compare {x : Int}
    (h : r.compareLength? s = some (compare x s.raw.toInt)) : r.CompareLength x s := by
  have hany (relation : Ordering → Bool) :
      r.hasLength relation s = relation (compare x s.raw.toInt) := by
    rw [hasLength, h]
    rfl
  constructor
  · rw [lengthEq, hany, Ordering.isEq_iff_eq_eq, Int.compare_eq_eq]
  · rw [lengthNe, hany, Ordering.isNe_iff_ne_eq, Int.compare_eq_eq]
  · rw [lengthLt, hany, Ordering.isLT_iff_eq_lt, Int.compare_eq_lt]
  · rw [lengthGt, hany, Ordering.isGT_iff_eq_gt, Int.compare_eq_gt]
  · rw [lengthLe, hany, Int.isLE_compare]
  · rw [lengthGe, hany, Int.isGE_compare]

/-- A length that fits a word is exact. -/
theorem hasExactLength (h : r.IsOrdered) (hfinite : r.IsFinite) (hfits : r.extent ≤ 2147483647) :
    r.HasExactLength := by
  have hvalid := hfinite.isValid
  have hnonneg := h.extent_nonneg hvalid
  have hword : (Int32.ofInt r.extent).toInt = r.extent :=
    Word.toInt_ofInt_of_fits (by omega) hfits
  have hlength : r.length = .seconds (.ofInt r.extent) := by
    rw [length_of_isFinite hfinite, rawLength_eq, Span.ofRaw_eq_seconds (by omega)]
  have hraw : r.length.raw.toInt = r.extent := by
    rw [hlength]
    exact hword
  have hspan : r.length.isValid = true := Span.isValid_iff.2 (by omega)
  refine ⟨⟨hlength, hword⟩, ?_, ?_, ?_⟩
  · rw [Moment.add_eq, if_pos ⟨hfinite.1, hspan⟩, hraw, extent, Int.add_comm, Int.sub_add_cancel,
      Moment.ofSecond_toInt_raw hfinite.2]
  · rw [Moment.sub_eq, if_pos ⟨hfinite.2, hspan⟩, hraw, extent, Int.sub_sub_self,
      Moment.ofSecond_toInt_raw hfinite.1]
  · intro s hs
    apply compareLength_of_compare
    simp only [compareLength?, hvalid, Span.seconds?_of_isValid hspan, Span.seconds?_of_isValid hs,
      hraw]

/-- A longer length is a period short, and leads out of the finite moments on either side. -/
theorem hasWrappedLength (hfinite : r.IsFinite) (hlong : 2147483647 < r.extent) :
    r.HasWrappedLength := by
  obtain ⟨hfirst, hlast⟩ := hfinite.bounds
  have hextent : r.extent = r.last.raw.toInt - r.first.raw.toInt := rfl
  have hword : (Int32.ofInt (r.extent - 4294967296)).toInt = r.extent - 4294967296 :=
    Word.toInt_ofInt_of_fits (by omega) (by omega)
  have hlength : r.length = .ofRaw (.ofInt (r.extent - 4294967296)) := by
    rw [length_of_isFinite hfinite, rawLength_eq]
    congr 1
    rw [← Int32.toInt_inj, hword, Word.toInt_ofInt_above hlong (by omega)]
  have hraw : r.length.raw.toInt = r.extent - 4294967296 := by
    rw [hlength, Span.raw_ofRaw, hword]
  refine ⟨⟨hlength, hword⟩, ?_, ?_⟩
  · rw [Moment.add_eq, hraw]
    split
    · exact if_neg (by omega)
    · rfl
  · rw [Moment.sub_eq, hraw]
    split
    · exact if_neg (by omega)
    · rfl

/-- Without two finite endpoints there is no length. -/
theorem lacksLength (h : r.isValid = false ∨ r.first.isFinite = false ∨ r.last.isFinite = false) :
    r.LacksLength := by
  have hlength : r.length = .invalid := by
    rw [length]
    obtain h | h | h := h <;> simp [h]
  have hnone (s : Span) : r.compareLength? s = none := by
    rw [compareLength?, hlength]
    cases r.isValid <;> rfl
  refine ⟨hlength, fun s => ?_⟩
  simp only [lengthEq, lengthNe, lengthLt, lengthGt, lengthLe, lengthGe, hasLength, hnone,
    Option.any_none, and_self]

/-- **The length of a range against its extent.**  Between finite endpoints in order the length is
the exact one, if that fits a word, and a period short of it otherwise; then it leads from neither
endpoint to a moment.  Any other range has no length.  Among valid ranges in order whose extents fit
a word, endpoints that are not finite counting by their words, the shorter one comes first. -/
theorem length_against_extent (h : r.IsOrdered) :
    (r.IsFinite → r.extent ≤ 2147483647 → r.HasExactLength) ∧
    (r.IsFinite → 2147483647 < r.extent → r.HasWrappedLength) ∧
    (r.isValid = false ∨ r.first.isFinite = false ∨ r.last.isFinite = false → r.LacksLength) ∧
    ∀ r' : TimeRange, r'.IsOrdered → r.isValid = true → r'.isValid = true →
      r.extent ≤ 2147483647 → r'.extent ≤ 2147483647 →
      compare r r' = compare r.extent r'.extent := by
  refine ⟨hasExactLength h, hasWrappedLength, lacksLength, ?_⟩
  intro r' h' hvalid hvalid' hfits hfits'
  show order r r' = _
  rw [order, hvalid, hvalid', h.toInt_rawLength hvalid hfits, h'.toInt_rawLength hvalid' hfits']

/-- The longest finite range has a negative length, and a range from the beginning of time may still
be compared with others. -/
theorem length_against_extent_longest :
    (between (.seconds 0) (.seconds 100)).HasExactLength ∧
    (between (.seconds (-2147483647)) (.seconds 2147483643)).HasWrappedLength ∧
    (between .beginning .ending).LacksLength ∧
    compare (between (.seconds 0) (.seconds 100)) (between .beginning (.seconds (-1))) = .lt := by
  obtain ⟨hexact, -, -, hcompare⟩ :=
    length_against_extent (isOrdered_between (.seconds 0) (.seconds 100))
  obtain ⟨-, hwrapped, -, -⟩ :=
    length_against_extent (isOrdered_between (.seconds (-2147483647)) (.seconds 2147483643))
  obtain ⟨-, -, hlacks, -⟩ := length_against_extent (isOrdered_between .beginning .ending)
  refine ⟨hexact ⟨by decide, by decide⟩ (by decide), hwrapped ⟨by decide, by decide⟩ (by decide),
    hlacks (.inr (.inl (by decide))), ?_⟩
  exact (hcompare (between .beginning (.seconds (-1))) (isOrdered_between _ _) (by decide)
    (by decide) (by decide) (by decide)).trans (by decide)

end Horology.TimeRange
