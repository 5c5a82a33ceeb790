import Horology.Comparison
import Horology.Moment.Conversion
import Horology.Proofs.Moment.Arithmetic
import Horology.Proofs.TimeRange
import Horology.Span.CalendarSpan
import Horology.Span.Text

/-!
# Equal moments and spans can stand for each other

A moment or a span may hold a reserved word as a number, so there are values that are equal and yet
not the same.  Whatever is asked of a value goes by its word, and equal values have one word; no
text, message, hash, comparison, sum or conversion therefore tells them apart.  A range made from
two moments keeps one of two equal ones, and it does not matter which: whatever is asked of a range
goes by its status and the words of its endpoints.

## Main definitions

* `Moment.Interchangeable`, `Span.Interchangeable`, `TimeRange.Interchangeable` — that two values
  cannot be told apart.
* `TimeRange.interchangeable_of_words` — ranges of the same words.
* `TimeRange.words_between` — the words of a range between two moments, from theirs.
* `interchangeable_iff_beq` — equal values cannot be told apart, and unequal ones can.
-/

namespace Horology

/-! ## What is asked of a value -/

/-- That two ranges cannot be told apart.  The comparisons of the length with a span are those by
any relation. -/
structure TimeRange.Interchangeable (r r' : TimeRange) : Prop where
  status : r.status = r'.status
  first : r.first.raw = r'.first.raw
  last : r.last.raw = r'.last.raw
  start : r.start.raw = r'.start.raw
  stop : r.stop.raw = r'.stop.raw
  write : ∀ settings, r.write settings = r'.write settings
  toBytes : r.toBytes = r'.toBytes
  length : r.length = r'.length
  days? : r.days? = r'.days?
  containsMoment : ∀ t, r.containsMoment t = r'.containsMoment t
  contains : ∀ q, r.contains q = r'.contains q ∧ q.contains r = q.contains r'
  overlaps : ∀ q, r.overlaps q = r'.overlaps q ∧ q.overlaps r = q.overlaps r'
  same : ∀ q, r.same q = r'.same q ∧ q.same r = q.same r'
  hasLength : ∀ relation s, r.hasLength relation s = r'.hasLength relation s
  compare : ∀ q, compare r q = compare r' q ∧ compare q r = compare q r'
  hashBytes : ∀ order, r.hashBytes order = r'.hashBytes order

/-- That two moments cannot be told apart, nor the ranges that begin or end with them. -/
structure Moment.Interchangeable (a b : Moment) : Prop where
  isFinite : a.isFinite = b.isFinite
  isInvalid : a.isInvalid = b.isInvalid
  seconds? : a.seconds? = b.seconds?
  write : ∀ settings, a.write settings = b.write settings
  toBytes : a.toBytes = b.toBytes
  hashBytes : ∀ order, a.hashBytes order = b.hashBytes order
  toWall : ∀ zone, a.toWall zone = b.toWall zone
  toUtc : a.toUtc = b.toUtc
  compare : ∀ c, compare a c = compare b c ∧ compare c a = compare c b
  containsMoment : ∀ r : TimeRange, r.containsMoment a = r.containsMoment b
  add : ∀ s : Span, a + s = b + s
  sub : ∀ s : Span, a - s = b - s
  between : ∀ c, (TimeRange.between a c).Interchangeable (.between b c) ∧
    (TimeRange.between c a).Interchangeable (.between c b)

/-- That two spans cannot be told apart. -/
structure Span.Interchangeable (s s' : Span) : Prop where
  isValid : s.isValid = s'.isValid
  seconds? : s.seconds? = s'.seconds?
  toFloat? : s.toFloat? = s'.toFloat?
  write : ∀ settings, s.write settings = s'.write settings
  toBytes : s.toBytes = s'.toBytes
  hashBytes : ∀ order, s.hashBytes order = s'.hashBytes order
  compare : ∀ q, compare s q = compare s' q ∧ compare q s = compare q s'
  add : ∀ t : Moment, t + s = t + s'
  sub : ∀ t : Moment, t - s = t - s'
  toCalendar : s.toCalendar = s'.toCalendar
  hasLength : ∀ (r : TimeRange) relation, r.hasLength relation s = r.hasLength relation s'

/-! ## Moments of one word -/

namespace Moment

variable {a a' b b' : Moment}

theorem isInvalid_congr (h : a.raw = a'.raw) : a.isInvalid = a'.isInvalid := by
  simp only [isInvalid, h]

theorem isFinite_congr (h : a.raw = a'.raw) : a.isFinite = a'.isFinite := by
  simp only [isFinite, h]

theorem compare_congr (ha : a.raw = a'.raw) (hb : b.raw = b'.raw) :
    compare a b = compare a' b' := by
  show order a b = order a' b'
  simp only [order, isInvalid_congr ha, isInvalid_congr hb, ha, hb]

theorem le_congr (ha : a.raw = a'.raw) (hb : b.raw = b'.raw) : a ≤ b ↔ a' ≤ b' := by
  show (compare a b).isLE = true ↔ (compare a' b').isLE = true
  rw [compare_congr ha hb]

theorem lt_congr (ha : a.raw = a'.raw) (hb : b.raw = b'.raw) : a < b ↔ a' < b' := by
  show compare a b = .lt ↔ compare a' b' = .lt
  rw [compare_congr ha hb]

theorem beq_congr (ha : a.raw = a'.raw) (hb : b.raw = b'.raw) : (a == b) = (a' == b') := by
  show (compare a b == .eq) = (compare a' b' == .eq)
  rw [compare_congr ha hb]

theorem chars_congr (h : a.raw = a'.raw) (settings : Settings) :
    a.chars settings = a'.chars settings := by
  simp only [chars, h]

theorem toBytes_congr (h : a.raw = a'.raw) : a.toBytes = a'.toBytes := by
  simp only [toBytes, h]

/-- The word of the earlier of two moments hangs on their words alone, and that of the later one
too. -/
theorem raw_sorted_congr (ha : a.raw = a'.raw) (hb : b.raw = b'.raw) :
    (a.earlier b).raw = (a'.earlier b').raw ∧ (a.later b).raw = (a'.later b').raw := by
  have hlt := lt_congr hb ha
  unfold earlier later
  by_cases h : b < a
  · have h' : b' < a' := hlt.1 h
    simp only [if_pos h, if_pos h']
    exact ⟨hb, ha⟩
  · have h' : ¬ b' < a' := fun h' => h (hlt.2 h')
    simp only [if_neg h, if_neg h']
    exact ⟨ha, hb⟩

end Moment

/-! ## Ranges of the same words -/

namespace TimeRange

/-- The words of a range between two moments are those of a range between moments of the same
words. -/
theorem words_between {a a' b b' : Moment} (ha : a.raw = a'.raw) (hb : b.raw = b'.raw) :
    (between a b).words = (between a' b').words := by
  obtain ⟨hfirst, hlast⟩ := Moment.raw_sorted_congr ha hb
  have hstatus : RangeStatus.ofEndpoints a b = RangeStatus.ofEndpoints a' b' := by
    simp only [RangeStatus.ofEndpoints, Moment.isInvalid_congr ha, Moment.isInvalid_congr hb]
  simp only [words, between, hstatus, hfirst, hlast]

variable {r r' q q' : TimeRange}

theorem status_congr (h : r.words = r'.words) : r.status = r'.status := by
  have hraw : r.status.raw = r'.status.raw := congrArg Prod.fst h
  cases hr : r.status <;> cases hr' : r'.status <;> rw [hr, hr'] at hraw
  case invalid.valid => cases hraw
  case valid.invalid => cases hraw

theorem isValid_congr (h : r.words = r'.words) : r.isValid = r'.isValid := by
  simp only [isValid, status_congr h]

theorem raw_first_congr (h : r.words = r'.words) : r.first.raw = r'.first.raw :=
  congrArg (fun words => words.2.1) h

theorem raw_last_congr (h : r.words = r'.words) : r.last.raw = r'.last.raw :=
  congrArg (fun words => words.2.2) h

theorem rawLength_congr (h : r.words = r'.words) : r.rawLength = r'.rawLength := by
  simp only [rawLength, raw_first_congr h, raw_last_congr h]

theorem length_congr (h : r.words = r'.words) : r.length = r'.length := by
  simp only [length, isValid_congr h, rawLength_congr h,
    Moment.isFinite_congr (raw_first_congr h), Moment.isFinite_congr (raw_last_congr h)]

theorem contains_congr (h : r.words = r'.words) (hq : q.words = q'.words) :
    r.contains q = r'.contains q' := by
  simp only [contains, isValid_congr h, isValid_congr hq,
    Moment.le_congr (raw_first_congr h) (raw_first_congr hq),
    Moment.le_congr (raw_last_congr hq) (raw_last_congr h)]

theorem overlaps_congr (h : r.words = r'.words) (hq : q.words = q'.words) :
    r.overlaps q = r'.overlaps q' := by
  simp only [overlaps, isValid_congr h, isValid_congr hq,
    Moment.lt_congr (raw_last_congr h) (raw_first_congr hq),
    Moment.lt_congr (raw_last_congr hq) (raw_first_congr h)]

theorem same_congr (h : r.words = r'.words) (hq : q.words = q'.words) :
    r.same q = r'.same q' := by
  simp only [same, isValid_congr h, isValid_congr hq,
    Moment.beq_congr (raw_first_congr h) (raw_first_congr hq),
    Moment.beq_congr (raw_last_congr h) (raw_last_congr hq)]

theorem compare_congr (h : r.words = r'.words) (hq : q.words = q'.words) :
    compare r q = compare r' q' := by
  show order r q = order r' q'
  simp only [order, isValid_congr h, isValid_congr hq, rawLength_congr h, rawLength_congr hq]

/-- **Ranges of the same words cannot be told apart.** -/
theorem interchangeable_of_words (h : r.words = r'.words) : r.Interchangeable r' := by
  have hvalid := isValid_congr h
  have hfirst := raw_first_congr h
  have hlast := raw_last_congr h
  have hlength := length_congr h
  constructor
  case status => exact status_congr h
  case first => exact hfirst
  case last => exact hlast
  case start =>
    simp only [start, hvalid]
    split
    · exact hfirst
    · rfl
  case stop =>
    simp only [stop, hvalid]
    split
    · exact hlast
    · rfl
  case write =>
    intro settings
    simp only [write, chars, hvalid, Moment.chars_congr hfirst, Moment.chars_congr hlast]
  case toBytes =>
    simp only [toBytes, status_congr h, Moment.toBytes_congr hfirst, Moment.toBytes_congr hlast]
  case length => exact hlength
  case days? => simp only [days?, hlength]
  case containsMoment =>
    intro t
    simp only [containsMoment, hvalid, Moment.le_congr hfirst (rfl : t.raw = t.raw),
      Moment.le_congr (rfl : t.raw = t.raw) hlast]
  case contains =>
    intro q
    exact ⟨contains_congr h rfl, contains_congr rfl h⟩
  case overlaps =>
    intro q
    exact ⟨overlaps_congr h rfl, overlaps_congr rfl h⟩
  case same =>
    intro q
    exact ⟨same_congr h rfl, same_congr rfl h⟩
  case hasLength =>
    intro relation s
    simp only [hasLength, compareLength?, hvalid, hlength]
  case compare =>
    intro q
    exact ⟨compare_congr h rfl, compare_congr rfl h⟩
  case hashBytes =>
    intro order
    simp only [hashBytes, key, hvalid, rawLength_congr h]

end TimeRange

/-! ## Moments and spans of one word -/

/-- Moments of one word cannot be told apart. -/
theorem Moment.interchangeable_of_raw {a b : Moment} (h : a.raw = b.raw) :
    a.Interchangeable b := by
  constructor
  case isFinite => exact isFinite_congr h
  case isInvalid => exact isInvalid_congr h
  case seconds? => simp only [seconds?, isFinite_congr h, h]
  case write =>
    intro settings
    simp only [write, chars_congr h]
  case toBytes => exact toBytes_congr h
  case hashBytes =>
    intro order
    simp only [hashBytes, key, h]
  case toWall =>
    intro zone
    simp only [toWall, h]
  case toUtc => simp only [toUtc, h]
  case compare =>
    intro c
    exact ⟨compare_congr h rfl, compare_congr rfl h⟩
  case containsMoment =>
    intro r
    simp only [TimeRange.containsMoment, isInvalid_congr h,
      le_congr (rfl : r.first.raw = r.first.raw) h, le_congr h (rfl : r.last.raw = r.last.raw)]
  case add =>
    intro s
    simp only [add_eq, isFinite_congr h, h]
  case sub =>
    intro s
    simp only [sub_eq, isFinite_congr h, h]
  case between =>
    intro c
    exact ⟨TimeRange.interchangeable_of_words (TimeRange.words_between h rfl),
      TimeRange.interchangeable_of_words (TimeRange.words_between rfl h)⟩

/-- Spans of one word cannot be told apart. -/
theorem Span.interchangeable_of_raw {s s' : Span} (h : s.raw = s'.raw) :
    s.Interchangeable s' := by
  have hvalid : s.isValid = s'.isValid := by simp only [isValid, h]
  have hseconds : s.seconds? = s'.seconds? := by simp only [seconds?, hvalid, h]
  constructor
  case isValid => exact hvalid
  case seconds? => exact hseconds
  case toFloat? => simp only [toFloat?, hseconds]
  case write =>
    intro settings
    simp only [write, writeIn, h]
  case toBytes => simp only [toBytes, h]
  case hashBytes =>
    intro order
    simp only [hashBytes, key, h]
  case compare =>
    intro q
    show order s q = order s' q ∧ order q s = order q s'
    simp only [order, hvalid, h, and_self]
  case add =>
    intro t
    simp only [Moment.add_eq, hvalid, h]
  case sub =>
    intro t
    simp only [Moment.sub_eq, hvalid, h]
  case toCalendar => simp only [toCalendar, hseconds]
  case hasLength =>
    intro r relation
    simp only [TimeRange.hasLength, TimeRange.compareLength?, hseconds]

/-- **Equal moments can stand for each other, and so can equal spans.**  A reserved word held as a
number makes no difference to what the word is reserved for, in the value itself or in any sum, text
or range made with it.  Unequal ones can be told apart, by their messages to begin with. -/
theorem interchangeable_iff_beq :
    (∀ a b : Moment, (a == b) = true ↔ a.Interchangeable b) ∧
    ∀ s s' : Span, (s == s') = true ↔ s.Interchangeable s' := by
  constructor
  · intro a b
    rw [Moment.beq_iff]
    constructor
    · exact Moment.interchangeable_of_raw
    · intro h
      exact Message.ofWord_inj h.toBytes
  · intro s s'
    rw [Span.beq_iff]
    constructor
    · exact Span.interchangeable_of_raw
    · intro h
      exact Message.ofWord_inj h.toBytes

/-- The word of the beginning of time, held as a number, is not the beginning of time but equals
it. -/
example : Moment.seconds (-2147483648) ≠ .beginning ∧
    (Moment.seconds (-2147483648) == .beginning) = true := by decide

end Horology
