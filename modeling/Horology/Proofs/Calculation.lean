import Horology.Calculation
import Horology.Proofs.Moment.Arithmetic
import Horology.Proofs.TimeRange
import Horology.Proofs.TimeRange.Literal

/-!
# Calculations never arrive at a reserved word

A moment may hold a word at or beyond the reserved ones as a number, and a span the word reserved
for the invalid one; but only if it is made from a word.  Every function that makes a value from a
text, a richer type or other values gives a proper one: what is not finite is one of the reserved
moments by name, and what does not fit is invalid by name.  So a calculation holds proper values
only, however long it is.

## Main definitions

* `Moment.IsProper`, `Span.IsProper`, `TimeRange.IsProper`, `Value.IsProper` — that no reserved word
  is held as a number, and what follows for ranges.
* `Call.isProper_of_value?` — a call on proper values yields a proper one.
* `Calculation.isProper_of_mem_run` — every value of a calculation is proper.
-/

namespace Horology

/-! ## Moments -/

namespace Moment

/-- That a moment holds a number strictly between the words of the beginning and of the end of time,
or none. -/
def IsProper : Moment → Prop
  | .seconds n => beginningRaw < n ∧ n < endingRaw
  | .beginning | .ending | .invalid => True

theorem isProper_of_isFinite {t : Moment} (h : t.isFinite = true) : t.IsProper := by
  cases t with
  | seconds n =>
    rw [isFinite, Bool.and_eq_true, decide_eq_true_eq, decide_eq_true_eq] at h
    exact h
  | beginning => trivial
  | ending => trivial
  | invalid => trivial

/-- Among proper moments only the invalid one holds its word. -/
theorem IsProper.isInvalid_iff {t : Moment} (h : t.IsProper) :
    t.isInvalid = true ↔ t = .invalid := by
  cases t with
  | seconds n =>
    have hne : n ≠ invalidRaw := by
      rintro rfl
      exact absurd h.2 (by decide)
    simpa [isInvalid, raw] using hne
  | beginning => decide
  | ending => decide
  | invalid => decide

theorem isProper_ofCivil (c : Civil) (east : Int) : (ofCivil c east).IsProper := by
  rcases isFinite_or_eq_invalid_ofCivil c east with h | h
  · exact isProper_of_isFinite h
  · rw [h]
    trivial

theorem isProper_of_finite {t t' : Moment} (h : finite t = .ok t') : t'.IsProper := by
  unfold finite at h
  split at h
  · next hfinite =>
    obtain rfl := Except.ok.inj h
    exact isProper_of_isFinite hfinite
  · cases h

theorem isProper_of_ofWall {zone : TimeZone} {timestamp : Timestamp} {t : Moment}
    (h : ofWall zone timestamp = .ok t) : t.IsProper := by
  cases timestamp with
  | beginning =>
    cases h
    trivial
  | count w nanos => exact isProper_of_finite h
  | ending =>
    cases h
    trivial

theorem isProper_of_ofUtc {timestamp : Timestamp} {t : Moment} (h : ofUtc timestamp = .ok t) :
    t.IsProper := by
  cases timestamp with
  | beginning =>
    cases h
    trivial
  | count u nanos => exact isProper_of_finite h
  | ending =>
    cases h
    trivial

theorem isProper_ofReading (reading : DateReading) : (ofReading reading).IsProper := by
  cases reading with
  | civil c east => exact isProper_ofCivil c east
  | epoch => exact ⟨by decide, by decide⟩
  | late => trivial
  | early => trivial
  | invalid => trivial

theorem isProper_of_read {session : Session} {text : String} {t : Moment}
    (h : read session text = .ok t) : t.IsProper := by
  unfold read at h
  split at h
  · next reading _ =>
    obtain rfl := Except.ok.inj h
    exact isProper_ofReading reading
  · cases h

/-- The moment of an exact second is finite or invalid, whatever the second. -/
theorem isProper_ofSecond (x : Int) : (ofSecond x).IsProper := by
  unfold ofSecond
  split
  · next hx =>
    have hword : (Int32.ofInt x).toInt = x := Word.toInt_ofInt_of_fits (by omega) (by omega)
    apply isProper_of_isFinite
    rw [isFinite_iff, raw, hword]
    exact hx
  · trivial

theorem isProper_add (t : Moment) (s : Span) : (t + s).IsProper := by
  rw [add_eq]
  split
  · exact isProper_ofSecond _
  · trivial

theorem isProper_sub (t : Moment) (s : Span) : (t - s).IsProper := by
  rw [sub_eq]
  split
  · exact isProper_ofSecond _
  · trivial

end Moment

/-! ## Spans -/

namespace Span

/-- That a span holds a number above the reserved word, or none. -/
def IsProper : Span → Prop
  | .seconds n => invalidRaw < n
  | .invalid => True

theorem isProper_ofRaw (n : Int32) : (ofRaw n).IsProper := by
  unfold ofRaw
  split
  · trivial
  · next hne =>
    have hleast : invalidRaw ≤ n := Int32.minValue_le n
    exact Int32.lt_of_le_of_ne hleast (Ne.symm hne)

theorem isProper_ofCalendar (c : CalendarSpan) : (ofCalendar c).IsProper := by
  unfold ofCalendar
  dsimp only
  split
  · exact isProper_ofRaw _
  · trivial

theorem isProper_of_read {text : String} {s : Span} (h : read text = .ok s) : s.IsProper := by
  unfold read at h
  split at h
  · cases h
  · cases h
  · split at h
    · obtain rfl := Except.ok.inj h
      exact isProper_ofRaw _
    · cases h

end Span

/-! ## Ranges -/

namespace TimeRange

/-- That a range has proper endpoints in order, and is invalid by its status exactly if an endpoint
is the invalid moment.  What it starts and stops with is in order with them. -/
structure IsProper (r : TimeRange) : Prop where
  first : r.first.IsProper
  last : r.last.IsProper
  ordered : r.first ≤ r.last
  start_le_stop : r.start ≤ r.stop
  status : r.status = .invalid ↔ r.first = .invalid ∨ r.last = .invalid

/-- A range of proper endpoints in order is proper. -/
theorem isProper_of_ordered {r : TimeRange} (hfirst : r.first.IsProper) (hlast : r.last.IsProper)
    (hordered : r.first ≤ r.last) : r.IsProper where
  first := hfirst
  last := hlast
  ordered := hordered
  start_le_stop := by
    unfold start stop
    split
    · exact hordered
    · decide
  status := by rw [status_eq_invalid_iff, hfirst.isInvalid_iff, hlast.isInvalid_iff]

theorem isProper_undefined : undefined.IsProper :=
  isProper_of_ordered trivial trivial (by decide)

theorem isProper_between {a b : Moment} (ha : a.IsProper) (hb : b.IsProper) :
    (between a b).IsProper := by
  have hordered : (between a b).first ≤ (between a b).last := Moment.earlier_le_later a b
  apply isProper_of_ordered _ _ hordered
  · show (a.earlier b).IsProper
    unfold Moment.earlier
    split
    · exact hb
    · exact ha
  · show (a.later b).IsProper
    unfold Moment.later
    split
    · exact ha
    · exact hb

/-- The range of a text is the undefined one or lies between two moments that are read. -/
theorem isProper_of_read {session : Session} {text : String} {r : TimeRange}
    (h : read session text = .ok r) : r.IsProper := by
  unfold read at h
  rcases RangeLiteral.read_cases session text with hcase | ⟨x, y, hcase⟩ | ⟨e, hcase⟩ | hcase
  · rw [RangeLiteral.read_of_namesUndefined hcase] at h
    obtain rfl := Except.ok.inj h
    exact isProper_undefined
  · rw [RangeLiteral.read_of_namesPair hcase] at h
    obtain rfl := Except.ok.inj h
    obtain ⟨-, -, -, hx, hy⟩ := hcase
    exact isProper_between (Moment.isProper_of_read hx) (Moment.isProper_of_read hy)
  · rw [RangeLiteral.read_of_failsWith hcase] at h
    cases h
  · rw [hcase] at h
    cases h

variable {r : TimeRange}

theorem IsProper.start (h : r.IsProper) : r.start.IsProper := by
  unfold TimeRange.start
  split
  · exact h.first
  · trivial

theorem IsProper.stop (h : r.IsProper) : r.stop.IsProper := by
  unfold TimeRange.stop
  split
  · exact h.last
  · trivial

/-- A length is proper even where it wraps. -/
theorem isProper_length (r : TimeRange) : r.length.IsProper := by
  unfold length
  split
  · exact Span.isProper_ofRaw _
  · trivial

end TimeRange

/-! ## Values -/

/-- That a value of any of the three types is proper. -/
def Value.IsProper : Value → Prop
  | .moment t => t.IsProper
  | .span s => s.IsProper
  | .range r => r.IsProper

namespace Value

variable {u v w : Value}

/-- That a result is proper, if it is a value and no error. -/
def IsProperIfOk (result : Except Error Value) : Prop := ∀ v, result = .ok v → v.IsProper

theorem IsProperIfOk.of_toOption {result : Except Error Value} (hproper : IsProperIfOk result)
    (h : result.toOption = some v) : v.IsProper := by
  cases result with
  | error e => cases h
  | ok w =>
    obtain rfl := Option.some.inj h
    exact hproper w rfl

theorem isProperIfOk_map {α : Type} {result : Except Error α} {wrap : α → Value}
    (hproper : ∀ a, result = .ok a → (wrap a).IsProper) : IsProperIfOk (result.map wrap) := by
  intro v h
  cases result with
  | error e => cases h
  | ok a =>
    obtain rfl := Except.ok.inj h
    exact hproper a rfl

theorem isProperIfOk_readMoment (session : Session) (text : String) :
    IsProperIfOk ((Moment.read session text).map .moment) :=
  isProperIfOk_map fun _ hread => Moment.isProper_of_read hread

theorem isProperIfOk_readSpan (text : String) : IsProperIfOk ((Span.read text).map .span) :=
  isProperIfOk_map fun _ hread => Span.isProper_of_read hread

theorem isProperIfOk_readRange (session : Session) (text : String) :
    IsProperIfOk ((TimeRange.read session text).map .range) :=
  isProperIfOk_map fun _ hread => TimeRange.isProper_of_read hread

/-- What is read from the text of a value is proper, whatever the value. -/
theorem isProperIfOk_reread (session : Session) (v : Value) :
    IsProperIfOk (v.reread session) := by
  cases v with
  | moment t => exact isProperIfOk_readMoment session _
  | span s => exact isProperIfOk_readSpan _
  | range r => exact isProperIfOk_readRange session _

/-- What comes back from the richer form of a value is proper, whatever the value. -/
theorem isProperIfOk_of_convert? {session : Session} {result : Except Error Value}
    (h : v.convert? session = some result) : IsProperIfOk result := by
  cases v with
  | moment t =>
    obtain rfl := Option.some.inj h
    apply isProperIfOk_map
    intro t' ht'
    cases hwall : t.toWall session.zone with
    | error e =>
      rw [hwall] at ht'
      cases ht'
    | ok timestamp =>
      rw [hwall] at ht'
      exact Moment.isProper_of_ofWall ht'
  | span s =>
    obtain rfl := Option.some.inj h
    exact isProperIfOk_map fun c _ => Span.isProper_ofCalendar c
  | range r => cases h

theorem isProper_of_add? (h : v.add? w = some u) : u.IsProper := by
  unfold add? at h
  split at h
  · next t s =>
    obtain rfl := Option.some.inj h
    exact Moment.isProper_add t s
  · cases h

theorem isProper_of_sub? (h : v.sub? w = some u) : u.IsProper := by
  unfold sub? at h
  split at h
  · next t s =>
    obtain rfl := Option.some.inj h
    exact Moment.isProper_sub t s
  · cases h

theorem isProper_of_between? (hv : v.IsProper) (hw : w.IsProper) (h : v.between? w = some u) :
    u.IsProper := by
  unfold between? at h
  split at h
  · obtain rfl := Option.some.inj h
    exact TimeRange.isProper_between hv hw
  · cases h

end Value

/-! ## Calculations -/

namespace Call

variable {held : List Value} {v : Value}

theorem isProper_of_both (hheld : ∀ v ∈ held, v.IsProper)
    {operation : Value → Value → Option Value} {a b : Nat} (h : both held operation a b = some v)
    (hproper : ∀ v w u : Value, v.IsProper → w.IsProper → operation v w = some u → u.IsProper) :
    v.IsProper := by
  unfold both at h
  split at h
  · next v' w' hv hw =>
    have hv' := hheld v' (List.mem_of_getElem? hv)
    have hw' := hheld w' (List.mem_of_getElem? hw)
    exact hproper v' w' v hv' hw' h
  · cases h

theorem isProper_of_ofRange (hheld : ∀ v ∈ held, v.IsProper) {operation : TimeRange → Value}
    {a : Nat} (h : ofRange held operation a = some v)
    (hproper : ∀ r : TimeRange, r.IsProper → (operation r).IsProper) : v.IsProper := by
  unfold ofRange at h
  split at h
  · next r hr =>
    obtain rfl := Option.some.inj h
    exact hproper r (hheld (.range r) (List.mem_of_getElem? hr))
  · cases h

/-- **A call on proper values yields a proper one.** -/
theorem isProper_of_value? (hheld : ∀ v ∈ held, v.IsProper) {call : Call}
    (h : call.value? held = some v) : v.IsProper := by
  cases call with
  | epoch =>
    obtain rfl := Option.some.inj h
    exact ⟨by decide, by decide⟩
  | zero =>
    obtain rfl := Option.some.inj h
    exact (by decide : Span.invalidRaw < 0)
  | undefined =>
    obtain rfl := Option.some.inj h
    exact TimeRange.isProper_undefined
  | clock session =>
    obtain rfl := Option.some.inj h
    exact Moment.isProper_ofCivil _ _
  | readMoment session text => exact (Value.isProperIfOk_readMoment session text).of_toOption h
  | readSpan text => exact (Value.isProperIfOk_readSpan text).of_toOption h
  | readRange session text => exact (Value.isProperIfOk_readRange session text).of_toOption h
  | ofWall zone timestamp =>
    have hproper : Value.IsProperIfOk ((Moment.ofWall zone timestamp).map .moment) :=
      Value.isProperIfOk_map fun _ hwall => Moment.isProper_of_ofWall hwall
    exact hproper.of_toOption h
  | ofUtc timestamp =>
    have hproper : Value.IsProperIfOk ((Moment.ofUtc timestamp).map .moment) :=
      Value.isProperIfOk_map fun _ hutc => Moment.isProper_of_ofUtc hutc
    exact hproper.of_toOption h
  | ofCalendar c =>
    obtain rfl := Option.some.inj h
    exact Span.isProper_ofCalendar c
  | add a b => exact isProper_of_both hheld h fun _ _ _ _ _ => Value.isProper_of_add?
  | sub a b => exact isProper_of_both hheld h fun _ _ _ _ _ => Value.isProper_of_sub?
  | between a b => exact isProper_of_both hheld h fun _ _ _ => Value.isProper_of_between?
  | first a => exact isProper_of_ofRange hheld h fun _ hr => hr.first
  | last a => exact isProper_of_ofRange hheld h fun _ hr => hr.last
  | start a => exact isProper_of_ofRange hheld h fun _ hr => hr.start
  | stop a => exact isProper_of_ofRange hheld h fun _ hr => hr.stop
  | length a => exact isProper_of_ofRange hheld h fun r _ => r.isProper_length
  | reread session a =>
    obtain ⟨w, -, hw⟩ := Option.bind_eq_some_iff.1 h
    exact (Value.isProperIfOk_reread session w).of_toOption hw
  | convert session a =>
    obtain ⟨w, -, hw⟩ := Option.bind_eq_some_iff.1 h
    obtain ⟨result, hresult, hv⟩ := Option.bind_eq_some_iff.1 hw
    exact (Value.isProperIfOk_of_convert? hresult).of_toOption hv

end Call

namespace Calculation

/-- Calls keep the values held proper. -/
theorem isProper_of_mem_runFrom {held : List Value} (hheld : ∀ v ∈ held, v.IsProper)
    (calls : List Call) : ∀ v ∈ runFrom held calls, v.IsProper := by
  induction calls generalizing held with
  | nil => exact hheld
  | cons call calls ih =>
    apply ih
    intro v hv
    rcases List.mem_append.1 hv with hv | hv
    · exact hheld v hv
    · exact Call.isProper_of_value? hheld (Option.mem_toList.1 hv)

/-- **Every value of a calculation is proper.**  A moment holds a number strictly between the words
of the beginning and of the end of time, or is one of the reserved moments by name; a span holds a
number above the reserved word, or is the invalid one by name; a range has its endpoints in order,
and its status is the invalid one exactly if an endpoint is the invalid moment. -/
theorem isProper_of_mem_run (calls : List Call) : ∀ v ∈ run calls, v.IsProper :=
  isProper_of_mem_runFrom (by simp) calls

/-- The last second of the last day and a span lead to the last finite second.  From the fifth
second before 1970 to there the length wraps to the reserved word and is the invalid span; the span
again leads beyond the words and to the invalid moment. -/
theorem isProper_of_mem_run_last_second :
    let calls : List Call := [.ofUtc (.count 2147471999 0), .ofCalendar ⟨0, 0, 11644000000⟩,
      .add 0 1, .ofUtc (.count (-5) 0), .between 2 3, .length 4, .add 2 1]
    let r : TimeRange := ⟨.valid, .seconds (-5), .seconds 2147483643, rfl⟩
    run calls = [.moment (.seconds 2147471999), .span (.seconds 11644),
        .moment (.seconds 2147483643), .moment (.seconds (-5)), .range r, .span .invalid,
        .moment .invalid] ∧
      .range r ∈ run calls ∧ (Value.range r).IsProper := by
  intro calls r
  have hmem : .range r ∈ run calls := by decide
  exact ⟨by decide, hmem, isProper_of_mem_run calls (.range r) hmem⟩

end Calculation

end Horology
