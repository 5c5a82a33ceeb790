import Horology.Duration.Phrase

/-!
# Durations in ISO 8601

The second grammar of durations: after a `P` come numbers with one-letter designators, those of the
clock after a `T`.  In place of designators the date may be given as numbers between dashes, and the
clock time as numbers between colons; of such numbers only the last one of a clock time has a
fraction that counts.

## Main definitions

* `DurationDesignator.read` — the reading of a text in this grammar.
* `Duration.read` — the reading of a text in either grammar.
-/

namespace Horology

namespace DurationDesignator

/-- The unit of a designator, before the `T` and after it. -/
def unit? (inTime : Bool) (c : Char) : Option TimeUnit :=
  if inTime then [('H', .hour), ('M', .minute), ('S', .second)].lookup c
  else [('Y', .year), ('M', .month), ('W', .week), ('D', .day)].lookup c

/-- Whether a duration has no date yet, nor a clock time. -/
def isUntouched (d : Duration) : Bool := d == .zero

/-- Whether a duration has neither hours nor minutes nor seconds yet. -/
def lacksClock (d : Duration) : Bool := d.hours == 0 && d.minutes == 0 && d.seconds == 0

/-- The day of a date between dashes, if there is one. -/
def readDay (d : Duration) (cs : List Char) : Except DurationFault (Duration × List Char) :=
  match cs with
  | '-' :: cs => do
    let (day, rest) ← Quantity.scan cs
    return ({ d with days := day.whole }, rest)
  | _ => .ok (d, cs)

/-- The seconds of a clock time between colons, if there are any. -/
def readSeconds (d : Duration) (cs : List Char) : Except DurationFault (Duration × List Char) :=
  match cs with
  | ':' :: cs => do
    let (seconds, rest) ← Quantity.scan cs
    return (← d.add? seconds .second, rest)
  | _ => .ok (d, cs)

/-- A date between dashes after its year: nothing, a month, or a month and a day. -/
def readDate (d : Duration) (year : Quantity) (cs : List Char) :
    Except DurationFault (Duration × List Char) :=
  if !isUntouched d || year.fraction != 0 then .error .badFormat
  else
    match cs with
    | '-' :: cs => do
      let (month, rest) ← Quantity.scan cs
      readDay { d with years := year.whole, months := month.whole } rest
    | _ => .ok ({ d with years := year.whole }, cs)

/-- A clock time between colons after its hours: nothing, minutes, or minutes and seconds. -/
def readClock (d : Duration) (hours : Quantity) (cs : List Char) :
    Except DurationFault (Duration × List Char) :=
  if !lacksClock d then .error .badFormat
  else
    match cs with
    | ':' :: cs => do
      let (minutes, rest) ← Quantity.scan cs
      readSeconds { d with hours := hours.whole, minutes := minutes.whole } rest
    | _ => .ok ({ d with hours := hours.whole }, cs)

/-- What follows a number: its designator, or the rest of a date or clock time. -/
def readAfter (inTime : Bool) (d : Duration) (q : Quantity) (cs : List Char) :
    Except DurationFault (Duration × List Char) :=
  match cs with
  | [] => if inTime then readClock d q [] else readDate d q []
  | c :: rest =>
    match unit? inTime c with
    | some unit => do return (← d.add? q unit, rest)
    | none =>
      if inTime && c == ':' then readClock d q cs
      else if !inTime && c == '-' then readDate d q cs
      else .error .badFormat

/-- A number and what belongs to it, from the front of a text. -/
def readPart (inTime : Bool) (d : Duration) (cs : List Char) :
    Except DurationFault (Duration × List Char) := do
  let (q, rest) ← Quantity.scan cs
  readAfter inTime d q rest

theorem length_le_of_readDay {d d' : Duration} {cs rest : List Char}
    (h : readDay d cs = .ok (d', rest)) : rest.length ≤ cs.length := by
  cases cs with
  | nil => cases h; simp
  | cons c cs =>
    simp only [readDay] at h
    split at h
    · next tail heq =>
      obtain ⟨rfl, rfl⟩ := List.cons.inj heq
      obtain ⟨⟨day, left⟩, hscan, h⟩ := bind_eq_ok_iff.1 h
      obtain ⟨-, rfl⟩ := Prod.mk.inj (Except.ok.inj h)
      exact Nat.le_succ_of_le (Nat.le_of_lt (Quantity.length_lt_of_scan hscan))
    · cases h; exact Nat.le_refl _

theorem length_le_of_readSeconds {d d' : Duration} {cs rest : List Char}
    (h : readSeconds d cs = .ok (d', rest)) : rest.length ≤ cs.length := by
  cases cs with
  | nil => cases h; simp
  | cons c cs =>
    simp only [readSeconds] at h
    split at h
    · next tail heq =>
      obtain ⟨rfl, rfl⟩ := List.cons.inj heq
      obtain ⟨⟨seconds, left⟩, hscan, h⟩ := bind_eq_ok_iff.1 h
      obtain ⟨_, -, h⟩ := bind_eq_ok_iff.1 h
      obtain ⟨-, rfl⟩ := Prod.mk.inj (Except.ok.inj h)
      exact Nat.le_succ_of_le (Nat.le_of_lt (Quantity.length_lt_of_scan hscan))
    · cases h; exact Nat.le_refl _

theorem length_le_of_readDate {d d' : Duration} {q : Quantity} {cs rest : List Char}
    (h : readDate d q cs = .ok (d', rest)) : rest.length ≤ cs.length := by
  simp only [readDate] at h
  split at h
  · cases h
  · split at h
    · next tail =>
      obtain ⟨⟨month, left⟩, hscan, h⟩ := bind_eq_ok_iff.1 h
      have := length_le_of_readDay h
      exact Nat.le_succ_of_le (Nat.le_trans this (Nat.le_of_lt (Quantity.length_lt_of_scan hscan)))
    · cases h; exact Nat.le_refl _

theorem length_le_of_readClock {d d' : Duration} {q : Quantity} {cs rest : List Char}
    (h : readClock d q cs = .ok (d', rest)) : rest.length ≤ cs.length := by
  simp only [readClock] at h
  split at h
  · cases h
  · split at h
    · next tail =>
      obtain ⟨⟨minutes, left⟩, hscan, h⟩ := bind_eq_ok_iff.1 h
      have := length_le_of_readSeconds h
      exact Nat.le_succ_of_le (Nat.le_trans this (Nat.le_of_lt (Quantity.length_lt_of_scan hscan)))
    · cases h; exact Nat.le_refl _

theorem length_le_of_readAfter {inTime : Bool} {d d' : Duration} {q : Quantity}
    {cs rest : List Char} (h : readAfter inTime d q cs = .ok (d', rest)) :
    rest.length ≤ cs.length := by
  cases cs with
  | nil =>
    simp only [readAfter] at h
    split at h
    · exact length_le_of_readClock h
    · exact length_le_of_readDate h
  | cons c tail =>
    simp only [readAfter] at h
    split at h
    · obtain ⟨_, -, h⟩ := bind_eq_ok_iff.1 h
      obtain ⟨-, rfl⟩ := Prod.mk.inj (Except.ok.inj h)
      simp
    · split at h
      · exact length_le_of_readClock h
      · split at h
        · exact length_le_of_readDate h
        · cases h

/-- Reading a part consumes text. -/
theorem length_lt_of_readPart {inTime : Bool} {d d' : Duration} {cs rest : List Char}
    (h : readPart inTime d cs = .ok (d', rest)) : rest.length < cs.length := by
  obtain ⟨⟨q, left⟩, hscan, h⟩ := bind_eq_ok_iff.1 h
  exact Nat.lt_of_le_of_lt (length_le_of_readAfter h) (Quantity.length_lt_of_scan hscan)

/-- The duration that the parts of a text add up to, from `d`, before or after the `T`. -/
def readParts (inTime : Bool) (d : Duration) (cs : List Char) :
    Except DurationFault Duration :=
  match cs with
  | [] => .ok d
  | 'T' :: rest => if inTime then .error .badFormat else readParts true d rest
  | c :: tail =>
    match _h : readPart inTime d (c :: tail) with
    | .error fault => .error fault
    | .ok (d', rest) => readParts inTime d' rest
termination_by cs.length
decreasing_by
  · simp
  · exact length_lt_of_readPart _h

/-- The reading of a text in this grammar; spaces around it do not count. -/
def read (cs : List Char) : Except DurationFault DurationReading :=
  match trimWhere (· == ' ') cs with
  | 'P' :: c :: body => (readParts false .zero (c :: body)).map .delta
  | _ => .error .badFormat

end DurationDesignator

/-- The reading of the text of a span.  The designators are tried only where the primary grammar
finds no phrase; a phrase with too large a number is a fault of its own. -/
def Duration.read (cs : List Char) : Except DurationFault DurationReading :=
  match DurationPhrase.read cs with
  | .error .badFormat => DurationDesignator.read cs
  | reading => reading

end Horology
