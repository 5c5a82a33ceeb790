import Horology.Proofs.Message
import Horology.Proofs.Moment.Order
import Horology.TimeRange.Literal

/-!
# Ranges in order

A range made from two moments, by itself or in a literal, has its endpoints in order.  One that is
taken from its parts has them as they come: it is in order exactly if the words it was taken from
are.

## Main definitions

* `TimeRange.IsOrdered` — that the endpoints of a valid range are in order.
* `TimeRange.isOrdered_iff` — order by the words of a range.
* `TimeRange.Origin` — the ways to come by a range, `Origin.Gives` what they give.
* `TimeRange.isOrdered_iff_of_gives` — which of them give a range in order.
-/

namespace Horology

namespace TimeRange

/-- That the endpoints of a range are in order, if it is valid. -/
def IsOrdered (r : TimeRange) : Prop := r.status = .valid → r.first ≤ r.last

theorem isOrdered_between (a b : Moment) : (between a b).IsOrdered :=
  fun _ => Moment.earlier_le_later a b

theorem isOrdered_undefined : undefined.IsOrdered := nofun

theorem isOrdered_of_read {session : Session} {text : String} {r : TimeRange}
    (h : read session text = .ok r) : r.IsOrdered := by
  unfold read at h
  cases hliteral : RangeLiteral.read session text with
  | error e =>
    rw [hliteral] at h
    cases h
  | ok literal =>
    rw [hliteral] at h
    obtain rfl := Except.ok.inj h
    cases literal with
    | undefined => exact isOrdered_undefined
    | between a b => exact isOrdered_between a b

theorem raw_status_eq_one_iff {r : TimeRange} : r.status.raw = 1 ↔ r.status = .valid := by
  cases r.status <;> simp [RangeStatus.raw]

/-- Neither endpoint of a valid range is invalid. -/
theorem isInvalid_of_status {r : TimeRange} (h : r.status = .valid) :
    r.first.isInvalid = false ∧ r.last.isInvalid = false := by
  have hstatus := r.status_eq
  rw [h, RangeStatus.ofEndpoints] at hstatus
  split at hstatus
  · cases hstatus
  · next hinvalid => simpa using hinvalid

theorem isInvalid_of_isValid {r : TimeRange} (h : r.isValid = true) :
    r.first.isInvalid = false ∧ r.last.isInvalid = false :=
  isInvalid_of_status (beq_iff_eq.1 h)

/-- The words of a valid range in order are in order. -/
theorem IsOrdered.toInt_le {r : TimeRange} (h : r.IsOrdered) (hvalid : r.isValid = true) :
    r.first.raw.toInt ≤ r.last.raw.toInt := by
  obtain ⟨hfirst, hlast⟩ := isInvalid_of_isValid hvalid
  exact (Moment.le_iff_of_valid hfirst hlast).1 (h (beq_iff_eq.1 hvalid))

/-- The status of a range is the invalid one exactly if an endpoint is invalid. -/
theorem status_eq_invalid_iff {r : TimeRange} :
    r.status = .invalid ↔ r.first.isInvalid = true ∨ r.last.isInvalid = true := by
  rw [r.status_eq, RangeStatus.ofEndpoints]
  cases r.first.isInvalid <;> cases r.last.isInvalid <;> simp

/-- A range is in order exactly if its words are. -/
theorem isOrdered_iff {r : TimeRange} {s a b : Int32} (h : r.words = (s, a, b)) :
    r.IsOrdered ↔ (s = 1 → a ≤ b) := by
  simp only [words, Prod.mk.injEq] at h
  obtain ⟨rfl, rfl, rfl⟩ := h
  rw [raw_status_eq_one_iff]
  apply forall_congr'
  intro hvalid
  obtain ⟨hfirst, hlast⟩ := isInvalid_of_status hvalid
  simp [Moment.le_iff, hfirst, hlast, Int32.le_iff_toInt_le]

/-- Words make at most one range, which has these words. -/
theorem words_of_ofParts? {s a b : Int32} {r : TimeRange}
    (h : ofParts? s (.ofRaw a) (.ofRaw b) = some r) : r.words = (s, a, b) := by
  obtain ⟨hok, hbad⟩ := ofParts?_ofRaw s a b
  by_cases hs : s = statusWord a b
  · obtain ⟨r', hr', hwords⟩ := hok hs
    obtain rfl := Option.some.inj (hr'.symm.trans h)
    exact hwords
  · rw [hbad hs] at h
    cases h

/-- A tree holds at most three words. -/
theorem Holds.unique {d : Datum} {s a b s' a' b' : Int32} (h : Holds d s a b)
    (h' : Holds d s' a' b') : (s, a, b) = (s', a', b') := by
  cases h with
  | record hs ha hb =>
    cases h' with
    | record hs' ha' hb' =>
      rw [hs] at hs'
      rw [ha] at ha'
      rw [hb] at hb'
      simp_all [Int32.toInt_inj]
  | list =>
    generalize hd : Datum.list _ = d at h'
    cases h' with
    | record => cases hd
    | list => simp_all [Int32.toInt_inj]

/-! ## Origins -/

/-- The ways to come by a range. -/
inductive Origin where
  | between (a b : Moment)
  | undefined
  | literal (session : Session) (text : String)
  | message (bytes : List UInt8)
  | tree (d : Datum)

namespace Origin

/-- That a range is what an origin gives. -/
def Gives : Origin → TimeRange → Prop
  | between a b, r => TimeRange.between a b = r
  | undefined, r => TimeRange.undefined = r
  | literal session text, r => read session text = .ok r
  | message bytes, r => ∃ rest, Message.range.on bytes = (.ok r, rest)
  | tree d, r => ofDatum d = .ok r

/-- That the words an origin has for a valid range are in order. -/
def HasOrder : Origin → Prop
  | message bytes => ∀ s a b rest,
    bytes = Message.ofWord s ++ Message.ofWord a ++ Message.ofWord b ++ rest → s = 1 → a ≤ b
  | tree d => ∀ s a b, Holds d s a b → s = 1 → a ≤ b
  | _ => True

end Origin

/-- The range of a message is in order exactly if its words are. -/
theorem isOrdered_iff_of_message {bytes rest : List UInt8} {r : TimeRange}
    (h : Message.range.on bytes = (.ok r, rest)) :
    r.IsOrdered ↔ (Origin.message bytes).HasOrder := by
  obtain ⟨hbytes, -⟩ := Message.frames_range.exact h
  constructor
  · rintro hordered s a b rest' rfl
    rw [Message.range_on_ofWord] at h
    cases hparts : ofParts? s (.ofRaw a) (.ofRaw b) with
    | none => simp [hparts] at h
    | some r' =>
      simp only [hparts, Prod.mk.injEq, Except.ok.injEq] at h
      obtain ⟨rfl, -⟩ := h
      exact (isOrdered_iff (words_of_ofParts? hparts)).1 hordered
  · intro hwords
    exact (isOrdered_iff rfl).2 (hwords _ _ _ rest hbytes)

/-- The range of a tree is in order exactly if the words in it are. -/
theorem isOrdered_iff_of_tree {d : Datum} {r : TimeRange} (h : ofDatum d = .ok r) :
    r.IsOrdered ↔ (Origin.tree d).HasOrder := by
  obtain ⟨s, a, b, hholds, hparts⟩ := ofDatum_eq_ok_iff.1 h
  rw [isOrdered_iff (words_of_ofParts? hparts)]
  constructor
  · intro hordered s' a' b' hholds'
    cases hholds.unique hholds'
    exact hordered
  · intro hwords
    exact hwords s a b hholds

/-- **Where ranges are in order.**  Ranges between two moments, the undefined range and the ranges
of literals always are.  The range of a message or of a tree is in order exactly if the words it was
taken from are, or say that it is invalid. -/
theorem isOrdered_iff_of_gives {origin : Origin} {r : TimeRange} (h : origin.Gives r) :
    r.IsOrdered ↔ origin.HasOrder := by
  cases origin with
  | between a b =>
    cases h
    exact iff_of_true (isOrdered_between a b) trivial
  | undefined =>
    cases h
    exact iff_of_true isOrdered_undefined trivial
  | literal session text => exact iff_of_true (isOrdered_of_read h) trivial
  | message bytes =>
    obtain ⟨rest, h⟩ := h
    exact isOrdered_iff_of_message h
  | tree d => exact isOrdered_iff_of_tree h

/-- A message whose range begins 100 seconds after it ends. -/
theorem isOrdered_iff_of_gives_inverted :
    ∃ r, (Origin.message [0, 0, 0, 1, 0, 0, 0, 100, 0, 0, 0, 0]).Gives r ∧ ¬ r.IsOrdered := by
  let r : TimeRange := ⟨.valid, .ofRaw 100, .ofRaw 0, rfl⟩
  have hgives : (Origin.message [0, 0, 0, 1, 0, 0, 0, 100, 0, 0, 0, 0]).Gives r := ⟨[], rfl⟩
  refine ⟨r, hgives, ?_⟩
  intro hordered
  have hwords := (isOrdered_iff_of_gives hgives).1 hordered 1 100 0 [] rfl rfl
  exact absurd hwords (by decide)

end TimeRange

end Horology
