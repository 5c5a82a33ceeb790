import Horology.Message
import Horology.Record
import Mathlib.Tactic.IntervalCases

/-!
# Framing of binary messages

A message is cut into words of four bytes, and a word is nothing but its four bytes.  Values follow
each other without anything between them: each reader takes exactly the bytes its writer has
written, and a failed one has taken the whole words it could get.

## Main definitions

* `Message.wordOf_ofWord`, `ofWord_wordOf` — words and their bytes.
* `Message.Reader.times` — reading so many values one after another.
* `Message.Frames` — that a reader and a writer of values agree on their bytes.
* `frames_moment`, `frames_span`, `frames_range` — the three types.
* `ofDatum_eq_ok_iff` — a record of three words is the range that a message of them is.
-/

namespace Horology

namespace Message

/-! ## Words and bytes -/

/-- Bytes are equal that have the same bits. -/
theorem eq_of_bits {a b : UInt8}
    (h : ∀ i < 8, a.toBitVec.getLsbD i = b.toBitVec.getLsbD i) : a = b :=
  UInt8.eq_of_toBitVec_eq (BitVec.eq_of_getLsbD_eq h)

/-- A word is put together from its bytes again. -/
theorem wordOf_ofWord (w : Int32) :
    wordOf (w.toUInt32 >>> 24).toUInt8 (w.toUInt32 >>> 16).toUInt8 (w.toUInt32 >>> 8).toUInt8
      w.toUInt32.toUInt8 = w := by
  have hbits (u : UInt32) : (u >>> 24).toUInt8.toUInt32 <<< 24
      ||| (u >>> 16).toUInt8.toUInt32 <<< 16 ||| (u >>> 8).toUInt8.toUInt32 <<< 8
      ||| u.toUInt8.toUInt32 = u := by
    apply UInt32.eq_of_toBitVec_eq
    apply BitVec.eq_of_getLsbD_eq
    intro i hi
    simp [-UInt32.toUInt32_toUInt8]
    interval_cases i <;> simp
  rw [wordOf, hbits]
  simp

/-- Bytes are the bytes of the word they are put together to. -/
theorem ofWord_wordOf (a b c d : UInt8) : ofWord (wordOf a b c d) = [a, b, c, d] := by
  simp only [ofWord, wordOf, List.cons.injEq, and_true]
  refine ⟨?_, ?_, ?_, ?_⟩
  · apply eq_of_bits
    intro i hi
    simp
    interval_cases i <;> simp
  · apply eq_of_bits
    intro i hi
    simp
    interval_cases i <;> simp
  · apply eq_of_bits
    intro i hi
    simp
    interval_cases i <;> simp
  · apply eq_of_bits
    intro i hi
    simp

theorem ofWord_inj {w w' : Int32} (h : ofWord w = ofWord w') : w = w' := by
  rw [← wordOf_ofWord w, ← wordOf_ofWord w']
  simp only [ofWord, List.cons.injEq, and_true] at h
  rw [h.1, h.2.1, h.2.2.1, h.2.2.2]

@[simp] theorem length_ofWord (w : Int32) : (ofWord w).length = 4 := rfl

/-- Four bytes or more begin with a word. -/
theorem exists_ofWord {bytes : List UInt8} (h : 4 ≤ bytes.length) :
    ∃ w rest, bytes = ofWord w ++ rest := by
  match bytes, h with
  | a :: b :: c :: d :: rest, _ => exact ⟨wordOf a b c d, rest, by rw [ofWord_wordOf]; rfl⟩

/-- Twelve bytes or more begin with three words. -/
theorem exists_three_ofWord {bytes : List UInt8} (h : 12 ≤ bytes.length) :
    ∃ s a b rest, bytes = ofWord s ++ ofWord a ++ ofWord b ++ rest := by
  obtain ⟨s, rest, rfl⟩ := exists_ofWord (Nat.le_trans (by decide : 4 ≤ 12) h)
  rw [List.length_append, length_ofWord] at h
  have h8 : 4 ≤ rest.length := by omega
  obtain ⟨a, rest, rfl⟩ := exists_ofWord h8
  rw [List.length_append, length_ofWord] at h
  have h4 : 4 ≤ rest.length := by omega
  obtain ⟨b, rest, rfl⟩ := exists_ofWord h4
  exact ⟨s, a, b, rest, by simp⟩

/-! ## Readers -/

/-- A reader goes on where another has succeeded. -/
theorem on_bind {α β : Type} (reader : Reader α) (next : α → Reader β) (bytes : List UInt8) :
    (reader >>= next).on bytes =
      match reader.on bytes with
      | (.ok a, rest) => (next a).on rest
      | (.error e, rest) => (.error e, rest) := by
  have hbind : (reader >>= next).on bytes =
      (ExceptT.bindCont next (reader.on bytes).1) (reader.on bytes).2 := rfl
  rw [hbind]
  rcases reader.on bytes with ⟨_ | a, rest⟩ <;> rfl

/-- The word at the front of a message. -/
@[simp] theorem word_on_ofWord (w : Int32) (rest : List UInt8) :
    word.on (ofWord w ++ rest) = (.ok w, rest) := by
  show ((.ok (wordOf _ _ _ _) : Except Error Int32), rest) = _
  rw [wordOf_ofWord]

/-- A message without a whole word is left as it is. -/
theorem word_on_short {bytes : List UInt8} (h : bytes.length < 4) :
    word.on bytes = (.error (.shortMessage 4 bytes.length), bytes) := by
  match bytes, h with
  | [], _ => rfl
  | [_], _ => rfl
  | [_, _], _ => rfl
  | [_, _, _], _ => rfl

/-- What a word says is read as the moment of the word. -/
theorem moment_on_ofWord (w : Int32) (rest : List UInt8) :
    moment.on (ofWord w ++ rest) = (.ok (.ofRaw w), rest) := by
  rw [moment, on_bind, word_on_ofWord]
  rfl

theorem span_on_ofWord (w : Int32) (rest : List UInt8) :
    span.on (ofWord w ++ rest) = (.ok (.ofRaw w), rest) := by
  rw [span, on_bind, word_on_ofWord]
  rfl

/-- Three words are read as the range of their parts, if the first is the status of the others. -/
theorem range_on_ofWord (s a b : Int32) (rest : List UInt8) :
    range.on (ofWord s ++ ofWord a ++ ofWord b ++ rest) =
      (match TimeRange.ofParts? s (.ofRaw a) (.ofRaw b) with
        | some r => .ok r
        | none => .error (.badStatus s), rest) := by
  rw [List.append_assoc, List.append_assoc, range, on_bind, word_on_ofWord]
  dsimp only
  rw [on_bind, moment_on_ofWord]
  dsimp only
  rw [on_bind, moment_on_ofWord]
  dsimp only
  cases TimeRange.ofParts? s (.ofRaw a) (.ofRaw b) <;> rfl

/-! ## Short messages -/

/-- That a reader fails on a message of fewer bytes than `size` for want of a word, when it has
taken the whole words there are. -/
def Reader.Needs {α : Type} (reader : Reader α) (size : Nat) : Prop :=
  ∀ bytes : List UInt8, bytes.length < size → reader.on bytes =
    (.error (.shortMessage 4 (bytes.length % 4)), bytes.drop (bytes.length / 4 * 4))

theorem needs_word : word.Needs 4 := by
  intro bytes h
  rw [word_on_short h, Nat.mod_eq_of_lt h, Nat.div_eq_of_lt h]
  rfl

/-- Reading on after a word takes four bytes more. -/
theorem Reader.Needs.bind {α β : Type} {reader : Reader α} (h : reader.Needs 4)
    (hword : ∀ w rest, ∃ a, reader.on (ofWord w ++ rest) = (.ok a, rest)) {next : α → Reader β}
    {size : Nat} (hnext : ∀ a, (next a).Needs size) : (reader >>= next).Needs (size + 4) := by
  intro bytes hbytes
  by_cases h4 : bytes.length < 4
  · rw [on_bind, h bytes h4]
  · obtain ⟨w, rest, rfl⟩ := exists_ofWord (Nat.le_of_not_lt h4)
    obtain ⟨a, hread⟩ := hword w rest
    have hlength : (ofWord w ++ rest).length = 4 + rest.length := by simp
    have hdrop : (ofWord w ++ rest).drop (rest.length / 4 * 4 + 4) =
        rest.drop (rest.length / 4 * 4) := rfl
    have hmod : (4 + rest.length) % 4 = rest.length % 4 := by omega
    have hdiv : (4 + rest.length) / 4 * 4 = rest.length / 4 * 4 + 4 := by omega
    rw [on_bind, hread, hlength, hmod, hdiv, hdrop]
    exact hnext a rest (by omega)

/-- No message is too short for a reader that takes nothing. -/
theorem needs_zero {α : Type} (reader : Reader α) : reader.Needs 0 :=
  fun _ h => absurd h (Nat.not_lt_zero _)

theorem needs_moment : moment.Needs 4 :=
  needs_word.bind (fun w rest => ⟨w, word_on_ofWord w rest⟩) fun _ => needs_zero _

theorem needs_span : span.Needs 4 :=
  needs_word.bind (fun w rest => ⟨w, word_on_ofWord w rest⟩) fun _ => needs_zero _

theorem needs_range : range.Needs 12 :=
  needs_word.bind (fun w rest => ⟨w, word_on_ofWord w rest⟩) fun _ =>
    needs_moment.bind (fun w rest => ⟨.ofRaw w, moment_on_ofWord w rest⟩) fun _ =>
      needs_moment.bind (fun w rest => ⟨.ofRaw w, moment_on_ofWord w rest⟩) fun _ => needs_zero _

end Message

/-! ## Parts of a range -/

namespace TimeRange

/-- The words of a range as a message has them: its status and its endpoints. -/
def words (r : TimeRange) : Int32 × Int32 × Int32 := (r.status.raw, r.first.raw, r.last.raw)

/-- The word of the status that two words have as endpoints: 0 if one of them is reserved for the
invalid moment, and 1 otherwise. -/
def statusWord (a b : Int32) : Int32 :=
  if a = Moment.invalidRaw ∨ b = Moment.invalidRaw then 0 else 1

theorem raw_ofEndpoints (a b : Moment) :
    (RangeStatus.ofEndpoints a b).raw = statusWord a.raw b.raw := by
  simp only [RangeStatus.ofEndpoints, Moment.isInvalid, statusWord, Bool.or_eq_true, beq_iff_eq]
  split <;> rfl

/-- The status of a range is the one of the words of its endpoints. -/
theorem raw_status (r : TimeRange) : r.status.raw = statusWord r.first.raw r.last.raw := by
  rw [r.status_eq, raw_ofEndpoints]

/-- Two words are the endpoints of a range if the word of their status goes with them. -/
theorem ofParts?_ofRaw (s a b : Int32) :
    (s = statusWord a b → ∃ r, ofParts? s (.ofRaw a) (.ofRaw b) = some r ∧ r.words = (s, a, b)) ∧
      (s ≠ statusWord a b → ofParts? s (.ofRaw a) (.ofRaw b) = none) := by
  have hword : (RangeStatus.ofEndpoints (.ofRaw a) (.ofRaw b)).raw = statusWord a b := by
    rw [raw_ofEndpoints, Moment.raw_ofRaw, Moment.raw_ofRaw]
  constructor
  · rintro rfl
    refine ⟨_, if_pos hword.symm, ?_⟩
    simp [words, hword]
  · intro hne
    exact if_neg (hword ▸ hne)

theorem toBytes_eq (r : TimeRange) :
    r.toBytes = Message.ofWord r.words.1 ++ Message.ofWord r.words.2.1
      ++ Message.ofWord r.words.2.2 := rfl

end TimeRange

namespace Message

/-! ## Values one after another -/

/-- So many values one after another. -/
def Reader.times {α : Type} (reader : Reader α) : Nat → Reader (List α)
  | 0 => pure []
  | n + 1 => do
    let a ← reader
    return a :: (← reader.times n)

/-- That a reader and a writer of values agree on their bytes, where values count as equal that have
the same content: values one after another are read back and nothing behind them is touched; what
is read is exactly what is written for it; and shorter messages are used up to the last whole
word. -/
structure Frames {α κ : Type} (reader : Reader α) (write : α → List UInt8) (content : α → κ)
    (size : Nat) : Prop where
  stream : ∀ (values : List α) (rest : List UInt8), ∃ values',
    (reader.times values.length).on (values.flatMap write ++ rest) = (.ok values', rest) ∧
      values'.map content = values.map content
  exact : ∀ {bytes rest : List UInt8} {a : α}, reader.on bytes = (.ok a, rest) →
    bytes = write a ++ rest ∧ (write a).length = size
  short : reader.Needs size

variable {α κ : Type} {reader : Reader α} {write : α → List UInt8} {content : α → κ}

/-- Reading one value back goes on to lists of them. -/
theorem times_on (hread : ∀ a rest, ∃ a', reader.on (write a ++ rest) = (.ok a', rest) ∧
    content a' = content a) (values : List α) (rest : List UInt8) :
    ∃ values', (reader.times values.length).on (values.flatMap write ++ rest) =
      (.ok values', rest) ∧ values'.map content = values.map content := by
  induction values with
  | nil => exact ⟨[], rfl, rfl⟩
  | cons a values ih =>
    obtain ⟨a', ha, hcontent⟩ := hread a (values.flatMap write ++ rest)
    obtain ⟨values', hvalues, hcontents⟩ := ih
    refine ⟨a' :: values', ?_, by simp [hcontent, hcontents]⟩
    rw [List.flatMap_cons, List.append_assoc, List.length_cons, Reader.times, on_bind, ha]
    dsimp only
    rw [on_bind, hvalues]
    rfl

/-- A reader that takes one word and keeps it takes what is written for the word. -/
theorem frames_of_word (hword : ∀ w rest, ∃ a, reader.on (ofWord w ++ rest) = (.ok a, rest) ∧
    write a = ofWord w) (hwrite : ∀ a, ∃ w, write a = ofWord w)
    (hcontent : ∀ a a', write a = write a' → content a = content a') (hneeds : reader.Needs 4) :
    Frames reader write content 4 where
  stream := by
    apply times_on
    intro a rest
    obtain ⟨w, hw⟩ := hwrite a
    obtain ⟨a', hread, hw'⟩ := hword w rest
    exact ⟨a', by rw [hw, hread], hcontent _ _ (hw'.trans hw.symm)⟩
  exact := by
    intro bytes rest a hread
    by_cases h4 : bytes.length < 4
    · rw [hneeds bytes h4] at hread
      cases hread
    · obtain ⟨w, rest', rfl⟩ := exists_ofWord (Nat.le_of_not_lt h4)
      obtain ⟨a', hread', hw⟩ := hword w rest'
      rw [hread'] at hread
      obtain ⟨ha, rfl⟩ := Prod.mk.inj hread
      obtain rfl := Except.ok.inj ha
      exact ⟨by rw [hw], by rw [hw, length_ofWord]⟩
  short := hneeds

theorem frames_moment : Frames moment Moment.toBytes Moment.raw 4 := by
  refine frames_of_word (fun w rest => ⟨.ofRaw w, moment_on_ofWord w rest, ?_⟩)
    (fun t => ⟨t.raw, rfl⟩) (fun _ _ h => ofWord_inj h) needs_moment
  rw [Moment.toBytes, Moment.raw_ofRaw]

theorem frames_span : Frames span Span.toBytes Span.raw 4 := by
  refine frames_of_word (fun w rest => ⟨.ofRaw w, span_on_ofWord w rest, ?_⟩)
    (fun s => ⟨s.raw, rfl⟩) (fun _ _ h => ofWord_inj h) needs_span
  rw [Span.toBytes, Span.raw_ofRaw]

/-- Three words are read as a range with these words if the first is the status of the others, and
are refused otherwise, when all of them are taken. -/
theorem range_on_words (s a b : Int32) (rest : List UInt8) :
    (s = TimeRange.statusWord a b →
      ∃ r, range.on (ofWord s ++ ofWord a ++ ofWord b ++ rest) = (.ok r, rest) ∧
        r.words = (s, a, b)) ∧
      (s ≠ TimeRange.statusWord a b →
        range.on (ofWord s ++ ofWord a ++ ofWord b ++ rest) = (.error (.badStatus s), rest)) := by
  obtain ⟨hok, hbad⟩ := TimeRange.ofParts?_ofRaw s a b
  rw [range_on_ofWord]
  constructor
  · intro h
    obtain ⟨r, hr, hwords⟩ := hok h
    exact ⟨r, by rw [hr], hwords⟩
  · intro h
    rw [hbad h]

theorem frames_range : Frames range TimeRange.toBytes TimeRange.words 12 where
  stream := by
    apply times_on
    intro r rest
    obtain ⟨r', hread, hwords⟩ := (range_on_words _ _ _ rest).1 r.raw_status
    exact ⟨r', hread, hwords⟩
  exact := by
    intro bytes rest r hread
    by_cases h12 : bytes.length < 12
    · rw [needs_range bytes h12] at hread
      cases hread
    · obtain ⟨s, a, b, rest', rfl⟩ := exists_three_ofWord (Nat.le_of_not_lt h12)
      obtain ⟨hok, hbad⟩ := range_on_words s a b rest'
      by_cases hs : s = TimeRange.statusWord a b
      · obtain ⟨r', hread', hwords⟩ := hok hs
        rw [hread'] at hread
        obtain ⟨hr, rfl⟩ := Prod.mk.inj hread
        obtain rfl := Except.ok.inj hr
        exact ⟨by rw [TimeRange.toBytes_eq, hwords], rfl⟩
      · rw [hbad hs] at hread
        cases hread
  short := needs_range

end Message

/-! ## Records of a range -/

namespace TimeRange

/-- That a tree holds three words as the status and the endpoints of a range: as fields of a record,
whatever else is in it, or in a list of three. -/
inductive Holds : Datum → Int32 → Int32 → Int32 → Prop where
  | record {fields : List (String × Datum)} {s a b : Int32}
    (hstatus : fields.lookup "status" = some (.integer s.toInt))
    (hstart : fields.lookup "start" = some (.integer a.toInt))
    (hend : fields.lookup "end" = some (.integer b.toInt)) : Holds (.record fields) s a b
  | list {s a b : Int32} :
    Holds (.list [.integer s.toInt, .integer a.toInt, .integer b.toInt]) s a b

theorem word_eq_ok_iff {d : Datum} {w : Int32} : d.word = .ok w ↔ d = .integer w.toInt := by
  constructor
  · intro h
    unfold Datum.word at h
    split at h
    · split at h
      · next hword =>
        obtain rfl := Except.ok.inj h
        rw [toInt_of_word? hword]
      · cases h
    · cases h
  · rintro rfl
    simp only [Datum.word, word?_toInt]

/-- A tree is read as a moment if it is the number of the moment's word. -/
theorem momentOfDatum_eq_ok_iff {d : Datum} {t : Moment} :
    Moment.ofDatum d = .ok t ↔ ∃ w : Int32, d = .integer w.toInt ∧ .ofRaw w = t := by
  rw [Moment.ofDatum]
  constructor
  · intro h
    cases hword : d.word with
    | error fault =>
      rw [hword] at h
      cases h
    | ok w =>
      rw [hword] at h
      exact ⟨w, word_eq_ok_iff.1 hword, Except.ok.inj h⟩
  · rintro ⟨w, rfl, rfl⟩
    rw [word_eq_ok_iff.2 rfl]
    rfl

theorem field_eq_some_iff {α : Type} {fields : List (String × Datum)} {name : String}
    {read : Datum → Except RecordFault α} {a : α} :
    Datum.field fields name read = .ok (some a) ↔
      ∃ d, fields.lookup name = some d ∧ read d = .ok a := by
  unfold Datum.field
  cases hlookup : fields.lookup name with
  | none => simp
  | some d => cases hread : read d <;> simp [Except.map, hread]

theorem require_eq_ok_iff {α : Type} {o : Option α} {a : α} :
    Datum.require o = .ok a ↔ o = some a := by
  cases o <;> simp [Datum.require]

theorem ofParts_eq_ok_iff {status : Int32} {first last : Moment} {r : TimeRange} :
    ofParts status first last = .ok r ↔ ofParts? status first last = some r := by
  unfold ofParts
  cases ofParts? status first last <;> simp

/-- **A tree is read as a range exactly if it holds three words that make one.** -/
theorem ofDatum_eq_ok_iff {d : Datum} {r : TimeRange} :
    ofDatum d = .ok r ↔
      ∃ s a b, Holds d s a b ∧ ofParts? s (.ofRaw a) (.ofRaw b) = some r := by
  constructor
  · intro h
    unfold ofDatum at h
    split at h
    · next fields =>
      obtain ⟨last?, hend, h⟩ := bind_eq_ok_iff.1 h
      obtain ⟨first?, hstart, h⟩ := bind_eq_ok_iff.1 h
      obtain ⟨status?, hstatus, h⟩ := bind_eq_ok_iff.1 h
      obtain ⟨s, hs, h⟩ := bind_eq_ok_iff.1 h
      obtain ⟨first, hfirst, h⟩ := bind_eq_ok_iff.1 h
      obtain ⟨last, hlast, h⟩ := bind_eq_ok_iff.1 h
      obtain rfl := require_eq_ok_iff.1 hs
      obtain rfl := require_eq_ok_iff.1 hfirst
      obtain rfl := require_eq_ok_iff.1 hlast
      obtain ⟨ds, hds, hs⟩ := field_eq_some_iff.1 hstatus
      obtain ⟨da, hda, ha⟩ := field_eq_some_iff.1 hstart
      obtain ⟨db, hdb, hb⟩ := field_eq_some_iff.1 hend
      obtain rfl := word_eq_ok_iff.1 hs
      obtain ⟨a, rfl, rfl⟩ := momentOfDatum_eq_ok_iff.1 ha
      obtain ⟨b, rfl, rfl⟩ := momentOfDatum_eq_ok_iff.1 hb
      exact ⟨s, a, b, .record hds hda hdb, ofParts_eq_ok_iff.1 h⟩
    · next ds da db =>
      obtain ⟨s, hs, h⟩ := bind_eq_ok_iff.1 h
      obtain ⟨first, ha, h⟩ := bind_eq_ok_iff.1 h
      obtain ⟨last, hb, h⟩ := bind_eq_ok_iff.1 h
      obtain rfl := word_eq_ok_iff.1 hs
      obtain ⟨a, rfl, rfl⟩ := momentOfDatum_eq_ok_iff.1 ha
      obtain ⟨b, rfl, rfl⟩ := momentOfDatum_eq_ok_iff.1 hb
      exact ⟨s, a, b, .list, ofParts_eq_ok_iff.1 h⟩
    · cases h
  · rintro ⟨s, a, b, hholds, hparts⟩
    have hs : Datum.word (.integer s.toInt) = .ok s := word_eq_ok_iff.2 rfl
    have ha : Moment.ofDatum (.integer a.toInt) = .ok (.ofRaw a) :=
      momentOfDatum_eq_ok_iff.2 ⟨a, rfl, rfl⟩
    have hb : Moment.ofDatum (.integer b.toInt) = .ok (.ofRaw b) :=
      momentOfDatum_eq_ok_iff.2 ⟨b, rfl, rfl⟩
    have hok := ofParts_eq_ok_iff.2 hparts
    cases hholds with
    | record hstatus hstart hend =>
      simp only [ofDatum, field_eq_some_iff.2 ⟨_, hend, hb⟩, field_eq_some_iff.2 ⟨_, hstart, ha⟩,
        field_eq_some_iff.2 ⟨_, hstatus, hs⟩]
      exact hok
    | list =>
      simp only [ofDatum, hs, ha, hb]
      exact hok

end TimeRange

namespace Message

/-- **Values are framed by their bytes.**  Each of the three readers takes what its writer writes,
value after value, and nothing else.  Any three words are a range if the first is the status of
the others and are refused for their status otherwise; and a record holds the same ranges in the
same words. -/
theorem frames_values :
    (Frames moment Moment.toBytes Moment.raw 4 ∧ Frames span Span.toBytes Span.raw 4 ∧
      Frames range TimeRange.toBytes TimeRange.words 12) ∧
    (∀ bytes : List UInt8, 12 ≤ bytes.length →
      ∃ s a b rest, bytes = ofWord s ++ ofWord a ++ ofWord b ++ rest) ∧
    (∀ (s a b : Int32) (rest : List UInt8),
      (s = TimeRange.statusWord a b →
        ∃ r, range.on (ofWord s ++ ofWord a ++ ofWord b ++ rest) = (.ok r, rest) ∧
          r.words = (s, a, b)) ∧
      (s ≠ TimeRange.statusWord a b →
        range.on (ofWord s ++ ofWord a ++ ofWord b ++ rest) = (.error (.badStatus s), rest))) ∧
    ∀ (d : Datum) (r : TimeRange), TimeRange.ofDatum d = .ok r ↔
      ∃ s a b, TimeRange.Holds d s a b ∧
        range.on (ofWord s ++ ofWord a ++ ofWord b) = (.ok r, []) := by
  refine ⟨⟨frames_moment, frames_span, frames_range⟩, fun _ => exists_three_ofWord,
    range_on_words, fun d r => ?_⟩
  have hread (s a b : Int32) : range.on (ofWord s ++ ofWord a ++ ofWord b) = (.ok r, []) ↔
      TimeRange.ofParts? s (.ofRaw a) (.ofRaw b) = some r := by
    have hon := range_on_ofWord s a b []
    rw [List.append_nil] at hon
    rw [hon]
    cases TimeRange.ofParts? s (.ofRaw a) (.ofRaw b) <;> simp
  simp only [hread, TimeRange.ofDatum_eq_ok_iff]

/-- A range whose endpoints are sent with the later one first, with a byte behind it. -/
theorem frames_values_inverted :
    ∃ r, range.on [0, 0, 0, 1, 0, 0, 0, 100, 0, 0, 0, 0, 7] = (.ok r, [7]) ∧
      r.words = (1, 100, 0) :=
  (frames_values.2.2.1 1 100 0 [7]).1 rfl

end Message

end Horology
