import Horology.Moment.Text
import Horology.Proofs.Moment.Field
import Horology.Proofs.Moment.Retention
import Mathlib.Data.List.Perm.Basic

/-!
# Fields in any order

Where the date of a text is one field of digits, every field says on its own what it says: which
slots it fills does not hang on the fields before it, only whether they are still free.  What the
fields say together is then the same in any order.  Only the two halves of the day may follow each
other, the second one then counts, so that the order of two words for them would show.

## Main definitions

* `DateSlots.union`, `DateSlots.overlaps`, `DateSlots.join?` — what two states of the slots say
  together, and where they cannot.
* `DateSlots.said?` — what a field says on its own.
* `DateSlots.place_eq_join?` — a field adds what it says on its own.
* `DateSlots.ofFields_perm` — the slots that fields fill in any order.
* `DateReading.ofFields_perm`, `Moment.read_joined_perm` — the reading of fields, and of a text, in
  any order.
-/

namespace Horology

/-- Two options that do not contradict each other may be preferred to a third one in any order. -/
theorem or_left_comm_of_agree {α : Type} {a b : Option α} (c : Option α)
    (h : ∀ x ∈ a, ∀ y ∈ b, x = y) : a.or (b.or c) = b.or (a.or c) := by
  cases a with
  | none => simp
  | some x =>
    cases b with
    | none => simp
    | some y => simp [h x rfl y rfl]

/-- Where at most one member of a list is of a kind, two of that kind are the same. -/
theorem eq_of_countP_le_one {α : Type} {p : α → Bool} {l : List α} (h : l.countP p ≤ 1) {a b : α}
    (ha : a ∈ l) (hb : b ∈ l) (hpa : p a = true) (hpb : p b = true) : a = b := by
  have ha' : a ∈ l.filter p := List.mem_filter.2 ⟨ha, hpa⟩
  have hb' : b ∈ l.filter p := List.mem_filter.2 ⟨hb, hpb⟩
  rw [List.countP_eq_length_filter] at h
  cases hl : l.filter p with
  | nil => simp [hl] at ha'
  | cons c rest =>
    rw [hl] at h ha' hb'
    obtain rfl : rest = [] := List.eq_nil_of_length_eq_zero (by simpa using h)
    rw [List.mem_singleton.1 ha', List.mem_singleton.1 hb']

/-- What comes of two steps, the cause of a failure aside. -/
theorem toOption_bind {ε α β : Type} (step : Except ε α) (next : α → Except ε β) :
    (step >>= next).toOption = step.toOption.bind fun a => (next a).toOption := by
  cases step <;> rfl

namespace DateField

/-- Whether a field fills the same slots wherever it stands, as long as they are free: a date of
digits, a clock time, a word or an offset. -/
def isSteady : DateField → Bool
  | .date .. | .time _ | .word _ | .offset _ => true
  | .number _ | .signedWord _ => false

/-- Whether a field is a word for a half of the day. -/
def saysHalf : DateField → Bool
  | .word text =>
    match DateSlots.senseOf text with
    | .half _ => true
    | _ => false
  | _ => false

end DateField

namespace DateSlots

/-! ## Joining what is said -/

/-- What two states of the slots say together.  Of two halves of the day the second one counts. -/
def union (slots more : DateSlots) : DateSlots where
  year := more.year.or slots.year
  month := more.month.or slots.month
  day := more.day.or slots.day
  clock := more.clock.or slots.clock
  afternoon := more.afternoon.or slots.afternoon
  beforeChrist := slots.beforeChrist || more.beforeChrist
  offset := more.offset.or slots.offset
  zoneWord := more.zoneWord.or slots.zoneWord

/-- Whether two states of the slots both fill one that is filled only once.  Offset and zone word
count as one. -/
def overlaps (slots more : DateSlots) : Bool :=
  (slots.year.isSome && more.year.isSome) || (slots.month.isSome && more.month.isSome) ||
    (slots.day.isSome && more.day.isSome) || (slots.clock.isSome && more.clock.isSome) ||
    (slots.hasZone && more.hasZone)

/-- The slots with all that others say, if these fill none a second time. -/
def join? (slots more : DateSlots) : Option DateSlots :=
  if slots.overlaps more then none else some (slots.union more)

variable {order : DateOrder} {slots p q : DateSlots}

theorem overlaps_comm (p q : DateSlots) : p.overlaps q = q.overlaps p := by
  simp only [overlaps, Bool.and_comm]

@[simp] theorem hasZone_union (p q : DateSlots) :
    (p.union q).hasZone = (p.hasZone || q.hasZone) := by
  simp only [hasZone, union, Option.isSome_or]
  ac_rfl

@[simp] theorem overlaps_union (slots p q : DateSlots) :
    (slots.union p).overlaps q = (slots.overlaps q || p.overlaps q) := by
  simp only [overlaps, hasZone_union]
  simp only [union, Option.isSome_or, Bool.and_or_distrib_right]
  ac_rfl

/-- Where two states have no slot in common and name no two halves of the day, it is the same which
of them comes first. -/
theorem union_right_comm (slots : DateSlots) (hpq : p.overlaps q = false)
    (hhalf : ∀ a ∈ p.afternoon, ∀ b ∈ q.afternoon, a = b) :
    (slots.union p).union q = (slots.union q).union p := by
  -- A slot that only one of the two fills cannot be contradicted by the other.
  have hfree {α : Type} {a b : Option α} (hab : a.isSome = false ∨ b.isSome = false) :
      ∀ x ∈ a, ∀ y ∈ b, x = y := by
    rintro x rfl y rfl
    simp at hab
  simp only [overlaps, hasZone, Bool.or_eq_false_iff, Bool.and_eq_false_iff] at hpq
  obtain ⟨⟨⟨⟨hyear, hmonth⟩, hday⟩, hclock⟩, hzone⟩ := hpq
  have hoffset : p.offset.isSome = false ∨ q.offset.isSome = false := hzone.imp And.left And.left
  have hword : p.zoneWord.isSome = false ∨ q.zoneWord.isSome = false :=
    hzone.imp And.right And.right
  simp only [union, Bool.or_right_comm, or_left_comm_of_agree _ hhalf,
    or_left_comm_of_agree _ (hfree hyear), or_left_comm_of_agree _ (hfree hmonth),
    or_left_comm_of_agree _ (hfree hday), or_left_comm_of_agree _ (hfree hclock),
    or_left_comm_of_agree _ (hfree hoffset), or_left_comm_of_agree _ (hfree hword)]

/-- So it is for joining: the two fail together, or lead to the same slots. -/
theorem join?_right_comm (slots : DateSlots)
    (hhalf : ∀ a ∈ p.afternoon, ∀ b ∈ q.afternoon, a = b) :
    (slots.join? p).bind (·.join? q) = (slots.join? q).bind (·.join? p) := by
  have hjoin (p q : DateSlots) : (slots.join? p).bind (·.join? q) =
      if slots.overlaps p || (slots.overlaps q || p.overlaps q) then none
      else some ((slots.union p).union q) := by
    unfold join?
    by_cases hp : slots.overlaps p <;> simp [hp]
  rw [hjoin p q, hjoin q p, overlaps_comm q p]
  by_cases hpq : p.overlaps q = true
  · simp [hpq]
  · rw [union_right_comm slots (Bool.eq_false_iff.2 hpq) hhalf, Bool.or_left_comm]

/-! ## What one field says -/

/-- What a field says on its own. -/
def said? (order : DateOrder) (field : DateField) : Option DateSlots :=
  (place order {} field).toOption

theorem placeDate_eq_join? (text : List Char) (separator : Char) :
    (place order slots (.date text separator)).toOption =
      (said? order (.date text separator)).bind slots.join? := by
  simp only [said?, place, placeDate, Option.isSome_none, Bool.or_self, Bool.false_eq_true,
    if_false]
  split
  · next hfilled =>
    split
    · split
      · simp [Except.toOption, join?, overlaps, hfilled]
      · rfl
    · rfl
  · next hempty =>
    split
    · split
      · simp_all [Except.toOption, join?, overlaps, union, hasZone]
      · rfl
    · rfl

theorem placeTime_eq_join? (text : List Char) :
    (place order slots (.time text)).toOption = (said? order (.time text)).bind slots.join? := by
  simp only [said?, place, placeTime, Option.isSome_none, Bool.false_eq_true, if_false]
  cases clock? text with
  | none => split <;> rfl
  | some clock =>
    by_cases hclock : slots.clock.isSome = true
    · simp [hclock, Except.toOption, join?, overlaps]
    · simp [hclock, Except.toOption, join?, overlaps, union, hasZone]

theorem placeOffset_eq_join? (text : List Char) :
    (place order slots (.offset text)).toOption =
      (said? order (.offset text)).bind slots.join? := by
  have hempty : hasZone {} = false := rfl
  simp only [said?, place, placeOffset, hempty, Bool.false_eq_true, if_false]
  cases Offset.read? text with
  | none => split <;> rfl
  | some east =>
    have hfull : hasZone { offset := some east } = true := rfl
    by_cases hzone : slots.hasZone = true
    · simp [hzone, hfull, Except.toOption, join?, overlaps]
    · simp [hzone, Except.toOption, join?, overlaps, union]

theorem placeWord_eq_join? (text : List Char) :
    (place order slots (.word text)).toOption = (said? order (.word text)).bind slots.join? := by
  have hempty : hasZone {} = false := rfl
  simp only [said?, place, placeWord, hempty, Option.isSome_none, Bool.false_eq_true, if_false]
  cases DateWordSense.ofWord (String.ofList (lower text)) with
  | month n =>
    by_cases hmonth : slots.month.isSome = true
    · simp [hmonth, Except.toOption, join?, overlaps]
    · simp [hmonth, Except.toOption, join?, overlaps, union, hasZone]
  | idle => simp [Except.toOption, join?, overlaps, union, hasZone]
  | half afternoon => simp [Except.toOption, join?, overlaps, union, hasZone]
  | beforeChrist => simp [Except.toOption, join?, overlaps, union, hasZone]
  | reserved => rfl
  | zone =>
    have hfull : hasZone { zoneWord := some text } = true := rfl
    by_cases hzone : slots.hasZone = true
    · simp [hzone, hfull, Except.toOption, join?, overlaps]
    · simp [hzone, Except.toOption, join?, overlaps, union]

/-- **A steady field adds what it says on its own.** -/
theorem place_eq_join? {field : DateField} (hsteady : field.isSteady = true) :
    (place order slots field).toOption = (said? order field).bind slots.join? := by
  cases field with
  | number digits => cases hsteady
  | date text separator => exact placeDate_eq_join? text separator
  | time text => exact placeTime_eq_join? text
  | word text => exact placeWord_eq_join? text
  | offset text => exact placeOffset_eq_join? text
  | signedWord text => cases hsteady

/-- Only a word for a half of the day says which half it is. -/
theorem afternoon_of_said? {field : DateField} (hhalf : field.saysHalf = false)
    (hsaid : said? order field = some p) : p.afternoon = none := by
  have hplace : place order {} field = .ok p := by
    rw [said?] at hsaid
    cases hplace : place order {} field with
    | error fault => simp [hplace, Except.toOption] at hsaid
    | ok q => simpa [hplace, Except.toOption] using hsaid
  cases fills_of_place hplace with
  | half hsense => simp [DateField.saysHalf, hsense] at hhalf
  | _ => rfl

/-! ## What fields say together -/

/-- The slots after one more field, none once a field has been refused. -/
def advance (order : DateOrder) (slots : Option DateSlots) (field : DateField) :
    Option DateSlots :=
  slots.bind fun slots => (place order slots field).toOption

theorem toOption_foldlM_place (fields : List DateField) :
    (fields.foldlM (place order) slots).toOption = fields.foldl (advance order) (some slots) := by
  have hnone (fields : List DateField) : fields.foldl (advance order) none = none := by
    induction fields with
    | nil => rfl
    | cons field fields ih => exact ih
  induction fields generalizing slots with
  | nil => rfl
  | cons field fields ih =>
    rw [List.foldlM_cons, List.foldl_cons]
    cases hplace : place order slots field with
    | error fault => simp [advance, hplace, Except.toOption, bind, Except.bind, hnone]
    | ok next =>
      have hnext : advance order (some slots) field = some next := by
        simp [advance, hplace, Except.toOption]
      rw [hnext]
      exact ih

/-- Two steady fields may change places unless both are words for a half of the day. -/
theorem advance_right_comm {field field' : DateField} (hsteady : field.isSteady = true)
    (hsteady' : field'.isSteady = true)
    (hhalf : field.saysHalf = false ∨ field'.saysHalf = false) (slots : Option DateSlots) :
    advance order (advance order slots field) field' =
      advance order (advance order slots field') field := by
  cases slots with
  | none => rfl
  | some slots =>
    simp only [advance, Option.bind_some, place_eq_join? hsteady, place_eq_join? hsteady']
    cases hsaid : said? order field with
    | none => simp
    | some p =>
      cases hsaid' : said? order field' with
      | none => simp
      | some q =>
        simp only [Option.bind_some]
        refine join?_right_comm slots ?_
        intro a ha b hb
        rcases hhalf with hhalf | hhalf
        · simp [afternoon_of_said? hhalf hsaid] at ha
        · simp [afternoon_of_said? hhalf hsaid'] at hb

/-- **Steady fields fill the same slots in any order**, or are refused in any order, as long as at
most one of them is a word for a half of the day. -/
theorem ofFields_perm {fields fields' : List DateField} (hperm : fields.Perm fields')
    (hsteady : ∀ field ∈ fields, field.isSteady = true)
    (hhalf : fields.countP DateField.saysHalf ≤ 1) :
    (ofFields order fields).toOption = (ofFields order fields').toOption := by
  rw [ofFields, ofFields, toOption_foldlM_place, toOption_foldlM_place]
  refine hperm.foldl_eq' ?_ _
  intro field hfield field' hfield' slots
  by_cases hsame : field = field'
  · rw [hsame]
  · refine advance_right_comm (hsteady field hfield) (hsteady field' hfield') ?_ slots
    by_contra hboth
    simp only [not_or, Bool.not_eq_false] at hboth
    exact hsame (eq_of_countP_le_one hhalf hfield hfield' hboth.1 hboth.2)

end DateSlots

namespace DateReading

variable {fields fields' : List DateField}

/-- A reserved word stands alone, so that there is nothing to rearrange. -/
theorem reserved?_perm (hperm : fields.Perm fields') : reserved? fields = reserved? fields' := by
  have hnone {fields : List DateField} (h : fields.length ≠ 1) : reserved? fields = none := by
    unfold reserved?
    split <;> simp_all
  by_cases hlength : fields.length = 1
  · obtain ⟨field, rfl⟩ := List.length_eq_one_iff.1 hlength
    rw [List.singleton_perm.1 hperm]
  · rw [hnone hlength, hnone (hperm.length_eq ▸ hlength)]

/-- **Steady fields are read alike in any order.** -/
theorem ofFields_perm (hperm : fields.Perm fields')
    (hsteady : ∀ field ∈ fields, field.isSteady = true)
    (hhalf : fields.countP DateField.saysHalf ≤ 1) (session : Session) :
    (ofFields session fields).toOption = (ofFields session fields').toOption := by
  rw [ofFields, ofFields, reserved?_perm hperm]
  split
  · rfl
  · rw [ofDate, ofDate, toOption_bind, toOption_bind, DateSlots.ofFields_perm hperm hsteady hhalf]

end DateReading

/-! ## Texts -/

/-- A text that is one steady field. -/
structure SteadyText where
  text : List Char
  field : DateField
  cut : DateField.ofText? text = some [field]
  isSteady : field.isSteady = true

/-- The fields of texts with blanks between them are theirs. -/
theorem DateField.ofText?_steady {pieces : List SteadyText} {text : List Char}
    (h : Joined (pieces.map (·.text)) text) : ofText? text = some (pieces.map (·.field)) := by
  refine ofText?_joined h ?_
  rw [List.map_map, List.map_map]
  exact List.map_congr_left fun piece _ => piece.cut

theorem toOption_eq_some_iff {ε α : Type} {outcome : Except ε α} {a : α} :
    outcome.toOption = some a ↔ outcome = .ok a := by
  cases outcome <;> simp [Except.toOption]

/-- **Where the date is one field of digits, the order of the fields of a text does not matter.**
Texts that are each one field, a date of digits, a clock time, a word or an offset, of which at most
one is a word for a half of the day, are read alike with blanks between them in any order: as the
same reading, and as the same moment, or not at all. -/
theorem Moment.read_joined_perm {pieces pieces' : List SteadyText}
    (hperm : pieces.Perm pieces') (hhalf : pieces.countP (·.field.saysHalf) ≤ 1)
    {text text' : String} (htext : Joined (pieces.map (·.text)) text.toList)
    (htext' : Joined (pieces'.map (·.text)) text'.toList) (session : Session) :
    (∀ reading, DateReading.read session text.toList = .ok reading ↔
      DateReading.read session text'.toList = .ok reading) ∧
    ∀ t, Moment.read session text = .ok t ↔ Moment.read session text' = .ok t := by
  have hfields : (pieces.map (·.field)).Perm (pieces'.map (·.field)) := hperm.map _
  have hreading : (DateReading.read session text.toList).toOption =
      (DateReading.read session text'.toList).toOption := by
    rw [DateReading.read, DateReading.read, DateField.ofText?_steady htext,
      DateField.ofText?_steady htext']
    refine DateReading.ofFields_perm hfields ?_ ?_ session
    · simp only [List.mem_map]
      rintro field ⟨piece, -, rfl⟩
      exact piece.isSteady
    · rwa [List.countP_map]
  have hmoment (text : String) : (Moment.read session text).toOption =
      (DateReading.read session text.toList).toOption.map Moment.ofReading := by
    rw [Moment.read]
    cases DateReading.read session text.toList <;> rfl
  constructor
  · intro reading
    rw [← toOption_eq_some_iff, hreading, toOption_eq_some_iff]
  · intro t
    rw [← toOption_eq_some_iff, hmoment, hreading, ← hmoment, toOption_eq_some_iff]

/-- Ten o'clock on a summer evening in a zone called by its name, with the date first and with the
date last: the offset is found for the reading, wherever the name stands. -/
theorem Moment.read_joined_perm_evening :
    let summer : ZoneRules :=
      ⟨⟨3600, "CET"⟩, [(954032400, ⟨7200, "CEST"⟩), (972781200, ⟨3600, "CET"⟩)]⟩
    let session : Session :=
      { now := 0, rulesOf? := fun name => if name = "Europe/Paris" then some summer else none }
    read session "2000-07-15 10:00 pm Europe/Paris" = .ok (.seconds 963691200) ∧
      read session "Europe/Paris pm 10:00\t2000-07-15" = .ok (.seconds 963691200) := by
  intro summer session
  let date : SteadyText :=
    ⟨"2000-07-15".toList, .date "2000-07-15".toList '-', by decide +kernel, rfl⟩
  let time : SteadyText := ⟨"10:00".toList, .time "10:00".toList, by decide +kernel, rfl⟩
  let half : SteadyText := ⟨"pm".toList, .word "pm".toList, by decide +kernel, rfl⟩
  let zone : SteadyText :=
    ⟨"Europe/Paris".toList, .word "Europe/Paris".toList, by decide +kernel, rfl⟩
  have hperm : [date, time, half, zone].Perm [zone, half, time, date] :=
    (List.reverse_perm [date, time, half, zone]).symm
  have hspace : ∀ c ∈ [' '], isBlank c := List.forall_mem_singleton.2 rfl
  have htab : ∀ c ∈ ['\t'], isBlank c := List.forall_mem_singleton.2 rfl
  have hfirst : Joined ([date, time, half, zone].map (·.text))
      "2000-07-15 10:00 pm Europe/Paris".toList :=
    .cons _ (by simp) hspace (.cons _ (by simp) hspace (.cons _ (by simp) hspace (.single _)))
  have hlast : Joined ([zone, half, time, date].map (·.text))
      "Europe/Paris pm 10:00\t2000-07-15".toList :=
    .cons _ (by simp) hspace (.cons _ (by simp) hspace (.cons _ (by simp) htab (.single _)))
  have hread : read session "2000-07-15 10:00 pm Europe/Paris" = .ok (.seconds 963691200) := by
    decide +kernel
  exact ⟨hread, ((read_joined_perm hperm (by decide) hfirst hlast session).2 _).1 hread⟩

end Horology
