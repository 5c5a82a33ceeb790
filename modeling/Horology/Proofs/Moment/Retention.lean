import Horology.Duration.Basic
import Horology.Moment.Slots

/-!
# Slots that are filled twice

Most fields of a date/time text are refused where they would fill a slot again.  Two are not: a
number of eight digits fills the day over another one, as long as neither year nor month is known,
and a word for one half of the day takes the place of the other.  What a text says about all else is
kept to its end, and a text keeps all it says unless it has one of the two.

## Main definitions

* `DateSlots.Fills` — what a field does where it is placed.
* `DateSlots.KeepsGuarded`, `DateSlots.Keeps` — that slots, once filled, stay what they are.
* `DateSlots.Overwrites` — that a field gives a filled slot another value.
* `DateSlots.keeps_iff_of_place` — a field keeps all slots exactly if it overwrites none.
* `DateSlots.keeps_iff_of_ofFields` — the same for all fields of a text.
-/

namespace Horology.DateSlots

/-! ## What a field does -/

/-- What a word is, letter case aside. -/
abbrev senseOf (text : List Char) : DateWordSense := .ofWord (String.ofList (lower text))

/-- What a field does to the slots where it is placed. -/
inductive Fills (slots : DateSlots) : DateField → DateSlots → Prop
  | packed {digits : List Char} {n : Int} (hread : Numeral.readWord? digits = some n)
    (hlength : digits.length = 8) (hyear : slots.year = none) (hmonth : slots.month = none) :
    Fills slots (.number digits)
      { slots with year := some (n / 10000), month := some (n / 100 % 100), day := some (n % 100) }
  | day {digits : List Char} (n : Int) (hday : slots.day = none) :
    Fills slots (.number digits) { slots with day := some n }
  | year {digits : List Char} (y : Int) (hyear : slots.year = none)
    (hpacked : ¬ (digits.length = 8 ∧ slots.month = none)) :
    Fills slots (.number digits) { slots with year := some y }
  | date {text : List Char} {separator : Char} (y m d : Int) (hyear : slots.year = none)
    (hmonth : slots.month = none) (hday : slots.day = none) :
    Fills slots (.date text separator)
      { slots with year := some y, month := some m, day := some d }
  | time {text : List Char} (clock : Int × Int × Int) (hclock : slots.clock = none) :
    Fills slots (.time text) { slots with clock := some clock }
  | offset {text : List Char} (east : Int) (hoffset : slots.offset = none)
    (hword : slots.zoneWord = none) :
    Fills slots (.offset text) { slots with offset := some east }
  | month {text : List Char} {n : Int} (hsense : senseOf text = .month n)
    (hmonth : slots.month = none) : Fills slots (.word text) { slots with month := some n }
  | idle {text : List Char} (hsense : senseOf text = .idle) : Fills slots (.word text) slots
  | half {text : List Char} {afternoon : Bool} (hsense : senseOf text = .half afternoon) :
    Fills slots (.word text) { slots with afternoon := some afternoon }
  | beforeChrist {text : List Char} (hsense : senseOf text = .beforeChrist) :
    Fills slots (.word text) { slots with beforeChrist := true }
  | zone {text : List Char} (hsense : senseOf text = .zone) (hoffset : slots.offset = none)
    (hword : slots.zoneWord = none) : Fills slots (.word text) { slots with zoneWord := some text }

variable {order : DateOrder} {slots slots' : DateSlots} {field : DateField}

theorem hasZone_eq_false_iff :
    slots.hasZone = false ↔ slots.offset = none ∧ slots.zoneWord = none := by
  simp [hasZone]

theorem fills_of_placeNumber {digits : List Char} (h : slots.placeNumber digits = .ok slots') :
    slots.Fills (.number digits) slots' := by
  unfold placeNumber at h
  split at h
  · cases h
  · next n hread =>
    split at h
    · next hpacked =>
      cases h
      exact .packed hread hpacked.1 hpacked.2.1 hpacked.2.2
    · next hpacked =>
      split at h
      · next hday =>
        cases h
        exact .day n hday.2
      · split at h
        · next hyear =>
          cases h
          exact .year _ hyear fun hlong => hpacked ⟨hlong.1, hyear, hlong.2⟩
        · cases h

theorem fills_of_placeDate {text : List Char} {separator : Char}
    (h : slots.placeDate order text separator = .ok slots') :
    slots.Fills (.date text separator) slots' := by
  unfold placeDate at h
  split at h
  · cases h
  · next hempty =>
    have hempty : (slots.year = none ∧ slots.month = none) ∧ slots.day = none := by
      simpa using hempty
    split at h
    · dsimp only at h
      split at h
      · cases h
        exact .date _ _ _ hempty.1.1 hempty.1.2 hempty.2
      · cases h
    · cases h

theorem fills_of_placeTime {text : List Char} (h : slots.placeTime text = .ok slots') :
    slots.Fills (.time text) slots' := by
  unfold placeTime at h
  split at h
  · cases h
  · next hclock =>
    split at h
    · cases h
      exact .time _ (by simpa using hclock)
    · cases h

theorem fills_of_placeOffset {text : List Char} (h : slots.placeOffset text = .ok slots') :
    slots.Fills (.offset text) slots' := by
  unfold placeOffset at h
  split at h
  · cases h
  · next hzone =>
    obtain ⟨hoffset, hword⟩ := hasZone_eq_false_iff.1 (Bool.eq_false_iff.2 hzone)
    split at h
    · cases h
      exact .offset _ hoffset hword
    · cases h

theorem fills_of_placeWord {text : List Char} (h : slots.placeWord text = .ok slots') :
    slots.Fills (.word text) slots' := by
  unfold placeWord at h
  split at h
  · next hsense =>
    split at h
    · cases h
    · next hmonth =>
      cases h
      exact .month hsense (by simpa using hmonth)
  · next hsense =>
    cases h
    exact .idle hsense
  · next hsense =>
    cases h
    exact .half hsense
  · next hsense =>
    cases h
    exact .beforeChrist hsense
  · cases h
  · next hsense =>
    split at h
    · cases h
    · next hzone =>
      obtain ⟨hoffset, hword⟩ := hasZone_eq_false_iff.1 (Bool.eq_false_iff.2 hzone)
      cases h
      exact .zone hsense hoffset hword

/-- A field that is placed fills the slots that a field of its kind fills. -/
theorem fills_of_place (h : place order slots field = .ok slots') : slots.Fills field slots' := by
  cases field with
  | number digits => exact fills_of_placeNumber h
  | date text separator => exact fills_of_placeDate h
  | time text => exact fills_of_placeTime h
  | word text => exact fills_of_placeWord h
  | offset text => exact fills_of_placeOffset h
  | signedWord text => cases h

/-! ## Slots that stay -/

/-- That a slot, once filled, holds the same later. -/
def Retains {α : Type} (before after : Option α) : Prop := ∀ a, before = some a → after = some a

@[simp] theorem Retains.refl {α : Type} (slot : Option α) : Retains slot slot := fun _ h => h

theorem Retains.trans {α : Type} {a b c : Option α} (h : Retains a b) (h' : Retains b c) :
    Retains a c :=
  fun x hx => h' x (h x hx)

/-- An empty slot may be filled with anything. -/
@[simp] theorem retains_none {α : Type} (slot : Option α) : Retains none slot := nofun

/-- That the slots which no field fills twice stay what they are. -/
structure KeepsGuarded (slots slots' : DateSlots) : Prop where
  year : Retains slots.year slots'.year
  month : Retains slots.month slots'.month
  clock : Retains slots.clock slots'.clock
  offset : Retains slots.offset slots'.offset
  zoneWord : Retains slots.zoneWord slots'.zoneWord

/-- That all slots, once filled, stay what they are. -/
structure Keeps (slots slots' : DateSlots) : Prop extends KeepsGuarded slots slots' where
  day : Retains slots.day slots'.day
  afternoon : Retains slots.afternoon slots'.afternoon

theorem KeepsGuarded.refl (slots : DateSlots) : slots.KeepsGuarded slots :=
  ⟨.refl _, .refl _, .refl _, .refl _, .refl _⟩

theorem KeepsGuarded.trans {a b c : DateSlots} (h : a.KeepsGuarded b) (h' : b.KeepsGuarded c) :
    a.KeepsGuarded c :=
  ⟨h.year.trans h'.year, h.month.trans h'.month, h.clock.trans h'.clock,
    h.offset.trans h'.offset, h.zoneWord.trans h'.zoneWord⟩

theorem Keeps.refl (slots : DateSlots) : slots.Keeps slots := ⟨.refl slots, .refl _, .refl _⟩

theorem Keeps.trans {a b c : DateSlots} (h : a.Keeps b) (h' : b.Keeps c) : a.Keeps c :=
  ⟨h.toKeepsGuarded.trans h'.toKeepsGuarded, h.day.trans h'.day, h.afternoon.trans h'.afternoon⟩

/-- That a field gives a filled slot another value. -/
inductive Overwrites (slots : DateSlots) : DateField → Prop
  /-- Eight digits fill the day whether it is known or not. -/
  | day {digits : List Char} {n d : Int} (hread : Numeral.readWord? digits = some n)
    (hlength : digits.length = 8) (hyear : slots.year = none) (hmonth : slots.month = none)
    (hday : slots.day = some d) (hne : n % 100 ≠ d) : Overwrites slots (.number digits)
  /-- So do the words before and after noon. -/
  | afternoon {text : List Char} {first second : Bool}
    (hsense : senseOf text = .half second)
    (hafternoon : slots.afternoon = some first) (hne : second ≠ first) :
    Overwrites slots (.word text)

/-! ## One field -/

/-- A field keeps the guarded slots. -/
theorem keepsGuarded_of_fills (h : slots.Fills field slots') : slots.KeepsGuarded slots' := by
  cases h <;> constructor <;> simp_all

/-- A field that overwrites no slot keeps them all. -/
theorem keeps_of_fills (h : slots.Fills field slots') (hnot : ¬ slots.Overwrites field) :
    slots.Keeps slots' := by
  refine ⟨keepsGuarded_of_fills h, ?_, ?_⟩
  · cases h with
    | @packed digits n hread hlength hyear hmonth =>
      intro d hday
      by_cases heq : n % 100 = d
      · exact congrArg some heq
      · exact absurd (.day hread hlength hyear hmonth hday heq) hnot
    | _ => simp_all
  · cases h with
    | @half text second hsense =>
      intro first hfirst
      by_cases heq : second = first
      · exact congrArg some heq
      · exact absurd (.afternoon hsense hfirst heq) hnot
    | _ => simp_all

/-- If a later state has kept what was known before a field as well as after it, the field has
overwritten no slot. -/
theorem not_overwrites_of_keeps (h : slots.Fills field slots') {last : DateSlots}
    (hbefore : slots.Keeps last) (hafter : slots'.Keeps last) : ¬ slots.Overwrites field := by
  intro hover
  cases hover with
  | day hread hlength hyear hmonth hday hne =>
    cases h with
    | packed hread' =>
      obtain rfl := Option.some.inj (hread'.symm.trans hread)
      exact hne (Option.some.inj ((hafter.day _ rfl).symm.trans (hbefore.day _ hday)))
    | day n hempty => simp [hempty] at hday
    | year y _ hpacked => exact hpacked ⟨hlength, hmonth⟩
  | afternoon hsense hafternoon hne =>
    cases h with
    | half hsense' =>
      obtain rfl := DateWordSense.half.inj (hsense'.symm.trans hsense)
      exact hne (Option.some.inj
        ((hafter.afternoon _ rfl).symm.trans (hbefore.afternoon _ hafternoon)))
    | _ => simp_all

/-- **A field that is placed keeps all slots exactly if it overwrites none.** -/
theorem keeps_iff_of_place (h : place order slots field = .ok slots') :
    slots.Keeps slots' ↔ ¬ slots.Overwrites field :=
  ⟨fun hkeeps => not_overwrites_of_keeps (fills_of_place h) hkeeps (.refl slots'),
    keeps_of_fills (fills_of_place h)⟩

/-! ## All fields of a text -/

variable {fields : List DateField} {last : DateSlots}

/-- Fields keep the guarded slots, however many they are. -/
theorem keepsGuarded_of_foldlM (h : fields.foldlM (place order) slots = .ok last) :
    slots.KeepsGuarded last := by
  induction fields generalizing slots with
  | nil =>
    cases h
    exact .refl _
  | cons field fields ih =>
    rw [List.foldlM_cons] at h
    obtain ⟨next, hplace, h⟩ := bind_eq_ok_iff.1 h
    exact (keepsGuarded_of_fills (fills_of_place hplace)).trans (ih h)

/-- Fields that overwrite no slot where they are placed keep them all. -/
theorem keeps_of_foldlM (h : fields.foldlM (place order) slots = .ok last)
    (hnot : ∀ before field after reached, fields = before ++ field :: after →
      before.foldlM (place order) slots = .ok reached → ¬ reached.Overwrites field) :
    slots.Keeps last := by
  induction fields generalizing slots with
  | nil =>
    cases h
    exact .refl _
  | cons field fields ih =>
    rw [List.foldlM_cons] at h
    obtain ⟨next, hplace, h⟩ := bind_eq_ok_iff.1 h
    have hfirst : slots.Keeps next :=
      (keeps_iff_of_place hplace).2 (hnot [] field fields slots rfl rfl)
    refine hfirst.trans (ih h ?_)
    rintro before later after reached rfl hreached
    refine hnot (field :: before) later after reached rfl ?_
    rw [List.foldlM_cons, hplace]
    exact hreached

/-- That what is known after any of the first fields stands in a relation to what is known in the
end. -/
def Throughout (order : DateOrder) (fields : List DateField) (last : DateSlots)
    (relation : DateSlots → DateSlots → Prop) : Prop :=
  ∀ before after reached, fields = before ++ after → ofFields order before = .ok reached →
    relation reached last

/-- That no field gives a slot another value that an earlier field has filled. -/
def OverwritesNever (order : DateOrder) (fields : List DateField) : Prop :=
  ∀ before field after reached, fields = before ++ field :: after →
    ofFields order before = .ok reached → ¬ reached.Overwrites field

/-- Where the first fields have come to, the others go on. -/
theorem ofFields_append {before : List DateField} {reached : DateSlots}
    (h : ofFields order before = .ok reached) (after : List DateField) :
    ofFields order (before ++ after) = after.foldlM (place order) reached := by
  rw [ofFields, List.foldlM_append, ← ofFields, h]
  rfl

/-- **What the fields of a text have said is kept to its end**, where they can be placed at all:
year, month, clock time, offset and zone word always are, and all slots are, day and half of the day
too, exactly if no field overwrites one of them. -/
theorem keeps_iff_of_ofFields (h : ofFields order fields = .ok last) :
    Throughout order fields last KeepsGuarded ∧
      (Throughout order fields last Keeps ↔ OverwritesNever order fields) := by
  refine ⟨?_, ?_, ?_⟩
  · rintro before after reached rfl hreached
    rw [ofFields_append hreached] at h
    exact keepsGuarded_of_foldlM h
  · rintro hkeeps before field after reached rfl hreached
    rw [ofFields_append hreached, List.foldlM_cons] at h
    obtain ⟨next, hplace, -⟩ := bind_eq_ok_iff.1 h
    have hnext : ofFields order (before ++ [field]) = .ok next := by
      rw [ofFields_append hreached, List.foldlM_cons, hplace]
      rfl
    exact not_overwrites_of_keeps (fills_of_place hplace) (hkeeps before _ reached rfl hreached)
      (hkeeps (before ++ [field]) after next (by simp) hnext)
  · rintro hnever before after reached rfl hreached
    rw [ofFields_append hreached] at h
    refine keeps_of_foldlM h ?_
    rintro first field rest later rfl hlater
    refine hnever (before ++ first) field rest later (by simp) ?_
    rw [ofFields_append hreached]
    exact hlater

/-- A text whose first number would be the day if none of eight digits followed, and one that is
both before noon and after it.  Neither is refused. -/
theorem keeps_iff_of_ofFields_overwritten :
    (∃ fields last, DateField.ofText? "5 19700101".toList = some fields ∧
      ofFields .mdy fields = .ok last ∧ last.day = some 1 ∧ ¬ Throughout .mdy fields last Keeps) ∧
    ∃ fields last, DateField.ofText? "19700101 10:00 am pm".toList = some fields ∧
      ofFields .mdy fields = .ok last ∧ last.afternoon = some true ∧
      ¬ Throughout .mdy fields last Keeps := by
  constructor
  · refine ⟨[.number "5".toList, .number "19700101".toList], _, by decide +kernel, rfl, rfl, ?_⟩
    intro hkeeps
    have hnever := (keeps_iff_of_ofFields rfl).2.1 hkeeps
    refine hnever [_] _ [] _ rfl rfl ?_
    exact .day (n := 19700101) (d := 5) rfl rfl rfl rfl rfl (by decide)
  · refine ⟨[.number "19700101".toList, .time "10:00".toList, .word "am".toList,
      .word "pm".toList], _, by decide +kernel, rfl, rfl, ?_⟩
    intro hkeeps
    have hnever := (keeps_iff_of_ofFields rfl).2.1 hkeeps
    refine hnever [_, _, _] _ [] _ rfl rfl ?_
    exact .afternoon rfl rfl (show true ≠ false by decide)

end Horology.DateSlots
