import Horology.Duration.Layout
import Horology.Proofs.Duration.Designator
import Horology.Proofs.Duration.Phrase

/-!
# Layouts of a duration are read back

A duration of whole seconds survives being written and read in each of the three styles.  A writer
goes from field to field and keeps, besides the text, whether it is the first one and which
direction holds; what it has written at any moment is a stretch of a phrase that leads to the fields
written so far, or to their opposites where the direction is backwards.

## Main definitions

* `Duration.IsWhole` — the durations that are written without loss.
* `Duration.opposite` — the duration with all signs changed.
* `Draft.Signed`, `Draft.Directed` — what a text under way says.
* `read_write` — the round trip, and `read_phrase_writeIso` what becomes of designators before.
-/

namespace Horology.Duration

open DurationPhrase Quantity

/-! ## Whole durations -/

/-- A duration whose fields have opposites that fit. -/
structure HasOpposite (d : Duration) : Prop where
  years : d.years.natAbs ≤ 9223372036854775807
  months : d.months.natAbs ≤ 9223372036854775807
  days : d.days.natAbs ≤ 9223372036854775807
  hours : d.hours.natAbs ≤ 9223372036854775807
  minutes : d.minutes.natAbs ≤ 9223372036854775807
  seconds : d.seconds.natAbs ≤ 9223372036854775807
  micros : d.micros.natAbs ≤ 9223372036854775807

/-- A duration of whole seconds as the layouts show it: the clock part has one sign, and its minutes
and seconds are below sixty. -/
structure IsWhole (d : Duration) : Prop where
  hasOpposite : d.HasOpposite
  micros : d.micros = 0
  minutes : d.minutes.natAbs ≤ 59
  seconds : d.seconds.natAbs ≤ 59
  sameSign : 0 ≤ d.hours ∧ 0 ≤ d.minutes ∧ 0 ≤ d.seconds ∨
    d.hours ≤ 0 ∧ d.minutes ≤ 0 ∧ d.seconds ≤ 0

/-- The duration with all signs changed. -/
def opposite (d : Duration) : Duration where
  years := -d.years
  months := -d.months
  days := -d.days
  hours := -d.hours
  minutes := -d.minutes
  seconds := -d.seconds
  micros := -d.micros

@[simp] theorem opposite_opposite (d : Duration) : d.opposite.opposite = d := by
  simp [opposite]

@[simp] theorem opposite_zero : zero.opposite = zero := rfl

theorem HasOpposite.fits {d : Duration} (h : d.HasOpposite) : d.Fits := by
  obtain ⟨h1, h2, h3, h4, h5, h6, h7⟩ := h
  simp only [Fits, Fits64]
  omega

theorem HasOpposite.opposite {d : Duration} (h : d.HasOpposite) : d.opposite.HasOpposite := by
  obtain ⟨h1, h2, h3, h4, h5, h6, h7⟩ := h
  constructor <;> simpa only [Duration.opposite, Int.natAbs_neg]

/-- Negation is a fault exactly if the opposite of a field does not fit. -/
theorem negate?_eq_ite (d : Duration) :
    d.negate? = if d.opposite.Fits then .ok d.opposite else .error .overflow := by
  simp only [negate?, fit_bind]
  by_cases h : d.opposite.Fits
  · obtain ⟨h1, h2, h3, h4, h5, h6, h7⟩ := id h
    simp only [opposite] at h1 h2 h3 h4 h5 h6 h7
    rw [if_pos h, if_pos h1, if_pos h2, if_pos h3, if_pos h4, if_pos h5, if_pos h6, if_pos h7]
    rfl
  · rw [if_neg h]
    simp only [Fits, opposite] at h
    grind

/-- The opposite of a duration that has one. -/
theorem negate?_eq {d : Duration} (h : d.HasOpposite) : d.negate? = .ok d.opposite := by
  rw [negate?_eq_ite, if_pos h.opposite.fits]

theorem IsWhole.opposite {d : Duration} (h : d.IsWhole) : d.opposite.IsWhole where
  hasOpposite := h.hasOpposite.opposite
  micros := by simp [Duration.opposite, h.micros]
  minutes := by simpa only [Duration.opposite, Int.natAbs_neg] using h.minutes
  seconds := by simpa only [Duration.opposite, Int.natAbs_neg] using h.seconds
  sameSign := by
    have hsign := h.sameSign
    simp only [Duration.opposite]
    omega

/-! ## Field by field -/

/-- The fields of years to days. -/
def date (d : Duration) : Duration where
  years := d.years
  months := d.months
  days := d.days

/-- The fields of years to hours. -/
def toHours (d : Duration) : Duration where
  years := d.years
  months := d.months
  days := d.days
  hours := d.hours

/-- The fields of years to minutes. -/
def toMinutes (d : Duration) : Duration where
  years := d.years
  months := d.months
  days := d.days
  hours := d.hours
  minutes := d.minutes

/-- The steps from zero to a duration of whole seconds, one for each field. -/
structure Steps (d : Duration) : Prop where
  years : Step zero d.years .year { years := d.years }
  months : Step { years := d.years } d.months .month { years := d.years, months := d.months }
  days : Step { years := d.years, months := d.months } d.days .day d.date
  hours : Step d.date d.hours .hour d.toHours
  minutes : Step d.toHours d.minutes .minute d.toMinutes
  seconds : Step d.toMinutes d.seconds .second d

/-- A number of a unit is added where both durations have opposites. -/
theorem step_of_plus_eq {d d' : Duration} (hd : d.HasOpposite) (hd' : d'.HasOpposite) {n : Int}
    (hn : n.natAbs ≤ 9223372036854775807) {unit : TimeUnit} (hunit : unit.isWhole = true)
    (hscale : unit.scale = 1) (hplus : d.plus n unit = d') : Step d n unit d' := by
  subst hplus
  exact step_plus hd.fits hn hunit hscale hd'.fits

theorem IsWhole.steps {d : Duration} (h : d.IsWhole) : d.Steps := by
  obtain ⟨h1, h2, h3, h4, h5, h6, h7⟩ := h.hasOpposite
  have h0 : (0 : Int).natAbs ≤ 9223372036854775807 := by decide
  have hzero : zero.HasOpposite := ⟨h0, h0, h0, h0, h0, h0, h0⟩
  have hyears : HasOpposite { years := d.years } := ⟨h1, h0, h0, h0, h0, h0, h0⟩
  have hmonths : HasOpposite { years := d.years, months := d.months } :=
    ⟨h1, h2, h0, h0, h0, h0, h0⟩
  have hdays : d.date.HasOpposite := ⟨h1, h2, h3, h0, h0, h0, h0⟩
  have hhours : d.toHours.HasOpposite := ⟨h1, h2, h3, h4, h0, h0, h0⟩
  have hminutes : d.toMinutes.HasOpposite := ⟨h1, h2, h3, h4, h5, h0, h0⟩
  have hmicros : d.micros = 0 := h.micros
  constructor
  · exact step_of_plus_eq hzero hyears h1 rfl rfl (by simp [plus, zero, TimeUnit.scale])
  · exact step_of_plus_eq hyears hmonths h2 rfl rfl (by simp [plus, TimeUnit.scale])
  · exact step_of_plus_eq hmonths hdays h3 rfl rfl (by simp [plus, date, TimeUnit.scale])
  · exact step_of_plus_eq hdays hhours h4 rfl rfl (by simp [plus, date, toHours, TimeUnit.scale])
  · exact step_of_plus_eq hhours hminutes h5 rfl rfl
      (by simp [plus, toHours, toMinutes, TimeUnit.scale])
  · refine step_of_plus_eq hminutes h.hasOpposite h6 rfl rfl ?_
    cases d
    simpa [plus, toMinutes, TimeUnit.scale] using hmicros.symm

/-- A text that is a phrase is read as one. -/
theorem read_of_phrase {text : List Char} {d : Duration}
    (h : DurationPhrase.read text = .ok (.delta d)) : Duration.read text = .ok (.delta d) := by
  rw [Duration.read, h]

/-! ## Designators -/

/-- Whole seconds with their designator. -/
theorem designated_seconds {seconds micros : Int} (hmicros : micros = 0) :
    (if seconds = 0 ∧ micros = 0 then []
      else (if seconds < 0 ∨ micros < 0 then ['-'] else [])
        ++ writeSeconds 1 seconds micros ++ ['S']) = designated seconds 'S' := by
  subst hmicros
  by_cases hzero : seconds = 0
  · simp [designated, hzero]
  · rw [if_neg (by simp [hzero]), designated, if_neg hzero, writeSeconds, if_pos rfl,
      Numeral.padded_one, Numeral.writeInt]
    by_cases hneg : seconds < 0
    · simp [hneg]
    · simp [hneg]

/-- The designators of a duration behind the first letter. -/
def designators (d : Duration) : List Char :=
  designated d.years 'Y' ++ (designated d.months 'M' ++ (designated d.days 'D' ++
    ((if d.hasClock then ['T'] else []) ++ (designated d.hours 'H' ++
      (designated d.minutes 'M' ++ (designated d.seconds 'S' ++ []))))))

theorem writeIso_eq {d : Duration} (h : d.IsWhole) (hne : d ≠ zero) :
    d.writeIso = 'P' :: d.designators := by
  rw [writeIso, if_neg hne, designated_seconds h.micros]
  simp [designators]

theorem clock_eq_zero {d : Duration} (h : d.hasClock = false) :
    d.hours = 0 ∧ d.minutes = 0 ∧ d.seconds = 0 := by
  simp only [hasClock, Bool.or_eq_false_iff, bne_eq_false_iff_eq] at h
  exact ⟨h.1.1.1, h.1.1.2, h.1.2⟩

/-- A duration without a clock part is its date. -/
theorem Steps.date_eq {d : Duration} (h : d.Steps) (hclock : d.hasClock = false) : d.date = d := by
  obtain ⟨hhours, hminutes, hseconds⟩ := clock_eq_zero hclock
  rw [← h.hours.stay hhours, ← h.minutes.stay hminutes, ← h.seconds.stay hseconds]

/-- Reading the designators of a duration adds its fields. -/
theorem readParts_designators {d : Duration} (h : d.Steps) :
    DurationDesignator.readParts false zero d.designators = .ok d := by
  open DurationDesignator in
  rw [designators, readParts_designated h.years rfl, readParts_designated h.months rfl,
    readParts_designated h.days rfl]
  by_cases hclock : d.hasClock
  · rw [if_pos hclock, List.cons_append, List.nil_append, readParts_joint,
      readParts_designated h.hours rfl, readParts_designated h.minutes rfl,
      readParts_designated h.seconds rfl, readParts_nil]
  · obtain ⟨hhours, hminutes, hseconds⟩ := clock_eq_zero (Bool.eq_false_iff.2 hclock)
    rw [if_neg hclock, hhours, hminutes, hseconds]
    simp only [designated, if_true, List.nil_append, readParts_nil]
    exact congrArg Except.ok (h.date_eq (Bool.eq_false_iff.2 hclock))

/-- The designators of a duration can be cut into tokens. -/
theorem isTail_designators {d : Duration} (h : d.HasOpposite) :
    DurationDesignator.IsTail d.designators := by
  obtain ⟨h1, h2, h3, h4, h5, h6, -⟩ := h
  have hseconds := DurationDesignator.isTail_nil.designated_append h6 (c := 'S') rfl
  have htime := (hseconds.designated_append h5 (c := 'M') rfl).designated_append h4 (c := 'H') rfl
  have hjoint := htime.letter_cons (c := 'T') rfl
  refine DurationDesignator.IsTail.designated_append h1 rfl
    (DurationDesignator.IsTail.designated_append h2 rfl
      (DurationDesignator.IsTail.designated_append h3 rfl ?_))
  by_cases hclock : d.hasClock
  · rw [if_pos hclock]
    exact hjoint
  · rw [if_neg hclock]
    exact htime

/-- The empty duration in designators is letters and a number too. -/
theorem isTail_zero : DurationDesignator.IsTail "T0S".toList :=
  (DurationDesignator.isTail_nil.number_append (isNumber_write (n := 0) (by decide)) (c := 'S')
    rfl).letter_cons (c := 'T') rfl

/-- A duration in designators is no phrase. -/
theorem read_phrase_writeIso {d : Duration} (h : d.IsWhole) :
    DurationPhrase.read d.writeIso = .error .badFormat := by
  by_cases hzero : d = zero
  · rw [writeIso, if_pos hzero]
    exact DurationDesignator.read_eq_badFormat_of_isTail isTail_zero
  · rw [writeIso_eq h hzero]
    exact DurationDesignator.read_eq_badFormat_of_isTail (isTail_designators h.hasOpposite)

/-- What stands behind the first letter is read as the parts that it is. -/
theorem read_designators {cs : List Char} {d : Duration} (hcs : DurationDesignator.IsTail cs)
    (hne : cs ≠ []) (hparts : DurationDesignator.readParts false zero cs = .ok d) :
    DurationDesignator.read ('P' :: cs) = .ok (.delta d) := by
  rw [DurationDesignator.read_cons hne hcs.inside, hparts]
  rfl

/-- A duration of whole seconds is read back from its designators. -/
theorem read_writeIso {d : Duration} (h : d.IsWhole) :
    Duration.read d.writeIso = .ok (.delta d) := by
  rw [Duration.read, read_phrase_writeIso h]
  by_cases hzero : d = zero
  · subst hzero
    refine read_designators isTail_zero (by decide) ?_
    have hstep : Step zero 0 .second zero :=
      step_plus fits_zero (by decide) rfl rfl (by decide)
    have hseconds : DurationDesignator.readParts true zero "0S".toList =
        DurationDesignator.readParts true zero [] :=
      DurationDesignator.readParts_number (isNumber_write (n := 0) (by decide)) rfl hstep.add []
    rw [DurationDesignator.readParts_nil] at hseconds
    exact (DurationDesignator.readParts_joint _).trans hseconds
  · rw [writeIso_eq h hzero]
    refine read_designators (isTail_designators h.hasOpposite) ?_ (readParts_designators h.steps)
    intro hnil
    have hparts := readParts_designators h.steps
    rw [hnil, DurationDesignator.readParts_nil] at hparts
    exact hzero (Except.ok.inj hparts).symm

/-! ## Units by name -/

/-- That a name spells a unit alone and with an `s` behind it. -/
def Names (name : String) (unit : TimeUnit) : Prop :=
  SpellsUnit name.toList unit ∧ SpellsUnit (name.toList ++ ['s']) unit

instance (name : String) (unit : TimeUnit) : Decidable (Names name unit) :=
  inferInstanceAs (Decidable (_ ∧ _))

theorem names_year : Names "year" .year := by decide

theorem names_month : Names "mon" .month := by decide

theorem names_day : Names "day" .day := by decide

theorem names_hour : Names "hour" .hour := by decide

theorem names_minute : Names "min" .minute := by decide

theorem names_second : Names "sec" .second := by decide

/-- A name in the singular or in the plural. -/
theorem Names.spells {name : String} {unit : TimeUnit} (h : Names name unit) (p : Prop)
    [Decidable p] : SpellsUnit (name.toList ++ (if p then [] else ['s'])) unit := by
  split
  · rw [List.append_nil]
    exact h.1
  · exact h.2

/-! ## Fields with their own signs -/

/-- That a text under way says a duration, each field with its own sign. -/
structure Draft.Signed (draft : Draft) (d : Duration) : Prop where
  first : draft.isFirst = true → draft.text = [] ∧ d = zero
  next : draft.isFirst = false → Adds draft.text zero d

/-- A text to which nothing has been written says nothing. -/
theorem Draft.signed_empty : Draft.Signed {} zero := ⟨fun _ => ⟨rfl, rfl⟩, nofun⟩

/-- The next stretch of a text under way, which has a blank before it unless it is the first. -/
theorem Draft.Signed.adds_append {draft : Draft} {d d' : Duration} (h : draft.Signed d)
    {text : List Char} (htext : Adds text d d') :
    Adds (draft.text ++ (if draft.isFirst then [] else [' ']) ++ text) zero d' := by
  cases hfirst : draft.isFirst with
  | true =>
    obtain ⟨hempty, rfl⟩ := h.first hfirst
    simpa [hempty] using htext
  | false =>
    rw [if_neg Bool.false_ne_true, List.append_assoc]
    exact (h.next hfirst).append rfl htext

/-- A field that is written is said. -/
theorem Draft.Signed.signedField {draft : Draft} {d d' : Duration} (h : draft.Signed d) {z : Int}
    {unit : TimeUnit} (hstep : Step d z unit d') {name : String} (hname : Names name unit) :
    (draft.signedField z name).Signed d' := by
  by_cases hzero : z = 0
  · rw [Draft.signedField, if_pos hzero, hstep.stay hzero]
    exact h
  · rw [Draft.signedField, if_neg hzero]
    refine ⟨nofun, ?_⟩
    intro
    have hnumber : IsNumber ((if draft.isBackward && 0 < z then ['+'] else [])
        ++ Numeral.writeInt z) z := by
      split
      · next hplus =>
        simp only [Bool.and_eq_true, decide_eq_true_eq] at hplus
        exact isNumber_plus_writeInt (by omega) hstep.bound
      · exact isNumber_writeInt hstep.bound
    have hadds := h.adds_append (adds_number_unit hnumber (hname.spells (z = 1)) hstep.add)
    simpa [List.append_assoc] using hadds

/-! ## Clock times -/

/-- A sign before a clock time, and whether it makes the time negative. -/
inductive ClockSign : List Char → Bool → Prop where
  | none : ClockSign [] false
  | plus : ClockSign ['+'] false
  | minus : ClockSign ['-'] true

/-- A clock time in groups of at least two digits, without its sign. -/
def unsignedClock (hours minutes seconds : Nat) : List Char :=
  Numeral.padded 2 hours ++ ':' :: Numeral.padded 2 minutes ++ ':' :: Numeral.padded 2 seconds

/-- A clock time with a sign is a stretch that adds its parts with that sign. -/
theorem adds_signed_clock {sign : List Char} {negative : Bool} (hsign : ClockSign sign negative)
    {h m s : Nat} (hh : h ≤ 9223372036854775807) (hm : m ≤ 59) (hs : s ≤ 59) {d d' : Duration}
    (hadd : addClock d negative h m s 0 = .ok d') : Adds (sign ++ unsignedClock h m s) d d' := by
  have hrun := Numeral.isRun_padded 2
  have hread := Numeral.read?_padded 2
  have hclock {cs : List Char} (hsplit : splitSign cs = (negative, unsignedClock h m s)) :
      DurationToken.clock? cs = .ok (.clock negative h m s 0) :=
    DurationToken.clock?_of_runs hsplit (hrun h) (hrun m) (hrun s) (hread h) (hread m) (hread s) hh
      hm (by omega)
  have hbody : ∀ c ∈ unsignedClock h m s, c.isDigit ∨ c = '+' ∨ c = '-' ∨ c = ':' := by
    intro c hc
    simp only [unsignedClock, List.mem_append, List.mem_cons] at hc
    rcases hc with (hc | rfl | hc) | rfl | hc
    · exact .inl ((hrun h).isDigit c hc)
    · decide
    · exact .inl ((hrun m).isDigit c hc)
    · decide
    · exact .inl ((hrun s).isDigit c hc)
  have hcolon : ':' ∈ unsignedClock h m s := by simp [unsignedClock]
  cases hsign with
  | plus => exact adds_clock (by decide) hbody hcolon (hclock rfl) hadd
  | minus => exact adds_clock (by decide) hbody hcolon (hclock rfl) hadd
  | none =>
    have hsplit : splitSign (unsignedClock h m s) = (false, unsignedClock h m s) := by
      rw [unsignedClock, List.append_assoc]
      exact splitSign_of_isRun (hrun h) _
    obtain ⟨c, cs, hcs⟩ := List.exists_cons_of_ne_nil (Numeral.padded_ne_nil 2 h)
    have hc : c.isDigit := (hrun h).isDigit c (by rw [hcs]; exact List.mem_cons_self)
    have hcons : unsignedClock h m s =
        c :: (cs ++ ':' :: Numeral.padded 2 m ++ ':' :: Numeral.padded 2 s) := by
      simp [unsignedClock, hcs]
    have hclock := hclock hsplit
    rw [hcons] at hbody hcolon hclock
    have hne : ':' ≠ c := by
      rintro rfl
      cases hc
    rw [List.nil_append, hcons]
    exact adds_clock (.inl hc) (fun e he => hbody e (List.mem_cons_of_mem c he))
      ((List.mem_cons.1 hcolon).resolve_left hne) hclock hadd

/-- That a duration has a negative part of its clock time. -/
def isNegativeClock (d : Duration) : Bool :=
  decide (d.hours < 0 ∨ d.minutes < 0 ∨ d.seconds < 0 ∨ d.micros < 0)

/-- The parts of a clock time of one sign are their sizes with that sign. -/
theorem signed_natAbs {d : Duration} (h : d.IsWhole) :
    (if d.isNegativeClock then (-1 : Int) else 1) * d.hours.natAbs = d.hours ∧
      (if d.isNegativeClock then (-1 : Int) else 1) * d.minutes.natAbs = d.minutes ∧
        (if d.isNegativeClock then (-1 : Int) else 1) * d.seconds.natAbs = d.seconds := by
  have hmicros := h.micros
  have hsame := h.sameSign
  by_cases hnegative : d.hours < 0 ∨ d.minutes < 0 ∨ d.seconds < 0 ∨ d.micros < 0
  · rw [isNegativeClock, if_pos (by simpa using hnegative)]
    omega
  · rw [isNegativeClock, if_neg (by simpa using hnegative)]
    omega

/-- Adding the parts of its clock time to its date completes a duration. -/
theorem addClock_date {d : Duration} (h : d.IsWhole) :
    addClock d.date d.isNegativeClock d.hours.natAbs d.minutes.natAbs d.seconds.natAbs 0 =
      .ok d := by
  obtain ⟨-, -, -, hfitsHours, hfitsMinutes, hfitsSeconds, hfitsMicros⟩ := h.hasOpposite.fits
  obtain ⟨hhours, hminutes, hseconds⟩ := signed_natAbs h
  have hmicros := h.micros
  have haddHours : d.date.addHours d.hours = .ok d.toHours := by
    rw [addHours, show d.date.hours + d.hours = d.hours from Int.zero_add _, fit_of_fits hfitsHours]
    rfl
  have haddMinutes : d.toHours.addMinutes d.minutes = .ok d.toMinutes := by
    rw [addMinutes, show d.toHours.minutes + d.minutes = d.minutes from Int.zero_add _,
      fit_of_fits hfitsMinutes]
    rfl
  have haddSeconds : d.toMinutes.addSeconds d.seconds = .ok d := by
    rw [addSeconds, show d.toMinutes.seconds + d.seconds = d.seconds from Int.zero_add _,
      fit_of_fits hfitsSeconds]
    cases d
    subst hmicros
    rfl
  have haddMicros : d.addMicros 0 = .ok d := by
    rw [addMicros, Int.add_zero, fit_of_fits hfitsMicros]
    rfl
  simp only [addClock, hhours, hminutes, hseconds, Int.mul_zero, haddHours, haddMinutes,
    haddSeconds, haddMicros, ok_bind]

/-- A duration of whole seconds is read back from units by name and a clock time. -/
theorem read_writePostgres {d : Duration} (h : d.IsWhole) :
    Duration.read d.writePostgres = .ok (.delta d) := by
  have hsteps := h.steps
  have hyears := Draft.signed_empty.signedField hsteps.years names_year
  have hmonths := hyears.signedField hsteps.months names_month
  have hdate := hmonths.signedField hsteps.days names_day
  have hpostgres : d.writePostgres = (
      let draft := ((({} : Draft).signedField d.years "year").signedField d.months
        "mon").signedField d.days "day"
      if draft.isFirst || d.hasClock then
        draft.text ++ (if draft.isFirst then [] else [' ']) ++
          ((if d.isNegativeClock then ['-'] else if draft.isBackward then ['+'] else [])
            ++ unsignedClock d.hours.natAbs d.minutes.natAbs d.seconds.natAbs)
      else draft.text) := by
    simp [writePostgres, writeSeconds, h.micros, unsignedClock, isNegativeClock]
  rw [hpostgres]
  generalize ((({} : Draft).signedField d.years "year").signedField d.months "mon").signedField
    d.days "day" = draft at *
  dsimp only
  by_cases hclock : (draft.isFirst || d.hasClock) = true
  · have hsign : ClockSign (if d.isNegativeClock then ['-'] else if draft.isBackward then ['+']
        else []) d.isNegativeClock := by
      cases d.isNegativeClock with
      | true => exact .minus
      | false =>
        cases draft.isBackward with
        | true => exact .plus
        | false => exact .none
    rw [if_pos hclock]
    exact read_of_phrase (read_of_adds (hdate.adds_append (adds_signed_clock hsign
      h.hasOpposite.hours h.minutes h.seconds (addClock_date h))))
  · rw [if_neg hclock]
    obtain ⟨hnext, hclock⟩ := Bool.or_eq_false_iff.1 (Bool.eq_false_iff.2 hclock)
    have hadds := hdate.next hnext
    rw [hsteps.date_eq hclock] at hadds
    exact read_of_phrase (read_of_adds hadds)

/-! ## Fields with one direction -/

/-- That a text under way says a duration, or its opposite where the direction is backwards. -/
structure Draft.Directed (draft : Draft) (d : Duration) : Prop where
  first : draft.isFirst = true → draft.text = ['@'] ∧ draft.isBackward = false ∧ d = zero
  next : draft.isFirst = false → ∃ text, draft.text = '@' :: ' ' :: text ∧
    Adds text zero (if draft.isBackward then d.opposite else d)

/-- Behind the marker alone nothing has been said. -/
theorem Draft.directed_marker : Draft.Directed { text := ['@'] } zero :=
  ⟨fun _ => ⟨rfl, rfl, rfl⟩, nofun⟩

/-- The next stretch of a text under way.  It keeps the direction, which the first one is free to
choose. -/
theorem Draft.Directed.append {draft : Draft} {d d' : Duration} (h : draft.Directed d)
    {isNegative isBackward : Bool}
    (hdirection : (if draft.isFirst then isNegative else draft.isBackward) = isBackward)
    {text : List Char} (htext : Adds text (if isBackward then d.opposite else d)
      (if isBackward then d'.opposite else d')) :
    Draft.Directed { text := draft.text ++ ' ' :: text, isFirst := false, isBackward } d' := by
  refine ⟨nofun, ?_⟩
  intro
  cases hfirst : draft.isFirst with
  | true =>
    obtain ⟨hmarker, -, rfl⟩ := h.first hfirst
    refine ⟨text, by rw [hmarker]; rfl, ?_⟩
    simpa using htext
  | false =>
    obtain ⟨before, hbefore, hadds⟩ := h.next hfirst
    rw [hfirst, if_neg Bool.false_ne_true] at hdirection
    subst hdirection
    refine ⟨before ++ ' ' :: text, by rw [hbefore]; rfl, ?_⟩
    exact hadds.append rfl htext

/-- A step of a duration and of its opposite. -/
structure StepBoth (d : Duration) (z : Int) (unit : TimeUnit) (d' : Duration) : Prop where
  forward : Step d z unit d'
  backward : Step d.opposite (-z) unit d'.opposite

/-- A number relative to a direction, before its unit, is a stretch in that direction. -/
theorem StepBoth.adds {d d' : Duration} {z : Int} {unit : TimeUnit} (h : StepBoth d z unit d')
    {isBackward : Bool} {number w : List Char}
    (hnumber : IsNumber number (if isBackward then -z else z)) (hw : SpellsUnit w unit) :
    Adds (number ++ ' ' :: w) (if isBackward then d.opposite else d)
      (if isBackward then d'.opposite else d') := by
  cases isBackward with
  | true => exact adds_number_unit hnumber hw h.backward.add
  | false => exact adds_number_unit hnumber hw h.forward.add

/-- A field that is written is said. -/
theorem Draft.Directed.directedField {draft : Draft} {d d' : Duration} (h : draft.Directed d)
    {z : Int} {unit : TimeUnit} (hstep : StepBoth d z unit d') {name : String}
    (hname : Names name unit) : (draft.directedField z name).Directed d' := by
  by_cases hzero : z = 0
  · rw [Draft.directedField, if_pos hzero, hstep.forward.stay hzero]
    exact h
  · simp only [Draft.directedField, if_neg hzero]
    generalize hdirection : (if draft.isFirst then decide (z < 0) else draft.isBackward) =
      isBackward
    have hbound : (if isBackward then -z else z).natAbs ≤ 9223372036854775807 := by
      have := hstep.forward.bound
      split <;> omega
    have hadds := h.append hdirection (hstep.adds (isNumber_writeInt hbound)
      (hname.spells ((if isBackward then -z else z) = 1)))
    simpa [List.append_assoc] using hadds

/-- The digits of a number that is not zero, with a minus sign where its own direction is not the
given one, are the number relative to that direction. -/
theorem isNumber_relative {z : Int} (hz : z.natAbs ≤ 9223372036854775807) (hzero : z ≠ 0)
    (isBackward : Bool) :
    IsNumber ((if decide (z < 0) = isBackward then [] else ['-']) ++ Numeral.write z.natAbs)
      (if isBackward then -z else z) := by
  have hrelative : (if decide (z < 0) = isBackward then [] else ['-']) ++ Numeral.write z.natAbs =
      Numeral.writeInt (if isBackward then -z else z) := by
    cases isBackward with
    | true =>
      by_cases hneg : z < 0
      · simp [Numeral.writeInt, hneg, show ¬ 0 < z by omega]
      · simp [Numeral.writeInt, hneg, show 0 < z by omega]
    | false =>
      by_cases hneg : z < 0
      · simp [Numeral.writeInt, hneg]
      · simp [Numeral.writeInt, hneg]
  have hbound : (if isBackward then -z else z).natAbs ≤ 9223372036854775807 := by
    split <;> omega
  rw [hrelative]
  exact isNumber_writeInt hbound

/-- Whole seconds that are written are said. -/
theorem Draft.Directed.directedSeconds {draft : Draft} {d d' : Duration} (h : draft.Directed d)
    {seconds micros : Int} (hmicros : micros = 0) (hstep : StepBoth d seconds .second d') :
    (draft.directedSeconds seconds micros).Directed d' := by
  subst hmicros
  by_cases hzero : seconds = 0
  · rw [Draft.directedSeconds, if_pos (by simp [hzero]), hstep.forward.stay hzero]
    exact h
  · have hdraft : draft.directedSeconds seconds 0 =
        (let isBackward := if draft.isFirst then decide (seconds < 0) else draft.isBackward
        { text := draft.text ++ ' ' :: ((if decide (seconds < 0) = isBackward then [] else ['-'])
            ++ Numeral.write seconds.natAbs
            ++ ' ' :: ("sec".toList ++ if seconds.natAbs = 1 then [] else ['s']))
          isFirst := false
          isBackward }) := by
      simp [Draft.directedSeconds, hzero, writeSeconds, Numeral.padded_one]
    rw [hdraft]
    dsimp only
    generalize hdirection : (if draft.isFirst then decide (seconds < 0) else draft.isBackward) =
      isBackward
    exact h.append hdirection (hstep.adds
      (isNumber_relative hstep.forward.bound hzero isBackward)
      (names_second.spells (seconds.natAbs = 1)))

/-- The marker and a bare zero are the empty duration. -/
theorem read_marker_zero : DurationPhrase.read "@ 0".toList = .ok (.delta zero) := by
  have hpiece : DurationToken.ofPiece ['0'] = .ok [.quantity (.ofInt 0) none] := by
    have h := DurationToken.ofPiece_number (w := []) (isNumber_write (n := 0) (by decide)) (by simp)
      (fun _ => rfl) (stops_nil _)
    rw [List.append_nil, List.append_nil, DurationToken.ofPiece_nil] at h
    exact h
  have hstep : Step zero 0 .second zero := step_plus fits_zero (by decide) rfl rfl (by decide)
  have htokens : DurationToken.ofText? ['0'] = .ok [.quantity (.ofInt 0) none] := by
    rw [DurationToken.ofText?_piece (by decide), hpiece]
  rw [show "@ 0".toList = '@' :: ' ' :: ['0'] from rfl, read_marker, htokens, ok_bind]
  simp [sum, settle, hstep.add, Except.map]

/-- A duration of whole seconds is read back from units by name with one word for the direction. -/
theorem read_writeVerbose {d : Duration} (h : d.IsWhole) :
    Duration.read d.writeVerbose = .ok (.delta d) := by
  have hsteps := h.steps
  have hopposite := h.opposite.steps
  have hyears :=
    Draft.directed_marker.directedField ⟨hsteps.years, hopposite.years⟩ names_year
  have hmonths := hyears.directedField ⟨hsteps.months, hopposite.months⟩ names_month
  have hdays := hmonths.directedField ⟨hsteps.days, hopposite.days⟩ names_day
  have hhours := hdays.directedField ⟨hsteps.hours, hopposite.hours⟩ names_hour
  have hminutes := hhours.directedField ⟨hsteps.minutes, hopposite.minutes⟩ names_minute
  have hdraft := hminutes.directedSeconds h.micros ⟨hsteps.seconds, hopposite.seconds⟩
  simp only [writeVerbose]
  generalize ((((((({ text := ['@'] } : Draft).directedField d.years "year").directedField d.months
    "mon").directedField d.days "day").directedField d.hours "hour").directedField d.minutes
    "min").directedSeconds d.seconds d.micros) = draft at *
  cases hfirst : draft.isFirst with
  | true =>
    obtain ⟨hmarker, hforward, rfl⟩ := hdraft.first hfirst
    rw [hmarker, hforward]
    exact read_of_phrase read_marker_zero
  | false =>
    obtain ⟨text, htext, hadds⟩ := hdraft.next hfirst
    rw [htext]
    cases hbackward : draft.isBackward with
    | true =>
      rw [hbackward] at hadds
      have hread := read_marker_ago_of_adds hadds
      rw [if_pos rfl, negate?_eq h.hasOpposite.opposite, opposite_opposite] at hread
      refine read_of_phrase ?_
      simpa [Except.map] using hread
    | false =>
      rw [hbackward] at hadds
      refine read_of_phrase ?_
      simpa using read_marker_of_adds hadds

/-- **A duration of whole seconds is read back from its text in every style.** -/
theorem read_write {d : Duration} (h : d.IsWhole) (style : SpanStyle) :
    Duration.read (d.write style) = .ok (.delta d) := by
  cases style with
  | postgres => exact read_writePostgres h
  | verbose => exact read_writeVerbose h
  | iso8601 => exact read_writeIso h

end Horology.Duration
