import Horology.Proofs.Duration.Terms

/-!
# The two grammars agree

Whole numbers of years, months, weeks, days, hours, minutes and seconds, of which some may be
missing, can be written with designators or as a phrase of terms.  Both texts are the same duration,
or both are refused, and for the same reason.

The designators are tried as a phrase first.  There the letters between two numbers are one word,
the `T` among them; no such word is a unit behind the `P`, so that it is never a phrase.  But a
number that does not fit is found while the text is still being cut into tokens, and then it is
final.  Where every number fits, the two readers add them up in the same steps.

## Main definitions

* `Designation` — a unit with its designator and the word for it in a phrase.
* `WholeParts` — the numbers, with their texts `WholeParts.designated` and `WholeParts.spelled`.
* `DesignatedTerm.readParts_flatMap_append` — the second reader takes the steps of the first.
* `DurationDesignator.CutsIf` — when the text behind the `P` can be cut into tokens.
* `WholeParts.read_designated_eq_read_spelled` — the two texts agree.
-/

namespace Horology

open Numeral (IsRun)
open Duration DurationPhrase DurationToken

/-! ## Parts -/

/-- A unit that has a designator, and the word that a phrase has for it. -/
structure Designation where
  unit : TimeUnit
  inTime : Bool
  letter : Char
  word : List Char
  designates : DurationDesignator.unit? inTime letter = some unit
  spells : SpellsUnit word unit
  isWhole : unit.isWhole = true

namespace Designation

def years : Designation := ⟨.year, false, 'Y', "years".toList, rfl, by decide, rfl⟩

def months : Designation := ⟨.month, false, 'M', "mons".toList, rfl, by decide, rfl⟩

def weeks : Designation := ⟨.week, false, 'W', "weeks".toList, rfl, by decide, rfl⟩

def days : Designation := ⟨.day, false, 'D', "days".toList, rfl, by decide, rfl⟩

def hours : Designation := ⟨.hour, true, 'H', "hours".toList, rfl, by decide, rfl⟩

def minutes : Designation := ⟨.minute, true, 'M', "mins".toList, rfl, by decide, rfl⟩

def seconds : Designation := ⟨.second, true, 'S', "secs".toList, rfl, by decide, rfl⟩

end Designation

/-- A whole number of any size as it is written. -/
structure SignedNumeral where
  sign : NumberSign
  digits : List Char
  isRun : IsRun digits

/-- A whole number of a unit that has a designator. -/
structure DesignatedTerm where
  number : SignedNumeral
  designation : Designation

namespace DesignatedTerm

variable (t : DesignatedTerm)

/-- The number before the word for its unit, as in a phrase. -/
def term : WholeTerm where
  sign := t.number.sign
  digits := t.number.digits
  gap := [' ']
  word := t.designation.word
  unit := t.designation.unit
  isRun := t.number.isRun
  isGap := List.forall_mem_singleton.2 rfl
  spells := t.designation.spells
  isWhole := t.designation.isWhole

/-- The number before its designator. -/
def compact : List Char := t.term.numeral ++ [t.designation.letter]

end DesignatedTerm

/-- The numbers of a duration, each of them there or not. -/
structure WholeParts where
  years : Option SignedNumeral := none
  months : Option SignedNumeral := none
  weeks : Option SignedNumeral := none
  days : Option SignedNumeral := none
  hours : Option SignedNumeral := none
  minutes : Option SignedNumeral := none
  seconds : Option SignedNumeral := none

namespace WholeParts

variable (p : WholeParts)

/-- The numbers that are there, with their units. -/
def present (numbers : List (Option SignedNumeral × Designation)) : List DesignatedTerm :=
  numbers.filterMap fun (number, designation) => number.map fun n => ⟨n, designation⟩

/-- The terms that come before the `T`. -/
def dateTerms : List DesignatedTerm :=
  present [(p.years, .years), (p.months, .months), (p.weeks, .weeks), (p.days, .days)]

/-- The terms that come behind it. -/
def clockTerms : List DesignatedTerm :=
  present [(p.hours, .hours), (p.minutes, .minutes), (p.seconds, .seconds)]

/-- All terms, in the order in which both texts have them. -/
def terms : List WholeTerm := (p.dateTerms ++ p.clockTerms).map (·.term)

/-- The `T` and the terms behind it; there is none without the other. -/
def clockText : List Char :=
  if p.clockTerms.isEmpty then [] else 'T' :: p.clockTerms.flatMap (·.compact)

/-- The text of the second grammar. -/
def designated : List Char := 'P' :: (p.dateTerms.flatMap (·.compact) ++ p.clockText)

/-- The text of the first grammar, one blank between any two words. -/
def spelled : List Char := [' '].intercalate (p.terms.map (·.text))

end WholeParts

/-! ## The same steps -/

namespace WholeTerm

variable {t : WholeTerm}

theorem splitSign_numeral_append (t : WholeTerm) (rest : List Char) :
    Quantity.splitSign (t.numeral ++ rest) = (decide (t.sign = .minus), t.digits ++ rest) := by
  rw [numeral, List.append_assoc]
  cases t.sign with
  | none => exact Quantity.splitSign_of_isRun t.isRun rest
  | plus => rfl
  | minus => rfl

/-- The number of a term is scanned up to its designator. -/
theorem scan_numeral_append (h : t.InRange) {rest : List Char}
    (hrest : Stops Quantity.endsWhole rest) :
    Quantity.scan (t.numeral ++ rest) = .ok (.ofInt t.number, rest) := by
  have hfits : Fits64 (Numeral.value t.digits : Int) := by
    simp only [InRange, magnitude] at h
    exact ⟨by omega, by omega⟩
  rw [Quantity.scan_of_isRun t.isRun hrest (splitSign_numeral_append t rest),
    Quantity.ofDigits_nil, fit_of_fits hfits]
  simp [bind, Except.bind, pure, Except.pure, number, magnitude]

/-- What terms and further tokens add up to. -/
theorem sum_flatMap_tokens_append (d : Duration) (terms : List WholeTerm)
    (more : List DurationToken) :
    sum d none (terms.flatMap tokens ++ more) =
      sum d none (terms.flatMap tokens) >>= fun d' => sum d' none more := by
  induction terms generalizing d with
  | nil => rfl
  | cons t terms ih =>
    rw [List.flatMap_cons, List.append_assoc, sum_tokens_append, sum_tokens_append]
    cases d.add? (.ofInt t.number) t.unit with
    | error fault => rfl
    | ok d' => exact ih d'

end WholeTerm

namespace DesignatedTerm

variable {d : Duration} {inTime : Bool} {t : DesignatedTerm} {ts : List DesignatedTerm}

/-- A term with its designator is added as it is in a phrase. -/
theorem readParts_compact_append (hin : t.designation.inTime = inTime) (hrange : t.term.InRange)
    (rest : List Char) :
    DurationDesignator.readParts inTime d (t.compact ++ rest) =
      d.add? (.ofInt t.term.number) t.term.unit >>= fun d' =>
        DurationDesignator.readParts inTime d' rest := by
  subst hin
  have hletter := DurationDesignator.isAlpha_of_unit? t.designation.designates
  have hpoint : t.designation.letter ≠ '.' := ne_of_class hletter rfl
  have hends : Stops Quantity.endsWhole (t.designation.letter :: rest) := by
    simp [Quantity.endsWhole, isDigit_eq_false_of_isAlpha hletter, hpoint]
  have hscan := WholeTerm.scan_numeral_append hrange hends
  have hpart : DurationDesignator.readPart t.designation.inTime d
      (t.term.numeral ++ t.designation.letter :: rest) =
        d.add? (.ofInt t.term.number) t.term.unit >>= fun d' => .ok (d', rest) := by
    have hunit : DurationDesignator.unit? t.designation.inTime t.designation.letter =
        some t.term.unit := t.designation.designates
    simp only [DurationDesignator.readPart, hscan, ok_bind, DurationDesignator.readAfter, hunit]
    rfl
  have hnumeral := WholeTerm.isDigit_or_sign_of_mem_numeral (t := t.term)
  rw [compact, List.append_assoc, List.singleton_append]
  cases hcs : t.term.numeral with
  | nil => exact absurd hcs WholeTerm.numeral_ne_nil
  | cons c cs =>
    have hfirst : c ≠ 'T' := by
      rintro rfl
      exact absurd (hnumeral 'T' (by simp [hcs])) (by decide)
    rw [hcs, List.cons_append] at hpart
    rw [List.cons_append, DurationDesignator.readParts_cons hfirst, hpart]
    cases d.add? (.ofInt t.term.number) t.term.unit <;> rfl

/-- **Terms with their designators are added in the steps of a phrase.** -/
theorem readParts_flatMap_append (hin : ∀ t ∈ ts, t.designation.inTime = inTime)
    (hrange : ∀ t ∈ ts, t.term.InRange) (rest : List Char) :
    DurationDesignator.readParts inTime d (ts.flatMap compact ++ rest) =
      sum d none ((ts.map term).flatMap (·.tokens)) >>= fun d' =>
        DurationDesignator.readParts inTime d' rest := by
  induction ts generalizing d with
  | nil => rfl
  | cons t ts ih =>
    rw [List.forall_mem_cons] at hin hrange
    rw [List.flatMap_cons, List.append_assoc, readParts_compact_append hin.1 hrange.1,
      List.map_cons, List.flatMap_cons, WholeTerm.sum_tokens_append]
    cases d.add? (.ofInt t.term.number) t.term.unit with
    | error fault => rfl
    | ok d' => exact ih hin.2 hrange.2

end DesignatedTerm

/-! ## Designators as a phrase -/

namespace DurationDesignator

variable {fits : Prop} {c : Char} {cs : List Char} {t : DesignatedTerm} {ts : List DesignatedTerm}

/-- That what stands behind letters of a piece can, behind further letters, be cut into tokens if
`fits` holds, and has too large a number in it otherwise. -/
def CutsIf (fits : Prop) (cs : List Char) : Prop :=
  ∃ letters rest, cs = letters ++ rest ∧ (∀ c ∈ letters, c.isAlpha) ∧ Stops Char.isAlpha rest ∧
    (fits → ∃ tokens, ofPiece rest = .ok tokens) ∧ (¬ fits → ofPiece rest = .error .overflow)

theorem cutsIf_nil : CutsIf True [] :=
  ⟨[], [], rfl, nofun, stops_nil _, fun _ => ⟨[], ofPiece_nil⟩, fun h => absurd trivial h⟩

/-- A letter may stand in front. -/
theorem CutsIf.letter_cons (hc : c.isAlpha = true) (h : CutsIf fits cs) :
    CutsIf fits (c :: cs) := by
  obtain ⟨letters, rest, rfl, hletters, hrest⟩ := h
  exact ⟨c :: letters, rest, rfl, List.forall_mem_cons.2 ⟨hc, hletters⟩, hrest⟩

/-- A term may stand in front; its number has to fit, too. -/
theorem CutsIf.compact_append (t : DesignatedTerm) (h : CutsIf fits cs) :
    CutsIf (t.term.InRange ∧ fits) (t.compact ++ cs) := by
  obtain ⟨letters, rest, rfl, hletters, hrest, hok, hbad⟩ := h
  have hletter := isAlpha_of_unit? t.designation.designates
  have hunit (hnil : t.designation.letter :: letters = []) : rest = [] :=
    absurd hnil (List.cons_ne_nil _ _)
  have hpiece := ofPiece_numeric WholeTerm.numeral_ne_nil
    (WholeTerm.isDigit_or_sign_of_mem_numeral (t := t.term))
    (List.forall_mem_cons.2 ⟨hletter, hletters⟩) hunit hrest
  have hshape : t.term.numeral ++ t.designation.letter :: letters ++ rest =
      t.compact ++ (letters ++ rest) := by
    simp [DesignatedTerm.compact]
  rw [hshape, WholeTerm.quantity?_numeral] at hpiece
  refine ⟨[], t.compact ++ (letters ++ rest), rfl, nofun, ?_, ?_, ?_⟩
  · cases hcs : t.term.numeral with
    | nil => exact absurd hcs WholeTerm.numeral_ne_nil
    | cons c cs =>
      have hc := WholeTerm.isDigit_or_sign_of_mem_numeral (t := t.term) c (by simp [hcs])
      rw [DesignatedTerm.compact, hcs, List.cons_append, List.cons_append, stops_cons]
      exact (ne_marker_of_beginsNumber (beginsNumber_of_isDigit_or_sign hc)).2
  · rintro ⟨hrange, hfits⟩
    obtain ⟨tokens, htokens⟩ := hok hfits
    rw [if_pos hrange, htokens] at hpiece
    exact ⟨_, hpiece⟩
  · intro hnot
    by_cases hrange : t.term.InRange
    · rw [if_pos hrange, hbad fun hfits => hnot ⟨hrange, hfits⟩] at hpiece
      exact hpiece
    · rw [if_neg hrange] at hpiece
      exact hpiece

/-- So may any number of terms. -/
theorem CutsIf.flatMap_append (ts : List DesignatedTerm) (h : CutsIf fits cs) :
    CutsIf ((∀ t ∈ ts, t.term.InRange) ∧ fits) (ts.flatMap (·.compact) ++ cs) := by
  induction ts with
  | nil => simpa using h
  | cons t ts ih =>
    rw [List.flatMap_cons, List.append_assoc, List.forall_mem_cons, and_assoc]
    exact ih.compact_append t

/-- **Designators are no phrase.**  Behind the `P` there is a fault of form if every number fits,
and otherwise one of size. -/
theorem read_of_cutsIf (h : CutsIf fits cs) (hinside : ∀ c ∈ cs, isBlank c = false) :
    (fits → DurationPhrase.read ('P' :: cs) = .error .badFormat) ∧
      (¬ fits → DurationPhrase.read ('P' :: cs) = .error .overflow) := by
  obtain ⟨letters, rest, rfl, hletters, hrest, hok, hbad⟩ := h
  constructor
  · intro hfits
    obtain ⟨tokens, htokens⟩ := hok hfits
    exact read_eq_badFormat_of_isTail
      ⟨hinside, letters, rest, tokens, rfl, hletters, hrest, htokens⟩
  · intro hnot
    have hpiece := ofPiece_letters (List.cons_ne_nil 'P' letters)
      (List.forall_mem_cons.2 ⟨rfl, hletters⟩) hrest
    rw [hbad hnot, List.cons_append] at hpiece
    have hwhole : IsPiece isBlank ('P' :: (letters ++ rest)) :=
      ⟨List.cons_ne_nil _ _, List.forall_mem_cons.2 ⟨rfl, hinside⟩⟩
    rw [DurationPhrase.read, ofText?_piece hwhole, hpiece]
    rfl

end DurationDesignator

/-! ## Agreement -/

namespace WholeParts

variable (p : WholeParts)

/-- The terms in front of the `T` have designators of the date. -/
theorem inTime_of_mem_dateTerms : ∀ t ∈ p.dateTerms, t.designation.inTime = false := by
  intro t ht
  simp only [dateTerms, present, List.mem_filterMap, List.mem_cons, List.not_mem_nil,
    or_false, Option.map_eq_some_iff] at ht
  obtain ⟨⟨number, designation⟩, hmem, n, -, rfl⟩ := ht
  simp only [Prod.mk.injEq] at hmem
  rcases hmem with ⟨-, rfl⟩ | ⟨-, rfl⟩ | ⟨-, rfl⟩ | ⟨-, rfl⟩ <;> rfl

/-- Those behind it have designators of the clock. -/
theorem inTime_of_mem_clockTerms : ∀ t ∈ p.clockTerms, t.designation.inTime = true := by
  intro t ht
  simp only [clockTerms, present, List.mem_filterMap, List.mem_cons, List.not_mem_nil,
    or_false, Option.map_eq_some_iff] at ht
  obtain ⟨⟨number, designation⟩, hmem, n, -, rfl⟩ := ht
  simp only [Prod.mk.injEq] at hmem
  rcases hmem with ⟨-, rfl⟩ | ⟨-, rfl⟩ | ⟨-, rfl⟩ <;> rfl

/-- The numbers of all terms fit if those in front of the `T` and those behind it do. -/
theorem inRange_iff :
    (∀ t ∈ p.terms, t.InRange) ↔
      (∀ t ∈ p.dateTerms, t.term.InRange) ∧ ∀ t ∈ p.clockTerms, t.term.InRange := by
  simp only [terms, List.forall_mem_map, List.forall_mem_append]

theorem cutsIf_clockText :
    DurationDesignator.CutsIf (∀ t ∈ p.clockTerms, t.term.InRange) p.clockText := by
  have hcut := DurationDesignator.cutsIf_nil.flatMap_append p.clockTerms
  rw [and_true, List.append_nil] at hcut
  rw [clockText]
  split
  · next hempty =>
    rw [List.isEmpty_iff.1 hempty] at hcut ⊢
    exact hcut
  · exact hcut.letter_cons rfl

/-- Designators are letters, and the numbers before them signs and digits. -/
theorem isBlank_eq_false_of_mem_flatMap (ts : List DesignatedTerm) :
    ∀ c ∈ ts.flatMap (·.compact), isBlank c = false := by
  intro c hc
  obtain ⟨t, -, hc⟩ := List.mem_flatMap.1 hc
  rcases List.mem_append.1 hc with hc | hc
  · have hsort := WholeTerm.isDigit_or_sign_of_mem_numeral c hc
    exact isBlank_eq_false_of_numeric (hsort.imp_right fun h => h.imp_right .inl)
  · rw [List.mem_singleton.1 hc]
    exact isBlank_eq_false_of_isAlpha
      (DurationDesignator.isAlpha_of_unit? t.designation.designates)

theorem isBlank_eq_false_of_mem_designators :
    ∀ c ∈ p.dateTerms.flatMap (·.compact) ++ p.clockText, isBlank c = false := by
  refine List.forall_mem_append.2 ⟨isBlank_eq_false_of_mem_flatMap p.dateTerms, ?_⟩
  rw [clockText]
  split
  · exact nofun
  · exact List.forall_mem_cons.2 ⟨rfl, isBlank_eq_false_of_mem_flatMap p.clockTerms⟩

/-- The second reader adds the terms behind the `T` in the steps of a phrase. -/
theorem readParts_clockText (d : Duration) (hrange : ∀ t ∈ p.clockTerms, t.term.InRange) :
    DurationDesignator.readParts false d p.clockText =
      sum d none ((p.clockTerms.map (·.term)).flatMap (·.tokens)) := by
  rw [clockText]
  split
  · next hempty =>
    rw [List.isEmpty_iff.1 hempty, DurationDesignator.readParts_nil]
    rfl
  · have hparts := DesignatedTerm.readParts_flatMap_append (d := d) p.inTime_of_mem_clockTerms
      hrange []
    rw [List.append_nil] at hparts
    simp only [DurationDesignator.readParts_joint, hparts, DurationDesignator.readParts_nil]
    cases sum d none ((p.clockTerms.map (·.term)).flatMap (·.tokens)) <;> rfl

/-- The second reader adds all terms in the steps of a phrase. -/
theorem readParts_designated (hrange : ∀ t ∈ p.terms, t.InRange) :
    DurationDesignator.readParts false .zero
        (p.dateTerms.flatMap (·.compact) ++ p.clockText) =
      sum .zero none (p.terms.flatMap (·.tokens)) := by
  obtain ⟨hdate, hclock⟩ := p.inRange_iff.1 hrange
  rw [DesignatedTerm.readParts_flatMap_append p.inTime_of_mem_dateTerms hdate, terms,
    List.map_append, List.flatMap_append, WholeTerm.sum_flatMap_tokens_append]
  simp only [p.readParts_clockText _ hclock]

/-- The text with designators is no phrase. -/
theorem read_phrase_designated :
    ((∀ t ∈ p.terms, t.InRange) → DurationPhrase.read p.designated = .error .badFormat) ∧
      ((¬ ∀ t ∈ p.terms, t.InRange) → DurationPhrase.read p.designated = .error .overflow) := by
  rw [inRange_iff]
  exact DurationDesignator.read_of_cutsIf (p.cutsIf_clockText.flatMap_append p.dateTerms)
    p.isBlank_eq_false_of_mem_designators

variable {p}

/-- There is something behind the `P` if there is a term. -/
theorem designators_ne_nil (hne : p.terms ≠ []) :
    p.dateTerms.flatMap (·.compact) ++ p.clockText ≠ [] := by
  intro hnil
  obtain ⟨hdate, hclock⟩ := List.append_eq_nil_iff.1 hnil
  have hdateTerms : p.dateTerms = [] := by
    rw [List.eq_nil_iff_forall_not_mem]
    intro t ht
    have hcompact := List.flatMap_eq_nil_iff.1 hdate t ht
    rw [DesignatedTerm.compact] at hcompact
    exact List.append_ne_nil_of_right_ne_nil _ (List.cons_ne_nil _ _) hcompact
  have hclockTerms : p.clockTerms = [] := by
    rw [clockText] at hclock
    split at hclock
    · next hempty => exact List.isEmpty_iff.1 hempty
    · cases hclock
  rw [terms, hdateTerms, hclockTerms] at hne
  exact hne rfl

/-- The words of the phrase have one blank between each two of them. -/
theorem joined_spelled (hne : p.terms ≠ []) : Joined (p.terms.map (·.text)) p.spelled := by
  have hjoined {pieces : List (List Char)} (hpieces : pieces ≠ []) :
      Joined pieces ([' '].intercalate pieces) := by
    induction pieces with
    | nil => exact absurd rfl hpieces
    | cons piece pieces ih =>
      cases pieces with
      | nil =>
        rw [List.intercalate_singleton]
        exact .single piece
      | cons next pieces =>
        rw [List.intercalate_cons_cons]
        exact .cons piece (by simp) (List.forall_mem_singleton.2 rfl) (ih (List.cons_ne_nil _ _))
  exact hjoined (by simpa using hne)

/-- **Designators and words say the same.**  Whole numbers of any size, at least one of them, are
read from either text as the duration they add up to.  If a number does not fit 64 bits, or a number
of weeks does not once it is scaled to days, or the days do not, both texts are refused as too
large. -/
theorem read_designated_eq_read_spelled (hne : p.terms ≠ []) :
    Duration.read p.designated = Duration.read p.spelled ∧
    Duration.read p.spelled =
      if (∀ t ∈ p.terms, t.InRange) ∧ WholeTerm.StaysWithin .zero p.terms then
        .ok (.delta (WholeTerm.plusAll .zero p.terms))
      else .error .overflow := by
  have hnone : ∀ c ∈ ([] : List Char), isBlank c := nofun
  have hphrase := WholeTerm.read_of_isPhrase (.plain hnone (joined_spelled hne) hnone)
  rw [List.nil_append, List.append_nil] at hphrase
  have hspelled : Duration.read p.spelled = DurationPhrase.read p.spelled := by
    rw [Duration.read, hphrase]
    split
    · next h => split at h <;> cases h
    · rfl
  refine ⟨?_, hspelled.trans hphrase⟩
  rw [hspelled, hphrase]
  by_cases hrange : ∀ t ∈ p.terms, t.InRange
  · have hread := DurationDesignator.read_cons (designators_ne_nil hne)
      p.isBlank_eq_false_of_mem_designators
    rw [p.readParts_designated hrange, WholeTerm.sum_tokens fits_zero hrange] at hread
    rw [Duration.read, p.read_phrase_designated.1 hrange, designated, hread]
    by_cases hstays : WholeTerm.StaysWithin .zero p.terms
    · rw [if_pos hstays, if_pos ⟨hrange, hstays⟩]
      rfl
    · rw [if_neg hstays, if_neg (not_and_of_not_right _ hstays)]
      rfl
  · rw [Duration.read, p.read_phrase_designated.2 hrange, if_neg (not_and_of_not_left _ hrange)]

/-- Three weeks and ninety minutes less a year; and a number of weeks that fits 64 bits where the
days in them do not. -/
theorem read_designated_eq_read_spelled_weeks :
    Duration.read "P-1Y+3WT090M".toList =
        .ok (.delta { years := -1, days := 21, minutes := 90 }) ∧
      Duration.read "-1 years +3 weeks 090 mins".toList =
        .ok (.delta { years := -1, days := 21, minutes := 90 }) ∧
      Duration.read "P9223372036854775807W".toList = .error .overflow ∧
      Duration.read "9223372036854775807 weeks".toList = .error .overflow := by
  let mixed : WholeParts :=
    { years := some ⟨.minus, "1".toList, by simp, List.all_eq_true.1 rfl⟩
      weeks := some ⟨.plus, "3".toList, by simp, List.all_eq_true.1 rfl⟩
      minutes := some ⟨.none, "090".toList, by simp, List.all_eq_true.1 rfl⟩ }
  let many : WholeParts :=
    { weeks := some ⟨.none, "9223372036854775807".toList, by simp, List.all_eq_true.1 rfl⟩ }
  obtain ⟨hmixed, hmixed'⟩ := read_designated_eq_read_spelled (p := mixed) (by decide)
  obtain ⟨hmany, hmany'⟩ := read_designated_eq_read_spelled (p := many) (by decide)
  rw [if_pos (by decide)] at hmixed'
  rw [if_neg (by decide)] at hmany'
  exact ⟨hmixed.trans hmixed', hmixed', hmany.trans hmany', hmany'⟩

end WholeParts

end Horology
