import Horology.Proofs.Duration.Layout
import Horology.Proofs.Span

/-!
# The opposite of a phrase

Behind a phrase the word for the opposite turns every field of its duration around, a number still
without a unit included.  Every field of a duration that is read fits 64 bits, and so does its
opposite, unless the field is the least number of 64 bits: a phrase with such a field has no
opposite.

## Main definitions

* `Duration.FitsIfOk` — that a step ends in a fault or in a duration whose fields fit.
* `DurationPhrase.fitsIfOk_sum` — the fields of a phrase fit.
* `Duration.HasLeast`, `Duration.fits_opposite_iff` — which durations have an opposite.
* `DurationPhrase.sum_append_ago` — the word for the opposite behind a phrase.
* `Span.read_append_ago` — the span of a phrase with this word behind it.
-/

namespace Horology

namespace Duration

variable {d : Duration}

/-! ## Steps whose results fit -/

/-- That a step ends in a fault or in a duration whose fields fit. -/
def FitsIfOk (outcome : Except DurationFault Duration) : Prop := ∀ d, outcome = .ok d → d.Fits

theorem fitsIfOk_error (fault : DurationFault) : FitsIfOk (.error fault) := nofun

theorem Fits.fitsIfOk (hd : d.Fits) : FitsIfOk (.ok d) := by
  intro d' h
  rwa [← Except.ok.inj h]

theorem fitsIfOk_bind {α : Type} {step : Except DurationFault α}
    {next : α → Except DurationFault Duration} (h : ∀ a, step = .ok a → FitsIfOk (next a)) :
    FitsIfOk (step >>= next) := by
  intro d hd
  obtain ⟨a, hstep, hnext⟩ := bind_eq_ok_iff.1 hd
  exact h a hstep d hnext

/-- A duration fits that differs from a fitting one by a field that has been checked. -/
theorem fitsIfOk_fit {n : Int} {next : Int → Duration} (h : Fits64 n → (next n).Fits) :
    FitsIfOk (do return next (← fit n)) := by
  refine fitsIfOk_bind ?_
  intro m hm
  obtain ⟨hn, rfl⟩ := fit_eq_ok_iff.1 hm
  exact (h hn).fitsIfOk

theorem Fits.addYears (hd : d.Fits) (n : Int) : FitsIfOk (d.addYears n) :=
  fitsIfOk_fit fun hn => ⟨hn, hd.2⟩

theorem Fits.addMonths (hd : d.Fits) (n : Int) : FitsIfOk (d.addMonths n) := by
  obtain ⟨hyears, -, hrest⟩ := hd
  exact fitsIfOk_fit fun hn => ⟨hyears, hn, hrest⟩

theorem Fits.addDays (hd : d.Fits) (n : Int) : FitsIfOk (d.addDays n) := by
  obtain ⟨hyears, hmonths, -, hrest⟩ := hd
  exact fitsIfOk_fit fun hn => ⟨hyears, hmonths, hn, hrest⟩

theorem Fits.addHours (hd : d.Fits) (n : Int) : FitsIfOk (d.addHours n) := by
  obtain ⟨hyears, hmonths, hdays, -, hrest⟩ := hd
  exact fitsIfOk_fit fun hn => ⟨hyears, hmonths, hdays, hn, hrest⟩

theorem Fits.addMinutes (hd : d.Fits) (n : Int) : FitsIfOk (d.addMinutes n) := by
  obtain ⟨hyears, hmonths, hdays, hhours, -, hrest⟩ := hd
  exact fitsIfOk_fit fun hn => ⟨hyears, hmonths, hdays, hhours, hn, hrest⟩

theorem Fits.addSeconds (hd : d.Fits) (n : Int) : FitsIfOk (d.addSeconds n) := by
  obtain ⟨hyears, hmonths, hdays, hhours, hminutes, -, hmicros⟩ := hd
  exact fitsIfOk_fit fun hn => ⟨hyears, hmonths, hdays, hhours, hminutes, hn, hmicros⟩

theorem Fits.addMicros (hd : d.Fits) (n : Int) : FitsIfOk (d.addMicros n) := by
  obtain ⟨hyears, hmonths, hdays, hhours, hminutes, hseconds, -⟩ := hd
  exact fitsIfOk_fit fun hn => ⟨hyears, hmonths, hdays, hhours, hminutes, hseconds, hn⟩

theorem Fits.spillSeconds (hd : d.Fits) (fraction : Rat) (scale : Int) :
    FitsIfOk (d.spillSeconds fraction scale) := by
  unfold Duration.spillSeconds
  split
  · exact hd.fitsIfOk
  · refine fitsIfOk_bind fun whole _ => fitsIfOk_bind fun d' hd' => fitsIfOk_bind fun micros _ => ?_
    exact (hd.addSeconds whole d' hd').addMicros micros

theorem Fits.spillDays (hd : d.Fits) (fraction : Rat) (scale : Int) :
    FitsIfOk (d.spillDays fraction scale) := by
  unfold Duration.spillDays
  split
  · exact hd.fitsIfOk
  · refine fitsIfOk_bind fun whole _ => fitsIfOk_bind fun d' hd' => ?_
    exact (hd.addDays whole d' hd').spillSeconds _ _

theorem Fits.addManyYears (hd : d.Fits) (q : Quantity) (scale : Int) :
    FitsIfOk (d.addManyYears q scale) := by
  refine fitsIfOk_bind fun years _ => fitsIfOk_bind fun d' hd' => ?_
  exact (hd.addYears years d' hd').addMonths _

/-- Adding a quantity of any unit leads from fields that fit to fields that fit. -/
theorem Fits.add? (hd : d.Fits) (q : Quantity) (unit : TimeUnit) : FitsIfOk (d.add? q unit) := by
  cases unit with
  | microsecond => exact fitsIfOk_bind fun micros _ => hd.addMicros micros
  | millisecond => exact fitsIfOk_bind fun micros _ => hd.addMicros micros
  | second =>
    refine fitsIfOk_bind fun d' hd' => fitsIfOk_bind fun micros _ => ?_
    exact (hd.addSeconds _ d' hd').addMicros micros
  | minute => exact fitsIfOk_bind fun d' hd' => (hd.addMinutes _ d' hd').spillSeconds _ _
  | hour => exact fitsIfOk_bind fun d' hd' => (hd.addHours _ d' hd').spillSeconds _ _
  | day => exact fitsIfOk_bind fun d' hd' => (hd.addDays _ d' hd').spillSeconds _ _
  | week =>
    refine fitsIfOk_bind fun days _ => fitsIfOk_bind fun d' hd' => ?_
    exact (hd.addDays days d' hd').spillDays _ _
  | month => exact fitsIfOk_bind fun d' hd' => (hd.addMonths _ d' hd').spillDays _ _
  | year => exact hd.addManyYears q 1
  | decade => exact hd.addManyYears q 10
  | century => exact hd.addManyYears q 100
  | millennium => exact hd.addManyYears q 1000

/-! ## Opposites -/

/-- The least number of 64 bits, whose opposite does not fit. -/
def leastField : Int := -9223372036854775808

/-- That some field of a duration is the least number. -/
def HasLeast (d : Duration) : Prop :=
  d.years = leastField ∨ d.months = leastField ∨ d.days = leastField ∨ d.hours = leastField ∨
    d.minutes = leastField ∨ d.seconds = leastField ∨ d.micros = leastField

instance (d : Duration) : Decidable d.HasLeast := inferInstanceAs (Decidable (_ ∨ _))

/-- The length of the opposite duration is the opposite length. -/
theorem totalSeconds_opposite (d : Duration) : d.opposite.totalSeconds = -d.totalSeconds := by
  simp only [totalSeconds, opposite, secondsPerYear, secondsPerDay]
  omega

/-- A duration whose fields fit has an opposite exactly if none of them is the least number. -/
theorem fits_opposite_iff (hd : d.Fits) : d.opposite.Fits ↔ ¬ d.HasLeast := by
  simp only [Fits, Fits64, opposite, HasLeast, leastField] at hd ⊢
  omega

end Duration

namespace DurationPhrase

open Duration

variable {d : Duration}

/-! ## Phrases -/

theorem fitsIfOk_settle (hd : d.Fits) (pending : Option Quantity) :
    FitsIfOk (settle d pending) := by
  cases pending with
  | none => exact hd.fitsIfOk
  | some q => exact hd.add? q .second

theorem fitsIfOk_addWord (hd : d.Fits) (q : Quantity) (word : String) :
    FitsIfOk (addWord d q word) := by
  unfold addWord
  split
  · exact hd.add? q _
  · exact fitsIfOk_error _

theorem fitsIfOk_addClock (hd : d.Fits) (negative : Bool) (hours minutes seconds micros : Int) :
    FitsIfOk (addClock d negative hours minutes seconds micros) := by
  refine fitsIfOk_bind fun d₁ h₁ => fitsIfOk_bind fun d₂ h₂ => fitsIfOk_bind fun d₃ h₃ => ?_
  have hhours := hd.addHours _ d₁ h₁
  have hminutes := hhours.addMinutes _ d₂ h₂
  exact (hminutes.addSeconds _ d₃ h₃).addMicros _

theorem fitsIfOk_negate? (d : Duration) : FitsIfOk d.negate? := by
  rw [negate?_eq_ite]
  split
  · next h => exact h.fitsIfOk
  · exact fitsIfOk_error _

/-- **The fields of what tokens add up to fit**, if those of the duration they start from do. -/
theorem fitsIfOk_sum (hd : d.Fits) (pending : Option Quantity) (tokens : List DurationToken) :
    FitsIfOk (sum d pending tokens) := by
  induction tokens generalizing d pending with
  | nil => exact fitsIfOk_settle hd pending
  | cons token tokens ih =>
    cases token with
    | marker => exact fitsIfOk_error _
    | quantity q unit =>
      cases unit with
      | none =>
        rw [sum]
        split
        · exact fitsIfOk_error _
        · exact ih hd (some q)
      | some word =>
        rw [sum]
        split
        · exact fitsIfOk_error _
        · exact fitsIfOk_bind fun d' hd' => ih (fitsIfOk_addWord hd q word d' hd') none
    | clock negative hours minutes seconds micros =>
      rw [sum]
      split
      · exact fitsIfOk_error _
      · exact fitsIfOk_bind fun d' hd' => ih (fitsIfOk_addClock hd _ _ _ _ _ d' hd') none
    | word w =>
      by_cases hw : w = agoWord
      · rw [hw, sum_ago]
        split
        · exact fitsIfOk_bind fun d' _ => fitsIfOk_negate? d'
        · exact fitsIfOk_error _
      · rw [sum_word hw]
        split
        · exact fitsIfOk_bind fun d' hd' => ih (hd.add? _ _ d' hd') none
        · exact fitsIfOk_error _

/-- **The word for the opposite behind tokens that do not end with it turns around what they add up
to**, a number that is still without a unit included. -/
theorem sum_append_ago {tokens : List DurationToken}
    (hlast : tokens.getLast? ≠ some (.word agoWord)) (pending : Option Quantity) :
    sum d pending (tokens ++ [.word agoWord]) = sum d pending tokens >>= negate? := by
  induction tokens generalizing d pending with
  | nil => simp [sum]
  | cons token tokens ih =>
    have hmore : tokens.getLast? ≠ some (.word agoWord) := by
      cases tokens with
      | nil => simp
      | cons next rest => rwa [List.getLast?_cons_cons] at hlast
    rw [List.cons_append]
    cases token with
    | marker => rfl
    | quantity q unit =>
      cases unit with
      | none => cases pending <;> simp [sum, ih hmore, bind, Except.bind]
      | some word =>
        rw [sum, sum]
        cases pending with
        | some q' => rfl
        | none =>
          simp only [Option.isSome_none, Bool.false_eq_true, if_false, ih hmore]
          cases addWord d q word <;> rfl
    | clock negative hours minutes seconds micros =>
      rw [sum, sum]
      cases pending with
      | some q' => rfl
      | none =>
        simp only [Option.isSome_none, Bool.false_eq_true, if_false, ih hmore]
        cases addClock d negative hours minutes seconds micros <;> rfl
    | word w =>
      by_cases hw : w = agoWord
      · -- There are more tokens: the word is not the last one.
        have hne : tokens ≠ [] := by
          rintro rfl
          simp [hw] at hlast
        simp [hw, sum_ago, hne, bind, Except.bind]
      · rw [sum_word hw, sum_word hw]
        cases TimeUnit.ofWord? w with
        | none => rfl
        | some unit =>
          cases pending with
          | none => rfl
          | some q =>
            simp only [ih hmore]
            cases d.add? q unit <;> rfl

variable {text : List Char} {tokens : List DurationToken}

/-- Tokens that are read as a duration add up to it. -/
theorem sum_of_ofTokens (h : ofTokens tokens = .ok (.delta d)) :
    tokens ≠ [] ∧ sum .zero none (dropMarker tokens) = .ok d := by
  unfold ofTokens at h
  split at h
  · cases h
  · next hne =>
    split at h
    · cases h
    · refine ⟨by simpa using hne, ?_⟩
      cases hsum : sum .zero none (dropMarker tokens) with
      | error fault => simp [hsum, Except.map] at h
      | ok d' =>
        rw [hsum] at h
        rw [DurationReading.delta.inj (Except.ok.inj h)]

/-- More tokens behind others do not change what opens them. -/
theorem dropMarker_append (hne : tokens ≠ []) (more : List DurationToken) :
    dropMarker (tokens ++ more) = dropMarker tokens ++ more := by
  cases tokens with
  | nil => exact absurd rfl hne
  | cons token tokens => cases token <;> rfl

theorem getLast?_dropMarker {token : DurationToken} (hlast : tokens.getLast? ≠ some token) :
    (dropMarker tokens).getLast? ≠ some token := by
  unfold dropMarker
  split
  · next tokens =>
    cases tokens with
    | nil => simp
    | cons next rest => rwa [List.getLast?_cons_cons] at hlast
  · exact hlast

/-- **The word for the opposite behind a phrase turns its duration around.**  The fields of the
duration fit. -/
theorem read_ago_of_delta (htokens : DurationToken.ofText? text = .ok tokens)
    (hlast : tokens.getLast? ≠ some (.word agoWord)) (h : read text = .ok (.delta d)) :
    d.Fits ∧ read (text ++ " ago".toList) = d.negate?.map .delta := by
  rw [read, htokens] at h
  obtain ⟨hne, hsum⟩ := sum_of_ofTokens h
  refine ⟨fitsIfOk_sum fits_zero none _ d hsum, ?_⟩
  have hempty : (tokens ++ [DurationToken.word agoWord]).isEmpty = false := by simp
  have hinvalid : tokens ++ [DurationToken.word agoWord] ≠ [.word invalidWord] := by
    intro heq
    have hlength := congrArg List.length heq
    simp [hne] at hlength
  rw [read, ofText?_append_ago htokens, ok_bind, ofTokens, hempty, if_neg Bool.false_ne_true,
    if_neg hinvalid, dropMarker_append hne, sum_append_ago (getLast?_dropMarker hlast), hsum,
    ok_bind]

end DurationPhrase

/-! ## Spans -/

namespace Span

open Duration DurationPhrase

variable {d : Duration} {tokens : List DurationToken} {text : String}

theorem ofRaw_eq_seconds_iff {w n : Int32} :
    ofRaw w = .seconds n ↔ w ≠ invalidRaw ∧ w = n := by
  unfold ofRaw
  split <;> simp_all

theorem ofRaw_eq_invalid_iff {w : Int32} : ofRaw w = .invalid ↔ w = invalidRaw := by
  unfold ofRaw
  split <;> simp_all

/-- The opposite of a word that is not reserved is another such word. -/
theorem word?_neg {n : Int32} (hn : n ≠ invalidRaw) :
    word? (-n.toInt) = some (-n) ∧ (-n).toInt = -n.toInt ∧ -n ≠ invalidRaw := by
  have hleast : invalidRaw.toInt = -2147483648 := rfl
  have hlo := (Word.toInt_mem n).1
  have hhi := (Word.toInt_mem n).2
  have hne : n.toInt ≠ -2147483648 := by
    rw [← hleast, ne_eq, Int32.toInt_inj]
    exact hn
  have hneg := Word.toInt_neg_of_fits (a := n) (by omega)
  refine ⟨?_, hneg, ?_⟩
  · rw [← hneg, word?_toInt]
  · rw [ne_eq, ← Int32.toInt_inj, hneg, hleast]
    omega

/-- The opposite of a duration of so many seconds is one of the opposite number of seconds. -/
theorem read_opposite_of_seconds {text' : String} {n : Int32}
    (h : Duration.read text.toList = .ok (.delta d))
    (hopposite : Duration.read text'.toList = .ok (.delta d.opposite))
    (hn : read text = .ok (.seconds n)) :
    read text' = .ok (.seconds (-n)) ∧ (-n).toInt = -n.toInt := by
  obtain ⟨w, hw, hraw⟩ := exists_word_of_read h hn
  obtain ⟨hvalid, rfl⟩ := ofRaw_eq_seconds_iff.1 hraw
  obtain ⟨hword, hint, hvalid'⟩ := word?_neg hvalid
  refine ⟨?_, hint⟩
  rw [read_of_delta hopposite, totalSeconds_opposite, ← toInt_of_word? hw, hword]
  exact congrArg Except.ok (ofRaw_eq_seconds_iff.2 ⟨hvalid', rfl⟩)

/-- The opposite of a duration of the reserved number of seconds fits no word. -/
theorem read_opposite_of_invalid {text' : String}
    (h : Duration.read text.toList = .ok (.delta d))
    (hopposite : Duration.read text'.toList = .ok (.delta d.opposite))
    (hinvalid : read text = .ok .invalid) : read text' = .error (.spanOutOfRange text') := by
  obtain ⟨w, hw, hraw⟩ := exists_word_of_read h hinvalid
  obtain rfl := ofRaw_eq_invalid_iff.1 hraw
  have hword : word? (-invalidRaw.toInt) = none := by decide
  rw [read_of_delta hopposite, totalSeconds_opposite, ← toInt_of_word? hw, hword]

/-- **The word for the opposite behind a phrase negates its span.**  If a field of the duration is
the least number of 64 bits, there is no opposite, and the text is refused.  Otherwise it is read as
the duration with every field negated; a number of seconds becomes the opposite number, and the
invalid span, whose opposite number fits no word, is refused. -/
theorem read_append_ago (htokens : DurationToken.ofText? text.toList = .ok tokens)
    (hlast : tokens.getLast? ≠ some (.word agoWord))
    (h : DurationPhrase.read text.toList = .ok (.delta d)) :
    (d.HasLeast → Duration.read (text ++ " ago").toList = .error .overflow ∧
      read (text ++ " ago") = .error (.spanOutOfRange (text ++ " ago"))) ∧
    (¬ d.HasLeast → Duration.read (text ++ " ago").toList = .ok (.delta d.opposite) ∧
      (∀ n, read text = .ok (.seconds n) →
        read (text ++ " ago") = .ok (.seconds (-n)) ∧ (-n).toInt = -n.toInt) ∧
      (read text = .ok .invalid →
        read (text ++ " ago") = .error (.spanOutOfRange (text ++ " ago")))) := by
  obtain ⟨hfits, hago⟩ := DurationPhrase.read_ago_of_delta htokens hlast h
  rw [← String.toList_append, negate?_eq_ite] at hago
  constructor
  · intro hleast
    rw [if_neg fun hopposite => (fits_opposite_iff hfits).1 hopposite hleast] at hago
    have hduration : Duration.read (text ++ " ago").toList = .error .overflow := by
      rw [Duration.read, hago]
      rfl
    exact ⟨hduration, read_of_overflow hduration⟩
  · intro hleast
    rw [if_pos ((fits_opposite_iff hfits).2 hleast)] at hago
    have hduration : Duration.read (text ++ " ago").toList = .ok (.delta d.opposite) :=
      read_of_phrase hago
    refine ⟨hduration, ?_, ?_⟩
    · intro n hn
      exact read_opposite_of_seconds (read_of_phrase h) hduration hn
    · intro hinvalid
      exact read_opposite_of_invalid (read_of_phrase h) hduration hinvalid

/-- A number without a unit is turned around with the rest.  A phrase of eight seconds in all has no
opposite when its seconds are the least number. -/
theorem read_append_ago_pending :
    read ("1 day -2:00 3" ++ " ago") = .ok (.seconds (-79203)) ∧
      read "-9223372036854775807 s -1 s 153722867280912930 m" = .ok (.seconds (-8)) ∧
      read ("-9223372036854775807 s -1 s 153722867280912930 m" ++ " ago") =
        .error (.spanOutOfRange ("-9223372036854775807 s -1 s 153722867280912930 m" ++ " ago")) := by
  refine ⟨?_, by decide +kernel, ?_⟩
  · have htokens : DurationToken.ofText? "1 day -2:00 3".toList =
        .ok [.quantity (.ofInt 1) none, .word "day", .clock true 2 0 0 0,
          .quantity (.ofInt 3) none] := by decide +kernel
    have hphrase : DurationPhrase.read "1 day -2:00 3".toList =
        .ok (.delta { days := 1, hours := -2, seconds := 3 }) := by decide +kernel
    have hread : read "1 day -2:00 3" = .ok (.seconds 79203) := by decide +kernel
    have hago := (read_append_ago htokens (by decide) hphrase).2 (by decide)
    exact (hago.2.1 79203 hread).1
  · have htokens : DurationToken.ofText?
        "-9223372036854775807 s -1 s 153722867280912930 m".toList =
          .ok [.quantity (.ofInt (-9223372036854775807)) none, .word "s",
            .quantity (.ofInt (-1)) none, .word "s",
            .quantity (.ofInt 153722867280912930) none, .word "m"] := by decide +kernel
    have hphrase : DurationPhrase.read "-9223372036854775807 s -1 s 153722867280912930 m".toList =
        .ok (.delta { minutes := 153722867280912930, seconds := leastField }) := by decide +kernel
    have hago := (read_append_ago htokens (by decide) hphrase).1 (by decide)
    exact hago.2

end Span

end Horology
