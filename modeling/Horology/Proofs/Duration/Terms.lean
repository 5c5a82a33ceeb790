import Horology.Proofs.Duration.Layout
import Horology.Proofs.Span

/-!
# Phrases of whole numbers

A phrase may be a list of terms, each a whole number of a unit of a second or more.  The terms are
added from left to right, every field of the duration on its own; what comes out is the exact sum of
the terms, unless a number, a term scaled to its field, or what a field has come to leaves 64 bits
on the way.  Nothing wraps and nothing is clamped: such a phrase is refused, and so is one whose sum
fits no word.

The digits of a number must fit on their own, whatever sign stands before them, so that the least
number of 64 bits cannot be written.

## Main definitions

* `WholeTerm` — a term with the way in which it is written.
* `WholeTerm.IsPhrase` — the texts of terms.
* `WholeTerm.StaysWithin` — that terms are added without leaving 64 bits.
* `WholeTerm.sum_tokens` — what terms add up to.
* `Span.read_terms` — the span of a phrase of terms.
-/

namespace Horology

open Numeral (IsRun)
open Duration DurationPhrase

/-! ## Lengths -/

/-- The seconds in a unit of a second or more. -/
def TimeUnit.seconds : TimeUnit → Int
  | microsecond | millisecond => 0
  | second => 1
  | minute => 60
  | hour => 3600
  | day => 86400
  | week => 7 * 86400
  | month => 30 * 86400
  | year => 31557600
  | decade => 10 * 31557600
  | century => 100 * 31557600
  | millennium => 1000 * 31557600

/-- What is added to a field lengthens the duration by its seconds. -/
theorem Duration.totalSeconds_plus (d : Duration) (n : Int) {unit : TimeUnit}
    (hunit : unit.isWhole = true) :
    (d.plus n unit).totalSeconds = d.totalSeconds + n * unit.seconds := by
  cases unit with
  | microsecond => cases hunit
  | millisecond => cases hunit
  | _ =>
    simp only [plus, TimeUnit.scale, TimeUnit.seconds, totalSeconds, secondsPerYear, secondsPerDay]
    omega

/-! ## Terms -/

/-- What may stand in front of the digits of a number. -/
inductive NumberSign where
  | none
  | plus
  | minus
  deriving DecidableEq, Repr

/-- The text of a sign. -/
def NumberSign.text : NumberSign → List Char
  | none => []
  | plus => ['+']
  | minus => ['-']

/-- A whole number of a unit of a second or more, as it is written. -/
structure WholeTerm where
  sign : NumberSign
  digits : List Char
  /-- The blanks between number and unit; without any the unit is glued to the number. -/
  gap : List Char
  word : List Char
  unit : TimeUnit
  isRun : IsRun digits
  isGap : ∀ c ∈ gap, isBlank c
  spells : SpellsUnit word unit
  isWhole : unit.isWhole = true

namespace WholeTerm

variable (t : WholeTerm)

/-- The sign and the digits of a term. -/
def numeral : List Char := t.sign.text ++ t.digits

/-- The text of a term. -/
def text : List Char := t.numeral ++ t.gap ++ t.word

/-- The number of the digits, the sign aside. -/
def magnitude : Nat := Numeral.value t.digits

/-- The number of a term. -/
def number : Int := if t.sign = .minus then -t.magnitude else t.magnitude

/-- The seconds of a term. -/
def seconds : Int := t.number * t.unit.seconds

/-- That the digits of a term fit 64 bits. -/
def InRange : Prop := t.magnitude ≤ 9223372036854775807

instance : Decidable t.InRange := inferInstanceAs (Decidable (_ ≤ _))

/-- The tokens of a term. -/
def tokens : List DurationToken :=
  if t.gap = [] then [.quantity (.ofInt t.number) (some (String.ofList (lower t.word)))]
  else [.quantity (.ofInt t.number) none, .word (String.ofList (lower t.word))]

variable {t}

theorem InRange.fits (h : t.InRange) : Fits64 t.number := by
  simp only [InRange, Fits64, number] at *
  split <;> omega

/-! ## Tokens -/

theorem splitSign_numeral :
    Quantity.splitSign t.numeral = (decide (t.sign = .minus), t.digits ++ []) := by
  rw [List.append_nil, numeral]
  cases t.sign with
  | none =>
    have hsign := Quantity.splitSign_of_isRun t.isRun []
    rwa [List.append_nil] at hsign
  | plus => rfl
  | minus => rfl

/-- Sign and digits of a term are its number, if the digits fit. -/
theorem quantity?_numeral :
    DurationToken.quantity? t.numeral =
      if t.InRange then .ok (.ofInt t.number) else .error .overflow := by
  rw [DurationToken.quantity?, Quantity.scan_of_isRun t.isRun (stops_nil _) splitSign_numeral,
    Quantity.ofDigits_nil, fit_bind]
  have hfits : Fits64 (Numeral.value t.digits : Int) ↔ t.InRange := by
    simp only [InRange, magnitude, Fits64]
    omega
  by_cases h : t.InRange
  · rw [if_pos h, if_pos (hfits.2 h)]
    simp [bind, Except.bind, pure, Except.pure, number, magnitude]
  · rw [if_neg h, if_neg fun hvalue => h (hfits.1 hvalue)]
    rfl

theorem numeral_ne_nil : t.numeral ≠ [] :=
  List.append_ne_nil_of_right_ne_nil _ t.isRun.ne_nil

theorem isDigit_or_sign_of_mem_numeral : ∀ c ∈ t.numeral, c.isDigit ∨ c = '+' ∨ c = '-' := by
  intro c hc
  rcases List.mem_append.1 hc with hc | hc
  · cases hsign : t.sign <;> simp_all [NumberSign.text]
  · exact .inl (t.isRun.isDigit c hc)

/-- A numeral with a word glued to it, or with none, is a quantity. -/
theorem ofText?_numeral {w : List Char} (hw : ∀ c ∈ w, c.isAlpha) :
    DurationToken.ofText? (t.numeral ++ w) =
      if t.InRange then .ok [.quantity (.ofInt t.number) (DurationToken.word? w)]
      else .error .overflow := by
  have hpiece : IsPiece isBlank (t.numeral ++ w) := by
    refine ⟨List.append_ne_nil_of_left_ne_nil numeral_ne_nil w, ?_⟩
    intro c hc
    rcases List.mem_append.1 hc with hc | hc
    · have hsort := isDigit_or_sign_of_mem_numeral c hc
      exact DurationToken.isBlank_eq_false_of_numeric (hsort.imp_right fun h => h.imp_right .inl)
    · exact isBlank_eq_false_of_isAlpha (hw c hc)
  have hnumeric := DurationToken.ofPiece_numeric (numeral_ne_nil (t := t))
    isDigit_or_sign_of_mem_numeral hw (fun _ => rfl) (stops_nil _)
  rw [List.append_nil, DurationToken.ofPiece_nil, quantity?_numeral] at hnumeric
  rw [DurationToken.ofText?_piece hpiece, hnumeric]
  split <;> rfl

/-- The tokens of a term are a number and a unit, if the digits fit. -/
theorem ofText?_text :
    DurationToken.ofText? t.text = if t.InRange then .ok t.tokens else .error .overflow := by
  have hword : DurationToken.word? t.word = some (String.ofList (lower t.word)) := by
    rw [DurationToken.word?, if_neg (by simpa using t.spells.ne_nil)]
  rw [text, tokens]
  by_cases hne : t.gap = []
  · rw [if_pos hne, hne, List.append_nil, ofText?_numeral t.spells.letters, hword]
  · have hnumeral := ofText?_numeral (t := t) (w := []) nofun
    rw [List.append_nil] at hnumeral
    rw [if_neg hne, DurationToken.ofText?_append_gap_append hne t.isGap, hnumeral,
      t.spells.ofText?]
    split <;> rfl

variable {terms : List WholeTerm} {body : List Char}

/-- The tokens of terms with blanks between them are theirs, if the digits of all of them fit. -/
theorem ofText?_joined (h : Joined (terms.map (·.text)) body) :
    DurationToken.ofText? body =
      if ∀ t ∈ terms, t.InRange then .ok (terms.flatMap tokens) else .error .overflow := by
  generalize hpieces : terms.map (·.text) = pieces at h
  induction h generalizing terms with
  | single piece =>
    obtain ⟨t, rest, rfl, rfl, hrest⟩ := List.map_eq_cons_iff.1 hpieces
    obtain rfl := List.map_eq_nil_iff.1 hrest
    simp [ofText?_text]
  | @cons piece gap text pieces hne hgap htext ih =>
    obtain ⟨t, rest, rfl, rfl, hrest⟩ := List.map_eq_cons_iff.1 hpieces
    rw [DurationToken.ofText?_append_gap_append hne hgap, ofText?_text, ih hrest]
    simp only [List.forall_mem_cons, List.flatMap_cons]
    by_cases hfirst : t.InRange
    · by_cases hall : ∀ t ∈ rest, t.InRange
      · rw [if_pos hfirst, if_pos hall, if_pos ⟨hfirst, hall⟩]
        rfl
      · rw [if_pos hfirst, if_neg hall, if_neg (not_and_of_not_right _ hall)]
        rfl
    · rw [if_neg hfirst, if_neg (not_and_of_not_left _ hfirst)]
      rfl

/-! ## Sums -/

/-- A term adds its number of its unit, whatever follows it. -/
theorem sum_tokens_append (d : Duration) (t : WholeTerm) (more : List DurationToken) :
    sum d none (t.tokens ++ more) =
      d.add? (.ofInt t.number) t.unit >>= fun d' => sum d' none more := by
  rw [tokens]
  split
  · simp [sum, addWord, t.spells.sense]
  · exact t.spells.sum d (.ofInt t.number) more

/-- That terms are added to a duration without leaving 64 bits: neither does a number that is scaled
to its field, nor what a field has come to. -/
def StaysWithin (d : Duration) : List WholeTerm → Prop
  | [] => True
  | t :: terms =>
    Fits64 (t.number * t.unit.scale) ∧ (d.plus t.number t.unit).Fits ∧
      StaysWithin (d.plus t.number t.unit) terms

instance decidableStaysWithin : (d : Duration) → (terms : List WholeTerm) →
    Decidable (StaysWithin d terms)
  | _, [] => isTrue trivial
  | d, t :: terms =>
    have := decidableStaysWithin (d.plus t.number t.unit) terms
    inferInstanceAs (Decidable (_ ∧ _))

/-- A duration with terms added. -/
def plusAll (d : Duration) (terms : List WholeTerm) : Duration :=
  terms.foldl (fun d t => d.plus t.number t.unit) d

/-- The seconds that terms amount to. -/
def total : List WholeTerm → Int
  | [] => 0
  | t :: terms => t.seconds + total terms

/-- **Terms lengthen a duration by the sum of their seconds.** -/
theorem totalSeconds_plusAll (d : Duration) (terms : List WholeTerm) :
    (plusAll d terms).totalSeconds = d.totalSeconds + total terms := by
  induction terms generalizing d with
  | nil => simp [plusAll, total]
  | cons t terms ih =>
    have hrest := ih (d.plus t.number t.unit)
    rw [totalSeconds_plus d t.number t.isWhole] at hrest
    rw [total, ← Int.add_assoc]
    exact hrest

/-- **Terms are added exactly, or not at all.** -/
theorem sum_tokens {d : Duration} (hd : d.Fits) (hrange : ∀ t ∈ terms, t.InRange) :
    sum d none (terms.flatMap tokens) =
      if StaysWithin d terms then .ok (plusAll d terms) else .error .overflow := by
  induction terms generalizing d with
  | nil => rfl
  | cons t terms ih =>
    have hfits := (hrange t List.mem_cons_self).fits
    have hrest : ∀ t ∈ terms, t.InRange := fun t ht => hrange t (List.mem_cons_of_mem _ ht)
    rw [List.flatMap_cons, sum_tokens_append, add?_ofInt hd hfits t.isWhole]
    by_cases hstep : Fits64 (t.number * t.unit.scale) ∧ (d.plus t.number t.unit).Fits
    · rw [if_pos hstep, ok_bind, ih hstep.2 hrest]
      simp [StaysWithin, hstep, plusAll]
    · have hleaves : ¬ StaysWithin d (t :: terms) := by
        rintro ⟨hscaled, hplus, -⟩
        exact hstep ⟨hscaled, hplus⟩
      rw [if_neg hstep, if_neg hleaves]
      rfl

/-! ## Phrases -/

/-- That a text is a phrase of terms: blanks between each two of them and, as it may be, blanks
around them and the marker in front, with or without blanks behind it. -/
inductive IsPhrase (terms : List WholeTerm) : List Char → Prop
  | plain {lead body trail : List Char} (hlead : ∀ c ∈ lead, isBlank c)
    (hbody : Joined (terms.map (·.text)) body) (htrail : ∀ c ∈ trail, isBlank c) :
    IsPhrase terms (lead ++ (body ++ trail))
  | marked {lead gap body trail : List Char} (hlead : ∀ c ∈ lead, isBlank c)
    (hgap : ∀ c ∈ gap, isBlank c) (hbody : Joined (terms.map (·.text)) body)
    (htrail : ∀ c ∈ trail, isBlank c) : IsPhrase terms (lead ++ '@' :: (gap ++ (body ++ trail)))

variable {text : List Char}

/-- Terms are no empty text. -/
theorem ne_nil_of_joined (h : Joined (terms.map (·.text)) body) : terms ≠ [] := by
  rintro rfl
  cases h

/-- The tokens of terms begin with a number. -/
theorem ofTokens_tokens (hne : terms ≠ []) :
    ofTokens (terms.flatMap tokens) = (sum .zero none (terms.flatMap tokens)).map .delta := by
  cases terms with
  | nil => exact absurd rfl hne
  | cons t terms =>
    rw [List.flatMap_cons, tokens]
    split <;> rfl

/-- What the tokens of terms with blanks between them add up to. -/
theorem sum_of_joined (h : Joined (terms.map (·.text)) body) :
    (DurationToken.ofText? body >>= fun tokens => (sum .zero none tokens).map .delta) =
      if (∀ t ∈ terms, t.InRange) ∧ StaysWithin .zero terms then
        .ok (DurationReading.delta (plusAll .zero terms))
      else .error .overflow := by
  rw [ofText?_joined h]
  by_cases hrange : ∀ t ∈ terms, t.InRange
  · rw [if_pos hrange, ok_bind, sum_tokens fits_zero hrange]
    by_cases hstays : StaysWithin .zero terms
    · rw [if_pos hstays, if_pos ⟨hrange, hstays⟩]
      rfl
    · rw [if_neg hstays, if_neg (not_and_of_not_right _ hstays)]
      rfl
  · rw [if_neg hrange, if_neg (not_and_of_not_left _ hrange)]
    rfl

/-- **A phrase of terms is the duration that they add up to, or a fault of size.** -/
theorem read_of_isPhrase (h : IsPhrase terms text) :
    DurationPhrase.read text =
      if (∀ t ∈ terms, t.InRange) ∧ StaysWithin .zero terms then
        .ok (.delta (plusAll .zero terms))
      else .error .overflow := by
  cases h with
  | plain hlead hbody htrail =>
    rw [DurationPhrase.read, DurationToken.ofText?_gap_append hlead,
      DurationToken.ofText?_append_gap htrail, ← sum_of_joined hbody, ofText?_joined hbody]
    split
    · exact ofTokens_tokens (ne_nil_of_joined hbody)
    · rfl
  | marked hlead hgap hbody htrail =>
    rw [DurationPhrase.read, DurationToken.ofText?_gap_append hlead, ← DurationPhrase.read,
      read_marked, DurationToken.ofText?_gap_append hgap, DurationToken.ofText?_append_gap htrail,
      sum_of_joined hbody]

end WholeTerm

/-! ## Spans -/

namespace Span

variable {terms : List WholeTerm} {text : String}

/-- **A phrase of whole numbers is read as the span of their exact sum, or refused.**  It is read if
every number fits 64 bits, they are added without leaving them, and the sum fits a word; the error
else is that the span is out of range.  A span that is read holds the sum as it is. -/
theorem read_terms (h : WholeTerm.IsPhrase terms text.toList) :
    (read text =
      if ((∀ t ∈ terms, t.InRange) ∧ WholeTerm.StaysWithin .zero terms) ∧
          -2147483648 ≤ WholeTerm.total terms ∧ WholeTerm.total terms ≤ 2147483647 then
        .ok (ofRaw (.ofInt (WholeTerm.total terms)))
      else .error (.spanOutOfRange text)) ∧
    ∀ s, read text = .ok s → s.raw.toInt = WholeTerm.total terms := by
  have hphrase := WholeTerm.read_of_isPhrase h
  have htotal : (WholeTerm.plusAll .zero terms).totalSeconds = WholeTerm.total terms := by
    have hzero : Duration.zero.totalSeconds = 0 := rfl
    rw [WholeTerm.totalSeconds_plusAll, hzero, Int.zero_add]
  have hread : read text =
      if ((∀ t ∈ terms, t.InRange) ∧ WholeTerm.StaysWithin .zero terms) ∧
          -2147483648 ≤ WholeTerm.total terms ∧ WholeTerm.total terms ≤ 2147483647 then
        .ok (ofRaw (.ofInt (WholeTerm.total terms)))
      else .error (.spanOutOfRange text) := by
    by_cases hfits : (∀ t ∈ terms, t.InRange) ∧ WholeTerm.StaysWithin .zero terms
    · rw [if_pos hfits] at hphrase
      rw [read_of_delta (read_of_phrase hphrase), htotal, word?]
      by_cases hword : -2147483648 ≤ WholeTerm.total terms ∧ WholeTerm.total terms ≤ 2147483647
      · rw [if_pos hword, if_pos ⟨hfits, hword⟩]
      · rw [if_neg hword, if_neg (not_and_of_not_right _ hword)]
    · rw [if_neg hfits] at hphrase
      have hduration : Duration.read text.toList = .error .overflow := by
        rw [Duration.read, hphrase]
      rw [if_neg (not_and_of_not_left _ hfits), read_of_overflow hduration]
  refine ⟨hread, ?_⟩
  intro s hs
  rw [hread] at hs
  split at hs
  · next hfits =>
    rw [← Except.ok.inj hs, raw_ofRaw, Word.toInt_ofInt_of_fits hfits.2.1 hfits.2.2]
  · cases hs

/-- A year less two months and three weeks more; and three terms that amount to one second, but
leave 64 bits on the way. -/
theorem read_terms_mixed :
    read "@1Year -2 mons\t+3w" = .ok (.seconds 28188000) ∧
      read "9223372036854775807 s 1 s -9223372036854775807 s" =
        .error (.spanOutOfRange "9223372036854775807 s 1 s -9223372036854775807 s") := by
  have hnone : ∀ c ∈ ([] : List Char), isBlank c := nofun
  have hspace : ∀ c ∈ [' '], isBlank c := List.forall_mem_singleton.2 rfl
  have htab : ∀ c ∈ ['\t'], isBlank c := List.forall_mem_singleton.2 rfl
  constructor
  · let years : WholeTerm :=
      ⟨.none, Numeral.write 1, [], "Year".toList, .year, Numeral.isRun_write 1, nofun,
        by decide, rfl⟩
    let months : WholeTerm :=
      ⟨.minus, Numeral.write 2, [' '], "mons".toList, .month, Numeral.isRun_write 2,
        List.forall_mem_singleton.2 rfl, by decide, rfl⟩
    let weeks : WholeTerm :=
      ⟨.plus, Numeral.write 3, [], "w".toList, .week, Numeral.isRun_write 3, nofun, by decide, rfl⟩
    have hbody : Joined ([years, months, weeks].map (·.text)) "1Year -2 mons\t+3w".toList :=
      .cons _ (by simp) hspace (.cons _ (by simp) htab (.single _))
    have hphrase : WholeTerm.IsPhrase [years, months, weeks] "@1Year -2 mons\t+3w".toList :=
      .marked hnone hnone hbody hnone
    have htotal : WholeTerm.total [years, months, weeks] = 28188000 := by decide
    have hread := (read_terms hphrase).1
    rw [if_pos (by decide), htotal] at hread
    exact hread
  · let most : WholeTerm :=
      ⟨.none, Numeral.write 9223372036854775807, [' '], "s".toList, .second,
        Numeral.isRun_write _, List.forall_mem_singleton.2 rfl, by decide, rfl⟩
    let one : WholeTerm :=
      ⟨.none, Numeral.write 1, [' '], "s".toList, .second, Numeral.isRun_write 1,
        List.forall_mem_singleton.2 rfl, by decide, rfl⟩
    let back : WholeTerm :=
      ⟨.minus, Numeral.write 9223372036854775807, [' '], "s".toList, .second,
        Numeral.isRun_write _, List.forall_mem_singleton.2 rfl, by decide, rfl⟩
    have hbody : Joined ([most, one, back].map (·.text))
        "9223372036854775807 s 1 s -9223372036854775807 s".toList :=
      .cons _ (by simp) hspace (.cons _ (by simp) hspace (.single _))
    have hphrase : WholeTerm.IsPhrase [most, one, back]
        "9223372036854775807 s 1 s -9223372036854775807 s".toList := .plain hnone hbody hnone
    have hread := (read_terms hphrase).1
    rw [if_neg (by decide)] at hread
    exact hread

end Span

end Horology
