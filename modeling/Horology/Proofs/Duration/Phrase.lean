import Horology.Duration.Phrase
import Horology.Proofs.Duration.TimeUnit

/-!
# Stretches of a duration phrase

A phrase is read from left to right, so a text that leaves no number without a unit takes the
duration read so far to another one, whatever follows it.  Such stretches are put together with
blanks between them, and what a phrase denotes is found by following its stretches.

## Main definitions

* `DurationToken.ofText?_append_cons`, `ofText?_append_gap_append` — the tokens of a text are those
  of its parts.
* `DurationToken.ofPiece_number`, `ofPiece_letters`, `ofPiece_clock` — the pieces that are written.
* `DurationToken.ofText?_front` — what makes the same tokens in front of any text.
* `DurationPhrase.Adds` — that a stretch of a phrase takes one duration to another.
* `DurationPhrase.read_of_adds`, `read_marker_of_adds`, `read_marker_ago_of_adds` — the phrase of a
  stretch, also behind the marker and before the word for the opposite.
-/

namespace Horology

open Numeral (IsRun)

namespace DurationToken

/-! ## Tokens of a text -/

theorem ofPieces_append (ps qs : List (List Char)) :
    ofPieces (ps ++ qs) = do
      let tokens ← ofPieces ps
      return tokens ++ (← ofPieces qs) := by
  induction ps with
  | nil =>
    cases h : ofPieces qs with
    | error fault => simp [ofPieces, h, bind, Except.bind]
    | ok tokens => simp [ofPieces, h, bind, Except.bind, pure, Except.pure]
  | cons p ps ih =>
    simp only [List.cons_append, ofPieces, ih]
    cases ofPiece p with
    | error fault => rfl
    | ok tokens =>
      cases ofPieces ps with
      | error fault => rfl
      | ok tokens' =>
        cases ofPieces qs with
        | error fault => rfl
        | ok tokens'' => simp [bind, Except.bind, pure, Except.pure]

/-- The tokens before a blank and those behind it are the tokens of a text. -/
theorem ofText?_append_cons {c : Char} (hc : isBlank c) (cs rest : List Char) :
    ofText? (cs ++ c :: rest) = do
      let tokens ← ofText? cs
      return tokens ++ (← ofText? rest) := by
  rw [ofText?, words_append_cons hc, ofPieces_append]
  rfl

theorem ofPieces_singleton (piece : List Char) : ofPieces [piece] = ofPiece piece := by
  rw [ofPieces, ofPieces]
  cases ofPiece piece with
  | error fault => rfl
  | ok tokens => simp [bind, Except.bind, pure, Except.pure]

theorem ofPiece_nil : ofPiece [] = .ok [] := by
  rw [ofPiece]

/-- A text without separators is one piece, or none if it is empty, and has the tokens of that. -/
theorem ofPieces_words_of_forall {separates : Char → Bool} {cs : List Char}
    (hcs : ∀ c ∈ cs, separates c = false) : ofPieces (words separates cs) = ofPiece cs := by
  by_cases hne : cs = []
  · rw [hne, ofPiece_nil]
    rfl
  · rw [words_piece ⟨hne, hcs⟩, ofPieces_singleton]

theorem ofText?_nil : ofText? [] = .ok [] := rfl

/-- A text without blanks has the tokens of its one piece. -/
theorem ofText?_of_forall {cs : List Char} (hcs : ∀ c ∈ cs, isBlank c = false) :
    ofText? cs = ofPiece cs :=
  ofPieces_words_of_forall hcs

theorem ofText?_piece {cs : List Char} (hcs : IsPiece isBlank cs) :
    ofText? cs = ofPiece cs :=
  ofText?_of_forall hcs.inside

/-- Blanks in front of a text say nothing. -/
theorem ofText?_gap_append {gap : List Char} (hgap : ∀ c ∈ gap, isBlank c) (cs : List Char) :
    ofText? (gap ++ cs) = ofText? cs := by
  induction gap with
  | nil => rfl
  | cons c gap ih =>
    have hc : isBlank c := hgap c List.mem_cons_self
    rw [List.cons_append, ← List.nil_append (c :: (gap ++ cs)), ofText?_append_cons hc,
      ih fun d hd => hgap d (List.mem_cons_of_mem c hd), ofText?_nil]
    cases ofText? cs <;> rfl

/-- Nor do blanks behind it. -/
theorem ofText?_append_gap {gap : List Char} (hgap : ∀ c ∈ gap, isBlank c) (cs : List Char) :
    ofText? (cs ++ gap) = ofText? cs := by
  cases gap with
  | nil => rw [List.append_nil]
  | cons c gap =>
    have hrest : ofText? gap = .ok [] := by
      have h := ofText?_gap_append (fun d hd => hgap d (List.mem_cons_of_mem c hd)) []
      rwa [List.append_nil] at h
    rw [ofText?_append_cons (hgap c List.mem_cons_self), hrest]
    cases ofText? cs with
    | error fault => rfl
    | ok tokens => simp [bind, Except.bind, pure, Except.pure]

/-- The tokens before blanks and those behind them are the tokens of a text. -/
theorem ofText?_append_gap_append {gap : List Char} (hne : gap ≠ [])
    (hgap : ∀ c ∈ gap, isBlank c) (cs rest : List Char) :
    ofText? (cs ++ gap ++ rest) = do
      let tokens ← ofText? cs
      return tokens ++ (← ofText? rest) := by
  cases gap with
  | nil => exact absurd rfl hne
  | cons c gap =>
    rw [List.append_assoc, List.cons_append, ofText?_append_cons (hgap c List.mem_cons_self),
      ofText?_gap_append fun d hd => hgap d (List.mem_cons_of_mem c hd)]

/-! ## Pieces -/

/-- A character that begins a number is neither the marker nor a letter. -/
theorem ne_marker_of_beginsNumber {c : Char} (h : beginsNumber c = true) :
    c ≠ '@' ∧ c.isAlpha = false := by
  simp only [beginsNumber, Bool.or_eq_true, beq_iff_eq] at h
  obtain ((hdigit | rfl) | rfl) | rfl := h
  · exact ⟨ne_of_class hdigit rfl, isAlpha_eq_false_of_isDigit hdigit⟩
  · decide
  · decide
  · decide

theorem beginsNumber_of_isDigit_or_sign {c : Char} (h : c.isDigit ∨ c = '+' ∨ c = '-') :
    beginsNumber c = true := by
  rcases h with h | rfl | rfl
  · simp [beginsNumber, h]
  · rfl
  · rfl

/-- The marker is a token wherever a piece has it. -/
theorem ofPiece_marker (cs : List Char) :
    ofPiece ('@' :: cs) = do return .marker :: (← ofPiece cs) := by
  rw [ofPiece, if_pos (beq_self_eq_true '@')]

/-- A letter and the letters behind it are a word. -/
theorem ofPiece_letter {c : Char} (hc : c.isAlpha) (cs : List Char) :
    ofPiece (c :: cs) = do
      return .word (String.ofList (lower (c :: cs.takeWhile Char.isAlpha))) ::
        (← ofPiece (cs.dropWhile Char.isAlpha)) := by
  have hat : c ≠ '@' := ne_of_class hc rfl
  rw [ofPiece, if_neg (by simpa using hat), if_pos hc]

/-- The tokens of a numeric stretch and what ends it: the stretch is a clock time if it has colons,
and a quantity otherwise, with the letters behind it for its unit. -/
def ofStretch (numeric rest : List Char) : Except DurationFault (List DurationToken) :=
  if numeric.contains ':' then do
    let token ← clock? numeric
    return token :: (← ofPiece rest)
  else do
    let q ← quantity? numeric
    let token := .quantity q (word? (rest.takeWhile Char.isAlpha))
    return token :: (← ofPiece (rest.dropWhile Char.isAlpha))

/-- A piece that begins with a number is cut behind its numeric stretch. -/
theorem ofPiece_stretch {c : Char} (hbegins : beginsNumber c = true) (cs : List Char) :
    ofPiece (c :: cs) =
      ofStretch (c :: cs.takeWhile fun c => !endsNumber c)
        (cs.dropWhile fun c => !endsNumber c) := by
  obtain ⟨hat, halpha⟩ := ne_marker_of_beginsNumber hbegins
  rw [ofPiece, if_neg (by simpa using hat), if_neg (by simp [halpha]), if_pos hbegins]
  rfl

/-- Of all other characters a piece may have commas only, which say nothing. -/
theorem ofPiece_other {c : Char} (hat : c ≠ '@') (halpha : ¬ c.isAlpha)
    (hbegins : ¬ beginsNumber c = true) (cs : List Char) :
    ofPiece (c :: cs) = if c = ',' then ofPiece cs else .error .badFormat := by
  rw [ofPiece, if_neg (by simpa using hat), if_neg halpha, if_neg hbegins]
  simp only [beq_iff_eq]

/-- Letters at the front of a piece are a word. -/
theorem ofPiece_letters {w rest : List Char} (hne : w ≠ []) (hw : ∀ c ∈ w, c.isAlpha)
    (hrest : Stops Char.isAlpha rest) :
    ofPiece (w ++ rest) = do
      return .word (String.ofList (lower w)) :: (← ofPiece rest) := by
  cases w with
  | nil => exact absurd rfl hne
  | cons c w =>
    have htail : ∀ d ∈ w, d.isAlpha := fun d hd => hw d (List.mem_cons_of_mem c hd)
    rw [List.cons_append, ofPiece_letter (hw c List.mem_cons_self),
      takeWhile_of_stops htail hrest, dropWhile_of_stops htail hrest]

/-- The characters of a numeric stretch do not end it. -/
theorem endsNumber_eq_false {c : Char} (h : c.isDigit ∨ c = '+' ∨ c = '-' ∨ c = ':') :
    endsNumber c = false := by
  rcases h with h | rfl | rfl | rfl
  · obtain ⟨hat, halpha⟩ := ne_marker_of_beginsNumber (beginsNumber_of_isDigit_or_sign (.inl h))
    simp [endsNumber, hat, halpha]
  · decide
  · decide
  · decide

/-- Nor are they blanks. -/
theorem isBlank_eq_false_of_numeric {c : Char} (h : c.isDigit ∨ c = '+' ∨ c = '-' ∨ c = ':') :
    isBlank c = false := by
  rcases h with h | rfl | rfl | rfl
  · exact isBlank_eq_false_of_isDigit h
  · rfl
  · rfl
  · rfl

/-- A numeric stretch and what ends it are taken apart again. -/
theorem ofPiece_stretch_append {c : Char} {cs rest : List Char} (hbegins : beginsNumber c = true)
    (hinside : ∀ d ∈ cs, endsNumber d = false) (hends : Stops (fun c => !endsNumber c) rest) :
    ofPiece (c :: cs ++ rest) = ofStretch (c :: cs) rest := by
  have hnumeric : ∀ d ∈ cs, (!endsNumber d) = true := by
    intro d hd
    rw [hinside d hd]
    rfl
  rw [List.cons_append, ofPiece_stretch hbegins, takeWhile_of_stops hnumeric hends,
    dropWhile_of_stops hnumeric hends]

/-- Digits and signs at the front of a piece are read as a quantity, with the letters behind them
for its unit. -/
theorem ofPiece_numeric {cs w rest : List Char} (hne : cs ≠ [])
    (hshape : ∀ c ∈ cs, c.isDigit ∨ c = '+' ∨ c = '-') (hw : ∀ c ∈ w, c.isAlpha)
    (hwrest : w = [] → rest = []) (hrest : Stops Char.isAlpha rest) :
    ofPiece (cs ++ w ++ rest) = do
      let q ← quantity? cs
      return .quantity q (word? w) :: (← ofPiece rest) := by
  have hends : Stops (fun c => !endsNumber c) (w ++ rest) := by
    cases w with
    | nil => simp [hwrest rfl]
    | cons c w => simp [endsNumber, hw c List.mem_cons_self]
  have hcolon : cs.contains ':' = false := by
    rw [List.contains_eq_mem, decide_eq_false_iff_not]
    intro hmem
    exact absurd (hshape ':' hmem) (by decide)
  have hinside : ∀ c ∈ cs, endsNumber c = false := fun c hc =>
    endsNumber_eq_false ((hshape c hc).imp_right fun h => h.imp_right .inl)
  cases cs with
  | nil => exact absurd rfl hne
  | cons c cs =>
    have hbegins := beginsNumber_of_isDigit_or_sign (hshape c List.mem_cons_self)
    rw [List.append_assoc, ofPiece_stretch_append hbegins (List.forall_mem_cons.1 hinside).2 hends,
      ofStretch, if_neg (by rw [hcolon]; exact Bool.false_ne_true)]
    simp only [takeWhile_of_stops hw hrest, dropWhile_of_stops hw hrest]

/-- A number at the front of a piece is a quantity, with the letters behind it for its unit. -/
theorem ofPiece_number {cs w rest : List Char} {z : Int} (hcs : Quantity.IsNumber cs z)
    (hw : ∀ c ∈ w, c.isAlpha) (hwrest : w = [] → rest = []) (hrest : Stops Char.isAlpha rest) :
    ofPiece (cs ++ w ++ rest) = do
      return .quantity (.ofInt z) (word? w) :: (← ofPiece rest) := by
  have hscan : Quantity.scan cs = .ok (.ofInt z, []) := by
    simpa using Quantity.scan_of_isNumber hcs (stops_nil _)
  rw [ofPiece_numeric hcs.ne_nil hcs.isDigit_or_sign hw hwrest hrest, quantity?, hscan]
  rfl

/-! ## Clock times -/

/-- A part of a clock time that fits is its number. -/
theorem clockPart_of_isRun {ds : List Char} {n : Nat} (hread : Numeral.read? ds = some n)
    (hfits : n ≤ 9223372036854775807) : clockPart ds = .ok (n : Int) := by
  rw [clockPart, hread]
  refine fit_of_fits ⟨?_, ?_⟩ <;> omega

theorem clockSeconds_of_isRun {ds : List Char} {n : Nat} (hds : IsRun ds)
    (hread : Numeral.read? ds = some n) (hfits : n ≤ 9223372036854775807) :
    clockSeconds ds = .ok ((n : Int), 0) := by
  have hscan : Quantity.scan ds = .ok (.ofInt n, []) := by
    simpa using Quantity.scan_of_isNumber (.plain hds hread hfits) (stops_nil _)
  cases ds with
  | nil => exact absurd rfl hds.ne_nil
  | cons d ds =>
    have hd := hds.isDigit d List.mem_cons_self
    have hplus : d ≠ '+' := ne_of_class hd rfl
    have hminus : d ≠ '-' := ne_of_class hd rfl
    have hunsigned : (!([] : List Char).isEmpty || (d :: ds).head? == some '+'
        || (d :: ds).head? == some '-') = false := by
      simp [hplus, hminus]
    have hmicros : Duration.nearestMicros (Quantity.ofInt n).fraction = .ok 0 :=
      Duration.nearestMicros_zero
    rw [clockSeconds, hscan, Duration.ok_bind]
    dsimp only
    rw [hunsigned, if_neg Bool.false_ne_true, hmicros]
    rfl

/-- Hours, minutes and seconds between colons are a clock time, with the sign in front of them for
the whole. -/
theorem clock?_of_runs {cs h m s : List Char} {negative : Bool} {hour minute second : Nat}
    (hsign : Quantity.splitSign cs = (negative, h ++ ':' :: m ++ ':' :: s)) (hh : IsRun h)
    (hm : IsRun m) (hs : IsRun s) (hhour : Numeral.read? h = some hour)
    (hminute : Numeral.read? m = some minute) (hsecond : Numeral.read? s = some second)
    (hfits : hour ≤ 9223372036854775807) (hminute59 : minute ≤ 59) (hsecond60 : second ≤ 60) :
    clock? cs = .ok (.clock negative hour minute second 0) := by
  rw [clock?, hsign, hh.splitOn_three hm hs rfl]
  simp only [clockPart_of_isRun hhour hfits, clockPart_of_isRun hminute (by omega),
    clockSeconds_of_isRun hs hsecond (by omega), Duration.ok_bind, List.isEmpty_nil, if_true]
  rw [ofClock, if_neg]
  simp only [Bool.or_eq_true, decide_eq_true_eq]
  omega

/-- A piece of digits, signs and colons is the clock time it denotes. -/
theorem ofPiece_clock {c : Char} {cs : List Char} {token : DurationToken}
    (hc : c.isDigit ∨ c = '+' ∨ c = '-')
    (hcs : ∀ d ∈ cs, d.isDigit ∨ d = '+' ∨ d = '-' ∨ d = ':') (hcolon : ':' ∈ cs)
    (hclock : clock? (c :: cs) = .ok token) : ofPiece (c :: cs) = .ok [token] := by
  have hinside : ∀ d ∈ cs, endsNumber d = false := fun d hd => endsNumber_eq_false (hcs d hd)
  have hcontains : (c :: cs).contains ':' = true := by
    rw [List.contains_eq_mem, decide_eq_true_eq]
    exact List.mem_cons_of_mem c hcolon
  have hbegins := beginsNumber_of_isDigit_or_sign hc
  have hstretch := ofPiece_stretch_append hbegins hinside (stops_nil _)
  rw [List.append_nil, ofStretch, if_pos hcontains, hclock, Duration.ok_bind,
    ofPiece_nil] at hstretch
  exact hstretch

/-! ## Fronts -/

/-- What makes the same tokens in front of any piece makes them in front of any text. -/
theorem ofText?_front (front : List Char) (tokens : List DurationToken) {p : Char → Bool}
    (hfront : ∀ c ∈ front, isBlank c = false)
    (h : ∀ rest, Stops p rest → ofPiece (front ++ rest) = (ofPiece rest).map (tokens ++ ·))
    {rest : List Char} (hrest : Stops p rest) :
    ofText? (front ++ rest) = (ofText? rest).map (tokens ++ ·) := by
  have hpiece {cs : List Char} (hcs : ∀ c ∈ cs, isBlank c = false) (hstops : Stops p cs) :
      ofText? (front ++ cs) = (ofText? cs).map (tokens ++ ·) := by
    rw [ofText?_of_forall (List.forall_mem_append.2 ⟨hfront, hcs⟩), ofText?_of_forall hcs,
      h cs hstops]
  induction rest using cut_induction (p := isBlank) with
  | piece cs hcs => exact hpiece hcs hrest
  | cut cs c rest hcs hc _ =>
    have hstops : Stops p cs := by
      cases cs with
      | nil => exact stops_nil p
      | cons d cs => exact stops_cons.2 (stops_cons.1 hrest)
    rw [← List.append_assoc, ofText?_append_cons hc, ofText?_append_cons hc, hpiece hcs hstops]
    cases ofText? cs with
    | error fault => rfl
    | ok tokens' =>
      cases ofText? rest with
      | error fault => rfl
      | ok tokens'' =>
        simp [bind, Except.bind, pure, Except.pure, Except.map]

/-- **The marker is a token of its own**, with or without blanks behind it. -/
theorem ofText?_marker (cs : List Char) :
    ofText? ('@' :: cs) = (ofText? cs).map (.marker :: ·) := by
  refine ofText?_front ['@'] [.marker] (p := fun _ => false)
    (List.forall_mem_singleton.2 rfl) ?_ (fun _ _ => rfl)
  intro rest _
  rw [List.singleton_append, ofPiece_marker]
  rfl

end DurationToken

namespace DurationPhrase

open DurationToken Duration

/-! ## Words -/

/-- The word for the opposite ends a phrase. -/
theorem sum_ago (d : Duration) (pending : Option Quantity) (tokens : List DurationToken) :
    sum d pending (.word agoWord :: tokens) =
      if tokens.isEmpty then settle d pending >>= negate? else .error .badFormat := by
  rw [sum.eq_def]
  cases tokens <;> rfl

/-- Any other word gives a number its unit. -/
theorem sum_word {w : String} (hw : w ≠ agoWord) (d : Duration) (pending : Option Quantity)
    (tokens : List DurationToken) :
    sum d pending (.word w :: tokens) =
      match TimeUnit.ofWord? w, pending with
      | some unit, some q => do sum (← d.add? q unit) none tokens
      | _, _ => .error .badFormat := by
  rw [sum.eq_def]
  exact if_neg hw

/-! ## Stretches -/

/-- That a text is a stretch of a phrase which takes a duration to another one: whatever tokens
follow it, summing up goes on from there. -/
def Adds (text : List Char) (d d' : Duration) : Prop :=
  ∃ tokens, tokens ≠ [] ∧ ofText? text = .ok tokens ∧
    ∀ more, sum d none (tokens ++ more) = sum d' none more

variable {text rest : List Char} {d d' d'' : Duration}

/-- Stretches with a blank between them make up a stretch. -/
theorem Adds.append {c : Char} (hc : isBlank c) (h : Adds text d d') (hrest : Adds rest d' d'') :
    Adds (text ++ c :: rest) d d'' := by
  obtain ⟨tokens, hne, htokens, hsum⟩ := h
  obtain ⟨tokens', -, htokens', hsum'⟩ := hrest
  refine ⟨tokens ++ tokens', by simp [hne], ?_, ?_⟩
  · rw [ofText?_append_cons hc, htokens, htokens']
    rfl
  · intro more
    rw [List.append_assoc, hsum, hsum']

/-- That letters spell a unit. -/
structure SpellsUnit (w : List Char) (unit : TimeUnit) : Prop where
  ne_nil : w ≠ []
  letters : ∀ c ∈ w, c.isAlpha
  sense : TimeUnit.ofWord? (String.ofList (lower w)) = some unit

instance (w : List Char) (unit : TimeUnit) : Decidable (SpellsUnit w unit) :=
  decidable_of_iff (w ≠ [] ∧ w.all Char.isAlpha = true ∧
    TimeUnit.ofWord? (String.ofList (lower w)) = some unit)
    ⟨fun h => ⟨h.1, List.all_eq_true.1 h.2.1, h.2.2⟩,
      fun h => ⟨h.ne_nil, List.all_eq_true.2 h.letters, h.sense⟩⟩

/-- A spelling of a unit is a word of a text. -/
theorem SpellsUnit.ofText? {w : List Char} {unit : TimeUnit} (hw : SpellsUnit w unit) :
    ofText? w = .ok [.word (String.ofList (lower w))] := by
  have hpiece : IsPiece isBlank w :=
    ⟨hw.ne_nil, fun c hc => isBlank_eq_false_of_isAlpha (hw.letters c hc)⟩
  have hletters := ofPiece_letters hw.ne_nil hw.letters (stops_nil _)
  rw [List.append_nil, ofPiece_nil] at hletters
  exact (ofText?_piece hpiece).trans hletters

theorem SpellsUnit.ne_ago {w : List Char} {unit : TimeUnit} (hw : SpellsUnit w unit) :
    String.ofList (lower w) ≠ agoWord := by
  intro heq
  have hnone : TimeUnit.ofWord? agoWord = none := by decide
  have hsense := hw.sense
  rw [heq, hnone] at hsense
  cases hsense

/-- A spelling of a unit gives the number before it its unit. -/
theorem SpellsUnit.sum {w : List Char} {unit : TimeUnit} (hw : SpellsUnit w unit) (d : Duration)
    (q : Quantity) (more : List DurationToken) :
    sum d (some q) (.word (String.ofList (lower w)) :: more) =
      d.add? q unit >>= fun d' => DurationPhrase.sum d' none more := by
  rw [sum_word hw.ne_ago, hw.sense]

/-- A number before its unit is a stretch that adds so many of the unit. -/
theorem adds_number_unit {cs w : List Char} {z : Int} {unit : TimeUnit}
    (hcs : Quantity.IsNumber cs z) (hw : SpellsUnit w unit)
    (hadd : d.add? (.ofInt z) unit = .ok d') : Adds (cs ++ ' ' :: w) d d' := by
  have hnumber : IsPiece isBlank cs := by
    refine ⟨hcs.ne_nil, ?_⟩
    intro c hc
    have hsort := hcs.isDigit_or_sign c hc
    exact isBlank_eq_false_of_numeric (hsort.imp_right fun h => h.imp_right .inl)
  have hquantity : ofPiece cs = .ok [.quantity (.ofInt z) none] := by
    have h := ofPiece_number (w := []) hcs (by simp) (fun _ => rfl) (stops_nil _)
    rw [List.append_nil, List.append_nil, ofPiece_nil] at h
    exact h
  refine ⟨[.quantity (.ofInt z) none, .word (String.ofList (lower w))], by simp, ?_, ?_⟩
  · rw [ofText?_append_cons rfl, ofText?_piece hnumber, hw.ofText?, hquantity]
    rfl
  · intro more
    exact (hw.sum d (.ofInt z) more).trans (by rw [hadd, ok_bind])

/-- The clock time of a text is a stretch that adds its parts. -/
theorem adds_clock {c : Char} {cs : List Char} {negative : Bool} {hours minutes seconds : Int}
    (hc : c.isDigit ∨ c = '+' ∨ c = '-')
    (hcs : ∀ d ∈ cs, d.isDigit ∨ d = '+' ∨ d = '-' ∨ d = ':') (hcolon : ':' ∈ cs)
    (hclock : clock? (c :: cs) = .ok (.clock negative hours minutes seconds 0))
    (hadd : addClock d negative hours minutes seconds 0 = .ok d') : Adds (c :: cs) d d' := by
  have hpiece : IsPiece isBlank (c :: cs) := by
    refine ⟨List.cons_ne_nil c cs, ?_⟩
    intro e he
    rcases List.mem_cons.1 he with rfl | he
    · exact isBlank_eq_false_of_numeric (hc.imp_right fun h => h.imp_right .inl)
    · exact isBlank_eq_false_of_numeric (hcs e he)
  refine ⟨[.clock negative hours minutes seconds 0], by simp, ?_, ?_⟩
  · rw [ofText?_piece hpiece, ofPiece_clock hc hcs hcolon hclock]
  · intro more
    simp [sum, hadd, ok_bind]

/-! ## Phrases -/

/-- Tokens that sum up to a duration are a phrase: they are neither the word for an invalid value
nor do they begin with the marker. -/
theorem ofTokens_of_sum {tokens : List DurationToken} (hne : tokens ≠ [])
    (hsum : sum .zero none tokens = .ok d) : ofTokens tokens = .ok (.delta d) := by
  have hinvalid : tokens ≠ [.word invalidWord] := by
    rintro rfl
    exact absurd hsum (by simp [sum, invalidWord, agoWord])
  have hmarker : dropMarker tokens = tokens := by
    unfold dropMarker
    split
    · exact absurd hsum (by simp [sum])
    · rfl
  rw [ofTokens, if_neg (by simpa using hne), if_neg hinvalid, hmarker, hsum]
  rfl

/-- A stretch from zero is a phrase for where it leads. -/
theorem read_of_adds (h : Adds text .zero d) : read text = .ok (.delta d) := by
  obtain ⟨tokens, hne, htokens, hsum⟩ := h
  have hzero := hsum []
  rw [List.append_nil] at hzero
  rw [read, htokens]
  exact ofTokens_of_sum hne hzero

/-- The marker at the front of a phrase says nothing. -/
theorem read_marked (text : List Char) :
    read ('@' :: text) =
      (ofText? text >>= fun tokens => (sum .zero none tokens).map .delta) := by
  rw [read, ofText?_marker]
  cases ofText? text with
  | error fault => rfl
  | ok tokens => simp [Except.map, ok_bind, ofTokens, dropMarker]

/-- Nor does a blank behind the marker. -/
theorem read_marker (text : List Char) :
    read ('@' :: ' ' :: text) =
      (ofText? text >>= fun tokens => (sum .zero none tokens).map .delta) := by
  have hblank : ofText? (' ' :: text) = ofText? text :=
    ofText?_gap_append (List.forall_mem_singleton.2 rfl) text
  rw [read_marked, hblank]

/-- A stretch from zero behind the marker is a phrase for where it leads. -/
theorem read_marker_of_adds (h : Adds text .zero d) :
    read ('@' :: ' ' :: text) = .ok (.delta d) := by
  obtain ⟨tokens, -, htokens, hsum⟩ := h
  have hzero := hsum []
  rw [List.append_nil] at hzero
  rw [read_marker, htokens, ok_bind, hzero]
  rfl

theorem ofText?_ago : ofText? "ago".toList = .ok [.word agoWord] := by
  rw [ofText?_piece (by decide)]
  have hletters := ofPiece_letters (w := "ago".toList) (by decide) (List.all_eq_true.1 rfl)
    (stops_nil _)
  rw [List.append_nil, ofPiece_nil] at hletters
  exact hletters

/-- The word for the opposite behind a text is one more token. -/
theorem ofText?_append_ago {tokens : List DurationToken} (h : ofText? text = .ok tokens) :
    ofText? (text ++ " ago".toList) = .ok (tokens ++ [.word agoWord]) := by
  rw [show " ago".toList = ' ' :: "ago".toList from rfl, ofText?_append_cons rfl, h, ofText?_ago]
  rfl

/-- With the last word of a phrase it is a phrase for the opposite. -/
theorem read_marker_ago_of_adds (h : Adds text .zero d) :
    read ('@' :: ' ' :: text ++ " ago".toList) = d.negate?.map .delta := by
  obtain ⟨tokens, -, htokens, hsum⟩ := h
  have hall := ofText?_append_ago htokens
  rw [show '@' :: ' ' :: text ++ " ago".toList = '@' :: ' ' :: (text ++ " ago".toList) from rfl,
    read_marker, hall, ok_bind, hsum]
  simp [sum, settle, ok_bind]

end DurationPhrase

end Horology
