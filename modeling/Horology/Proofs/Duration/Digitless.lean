import Horology.Proofs.Span.Micros

/-!
# Texts without a digit

A point alone is a number, the digits on both of its sides being optional: it is read like `.0`.  A
text without a digit is thus read like the text with a zero behind each of its points.  All of its
numbers are zero, and so is what they add up to, in either grammar; such a text is either the empty
duration, or the word for an invalid value, or refused for its form, and never for its size.

## Main definitions

* `Digitless`, `withZeros` — texts without a digit, and with a zero behind each point.
* `Alike` — that two readers find values of a relation, or both find a fault of form.
* `Duration.add?_zero` — zero of any unit leaves a duration as it is.
* `DurationDesignator.readParts_digitless`, `DurationToken.ofText?_digitless` — the two grammars.
* `Duration.read_digitless` — what is read.
-/

namespace Horology

/-! ## Points -/

/-- That a text has no digit in it. -/
def Digitless (cs : List Char) : Prop := ∀ c ∈ cs, c.isDigit = false

instance (cs : List Char) : Decidable (Digitless cs) :=
  decidable_of_iff (cs.all (fun c => !c.isDigit) = true) (by simp [Digitless])

/-- A character, with a zero behind it if it is a point. -/
def withZero (c : Char) : List Char := if c = '.' then ['.', '0'] else [c]

/-- A text with a zero behind each of its points. -/
def withZeros (cs : List Char) : List Char := cs.flatMap withZero

variable {c : Char} {cs rest : List Char}

theorem Digitless.of_cons (h : Digitless (c :: cs)) : Digitless cs :=
  (List.forall_mem_cons.1 h).2

theorem Digitless.sublist (h : Digitless cs) (hrest : rest.Sublist cs) : Digitless rest :=
  fun c hc => h c (hrest.subset hc)

theorem Digitless.stops (h : Digitless cs) : Stops Char.isDigit cs :=
  fun c hc => h c (List.mem_of_mem_head? hc)

@[simp] theorem withZeros_nil : withZeros [] = [] := rfl

@[simp] theorem withZeros_point : withZeros ('.' :: cs) = '.' :: '0' :: withZeros cs := rfl

theorem withZeros_cons (hc : c ≠ '.') : withZeros (c :: cs) = c :: withZeros cs := by
  simp [withZeros, withZero, hc]

/-- No zero comes before the first character of a text. -/
theorem exists_withZeros_cons (c : Char) (cs : List Char) :
    ∃ tail, withZeros (c :: cs) = c :: tail := by
  by_cases hc : c = '.'
  · rw [hc]
    exact ⟨_, withZeros_point⟩
  · exact ⟨_, withZeros_cons hc⟩

theorem head?_withZeros : (withZeros cs).head? = cs.head? := by
  cases cs with
  | nil => rfl
  | cons c cs =>
    obtain ⟨tail, htail⟩ := exists_withZeros_cons c cs
    rw [htail]
    rfl

/-- Nothing but zeros comes into a text. -/
theorem mem_withZeros_iff (hc : c ≠ '0') : c ∈ withZeros cs ↔ c ∈ cs := by
  simp only [withZeros, withZero, List.mem_flatMap]
  constructor
  · rintro ⟨d, hd, hmem⟩
    split at hmem <;> simp_all
  · intro hmem
    refine ⟨c, hmem, ?_⟩
    split <;> simp_all

theorem withZeros_of_forall (h : ∀ c ∈ cs, c ≠ '.') : withZeros cs = cs := by
  induction cs with
  | nil => rfl
  | cons c cs ih =>
    rw [List.forall_mem_cons] at h
    rw [withZeros_cons h.1, ih h.2]

theorem withZeros_append (cs rest : List Char) :
    withZeros (cs ++ rest) = withZeros cs ++ withZeros rest :=
  List.flatMap_append

/-- A zero stands in the class of the point before it. -/
theorem keepsClass_withZero {p : Char → Bool} (hp : p '0' = p '.') : KeepsClass p withZero := by
  intro c
  unfold withZero
  split
  · next hc => simp [hc, hp]
  · simp

theorem takeWhile_withZeros {p : Char → Bool} (hp : p '0' = p '.') (cs : List Char) :
    (withZeros cs).takeWhile p = withZeros (cs.takeWhile p) :=
  takeWhile_flatMap (keepsClass_withZero hp) cs

theorem dropWhile_withZeros {p : Char → Bool} (hp : p '0' = p '.') (cs : List Char) :
    (withZeros cs).dropWhile p = withZeros (cs.dropWhile p) :=
  dropWhile_flatMap (keepsClass_withZero hp) cs

/-- There are no points among letters. -/
theorem takeWhile_isAlpha_withZeros (cs : List Char) :
    (withZeros cs).takeWhile Char.isAlpha = cs.takeWhile Char.isAlpha := by
  rw [takeWhile_withZeros rfl]
  exact withZeros_of_forall fun c hc => ne_of_class (List.mem_takeWhile_imp hc) rfl

/-- A text outside a class stays outside it. -/
theorem forall_mem_withZeros {p : Char → Bool} (hp : p '0' = p '.') (h : ∀ c ∈ cs, p c = false) :
    ∀ c ∈ withZeros cs, p c = false := by
  intro c hc
  obtain ⟨d, hd, hmem⟩ := List.mem_flatMap.1 hc
  rw [(keepsClass_withZero hp d).2 c hmem, h d hd]

/-! ## Readers of two texts -/

section Alike

variable {α β γ δ : Type} {R : α → β → Prop} {S : γ → δ → Prop}

/-- That two readers find a fault of form both, or both find a value, the two being related. -/
def Alike (R : α → β → Prop) (x : Except DurationFault α) (y : Except DurationFault β) : Prop :=
  x = .error .badFormat ∧ y = .error .badFormat ∨ ∃ a b, R a b ∧ x = .ok a ∧ y = .ok b

theorem alike_bad : Alike R (.error .badFormat) (.error .badFormat) :=
  .inl ⟨rfl, rfl⟩

theorem alike_ok {a : α} {b : β} (h : R a b) : Alike R (.ok a) (.ok b) :=
  .inr ⟨a, b, h, rfl, rfl⟩

/-- Readers that come out alike may go on with readers that do so on related values. -/
theorem Alike.bind {x : Except DurationFault α} {y : Except DurationFault β}
    {f : α → Except DurationFault γ} {g : β → Except DurationFault δ} (h : Alike R x y)
    (hnext : ∀ a b, R a b → Alike S (f a) (g b)) : Alike S (x >>= f) (y >>= g) := by
  obtain ⟨rfl, rfl⟩ | ⟨a, b, hab, rfl, rfl⟩ := h
  · exact alike_bad
  · exact hnext a b hab

end Alike

/-- The same value of a property. -/
def Same {α : Type} (P : α → Prop) (a b : α) : Prop := P a ∧ b = a

theorem alike_same {α : Type} {P : α → Prop} {a : α} (h : P a) :
    Alike (Same P) (.ok a) (.ok a) :=
  alike_ok ⟨h, rfl⟩

theorem Alike.map_same {α β : Type} {P : α → Prop} {Q : β → Prop} {x y : Except DurationFault α}
    {f : α → β} (h : Alike (Same P) x y) (hf : ∀ a, P a → Q (f a)) :
    Alike (Same Q) (x.map f) (y.map f) := by
  obtain ⟨rfl, rfl⟩ | ⟨_, a, ⟨ha, rfl⟩, rfl, rfl⟩ := h
  · exact alike_bad
  · exact alike_same (hf a ha)

/-- The same value, found in front of a text without digits and of this text with its zeros. -/
inductive Before {α : Type} (a : α) : α × List Char → α × List Char → Prop where
  | intro {rest : List Char} (h : Digitless rest) : Before a (a, rest) (a, withZeros rest)

namespace Quantity

theorem splitSign_withZeros :
    splitSign (withZeros cs) = ((splitSign cs).1, withZeros (splitSign cs).2) := by
  cases cs with
  | nil => rfl
  | cons c cs =>
    by_cases hpoint : c = '.'
    · subst hpoint
      rfl
    · rw [withZeros_cons hpoint]
      by_cases hminus : c = '-'
      · subst hminus
        rfl
      · by_cases hplus : c = '+'
        · subst hplus
          rfl
        · have hsign (ds : List Char) : splitSign (c :: ds) = (false, c :: ds) := by
            rw [splitSign]
            · intro _ heq
              exact hminus (List.cons.inj heq).1
            · intro _ heq
              exact hplus (List.cons.inj heq).1
          rw [hsign, hsign, withZeros_cons hpoint]

theorem sublist_splitSign (cs : List Char) : (splitSign cs).2.Sublist cs := by
  unfold splitSign
  split
  · exact List.sublist_cons_self _ _
  · exact List.sublist_cons_self _ _
  · exact List.Sublist.refl _

/-- There is no number where neither a digit nor a point follows the sign. -/
theorem scan_of_stops (h : Stops endsWhole (splitSign cs).2) :
    scan cs = .error .badFormat := by
  simp only [scan]
  generalize (splitSign cs).2 = body at h
  cases body with
  | nil => rfl
  | cons c body =>
    obtain ⟨hdigit, hpoint⟩ := Bool.or_eq_false_iff.1 (stops_cons.1 h)
    have hstop : ¬ c.isDigit = true := by simp [hdigit]
    rw [List.dropWhile_cons_of_neg hstop, List.takeWhile_cons_of_neg hstop]
    split
    · next heq =>
      rw [(List.cons.inj heq).1] at hpoint
      cases hpoint
    · rfl

/-- A point is zero if no other decimals than zeros follow it. -/
theorem scan_of_point (decimals : List Char)
    (hsign : (splitSign cs).2 = '.' :: (decimals ++ rest)) (hdecimals : ∀ c ∈ decimals, c.isDigit)
    (hzero : Numeral.value decimals = 0) (hrest : Stops Char.isDigit rest) :
    scan cs = .ok (ofInt 0, rest) := by
  have hwhole : wholePart [] = .ok 0 := fit_of_fits (by decide)
  have hfraction : fractionPart decimals = 0 := by
    rw [fractionPart, hzero]
    simp
  simp only [scan, hsign]
  rw [List.dropWhile_cons_of_neg (by decide), List.takeWhile_cons_of_neg (by decide)]
  simp only [takeWhile_of_stops hdecimals hrest, dropWhile_of_stops hdecimals hrest, ofDigits,
    hwhole, hfraction, Duration.ok_bind]
  cases (splitSign cs).1 <;> rfl

/-- **A text without digits begins with a point alone, or with no number.** -/
theorem scan_digitless (h : Digitless cs) :
    Alike (Before (ofInt 0)) (scan cs) (scan (withZeros cs)) := by
  have hbody := h.sublist (sublist_splitSign cs)
  have hzeros : (splitSign (withZeros cs)).2 = withZeros (splitSign cs).2 := by
    rw [splitSign_withZeros]
  by_cases hpoint : (splitSign cs).2.head? = some '.'
  · obtain ⟨rest, hsign⟩ := List.head?_eq_some_iff.1 hpoint
    rw [hsign] at hbody hzeros
    have hrest := hbody.of_cons
    have hstops : Stops Char.isDigit (withZeros rest) := by
      rw [Stops, head?_withZeros]
      exact hrest.stops
    have hscan := scan_of_point [] hsign (List.forall_mem_nil _) rfl hrest.stops
    have hscan' := scan_of_point ['0'] hzeros
      (List.forall_mem_singleton.2 rfl) rfl hstops
    rw [hscan, hscan']
    exact alike_ok ⟨hrest⟩
  · have hstops : Stops endsWhole (splitSign cs).2 := by
      intro c hc
      refine Bool.or_eq_false_iff.2 ⟨hbody.stops c hc, ?_⟩
      rw [beq_eq_false_iff_ne]
      rintro rfl
      exact hpoint hc
    have hstops' : Stops endsWhole (splitSign (withZeros cs)).2 := by
      rwa [hzeros, Stops, head?_withZeros]
    rw [scan_of_stops hstops, scan_of_stops hstops']
    exact alike_bad

end Quantity

namespace Duration

/-- Zero of any unit leaves a duration as it is. -/
theorem add?_zero {d : Duration} (hd : d.Fits) (unit : TimeUnit) :
    d.add? (.ofInt 0) unit = .ok d := by
  have hzero : Fits64 (0 : Int) := by decide
  cases hunit : unit.isWhole with
  | true =>
    rw [add?_ofInt hd hzero hunit, if_pos, plus_zero]
    rw [Int.zero_mul, plus_zero]
    exact ⟨hzero, hd⟩
  | false =>
    obtain ⟨-, -, -, -, -, -, hmicros⟩ := id hd
    rw [add?_small hunit, plus_zero]
    · rw [Int.zero_mul]
      decide
    · rwa [Int.zero_mul, Int.add_zero]

end Duration

/-! ## Designators -/

namespace DurationDesignator

open Duration Quantity

variable {inTime : Bool}

/-- A reader that looks for a mark, and leaves a text alone that does not begin with it. -/
theorem alike_of_mark (mark : Char)
    {reader : List Char → Except DurationFault (Duration × List Char)} (hmark : mark ≠ '.')
    (hbehind : ∀ tail, Digitless tail →
      Alike (Before .zero) (reader (mark :: tail)) (reader (mark :: withZeros tail)))
    (hstay : ∀ cs, cs.head? ≠ some mark → reader cs = .ok (.zero, cs)) (h : Digitless cs) :
    Alike (Before .zero) (reader cs) (reader (withZeros cs)) := by
  by_cases hhead : cs.head? = some mark
  · obtain ⟨tail, rfl⟩ := List.head?_eq_some_iff.1 hhead
    rw [withZeros_cons hmark]
    exact hbehind tail h.of_cons
  · rw [hstay cs hhead, hstay (withZeros cs) (by rwa [head?_withZeros])]
    exact alike_ok ⟨h⟩

theorem readDay_digitless (h : Digitless cs) :
    Alike (Before .zero) (readDay .zero cs) (readDay .zero (withZeros cs)) := by
  refine alike_of_mark '-' (by decide) ?_ ?_ h
  · intro tail htail
    refine (scan_digitless htail).bind ?_
    rintro _ _ ⟨hrest⟩
    exact alike_ok ⟨hrest⟩
  · intro cs hhead
    unfold readDay
    split
    · exact absurd rfl hhead
    · rfl

theorem readSeconds_digitless (h : Digitless cs) :
    Alike (Before .zero) (readSeconds .zero cs) (readSeconds .zero (withZeros cs)) := by
  refine alike_of_mark ':' (by decide) ?_ ?_ h
  · intro tail htail
    refine (scan_digitless htail).bind ?_
    rintro _ _ ⟨hrest⟩
    simp only [add?_zero fits_zero, ok_bind]
    exact alike_ok ⟨hrest⟩
  · intro cs hhead
    unfold readSeconds
    split
    · exact absurd rfl hhead
    · rfl

theorem readDate_digitless (h : Digitless cs) :
    Alike (Before .zero) (readDate .zero (.ofInt 0) cs)
      (readDate .zero (.ofInt 0) (withZeros cs)) := by
  refine alike_of_mark '-' (by decide) ?_ ?_ h
  · intro tail htail
    refine (scan_digitless htail).bind ?_
    rintro _ _ ⟨hrest⟩
    exact readDay_digitless hrest
  · intro cs hhead
    unfold readDate
    rw [if_neg (by decide)]
    split
    · exact absurd rfl hhead
    · rfl

theorem readClock_digitless (h : Digitless cs) :
    Alike (Before .zero) (readClock .zero (.ofInt 0) cs)
      (readClock .zero (.ofInt 0) (withZeros cs)) := by
  refine alike_of_mark ':' (by decide) ?_ ?_ h
  · intro tail htail
    refine (scan_digitless htail).bind ?_
    rintro _ _ ⟨hrest⟩
    exact readSeconds_digitless hrest
  · intro cs hhead
    unfold readClock
    rw [if_neg (by decide)]
    split
    · exact absurd rfl hhead
    · rfl

theorem readAfter_digitless (h : Digitless cs) :
    Alike (Before .zero) (readAfter inTime .zero (.ofInt 0) cs)
      (readAfter inTime .zero (.ofInt 0) (withZeros cs)) := by
  cases cs with
  | nil =>
    cases inTime with
    | true => exact readClock_digitless h
    | false => exact readDate_digitless h
  | cons c cs =>
    obtain ⟨tail, htail⟩ := exists_withZeros_cons c cs
    cases hunit : unit? inTime c with
    | some unit =>
      have hpoint : c ≠ '.' := ne_of_class (isAlpha_of_unit? hunit) rfl
      simp only [withZeros_cons hpoint, readAfter, hunit, add?_zero fits_zero, ok_bind]
      exact alike_ok ⟨h.of_cons⟩
    | none =>
      have hclock := readClock_digitless h
      have hdate := readDate_digitless h
      rw [htail] at hclock hdate ⊢
      simp only [readAfter, hunit]
      split
      · exact hclock
      · split
        · exact hdate
        · exact alike_bad

/-- One part of a text without digits adds nothing. -/
theorem readPart_digitless (inTime : Bool) (h : Digitless cs) :
    Alike (Before .zero) (readPart inTime .zero cs) (readPart inTime .zero (withZeros cs)) := by
  refine (scan_digitless h).bind ?_
  rintro _ _ ⟨hrest⟩
  exact readAfter_digitless hrest

/-- **The parts of a text without digits add up to nothing, or are refused for their form.** -/
theorem readParts_digitless (inTime : Bool) (h : Digitless cs) :
    Alike (Same (· = .zero)) (readParts inTime .zero cs)
      (readParts inTime .zero (withZeros cs)) := by
  induction hn : cs.length using Nat.strongRecOn generalizing cs inTime with | ind n ih => ?_
  cases cs with
  | nil =>
    rw [withZeros_nil, readParts_nil]
    exact alike_same rfl
  | cons c cs =>
    by_cases hjoint : c = 'T'
    · subst hjoint
      rw [withZeros_cons (by decide)]
      cases inTime with
      | true =>
        rw [readParts, readParts]
        exact alike_bad
      | false =>
        rw [readParts_joint, readParts_joint]
        exact ih cs.length (by rw [← hn]; simp) true h.of_cons rfl
    · obtain ⟨tail, htail⟩ := exists_withZeros_cons c cs
      have hpart := readPart_digitless inTime h
      rw [htail] at hpart ⊢
      rw [readParts_cons hjoint, readParts_cons hjoint]
      obtain ⟨hbad, hbad'⟩ | ⟨_, _, @⟨rest, hrest⟩, hok, hok'⟩ := hpart
      · rw [hbad, hbad']
        exact alike_bad
      · have hlength := length_lt_of_readPart hok
        rw [hok, hok']
        exact ih rest.length (by omega) inTime hrest rfl

/-- Behind the `P` stands nothing or is refused for its form. -/
theorem read_digitless (h : Digitless cs) :
    Alike (Same (· = .delta .zero)) (read cs) (read (withZeros cs)) := by
  have htrim : trimWhere (· == ' ') (withZeros cs) = withZeros (trimWhere (· == ' ') cs) :=
    trimWhere_flatMap (keepsClass_withZero rfl) cs
  have htrimmed : Digitless (trimWhere (· == ' ') cs) := h.sublist (trimWhere_sublist _ cs)
  by_cases hhead : (trimWhere (· == ' ') cs).head? = some 'P'
  · obtain ⟨body, hbody⟩ := List.head?_eq_some_iff.1 hhead
    rw [hbody] at htrimmed
    rw [read, read, htrim, hbody, withZeros_cons (by decide)]
    cases body with
    | nil => exact alike_bad
    | cons c body =>
      obtain ⟨tail, htail⟩ := exists_withZeros_cons c body
      have hparts := readParts_digitless false htrimmed.of_cons
      rw [htail] at hparts ⊢
      exact hparts.map_same fun d hd => congrArg DurationReading.delta hd
  · rw [read_of_head? hhead, read_of_head? (by rwa [htrim, head?_withZeros])]
    exact alike_bad

end DurationDesignator

/-! ## Phrases -/

namespace DurationToken

open Quantity

theorem clockPart_of_stops (h : Stops Char.isDigit cs) : clockPart cs = .error .badFormat := by
  unfold clockPart
  split
  · next n hread =>
    obtain ⟨hne, hdigits, -⟩ := Numeral.read?_eq_some_iff.1 hread
    obtain ⟨c, tail, rfl⟩ := List.exists_cons_of_ne_nil hne
    exact absurd (hdigits c List.mem_cons_self) (by simp [stops_cons.1 h])
  · rfl

/-- The first piece of a text begins like the text, or is empty. -/
theorem stops_of_splitOn {p : Char → Bool} {sep : Char} {first : List Char}
    {more : List (List Char)} (h : Stops p cs) (hsplit : cs.splitOn sep = first :: more) :
    Stops p first := by
  cases cs with
  | nil =>
    obtain ⟨rfl, -⟩ := List.cons.inj (List.splitOn_nil sep ▸ hsplit)
    exact stops_nil p
  | cons c cs =>
    rw [List.splitOn_cons_eq_if_modifyHead] at hsplit
    split at hsplit
    · obtain ⟨rfl, -⟩ := List.cons.inj hsplit
      exact stops_nil p
    · obtain ⟨piece, pieces, hpieces⟩ := List.exists_cons_of_ne_nil (List.splitOn_ne_nil sep cs)
      rw [hpieces, List.modifyHead_cons] at hsplit
      obtain ⟨rfl, -⟩ := List.cons.inj hsplit
      exact stops_cons.2 (stops_cons.1 h)

/-- There is no clock time where no digit follows the sign. -/
theorem clock?_of_stops (h : Stops Char.isDigit (splitSign cs).2) :
    clock? cs = .error .badFormat := by
  have hhours : ∀ hours more, (splitSign cs).2.splitOn ':' = hours :: more →
      clockPart hours = .error .badFormat :=
    fun hours more hsplit => clockPart_of_stops (stops_of_splitOn h hsplit)
  unfold clock?
  dsimp only
  split
  · next heq =>
    rw [hhours _ _ heq]
    rfl
  · next heq =>
    rw [hhours _ _ heq]
    rfl
  · rfl

theorem quantity?_digitless (h : Digitless cs) :
    Alike (Same (· = .ofInt 0)) (quantity? cs) (quantity? (withZeros cs)) := by
  refine (scan_digitless h).bind ?_
  rintro _ _ @⟨rest, -⟩
  cases rest with
  | nil => exact alike_same rfl
  | cons c rest =>
    obtain ⟨tail, htail⟩ := exists_withZeros_cons c rest
    rw [htail]
    exact alike_bad

/-- The tokens that add nothing: the marker, words, and numbers that are zero. -/
inductive IsIdle : DurationToken → Prop where
  | marker : IsIdle .marker
  | quantity (unit : Option String) : IsIdle (.quantity (.ofInt 0) unit)
  | word (w : String) : IsIdle (.word w)

/-- That tokens add nothing. -/
def AreIdle (tokens : List DurationToken) : Prop := ∀ t ∈ tokens, t.IsIdle

variable {token : DurationToken} {x y : Except DurationFault (List DurationToken)}

theorem alike_cons (htoken : token.IsIdle) (h : Alike (Same AreIdle) x y) :
    Alike (Same AreIdle) (do return token :: (← x)) (do return token :: (← y)) := by
  refine h.bind ?_
  rintro _ tokens ⟨htokens, rfl⟩
  exact alike_same (List.forall_mem_cons.2 ⟨htoken, htokens⟩)

theorem ofStretch_digitless {numeric : List Char} (hnumeric : Digitless numeric)
    (hrest : Alike (Same AreIdle) (ofPiece (rest.dropWhile Char.isAlpha))
      (ofPiece (withZeros (rest.dropWhile Char.isAlpha)))) :
    Alike (Same AreIdle) (ofStretch numeric rest)
      (ofStretch (withZeros numeric) (withZeros rest)) := by
  have hcolon : (withZeros numeric).contains ':' = numeric.contains ':' := by
    rw [List.contains_eq_mem, List.contains_eq_mem, decide_eq_decide,
      mem_withZeros_iff (by decide)]
  rw [ofStretch, ofStretch, hcolon, takeWhile_isAlpha_withZeros, dropWhile_withZeros rfl]
  split
  · have hsign := (hnumeric.sublist (sublist_splitSign numeric)).stops
    have hsign' : Stops Char.isDigit (splitSign (withZeros numeric)).2 := by
      rwa [splitSign_withZeros, Stops, head?_withZeros]
    rw [clock?_of_stops hsign, clock?_of_stops hsign']
    exact alike_bad
  · refine (quantity?_digitless hnumeric).bind ?_
    rintro _ q ⟨rfl, rfl⟩
    exact alike_cons (.quantity _) hrest

/-- The numeric stretch of a text takes the zeros behind its points with it. -/
theorem ofPiece_withZeros_stretch {c : Char} (hbegins : beginsNumber c = true) (cs : List Char) :
    ofPiece (withZeros (c :: cs)) =
      ofStretch (withZeros (c :: cs.takeWhile fun c => !endsNumber c))
        (withZeros (cs.dropWhile fun c => !endsNumber c)) := by
  by_cases hpoint : c = '.'
  · subst hpoint
    rw [withZeros_point, withZeros_point, ofPiece_stretch hbegins,
      List.takeWhile_cons_of_pos (by decide), List.dropWhile_cons_of_pos (by decide),
      takeWhile_withZeros rfl, dropWhile_withZeros rfl]
  · rw [withZeros_cons hpoint, withZeros_cons hpoint, ofPiece_stretch hbegins,
      takeWhile_withZeros rfl, dropWhile_withZeros rfl]

/-- The tokens of a piece without digits add nothing. -/
theorem ofPiece_digitless (h : Digitless cs) :
    Alike (Same AreIdle) (ofPiece cs) (ofPiece (withZeros cs)) := by
  induction hn : cs.length using Nat.strongRecOn generalizing cs with | ind n ih => ?_
  cases cs with
  | nil =>
    rw [withZeros_nil, ofPiece_nil]
    exact alike_same nofun
  | cons c cs =>
    rw [List.length_cons] at hn
    have hcs := h.of_cons
    by_cases hmarker : c = '@'
    · subst hmarker
      rw [withZeros_cons (by decide), ofPiece_marker, ofPiece_marker]
      exact alike_cons .marker (ih cs.length (by omega) hcs rfl)
    by_cases halpha : c.isAlpha
    · rw [withZeros_cons (ne_of_class halpha rfl), ofPiece_letter halpha, ofPiece_letter halpha,
        takeWhile_isAlpha_withZeros, dropWhile_withZeros rfl]
      have hlength := length_dropped_le Char.isAlpha cs
      exact alike_cons (.word _) (ih _ (by omega) (hcs.sublist (List.dropWhile_sublist _)) rfl)
    by_cases hbegins : beginsNumber c = true
    · have hlength := length_dropped_le (fun c => !endsNumber c) cs
      have hlength' := length_dropped_le Char.isAlpha (cs.dropWhile fun c => !endsNumber c)
      have hrest := hcs.sublist (List.dropWhile_sublist fun c => !endsNumber c)
      have hnumeric : Digitless (c :: cs.takeWhile fun c => !endsNumber c) :=
        h.sublist ((List.takeWhile_sublist _).cons_cons c)
      rw [ofPiece_stretch hbegins, ofPiece_withZeros_stretch hbegins]
      exact ofStretch_digitless hnumeric
        (ih _ (by omega) (hrest.sublist (List.dropWhile_sublist _)) rfl)
    have hpoint : c ≠ '.' := by
      rintro rfl
      exact hbegins rfl
    rw [withZeros_cons hpoint, ofPiece_other hmarker halpha hbegins,
      ofPiece_other hmarker halpha hbegins]
    split
    · exact ih cs.length (by omega) hcs rfl
    · exact alike_bad

/-- **The tokens of a text without digits add nothing.** -/
theorem ofText?_digitless (h : Digitless cs) :
    Alike (Same AreIdle) (ofText? cs) (ofText? (withZeros cs)) := by
  induction cs using cut_induction (p := isBlank) with
  | piece cs hcs =>
    rw [ofText?_of_forall hcs, ofText?_of_forall (forall_mem_withZeros rfl hcs)]
    exact ofPiece_digitless h
  | cut cs c rest hcs hc ih =>
    obtain ⟨hfront, hback⟩ := List.forall_mem_append.1 h
    have hpiece := ofPiece_digitless hfront
    rw [← ofText?_of_forall hcs, ← ofText?_of_forall (forall_mem_withZeros rfl hcs)] at hpiece
    rw [withZeros_append, withZeros_cons (ne_of_class hc rfl), ofText?_append_cons hc,
      ofText?_append_cons hc]
    refine hpiece.bind ?_
    rintro _ tokens ⟨htokens, rfl⟩
    refine (ih (List.forall_mem_cons.1 hback).2).bind ?_
    rintro _ tokens' ⟨htokens', rfl⟩
    exact alike_same (List.forall_mem_append.2 ⟨htokens, htokens'⟩)

end DurationToken

/-- The readings of texts without digits: the word for an invalid value, or nothing. -/
def DurationReading.IsIdle (reading : DurationReading) : Prop :=
  reading = .invalid ∨ reading = .delta .zero

namespace DurationPhrase

open Duration Quantity DurationToken

/-- That a number still without a unit is zero. -/
def IsIdlePending (pending : Option Quantity) : Prop := ∀ q ∈ pending, q = ofInt 0

theorem isIdlePending_none : IsIdlePending none := nofun

theorem settle_idle {pending : Option Quantity} (h : IsIdlePending pending) :
    settle .zero pending = .ok .zero := by
  cases pending with
  | none => rfl
  | some q =>
    obtain rfl := h q rfl
    exact add?_zero fits_zero .second

/-- **Tokens that add nothing leave nothing.** -/
theorem sum_idle {tokens : List DurationToken} (htokens : AreIdle tokens)
    {pending : Option Quantity} (hpending : IsIdlePending pending) :
    sum .zero pending tokens = .error .badFormat ∨ sum .zero pending tokens = .ok .zero := by
  induction tokens generalizing pending with
  | nil => exact .inr (settle_idle hpending)
  | cons token tokens ih =>
    obtain ⟨htoken, hmore⟩ := List.forall_mem_cons.1 htokens
    cases htoken with
    | marker => exact .inl rfl
    | quantity unit =>
      cases unit with
      | none =>
        rw [sum]
        split
        · exact .inl rfl
        · exact ih hmore (by simp [IsIdlePending])
      | some word =>
        rw [sum, addWord]
        split
        · exact .inl rfl
        · split
          · rw [add?_zero fits_zero, ok_bind]
            exact ih hmore isIdlePending_none
          · exact .inl rfl
    | word w =>
      by_cases hw : w = agoWord
      · rw [hw, sum_ago, settle_idle hpending]
        split
        · exact .inr rfl
        · exact .inl rfl
      · rw [sum_word hw]
        split
        · next unit q _ =>
          obtain rfl := hpending q rfl
          rw [add?_zero fits_zero, ok_bind]
          exact ih hmore isIdlePending_none
        · exact .inl rfl

theorem ofTokens_idle {tokens : List DurationToken} (h : AreIdle tokens) :
    Alike (Same DurationReading.IsIdle) (ofTokens tokens) (ofTokens tokens) := by
  have hdrop : AreIdle (dropMarker tokens) := by
    unfold dropMarker
    split
    · exact (List.forall_mem_cons.1 h).2
    · exact h
  unfold ofTokens
  split
  · exact alike_bad
  · split
    · exact alike_same (.inl rfl)
    · obtain hsum | hsum := sum_idle hdrop isIdlePending_none
      · rw [hsum]
        exact alike_bad
      · rw [hsum]
        exact alike_same (.inr rfl)

theorem read_digitless (h : Digitless cs) :
    Alike (Same DurationReading.IsIdle) (read cs) (read (withZeros cs)) := by
  refine (ofText?_digitless h).bind ?_
  rintro _ tokens ⟨htokens, rfl⟩
  exact ofTokens_idle htokens

end DurationPhrase

/-- **What a text without digits is read as**: the empty duration or the word for an invalid value,
if it is read at all.  With a zero behind each of its points it is read likewise. -/
theorem Duration.read_digitless (h : Digitless cs) :
    Alike (Same DurationReading.IsIdle) (Duration.read cs) (Duration.read (withZeros cs)) := by
  have hphrase := DurationPhrase.read_digitless h
  have hparts := DurationDesignator.read_digitless h
  unfold Duration.read
  obtain ⟨hbad, hbad'⟩ | ⟨_, reading, ⟨hreading, rfl⟩, hok, hok'⟩ := hphrase
  · rw [hbad, hbad']
    obtain ⟨hbad, hbad'⟩ | ⟨_, reading, ⟨rfl, rfl⟩, hok, hok'⟩ := hparts
    · rw [hbad, hbad']
      exact alike_bad
    · rw [hok, hok']
      exact alike_same (.inr rfl)
  · rw [hok, hok']
    exact alike_same hreading

end Horology
