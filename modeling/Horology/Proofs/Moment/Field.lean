import Horology.Moment.Field
import Horology.Proofs.Numeral
import Horology.Proofs.Text

/-!
# Cutting a date/time text into fields

One equation for each kind of field: a text that begins with such a field, and goes on in a way that
ends it, is cut into the field and the fields of what follows.

## Main definitions

* `ofText?_gap`, `ofText?_gaps` — blanks and commas between fields are skipped.
* `AtGap` — that a text is at its end or goes on with a blank or a comma.
* `ofText?_number`, `ofText?_date`, `ofText?_time` — the fields that begin with digits.
* `ofText?_word`, `ofText?_offset`, `ofText?_signedWord` — words, numeric offsets and words with a
  sign.
* `ofText?_eq_none_of_mem` — characters that no field has.
* `ofText?_append_cons`, `ofText?_joined` — a text is cut at every gap.
-/

namespace Horology.DateField

open Numeral (IsRun)

/-- Where no field is left, no field is found. -/
@[simp] theorem ofText?_nil : ofText? [] = some [] := by
  rw [ofText?]

/-- Blanks and commas are skipped. -/
theorem ofText?_gap {c : Char} (hc : isGap c) (cs : List Char) :
    ofText? (c :: cs) = ofText? cs := by
  rw [ofText?, if_pos hc]

theorem isGap_of_isBlank {c : Char} (h : isBlank c) : isGap c := by
  simp [isGap, h]

theorem ofText?_gaps {gap : List Char} (hgap : ∀ c ∈ gap, isGap c) (cs : List Char) :
    ofText? (gap ++ cs) = ofText? cs := by
  induction gap with
  | nil => rfl
  | cons c gap ih =>
    rw [List.cons_append, ofText?_gap (hgap c List.mem_cons_self)]
    exact ih fun d hd => hgap d (List.mem_cons_of_mem c hd)

/-- That a text is at its end or goes on with a blank or a comma, where every field ends. -/
def AtGap (cs : List Char) : Prop := ∀ c ∈ cs.head?, isGap c

theorem atGap_nil : AtGap [] := nofun

theorem atGap_cons {c : Char} (hc : isGap c) (cs : List Char) : AtGap (c :: cs) := by
  simpa [AtGap] using hc

/-- Blanks and commas are in no class that a field may go on with. -/
theorem not_inClass_of_isGap {c : Char} (h : isGap c) :
    c.isDigit = false ∧ c.isAlpha = false ∧ inTime c = false ∧ inWord c = false ∧
      separatesDate c = false := by
  simp only [isGap, isBlank, Bool.or_eq_true, beq_iff_eq] at h
  rcases h with ((((rfl | rfl) | rfl) | rfl) | rfl) | rfl <;> decide

theorem ne_colon_of_isGap {c : Char} (hc : isGap c) : c ≠ ':' := by
  rintro rfl
  exact absurd hc (by decide)

theorem inDate_eq_false_of_isGap {c separator : Char} (hc : isGap c)
    (hseparator : separatesDate separator) : inDate separator c = false := by
  obtain ⟨hdigit, -, -, -, hseparates⟩ := not_inClass_of_isGap hc
  simp [inDate, hdigit, (ne_of_class hseparator hseparates).symm]

theorem AtGap.stops {p : Char → Bool} (hp : ∀ c, isGap c → p c = false) {cs : List Char}
    (h : AtGap cs) : Stops p cs :=
  fun c hc => hp c (h c hc)

/-! ## Fields that begin with digits -/

theorem isGap_eq_false_of_isDigit {c : Char} (h : c.isDigit) : isGap c = false := by
  have hcomma : c ≠ ',' := ne_of_class h rfl
  simp [isGap, isBlank_eq_false_of_isDigit h, hcomma]

/-- A run of digits begins a field, whose kind hangs on what follows the run. -/
theorem ofText?_digits {ds rest : List Char} (hds : IsRun ds) (hrest : Stops Char.isDigit rest) :
    ofText? (ds ++ rest) =
      (ofText? (dropJoint (afterDigits rest))).map (ofDigits ds rest :: ·) := by
  obtain ⟨hne, hdigit⟩ := hds
  cases ds with
  | nil => exact absurd rfl hne
  | cons c ds =>
    have hc : c.isDigit := hdigit c List.mem_cons_self
    have htail : ∀ d ∈ ds, d.isDigit := fun d hd => hdigit d (List.mem_cons_of_mem c hd)
    rw [List.cons_append, ofText?, if_neg (by simp [isGap_eq_false_of_isDigit hc]), if_pos hc]
    simp only [dropWhile_of_stops htail hrest, takeWhile_of_stops htail hrest]

/-- Without a letter in front there is nothing to drop. -/
theorem dropJoint_of_stops {cs : List Char} (h : Stops Char.isAlpha cs) : dropJoint cs = cs := by
  cases cs with
  | nil => rfl
  | cons c cs =>
    have hc : c.isAlpha = false := stops_cons.1 h
    have hupper : c ≠ 'T' := by
      rintro rfl
      exact absurd hc (by decide)
    have hlower : c ≠ 't' := by
      rintro rfl
      exact absurd hc (by decide)
    simp [dropJoint, hupper, hlower]

/-- Digits before a gap are a number. -/
theorem ofText?_number_of_atGap {ds : List Char} (hds : IsRun ds) {rest : List Char}
    (hrest : AtGap rest) : ofText? (ds ++ rest) = (ofText? rest).map (.number ds :: ·) := by
  rw [ofText?_digits hds (hrest.stops fun c hc => (not_inClass_of_isGap hc).1)]
  cases rest with
  | nil => rfl
  | cons c rest =>
    have hgap : isGap c := hrest c rfl
    have hcolon := ne_colon_of_isGap hgap
    obtain ⟨-, halpha, -, -, hseparates⟩ := not_inClass_of_isGap hgap
    have hafter : afterDigits (c :: rest) = c :: rest := by simp [afterDigits, hcolon, hseparates]
    have hkind : ofDigits ds (c :: rest) = .number ds := by simp [ofDigits, hcolon, hseparates]
    rw [hafter, hkind, dropJoint_of_stops (stops_cons.2 halpha)]

/-- Digits before a blank are a number. -/
theorem ofText?_number {ds : List Char} (hds : IsRun ds) (rest : List Char) :
    ofText? (ds ++ ' ' :: rest) = (ofText? rest).map (.number ds :: ·) := by
  rw [ofText?_number_of_atGap hds (atGap_cons rfl rest), ofText?_gap rfl]

/-- A separator is neither a digit nor a colon. -/
theorem not_inClass_of_separatesDate {sep : Char} (h : separatesDate sep) :
    sep.isDigit = false ∧ (sep == ':') = false := by
  simp only [separatesDate, Bool.or_eq_true, beq_iff_eq] at h
  rcases h with (rfl | rfl) | rfl <;> decide

/-- Runs of digits between separators, before a gap, are the date that the separator makes of
them. -/
theorem ofText?_date_of_atGap {a b c : List Char} (ha : IsRun a) (hb : IsRun b) (hc : IsRun c)
    {sep : Char} (hsep : separatesDate sep) {rest : List Char} (hrest : AtGap rest) :
    ofText? (a ++ sep :: b ++ sep :: c ++ rest) =
      (ofText? rest).map (.date (a ++ sep :: b ++ sep :: c) sep :: ·) := by
  obtain ⟨hdigit, hcolon⟩ := not_inClass_of_separatesDate hsep
  have hbegins : begins Char.isDigit (b ++ sep :: c ++ rest) = true := by
    cases b with
    | nil => exact absurd rfl hb.ne_nil
    | cons d b => exact hb.isDigit d List.mem_cons_self
  -- What follows the first run stays within the date up to the gap.
  have hinside : ∀ d ∈ sep :: b ++ sep :: c, inDate sep d := by
    intro d hd
    simp only [List.cons_append, List.mem_cons, List.mem_append] at hd
    rcases hd with rfl | hd | rfl | hd
    · simp [inDate]
    · simp [inDate, hb.isDigit d hd]
    · simp [inDate]
    · simp [inDate, hc.isDigit d hd]
  have hstop : Stops (inDate sep) rest :=
    hrest.stops fun d hd => inDate_eq_false_of_isGap hd hsep
  have htake := takeWhile_of_stops hinside hstop
  have hdrop := dropWhile_of_stops hinside hstop
  have hjoint : dropJoint rest = rest :=
    dropJoint_of_stops (hrest.stops fun d hd => (not_inClass_of_isGap hd).2.1)
  simp only [List.append_assoc, List.cons_append] at htake hdrop hbegins ⊢
  rw [ofText?_digits ha (by simpa using hdigit)]
  simp only [ofDigits, afterDigits, hcolon, hsep, hbegins, Bool.false_eq_true, if_false,
    Bool.and_self, if_true, htake, hdrop, hjoint]

/-- Runs of digits between separators, before a blank, are a date. -/
theorem ofText?_date {a b c : List Char} (ha : IsRun a) (hb : IsRun b) (hc : IsRun c)
    {sep : Char} (hsep : separatesDate sep) (rest : List Char) :
    ofText? (a ++ sep :: b ++ sep :: c ++ ' ' :: rest) =
      (ofText? rest).map (.date (a ++ sep :: b ++ sep :: c) sep :: ·) := by
  rw [ofText?_date_of_atGap ha hb hc hsep (atGap_cons rfl rest), ofText?_gap rfl]

/-- Runs of digits between colons are a clock time, as long as neither a letter follows nor what
a clock time may go on with. -/
theorem ofText?_time {h m s rest : List Char} (hh : IsRun h) (hm : IsRun m) (hs : IsRun s)
    (htime : Stops inTime rest) (halpha : Stops Char.isAlpha rest) :
    ofText? (h ++ ':' :: m ++ ':' :: s ++ rest) =
      (ofText? rest).map (.time (h ++ ':' :: m ++ ':' :: s) :: ·) := by
  have hinside : ∀ d ∈ ':' :: m ++ ':' :: s, inTime d := by
    intro d hd
    simp only [List.cons_append, List.mem_cons, List.mem_append] at hd
    rcases hd with rfl | hd | rfl | hd
    · rfl
    · simp [inTime, hm.isDigit d hd]
    · rfl
    · simp [inTime, hs.isDigit d hd]
  have htake := takeWhile_of_stops hinside htime
  have hdrop := dropWhile_of_stops hinside htime
  simp only [List.append_assoc, List.cons_append] at htake hdrop ⊢
  rw [ofText?_digits hh (by simp)]
  simp only [ofDigits, afterDigits, beq_self_eq_true, if_true, htake, hdrop,
    dropJoint_of_stops halpha]

/-! ## Words and offsets -/

/-- A letter begins a word. -/
theorem ofText?_letter {c : Char} (hc : c.isAlpha) (cs : List Char) :
    ofText? (c :: cs) =
      (ofText? (cs.dropWhile inWord)).map (.word (c :: cs.takeWhile inWord) :: ·) := by
  have hgap : isGap c = false := by
    have hcomma : c ≠ ',' := ne_of_class hc rfl
    simp [isGap, isBlank_eq_false_of_isAlpha hc, hcomma]
  have hdigit : c.isDigit = false := isDigit_eq_false_of_isAlpha hc
  rw [ofText?, if_neg (by simp [hgap]), if_neg (by simp [hdigit]), if_pos hc]

/-- Letters are a word where nothing follows that a word may go on with. -/
theorem ofText?_word {w rest : List Char} (hne : w ≠ []) (hw : ∀ c ∈ w, c.isAlpha)
    (hrest : Stops inWord rest) :
    ofText? (w ++ rest) = (ofText? rest).map (.word w :: ·) := by
  cases w with
  | nil => exact absurd rfl hne
  | cons c w =>
    have htail : ∀ d ∈ w, inWord d := fun d hd => by
      simp [inWord, hw d (List.mem_cons_of_mem c hd)]
    rw [List.cons_append, ofText?_letter (hw c List.mem_cons_self),
      dropWhile_of_stops htail hrest, takeWhile_of_stops htail hrest]

/-- A sign before a digit begins an offset, and here ends the text. -/
theorem ofText?_offset {sign d : Char} (hsign : sign = '+' ∨ sign = '-') (hd : d.isDigit)
    {body : List Char} (hbody : ∀ c ∈ d :: body, inOffset c) :
    ofText? (sign :: d :: body) = some [.offset (sign :: d :: body)] := by
  have htake : (d :: body).takeWhile inOffset = d :: body := by
    simpa using takeWhile_of_stops hbody (stops_nil inOffset)
  have hdrop : (d :: body).dropWhile inOffset = [] := by
    simpa using dropWhile_of_stops hbody (stops_nil inOffset)
  rw [ofText?]
  rcases hsign with rfl | rfl
  · rw [if_neg (by decide), if_neg (by decide), if_neg (by decide), if_pos (by decide),
      if_pos (by exact hd), htake, hdrop, ofText?_nil]
    rfl
  · rw [if_neg (by decide), if_neg (by decide), if_neg (by decide), if_pos (by decide),
      if_pos (by exact hd), htake, hdrop, ofText?_nil]
    rfl

/-- A sign before a letter begins a signed word, and here ends the text. -/
theorem ofText?_signedWord {sign d : Char} (hsign : sign = '+' ∨ sign = '-') (hd : d.isAlpha)
    {body : List Char} (hbody : ∀ c ∈ d :: body, c.isAlpha) :
    ofText? (sign :: d :: body) = some [.signedWord (sign :: d :: body)] := by
  have htake : (d :: body).takeWhile Char.isAlpha = d :: body := by
    simpa using takeWhile_of_stops hbody (stops_nil Char.isAlpha)
  have hdrop : (d :: body).dropWhile Char.isAlpha = [] := by
    simpa using dropWhile_of_stops hbody (stops_nil Char.isAlpha)
  have hdigit : begins Char.isDigit (d :: body) = false := isDigit_eq_false_of_isAlpha hd
  have halpha : begins Char.isAlpha (d :: body) = true := hd
  rw [ofText?]
  rcases hsign with rfl | rfl
  · rw [if_neg (by decide), if_neg (by decide), if_neg (by decide), if_pos (by decide), hdigit,
      if_neg (by decide), if_pos halpha, htake, hdrop, ofText?_nil]
    rfl
  · rw [if_neg (by decide), if_neg (by decide), if_neg (by decide), if_pos (by decide), hdigit,
      if_neg (by decide), if_pos halpha, htake, hdrop, ofText?_nil]
    rfl

/-! ## Characters of fields -/

/-- What may stand in a field or between two. -/
def isAdmitted (c : Char) : Bool :=
  isGap c || inWord c || inTime c || c == '+' || c == '-'

theorem not_inClass_of_not_isAdmitted {c : Char} (h : isAdmitted c = false) :
    (isGap c = false ∧ inWord c = false ∧ inTime c = false ∧ inOffset c = false) ∧
      c.isDigit = false ∧ c.isAlpha = false ∧ separatesDate c = false ∧ c ≠ '+' ∧ c ≠ '-' := by
  simp_all [isAdmitted, inWord, inTime, inOffset, separatesDate]

/-- A character outside a class is not dropped with the front of that class. -/
theorem mem_dropWhile_of_mem {p : Char → Bool} {c : Char} {cs : List Char} (hc : c ∈ cs)
    (hp : p c = false) : c ∈ cs.dropWhile p := by
  induction cs with
  | nil => exact hc
  | cons d cs ih =>
    by_cases hd : p d = true
    · have hne : c ≠ d := (ne_of_class hd hp).symm
      rw [List.dropWhile_cons_of_pos hd]
      exact ih ((List.mem_cons.1 hc).resolve_left hne)
    · rwa [List.dropWhile_cons_of_neg hd]

theorem mem_afterDigits_of_mem {c : Char} {cs : List Char} (hc : c ∈ cs)
    (h : isAdmitted c = false) : c ∈ afterDigits cs := by
  obtain ⟨⟨-, -, htime, -⟩, hdigit, -, hseparates, -⟩ := not_inClass_of_not_isAdmitted h
  unfold afterDigits
  split
  · exact hc
  · next d tail =>
    split
    · exact mem_dropWhile_of_mem hc htime
    · split
      · next hdate =>
        have hd : separatesDate d = true := (Bool.and_eq_true_iff.1 hdate).1
        have hne : c ≠ d := (ne_of_class hd hseparates).symm
        exact mem_dropWhile_of_mem hc (by simp [inDate, hdigit, hne])
      · exact hc

theorem mem_dropJoint_of_mem {c : Char} {cs : List Char} (hc : c ∈ cs)
    (h : isAdmitted c = false) : c ∈ dropJoint cs := by
  unfold dropJoint
  split
  · next d tail =>
    split
    · next hjoint =>
      have hd : d.isAlpha = true := by
        simp only [Bool.and_eq_true, Bool.or_eq_true, beq_iff_eq] at hjoint
        rcases hjoint.1 with rfl | rfl <;> rfl
      have hne : c ≠ d := (ne_of_class hd (not_inClass_of_not_isAdmitted h).2.2.1).symm
      exact (List.mem_cons.1 hc).resolve_left hne
    · exact hc
  · exact hc

/-- **A text is cut into fields only if all its characters are admitted.** -/
theorem ofText?_eq_none_of_mem {c : Char} (h : isAdmitted c = false) {cs : List Char}
    (hc : c ∈ cs) : ofText? cs = none := by
  obtain ⟨⟨hgap, hword, -, hoffset⟩, hdigit, halpha, -, hplus, hminus⟩ :=
    not_inClass_of_not_isAdmitted h
  have mem_tail {d : Char} {tail : List Char} (hmem : c ∈ d :: tail) (hne : c ≠ d) : c ∈ tail :=
    (List.mem_cons.1 hmem).resolve_left hne
  have hsign {d : Char} (hd : (d == '+' || d == '-') = true) : c ≠ d := by
    simp only [Bool.or_eq_true, beq_iff_eq] at hd
    rcases hd with rfl | rfl
    · exact hplus
    · exact hminus
  fun_induction ofText? cs with
  | case1 => cases hc
  | case2 d cs hd ih => exact ih (mem_tail hc (ne_of_class hd hgap).symm)
  | case3 d cs _ hd rest ih =>
    have hmem := mem_dropWhile_of_mem (mem_tail hc (ne_of_class hd hdigit).symm) hdigit
    rw [ih (mem_dropJoint_of_mem (mem_afterDigits_of_mem hmem h) h)]
    rfl
  | case4 d cs _ _ hd ih =>
    rw [ih (mem_dropWhile_of_mem (mem_tail hc (ne_of_class hd halpha).symm) hword)]
    rfl
  | case5 d cs _ _ _ hd _ ih =>
    rw [ih (mem_dropWhile_of_mem (mem_tail hc (hsign hd)) hoffset)]
    rfl
  | case6 d cs _ _ _ hd _ _ ih =>
    rw [ih (mem_dropWhile_of_mem (mem_tail hc (hsign hd)) halpha)]
    rfl
  | case7 => rfl
  | case8 => rfl

/-! ## Gaps

Nothing behind a blank or a comma has a say in how the text before it is cut. -/

variable {c : Char}

theorem begins_append_cons {p : Char → Bool} (hc : p c = false) (cs rest : List Char) :
    begins p (cs ++ c :: rest) = begins p cs := by
  cases cs with
  | nil => exact hc
  | cons d cs => rfl

theorem dropJoint_append_cons (hc : isGap c) (cs rest : List Char) :
    dropJoint (cs ++ c :: rest) = dropJoint cs ++ c :: rest := by
  obtain ⟨hdigit, halpha, -⟩ := not_inClass_of_isGap hc
  cases cs with
  | nil => exact dropJoint_of_stops (stops_cons.2 halpha)
  | cons d cs =>
    simp only [List.cons_append, dropJoint, begins_append_cons hdigit]
    split <;> rfl

/-- A gap ends the field that digits begin. -/
theorem afterDigits_append_cons (hc : isGap c) (cs rest : List Char) :
    afterDigits (cs ++ c :: rest) = afterDigits cs ++ c :: rest := by
  obtain ⟨hdigit, -, htime, -, hseparates⟩ := not_inClass_of_isGap hc
  cases cs with
  | nil => simp [afterDigits, ne_colon_of_isGap hc, hseparates]
  | cons d cs =>
    simp only [List.cons_append, afterDigits, begins_append_cons hdigit]
    split
    · exact dropWhile_append_cons htime (d :: cs) rest
    · split
      · next hdate =>
        have hdc := inDate_eq_false_of_isGap hc (Bool.and_eq_true_iff.1 hdate).1
        exact dropWhile_append_cons hdc (d :: cs) rest
      · rfl

theorem ofDigits_append_cons (hc : isGap c) (digits cs rest : List Char) :
    ofDigits digits (cs ++ c :: rest) = ofDigits digits cs := by
  obtain ⟨hdigit, -, htime, -, hseparates⟩ := not_inClass_of_isGap hc
  cases cs with
  | nil => simp [ofDigits, ne_colon_of_isGap hc, hseparates]
  | cons d cs =>
    simp only [List.cons_append, ofDigits, begins_append_cons hdigit]
    split
    · rw [← List.cons_append, takeWhile_append_cons htime]
    · split
      · next hdate =>
        have hdc := inDate_eq_false_of_isGap hc (Bool.and_eq_true_iff.1 hdate).1
        rw [← List.cons_append, takeWhile_append_cons hdc]
      · rfl

/-- **The fields before a gap and those behind it are the fields of a text.** -/
theorem ofText?_append_cons (hc : isGap c) (cs rest : List Char) :
    ofText? (cs ++ c :: rest) =
      (ofText? cs).bind fun before => (ofText? rest).map (before ++ ·) := by
  obtain ⟨hdigit, halpha, -, hword, -⟩ := not_inClass_of_isGap hc
  have hoffset : inOffset c = false := by simp [inOffset, hdigit, ne_colon_of_isGap hc]
  -- A field in front of the fields before the gap stays in front of all.
  have hfront (field : DateField) (before : Option (List DateField)) :
      (before.bind fun fs => (ofText? rest).map (fs ++ ·)).map (field :: ·) =
        (before.map (field :: ·)).bind fun fs => (ofText? rest).map (fs ++ ·) := by
    cases before <;> simp [Function.comp_def]
  fun_induction ofText? cs with
  | case1 => simp [ofText?_gap hc]
  | case2 d cs hgap ih => rw [List.cons_append, ofText?_gap hgap, ih]
  | case3 d cs hgap hd tail ih =>
    rw [List.cons_append, ofText?, if_neg hgap, if_pos hd]
    simp only [dropWhile_append_cons hdigit, takeWhile_append_cons hdigit,
      afterDigits_append_cons hc, dropJoint_append_cons hc, ofDigits_append_cons hc]
    rw [ih, hfront]
  | case4 d cs hgap hnot hd ih =>
    rw [List.cons_append, ofText?, if_neg hgap, if_neg hnot, if_pos hd,
      dropWhile_append_cons hword, takeWhile_append_cons hword, ih, hfront]
  | case5 d cs hgap hnot hnot' hd hbegins ih =>
    rw [List.cons_append, ofText?, if_neg hgap, if_neg hnot, if_neg hnot', if_pos hd,
      begins_append_cons hdigit, if_pos hbegins, dropWhile_append_cons hoffset,
      takeWhile_append_cons hoffset, ih, hfront]
  | case6 d cs hgap hnot hnot' hd hbegins hbegins' ih =>
    rw [List.cons_append, ofText?, if_neg hgap, if_neg hnot, if_neg hnot', if_pos hd,
      begins_append_cons hdigit, if_neg hbegins, begins_append_cons halpha, if_pos hbegins',
      dropWhile_append_cons halpha, takeWhile_append_cons halpha, ih, hfront]
  | case7 d cs hgap hnot hnot' hd hbegins hbegins' =>
    rw [List.cons_append, ofText?, if_neg hgap, if_neg hnot, if_neg hnot', if_pos hd,
      begins_append_cons hdigit, if_neg hbegins, begins_append_cons halpha, if_neg hbegins']
    rfl
  | case8 d cs hgap hnot hnot' hd =>
    rw [List.cons_append, ofText?, if_neg hgap, if_neg hnot, if_neg hnot', if_neg hd]
    rfl

/-- The fields of pieces with blanks between them are the fields of the pieces. -/
theorem ofText?_joined {pieces : List (List Char)} {text : List Char} (h : Joined pieces text)
    {fields : List DateField}
    (hfields : pieces.map ofText? = fields.map fun field => some [field]) :
    ofText? text = some fields := by
  induction h generalizing fields with
  | single piece =>
    obtain ⟨field, rfl, hpiece⟩ := List.map_eq_singleton_iff.1 hfields.symm
    exact hpiece.symm
  | @cons piece gap text pieces hne hgap _ ih =>
    obtain ⟨field, fields, rfl, hpiece, hpieces⟩ := List.map_eq_cons_iff.1 hfields.symm
    cases gap with
    | nil => exact absurd rfl hne
    | cons c gap =>
      have hc : isGap c := isGap_of_isBlank (hgap c List.mem_cons_self)
      have hskip : ofText? (gap ++ text) = ofText? text :=
        ofText?_gaps (fun d hd => isGap_of_isBlank (hgap d (List.mem_cons_of_mem c hd))) text
      rw [List.append_assoc, List.cons_append, ofText?_append_cons hc, ← hpiece, hskip,
        ih hpieces.symm]
      rfl

end Horology.DateField
