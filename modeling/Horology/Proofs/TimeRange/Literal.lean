import Horology.Proofs.Text
import Horology.TimeRange.Literal
import Mathlib.Data.List.TakeWhile

/-!
# What the literals of ranges are

The reader of literals goes through its text token by token and stops at the first thing that is
wrong.  The grammar beside it says of a whole text which literal it is: the name of the undefined
range, or brackets around two quoted texts, with runs of blanks before every token.  The two agree
on every text, on those that are refused as on those that are read.

## Main definitions

* `RangeLiteral.NamesUndefined` — the two forms of the undefined range.
* `RangeLiteral.Opens`, `Quotes` — that a text begins with a bracket and a first quoted text, or
  with a quoted text.
* `RangeLiteral.NamesPair`, `FailsWith` — the pairs of moments, and the pairs of which one quoted
  text is no moment.
* `RangeLiteral.read_eq_iff` — what is read and what is refused, by the grammar.
-/

namespace Horology.RangeLiteral

/-! ## The grammar -/

/-- A run of blanks. -/
def IsGap (b : List Char) : Prop := ∀ c ∈ b, isBlank c

/-- The two forms of the undefined range: its name between blanks, and its name behind the first
opening quote, whatever follows. -/
inductive NamesUndefined : List Char → Prop
  | bare {b b' : List Char} (hb : IsGap b) (hb' : IsGap b') :
    NamesUndefined (b ++ undefinedName ++ b')
  | quoted {b b' : List Char} (hb : IsGap b) (hb' : IsGap b') (rest : List Char) :
    NamesUndefined (b ++ '[' :: (b' ++ '"' :: (undefinedName ++ rest)))

/-- That a text begins, behind blanks, with the text `u` in quotes, and goes on with `rest`. -/
inductive Quotes (u rest : List Char) : List Char → Prop
  | intro {b : List Char} (hb : IsGap b) (hu : '"' ∉ u) :
    Quotes u rest (b ++ '"' :: (u ++ '"' :: rest))

/-- That a text begins with an opening bracket and a first quoted text, which does not begin with
the name of the undefined range. -/
inductive Opens (u rest : List Char) : List Char → Prop
  | intro {b cs : List Char} (hb : IsGap b) (hquotes : Quotes u rest cs)
      (hu : ¬ undefinedName <+: u) : Opens u rest (b ++ '[' :: cs)

/-- That a text is the pair of the moments `x` and `y`: two quoted texts in brackets that name them,
and nothing behind these. -/
inductive NamesPair (session : Session) (x y : Moment) : List Char → Prop
  | intro {u v b rest cs : List Char} (hopens : Opens u rest cs)
      (hquotes : Quotes v (b ++ [']']) rest) (hb : IsGap b)
      (hu : Moment.read session (String.ofList u) = .ok x)
      (hv : Moment.read session (String.ofList v) = .ok y) : NamesPair session x y cs

/-- That a quoted text of a pair is no moment, for the reason `e`: the first one, or the second one
behind a first one that is. -/
inductive FailsWith (session : Session) (e : Error) : List Char → Prop
  | first {u rest cs : List Char} (hopens : Opens u rest cs)
      (hu : Moment.read session (String.ofList u) = .error e) : FailsWith session e cs
  | second {u v rest rest' cs : List Char} {x : Moment} (hopens : Opens u rest cs)
      (hquotes : Quotes v rest' rest) (hu : Moment.read session (String.ofList u) = .ok x)
      (hv : Moment.read session (String.ofList v) = .error e) : FailsWith session e cs

/-! ## Tokens -/

theorem dropWhile_gap_append {b : List Char} (hb : IsGap b) (cs : List Char) :
    (b ++ cs).dropWhile isBlank = cs.dropWhile isBlank :=
  List.dropWhile_append_of_pos hb

/-- A token behind blanks is found. -/
theorem expect?_gap {c : Char} (hc : isBlank c = false) {b : List Char} (hb : IsGap b)
    (rest : List Char) : expect? c (b ++ c :: rest) = some rest := by
  simp [expect?, dropWhile_gap_append hb, hc]

/-- A token is found exactly where it stands behind blanks. -/
theorem expect?_eq_some_iff {c : Char} (hc : isBlank c = false) {cs rest : List Char} :
    expect? c cs = some rest ↔ ∃ b, IsGap b ∧ cs = b ++ c :: rest := by
  constructor
  · intro h
    have hsplit := List.takeWhile_append_dropWhile (p := isBlank) (l := cs)
    unfold expect? at h
    split at h
    · cases h
    · next d tail hdrop =>
      split at h
      · next hd =>
        obtain rfl := Option.some.inj h
        exact ⟨cs.takeWhile isBlank, fun _ => List.mem_takeWhile_imp, by rw [← hd, ← hdrop, hsplit]⟩
      · cases h
  · rintro ⟨b, hb, rfl⟩
    exact expect?_gap hc hb rest

/-- A quoted text ends at the first quote. -/
theorem untilQuote?_eq_some_iff {cs u rest : List Char} :
    untilQuote? cs = some (u, rest) ↔ '"' ∉ u ∧ cs = u ++ '"' :: rest := by
  constructor
  · intro h
    have hsplit := List.takeWhile_append_dropWhile (p := (· != '"')) (l := cs)
    unfold untilQuote? at h
    split at h
    · cases h
    · next d tail hdrop =>
      simp only [Option.some.injEq, Prod.mk.injEq] at h
      obtain ⟨rfl, rfl⟩ := h
      obtain rfl : d = '"' := by
        have hnot := List.head?_dropWhile_not (· != '"') cs
        simpa [hdrop] using hnot
      refine ⟨fun hmem => ?_, by rw [← hdrop, hsplit]⟩
      simpa using List.mem_takeWhile_imp hmem
  · rintro ⟨hu, rfl⟩
    have hinside : ∀ c ∈ u, (c != '"') = true := by
      rintro c hc
      simpa using fun heq : c = '"' => hu (heq ▸ hc)
    have hstop : Stops (· != '"') ('"' :: rest) := by simp
    rw [untilQuote?, dropWhile_of_stops hinside hstop, takeWhile_of_stops hinside hstop]

/-- A quoted text stands where a quote is found and a further one behind it. -/
theorem quotes_iff {u rest cs : List Char} :
    Quotes u rest cs ↔ ∃ tail, expect? '"' cs = some tail ∧ untilQuote? tail = some (u, rest) := by
  simp only [expect?_eq_some_iff (show isBlank '"' = false from rfl), untilQuote?_eq_some_iff]
  constructor
  · rintro ⟨hb, hu⟩
    exact ⟨_, ⟨_, hb, rfl⟩, hu, rfl⟩
  · rintro ⟨tail, ⟨b, hb, rfl⟩, hu, rfl⟩
    exact .intro hb hu

/-! ## The reader, token by token -/

variable {session : Session} {text : String}

/-- A text is trimmed of blanks to a part of it that has blanks around it. -/
theorem exists_gap_of_trimWhere {cs w : List Char} (h : trimWhere isBlank cs = w) :
    ∃ b b', IsGap b ∧ IsGap b' ∧ cs = b ++ w ++ b' := by
  obtain ⟨b, b', hb, hb', hcs⟩ := exists_append_trimWhere isBlank cs
  rw [h] at hcs
  exact ⟨b, b', hb, hb', hcs⟩

/-- Blanks around the name of the undefined range are trimmed. -/
theorem trimWhere_gap {b b' : List Char} (hb : IsGap b) (hb' : IsGap b') :
    trimWhere isBlank (b ++ undefinedName ++ b') = undefinedName := by
  have hreverse : ∀ c ∈ b'.reverse, isBlank c := fun c hc => hb' c (List.mem_reverse.1 hc)
  have hfront : (undefinedName ++ b').dropWhile isBlank = undefinedName ++ b' := rfl
  rw [trimWhere, List.append_assoc, dropWhile_gap_append hb, hfront, List.reverse_append,
    List.dropWhile_append_of_pos hreverse]
  rfl

/-- A text that begins with a bracket is not the bare name of the undefined range. -/
theorem trimWhere_ne_of_expect? {cs rest : List Char} (h : expect? '[' cs = some rest) :
    trimWhere isBlank cs ≠ undefinedName := by
  intro htrim
  obtain ⟨b, b', hb, -, rfl⟩ := exists_gap_of_trimWhere htrim
  rw [expect?, List.append_assoc, dropWhile_gap_append hb] at h
  cases h

/-- What has no quote in it begins a text if it begins the part of it before a quote. -/
theorem prefix_append_quote_iff {w u rest : List Char} (hw : '"' ∉ w) :
    w <+: u ++ '"' :: rest ↔ w <+: u := by
  induction u generalizing w with
  | nil =>
    cases w with
    | nil => simp
    | cons c w =>
      have hc : c ≠ '"' := fun heq => hw (heq ▸ List.mem_cons_self)
      simp [hc]
  | cons d u ih =>
    cases w with
    | nil => simp
    | cons c w =>
      have htail : '"' ∉ w := fun hmem => hw (List.mem_cons_of_mem c hmem)
      simp [ih htail]

/-- The reader of a literal that begins with a bracket. -/
theorem read_of_bracket {cs : List Char} (h : expect? '[' text.toList = some cs) :
    read session text = (do
      let rest ← require text (expect? '"' cs)
      if undefinedName.isPrefixOf rest then return .undefined else readPair session text rest) := by
  rw [read, if_neg (trimWhere_ne_of_expect? h), h]
  rfl

/-- The name of the undefined range, in either form, is read as the undefined range. -/
theorem read_of_namesUndefined (h : NamesUndefined text.toList) :
    read session text = .ok .undefined := by
  generalize hcs : text.toList = cs at h
  cases h with
  | bare hb hb' => rw [read, hcs, if_pos (trimWhere_gap hb hb')]
  | @quoted b b' hb hb' rest =>
    have hbracket : expect? '[' text.toList = _ := hcs ▸ expect?_gap rfl hb _
    have hname : undefinedName.isPrefixOf (undefinedName ++ rest) = true :=
      List.isPrefixOf_iff_prefix.2 (List.prefix_append _ _)
    rw [read_of_bracket hbracket, expect?_gap rfl hb']
    simp only [require, bind, Except.bind, hname, if_true]
    rfl

/-- What is read behind a bracket and a first quoted text. -/
theorem read_of_opens {u rest : List Char} (h : Opens u rest text.toList) :
    read session text = (do
      let x ← endpoint session text u
      let rest ← require text (expect? '"' rest)
      let (v, rest) ← require text (untilQuote? rest)
      let y ← endpoint session text v
      let rest ← require text (expect? ']' rest)
      if rest.isEmpty then return .between x y else .error (.badSyntax .range text)) := by
  generalize hcs : text.toList = cs at h
  cases h with
  | @intro b cs hb hquotes hu =>
    have hbracket : expect? '[' text.toList = some cs := hcs ▸ expect?_gap rfl hb _
    obtain ⟨tail, hquote, huntil⟩ := quotes_iff.1 hquotes
    have hname : undefinedName.isPrefixOf tail = false := by
      obtain ⟨-, rfl⟩ := untilQuote?_eq_some_iff.1 huntil
      rw [← Bool.not_eq_true, List.isPrefixOf_iff_prefix, prefix_append_quote_iff (by decide)]
      exact hu
    rw [read_of_bracket hbracket, hquote]
    simp only [require, bind, Except.bind, hname, Bool.false_eq_true, if_false, readPair, huntil]

/-- A pair of moments is read as the pair. -/
theorem read_of_namesPair {x y : Moment} (h : NamesPair session x y text.toList) :
    read session text = .ok (.between x y) := by
  generalize hcs : text.toList = cs at h
  cases h with
  | @intro u v b rest _ hopens hquotes hb hu hv =>
    subst hcs
    obtain ⟨tail, hquote, huntil⟩ := quotes_iff.1 hquotes
    rw [read_of_opens hopens]
    simp only [endpoint, hu, hv, require, bind, Except.bind, hquote, huntil,
      expect?_gap (show isBlank ']' = false from rfl) hb]
    rfl

/-- A quoted text that is no moment is what the literal is refused for. -/
theorem read_of_failsWith {e : Error} (h : FailsWith session e text.toList) :
    read session text = .error (.badEndpoint text e) := by
  generalize hcs : text.toList = cs at h
  cases h with
  | first hopens hu =>
    subst hcs
    rw [read_of_opens hopens]
    simp only [endpoint, hu, bind, Except.bind]
  | second hopens hquotes hu hv =>
    subst hcs
    obtain ⟨tail, hquote, huntil⟩ := quotes_iff.1 hquotes
    rw [read_of_opens hopens]
    simp only [endpoint, hu, hv, require, bind, Except.bind, hquote, huntil]

/-! ## What is read -/

/-- A text that is not the undefined range and has no first quoted text is refused. -/
theorem namesUndefined_or_opens (session : Session) (text : String) :
    NamesUndefined text.toList ∨ (∃ u rest, Opens u rest text.toList) ∨
      read session text = .error (.badSyntax .range text) := by
  by_cases htrim : trimWhere isBlank text.toList = undefinedName
  · obtain ⟨b, b', hb, hb', hcs⟩ := exists_gap_of_trimWhere htrim
    exact .inl (hcs ▸ .bare hb hb')
  cases hbracket : expect? '[' text.toList with
  | none =>
    rw [read, if_neg htrim, hbracket]
    exact .inr (.inr rfl)
  | some cs =>
    obtain ⟨b, hb, hcs⟩ := (expect?_eq_some_iff (show isBlank '[' = false from rfl)).1 hbracket
    rw [read_of_bracket hbracket, hcs]
    cases hquote : expect? '"' cs with
    | none => exact .inr (.inr rfl)
    | some tail =>
      by_cases hname : undefinedName <+: tail
      · obtain ⟨b', hb', rfl⟩ := (expect?_eq_some_iff (show isBlank '"' = false from rfl)).1 hquote
        obtain ⟨rest, rfl⟩ := hname
        exact .inl (.quoted hb hb' rest)
      · have hprefix : undefinedName.isPrefixOf tail = false := by
          rwa [← Bool.not_eq_true, List.isPrefixOf_iff_prefix]
        cases huntil : untilQuote? tail with
        | none =>
          simp only [require, bind, Except.bind, hprefix, Bool.false_eq_true, if_false, readPair,
            huntil, or_true]
        | some pair =>
          obtain ⟨u, rest⟩ := pair
          have hu : ¬ undefinedName <+: u := by
            obtain ⟨-, rfl⟩ := untilQuote?_eq_some_iff.1 huntil
            exact fun h => hname (h.trans (List.prefix_append _ _))
          exact .inr (.inl ⟨u, rest, .intro hb (quotes_iff.2 ⟨tail, hquote, huntil⟩) hu⟩)

/-- A text with a first quoted text is a pair of moments, or fails with what is wrong with a quoted
text, or is refused. -/
theorem namesPair_or_failsWith {u rest : List Char} (h : Opens u rest text.toList) :
    (∃ x y, NamesPair session x y text.toList) ∨ (∃ e, FailsWith session e text.toList) ∨
      read session text = .error (.badSyntax .range text) := by
  rw [read_of_opens h]
  cases hu : Moment.read session (String.ofList u) with
  | error e => exact .inr (.inl ⟨e, .first h hu⟩)
  | ok x =>
    simp only [endpoint, hu, require, bind, Except.bind]
    cases hquote : expect? '"' rest with
    | none => exact .inr (.inr rfl)
    | some tail =>
      simp only
      cases huntil : untilQuote? tail with
      | none => exact .inr (.inr rfl)
      | some pair =>
        obtain ⟨v, rest'⟩ := pair
        have hquotes : Quotes v rest' rest := quotes_iff.2 ⟨tail, hquote, huntil⟩
        cases hv : Moment.read session (String.ofList v) with
        | error e => exact .inr (.inl ⟨e, .second h hquotes hu hv⟩)
        | ok y =>
          simp only [hv]
          cases hbracket : expect? ']' rest' with
          | none => exact .inr (.inr rfl)
          | some end? =>
            obtain ⟨b, hb, rfl⟩ :=
              (expect?_eq_some_iff (show isBlank ']' = false from rfl)).1 hbracket
            cases end? with
            | nil => exact .inl ⟨x, y, .intro h hquotes hb hu hv⟩
            | cons => exact .inr (.inr rfl)

/-- The four ways in which reading a literal ends, each with what the grammar says of the text. -/
theorem read_cases (session : Session) (text : String) :
    NamesUndefined text.toList ∨ (∃ x y, NamesPair session x y text.toList) ∨
      (∃ e, FailsWith session e text.toList) ∨
      read session text = .error (.badSyntax .range text) := by
  rcases namesUndefined_or_opens session text with h | ⟨u, rest, h⟩ | h
  · exact .inl h
  · exact .inr (namesPair_or_failsWith h)
  · exact .inr (.inr (.inr h))

/-- **The reader of literals follows its grammar.**  It reads the undefined range and the pairs of
moments where the grammar says so, reports the fault of a quoted text where that is no moment, and
refuses all other texts for their syntax; both errors quote the whole text. -/
theorem read_eq_iff (session : Session) (text : String) :
    (read session text = .ok .undefined ↔ NamesUndefined text.toList) ∧
      (∀ x y, read session text = .ok (.between x y) ↔ NamesPair session x y text.toList) ∧
      (∀ e, read session text = .error (.badEndpoint text e) ↔
        FailsWith session e text.toList) ∧
      (read session text = .error (.badSyntax .range text) ↔
        ¬ (NamesUndefined text.toList ∨ (∃ x y, NamesPair session x y text.toList) ∨
          ∃ e, FailsWith session e text.toList)) := by
  have hundefined : NamesUndefined text.toList → read session text = .ok .undefined :=
    read_of_namesUndefined
  have hpair {x y : Moment} :
      NamesPair session x y text.toList → read session text = .ok (.between x y) :=
    read_of_namesPair
  have hfails {e : Error} :
      FailsWith session e text.toList → read session text = .error (.badEndpoint text e) :=
    read_of_failsWith
  have hcases := read_cases session text
  refine ⟨⟨fun h => ?_, hundefined⟩, fun x y => ⟨fun h => ?_, hpair⟩,
    fun e => ⟨fun h => ?_, hfails⟩, ⟨fun h hother => ?_, fun h => ?_⟩⟩
  · rcases hcases with hcase | ⟨x, y, hcase⟩ | ⟨e, hcase⟩ | hcase
    · exact hcase
    · cases (hpair hcase).symm.trans h
    · cases (hfails hcase).symm.trans h
    · cases hcase.symm.trans h
  · rcases hcases with hcase | ⟨x', y', hcase⟩ | ⟨e, hcase⟩ | hcase
    · cases (hundefined hcase).symm.trans h
    · cases (hpair hcase).symm.trans h
      exact hcase
    · cases (hfails hcase).symm.trans h
    · cases hcase.symm.trans h
  · rcases hcases with hcase | ⟨x, y, hcase⟩ | ⟨e', hcase⟩ | hcase
    · cases (hundefined hcase).symm.trans h
    · cases (hpair hcase).symm.trans h
    · cases (hfails hcase).symm.trans h
      exact hcase
    · cases hcase.symm.trans h
  · rcases hother with hcase | ⟨x, y, hcase⟩ | ⟨e, hcase⟩
    · cases (hundefined hcase).symm.trans h
    · cases (hpair hcase).symm.trans h
    · cases (hfails hcase).symm.trans h
  · rcases hcases with hcase | hcase | hcase | hcase
    · exact absurd (.inl hcase) h
    · exact absurd (.inr (.inl hcase)) h
    · exact absurd (.inr (.inr hcase)) h
    · exact hcase

end Horology.RangeLiteral
