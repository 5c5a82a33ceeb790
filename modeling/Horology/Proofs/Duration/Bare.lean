import Horology.Proofs.Duration.Digitless

/-!
# Phrases without a number

Nothing in either grammar asks for a number.  In a text with neither a digit nor a point the marker
and the word for the opposite are a phrase all the same, alone or one behind the other, with blanks
and commas around; and so is the `P` of the second grammar with nothing behind its `T`.  Such a text
is the empty span, and every other text without a number is refused.

## Main definitions

* `Numberless` — texts with neither a digit nor a point.
* `DurationToken.ofText?_of_numberless` — the tokens of such a text, cut at blanks and commas.
* `DurationToken.Spell` — that tokens spell a piece, character by character.
* `IsBare` — the texts that are read although they have no number.
* `Span.read_without_digit` — the spans of texts without a digit.
-/

namespace Horology

open Quantity DurationToken

variable {cs rest : List Char} {c : Char} {tokens : List DurationToken}

/-! ## Texts without a number -/

/-- That a text has neither a digit nor a point in it. -/
def Numberless (cs : List Char) : Prop := ∀ c ∈ cs, endsWhole c = false

theorem Numberless.of_cons (h : Numberless (c :: cs)) : Numberless cs :=
  (List.forall_mem_cons.1 h).2

theorem Numberless.sublist (h : Numberless cs) (hrest : rest.Sublist cs) : Numberless rest :=
  fun c hc => h c (hrest.subset hc)

theorem Numberless.digitless (h : Numberless cs) : Digitless cs :=
  fun c hc => (Bool.or_eq_false_iff.1 (h c hc)).1

theorem numberless_of_digitless (h : Digitless cs) (hpoint : '.' ∉ cs) : Numberless cs := by
  intro c hc
  refine Bool.or_eq_false_iff.2 ⟨h c hc, ?_⟩
  rw [beq_eq_false_iff_ne]
  rintro rfl
  exact hpoint hc

/-- There is no number in front of such a text. -/
theorem Quantity.scan_of_numberless (h : Numberless cs) : scan cs = .error .badFormat :=
  scan_of_stops fun c hc => h.sublist (sublist_splitSign cs) c (List.mem_of_mem_head? hc)

namespace DurationToken

/-! ## Its tokens -/

/-- A sign is refused, there being nothing that it could be the sign of. -/
theorem ofPiece_sign_of_numberless (h : Numberless (c :: cs)) (hbegins : beginsNumber c = true) :
    ofPiece (c :: cs) = .error .badFormat := by
  have hnumeric : Numberless (c :: cs.takeWhile fun c => !endsNumber c) :=
    h.sublist ((List.takeWhile_sublist _).cons_cons c)
  rw [ofPiece_stretch hbegins, ofStretch]
  split
  · rw [clock?_of_stops (hnumeric.digitless.sublist (sublist_splitSign _)).stops]
    rfl
  · rw [quantity?, scan_of_numberless hnumeric]
    rfl

/-- A comma cuts the tokens of a piece in two. -/
theorem ofPiece_append_comma (h : Numberless (cs ++ ',' :: rest)) :
    ofPiece (cs ++ ',' :: rest) = do
      let tokens ← ofPiece cs
      return tokens ++ (← ofPiece rest) := by
  induction hn : cs.length using Nat.strongRecOn generalizing cs with | ind n ih => ?_
  cases cs with
  | nil =>
    rw [List.nil_append, ofPiece_other (by decide) (by decide) (by decide), if_pos rfl, ofPiece_nil]
    cases ofPiece rest <;> rfl
  | cons c cs =>
    rw [List.length_cons] at hn
    rw [List.cons_append] at h ⊢
    have hcs := h.of_cons
    by_cases hmarker : c = '@'
    · subst hmarker
      rw [ofPiece_marker, ofPiece_marker, ih cs.length (by omega) hcs rfl]
      cases ofPiece cs with
      | error fault => rfl
      | ok tokens => cases ofPiece rest <;> rfl
    by_cases halpha : c.isAlpha
    · have hlength := length_dropped_le Char.isAlpha cs
      have hdrop : Numberless (cs.dropWhile Char.isAlpha ++ ',' :: rest) :=
        hcs.sublist ((List.dropWhile_sublist _).append_right _)
      rw [ofPiece_letter halpha, ofPiece_letter halpha, takeWhile_append_cons (by decide),
        dropWhile_append_cons (by decide), ih _ (by omega) hdrop rfl]
      cases ofPiece (cs.dropWhile Char.isAlpha) with
      | error fault => rfl
      | ok tokens => cases ofPiece rest <;> rfl
    by_cases hbegins : beginsNumber c = true
    · have hfront : Numberless (c :: cs) := h.sublist ((List.sublist_append_left _ _).cons_cons c)
      rw [ofPiece_sign_of_numberless h hbegins, ofPiece_sign_of_numberless hfront hbegins]
      rfl
    · rw [ofPiece_other hmarker halpha hbegins, ofPiece_other hmarker halpha hbegins]
      split
      · exact ih cs.length (by omega) hcs rfl
      · rfl

/-- What stands between the tokens of a phrase without numbers: blanks and commas. -/
def isGap (c : Char) : Bool := isBlank c || c == ','

/-- Without numbers, commas cut a piece into pieces. -/
theorem ofPieces_words_isGap (h : Numberless cs) (hblank : ∀ c ∈ cs, isBlank c = false) :
    ofPieces (words isGap cs) = ofPiece cs := by
  induction cs using cut_induction (p := (· == ',')) with
  | piece cs hcomma =>
    exact ofPieces_words_of_forall fun c hc =>
      Bool.or_eq_false_iff.2 ⟨hblank c hc, hcomma c hc⟩
  | cut cs c rest hcomma hc ih =>
    obtain rfl : c = ',' := by simpa using hc
    obtain ⟨hfront, hback⟩ := List.forall_mem_append.1 hblank
    have hpiece : ofPieces (words isGap cs) = ofPiece cs :=
      ofPieces_words_of_forall fun c hc => Bool.or_eq_false_iff.2 ⟨hfront c hc, hcomma c hc⟩
    have hrest : Numberless rest := Numberless.of_cons (List.forall_mem_append.1 h).2
    rw [words_append_cons rfl, ofPieces_append, ofPiece_append_comma h, hpiece,
      ih hrest (List.forall_mem_cons.1 hback).2]

/-- **Without numbers, commas separate like blanks.** -/
theorem ofText?_of_numberless (h : Numberless cs) : ofText? cs = ofPieces (words isGap cs) := by
  induction cs using cut_induction (p := isBlank) with
  | piece cs hblank => rw [ofText?_of_forall hblank, ofPieces_words_isGap h hblank]
  | cut cs c rest hblank hc ih =>
    obtain ⟨hfront, hback⟩ := List.forall_mem_append.1 h
    have hgap : isGap c = true := by simp [isGap, hc]
    rw [ofText?_append_cons hc, ofText?_of_forall hblank, words_append_cons hgap, ofPieces_append,
      ofPieces_words_isGap hfront hblank, ih (List.forall_mem_cons.1 hback).2]

/-- The characters of a token that has no number in it. -/
def chars : DurationToken → List Char
  | .marker => ['@']
  | .word w => w.toList
  | _ => []

/-- That a token has no number in it. -/
def IsPlain (token : DurationToken) : Prop := token = .marker ∨ ∃ w, token = .word w

/-- That tokens have no numbers in them, and were cut from a text in lower case. -/
structure Spell (tokens : List DurationToken) (cs : List Char) : Prop where
  plain : ∀ t ∈ tokens, t.IsPlain
  chars : tokens.flatMap chars = cs

theorem Spell.cons {token : DurationToken} (htoken : token.IsPlain)
    (h : Spell tokens cs) : Spell (token :: tokens) (token.chars ++ cs) :=
  ⟨List.forall_mem_cons.2 ⟨htoken, h.plain⟩, by rw [List.flatMap_cons, h.chars]⟩

/-- **The tokens of a piece keep its characters**, but for their case. -/
theorem spell_of_ofPiece (h : Numberless cs) (hgap : ∀ c ∈ cs, isGap c = false)
    (hok : ofPiece cs = .ok tokens) : Spell tokens (lower cs) := by
  induction hn : cs.length using Nat.strongRecOn generalizing cs tokens with | ind n ih => ?_
  cases cs with
  | nil =>
    rw [ofPiece_nil] at hok
    obtain rfl := Except.ok.inj hok
    exact ⟨nofun, rfl⟩
  | cons c cs =>
    rw [List.length_cons] at hn
    obtain ⟨hc, hgaps⟩ := List.forall_mem_cons.1 hgap
    by_cases hmarker : c = '@'
    · subst hmarker
      rw [ofPiece_marker] at hok
      obtain ⟨more, hmore, hok⟩ := bind_eq_ok_iff.1 hok
      obtain rfl := Except.ok.inj hok
      exact (ih cs.length (by omega) h.of_cons hgaps hmore rfl).cons (.inl rfl)
    by_cases halpha : c.isAlpha
    · rw [ofPiece_letter halpha] at hok
      obtain ⟨more, hmore, hok⟩ := bind_eq_ok_iff.1 hok
      obtain rfl := Except.ok.inj hok
      have hlength := length_dropped_le Char.isAlpha cs
      have hdrop := List.dropWhile_sublist (l := cs) Char.isAlpha
      have hrest := ih _ (by omega) (h.of_cons.sublist hdrop)
        (fun d hd => hgaps d (hdrop.subset hd)) hmore rfl
      have hword : IsPlain (.word (String.ofList (lower (c :: cs.takeWhile Char.isAlpha)))) :=
        .inr ⟨_, rfl⟩
      have hspell := hrest.cons hword
      rwa [DurationToken.chars, String.toList_ofList, ← lower_append, List.cons_append,
        List.takeWhile_append_dropWhile] at hspell
    by_cases hbegins : beginsNumber c = true
    · rw [ofPiece_sign_of_numberless h hbegins] at hok
      cases hok
    · have hcomma : c ≠ ',' := by
        rintro rfl
        cases hc
      rw [ofPiece_other hmarker halpha hbegins, if_neg hcomma] at hok
      cases hok

/-! ## Words that are a phrase -/

open DurationPhrase (agoWord)

/-- The phrases that do without a number. -/
def barePhrases : List (List DurationToken) :=
  [[.marker], [.word agoWord], [.marker, .word agoWord]]

/-- The words of these phrases; blanks around the marker may be left out. -/
def bareWords : List (List (List Char)) :=
  [["@".toList], ["ago".toList], ["@".toList, "ago".toList], ["@ago".toList]]

/-- The word for the opposite, in either case. -/
theorem ofPiece_ago {w : List Char} (hw : lower w = agoWord.toList) :
    ofPiece w = .ok [.word agoWord] := by
  have hne : w ≠ [] := by
    rintro rfl
    exact absurd hw (by decide)
  have hletters : ∀ c ∈ w, c.isAlpha := by
    refine isAlpha_of_lower ?_
    rw [hw]
    exact List.all_eq_true.1 rfl
  have hpiece := ofPiece_letters hne hletters (stops_nil _)
  rw [List.append_nil, ofPiece_nil, hw, String.ofList_toList] at hpiece
  exact hpiece

/-- The marker has no case. -/
theorem eq_marker_cons_of_lower {w : List Char} (hw : lower cs = '@' :: w) :
    ∃ tail, cs = '@' :: tail ∧ lower tail = w := by
  obtain ⟨c, tail, rfl, hc, htail⟩ := List.map_eq_cons_iff.1 hw
  rcases toLower_eq_self_or c with hsame | ⟨-, halpha⟩
  · exact ⟨tail, by rw [← hsame, hc], htail⟩
  · rw [hc] at halpha
    cases halpha

theorem ofPiece_marker_of_lower (h : lower cs = "@".toList) : ofPiece cs = .ok [.marker] := by
  obtain ⟨tail, rfl, htail⟩ := eq_marker_cons_of_lower h
  obtain rfl : tail = [] := List.map_eq_nil_iff.1 htail
  rw [ofPiece_marker, ofPiece_nil]
  rfl

/-- Such words are a phrase. -/
theorem ofPieces_of_bareWords {ps : List (List Char)} (h : ps.map lower ∈ bareWords) :
    ∃ tokens ∈ barePhrases, ofPieces ps = .ok tokens := by
  simp only [bareWords, List.mem_cons, List.not_mem_nil, or_false] at h
  obtain h | h | h | h := h
  · obtain ⟨p, rfl, hp⟩ := List.map_eq_singleton_iff.1 h
    refine ⟨[.marker], by simp [barePhrases], ?_⟩
    rw [ofPieces_singleton, ofPiece_marker_of_lower hp]
  · obtain ⟨p, rfl, hp⟩ := List.map_eq_singleton_iff.1 h
    refine ⟨[.word agoWord], by simp [barePhrases], ?_⟩
    rw [ofPieces_singleton, ofPiece_ago hp]
  · obtain ⟨p, ps, rfl, hp, hps⟩ := List.map_eq_cons_iff.1 h
    obtain ⟨q, rfl, hq⟩ := List.map_eq_singleton_iff.1 hps
    refine ⟨[.marker, .word agoWord], by simp [barePhrases], ?_⟩
    rw [ofPieces, ofPiece_marker_of_lower hp, ofPieces_singleton, ofPiece_ago hq]
    rfl
  · obtain ⟨p, rfl, hp⟩ := List.map_eq_singleton_iff.1 h
    obtain ⟨tail, rfl, htail⟩ := eq_marker_cons_of_lower hp
    refine ⟨[.marker, .word agoWord], by simp [barePhrases], ?_⟩
    rw [ofPieces_singleton, ofPiece_marker, ofPiece_ago htail]
    rfl

/-- That pieces have no gaps and no numbers in them. -/
def ArePlain (ps : List (List Char)) : Prop := ∀ p ∈ ps, IsPiece isGap p ∧ Numberless p

theorem isPlain_of_ofPieces {ps : List (List Char)} (h : ArePlain ps)
    (hok : ofPieces ps = .ok tokens) : ∀ t ∈ tokens, t.IsPlain := by
  induction ps generalizing tokens with
  | nil =>
    obtain rfl := Except.ok.inj hok
    nofun
  | cons p ps ih =>
    obtain ⟨⟨hpiece, hp⟩, hps⟩ := List.forall_mem_cons.1 h
    obtain ⟨front, hfront, hok⟩ := bind_eq_ok_iff.1 hok
    obtain ⟨rest, hrest, hok⟩ := bind_eq_ok_iff.1 hok
    obtain rfl := Except.ok.inj hok
    exact List.forall_mem_append.2
      ⟨(spell_of_ofPiece hp hpiece.inside hfront).plain, ih hps hrest⟩

/-- The first piece makes the first tokens, one at least, and the other pieces make the rest. -/
theorem exists_of_ofPieces_cons {p : List Char} {more : List (List Char)}
    (h : ArePlain (p :: more)) (hok : ofPieces (p :: more) = .ok tokens) :
    ∃ token first rest, tokens = token :: (first ++ rest) ∧
      lower p = (token :: first).flatMap chars ∧ ofPieces more = .ok rest := by
  obtain ⟨⟨hpiece, hp⟩, -⟩ := List.forall_mem_cons.1 h
  obtain ⟨front, hfront, hok⟩ := bind_eq_ok_iff.1 hok
  obtain ⟨rest, hrest, hok⟩ := bind_eq_ok_iff.1 hok
  have htext := (spell_of_ofPiece hp hpiece.inside hfront).chars
  cases front with
  | nil => exact absurd (List.map_eq_nil_iff.1 htext.symm) hpiece.ne_nil
  | cons token first => exact ⟨token, first, rest, (Except.ok.inj hok).symm, htext.symm, hrest⟩

theorem eq_nil_of_ofPieces {ps : List (List Char)} (h : ArePlain ps) (hok : ofPieces ps = .ok []) :
    ps = [] := by
  cases ps with
  | nil => rfl
  | cons p more =>
    obtain ⟨token, first, rest, htokens, -, -⟩ := exists_of_ofPieces_cons h hok
    cases htokens

theorem eq_singleton_of_ofPieces {ps : List (List Char)} {token : DurationToken} (h : ArePlain ps)
    (hok : ofPieces ps = .ok [token]) : ps.map lower = [token.chars] := by
  cases ps with
  | nil => cases hok
  | cons p more =>
    obtain ⟨_, first, rest, htokens, htext, hmore⟩ := exists_of_ofPieces_cons h hok
    obtain ⟨rfl, hnil⟩ := List.cons.inj htokens
    obtain ⟨rfl, rfl⟩ := List.append_eq_nil_iff.1 hnil.symm
    obtain rfl := eq_nil_of_ofPieces (List.forall_mem_cons.1 h).2 hmore
    simpa using htext

/-- Only such words are a phrase. -/
theorem bareWords_of_ofPieces {ps : List (List Char)} (h : ArePlain ps)
    (hok : ofPieces ps = .ok tokens) (htokens : tokens ∈ barePhrases) :
    ps.map lower ∈ bareWords := by
  simp only [barePhrases, List.mem_cons, List.not_mem_nil, or_false] at htokens
  obtain rfl | rfl | rfl := htokens
  · rw [eq_singleton_of_ofPieces h hok]
    decide
  · rw [eq_singleton_of_ofPieces h hok]
    decide
  · cases ps with
    | nil => cases hok
    | cons p more =>
      obtain ⟨_, first, rest, hpair, htext, hmore⟩ := exists_of_ofPieces_cons h hok
      obtain ⟨rfl, hago⟩ := List.cons.inj hpair
      have hplain := (List.forall_mem_cons.1 h).2
      rw [List.map_cons, htext]
      obtain ⟨rfl, rfl⟩ | ⟨rfl, rfl⟩ := List.append_eq_singleton_iff.1 hago.symm
      · rw [eq_singleton_of_ofPieces hplain hmore]
        decide
      · rw [eq_nil_of_ofPieces hplain hmore]
        decide

end DurationToken

namespace DurationPhrase

/-- What tokens without numbers add up to. -/
theorem sum_of_plain {d : Duration} (h : ∀ t ∈ tokens, t.IsPlain) :
    sum d none tokens =
      if tokens = [] then .ok d
      else if tokens = [.word agoWord] then d.negate? else .error .badFormat := by
  cases tokens with
  | nil => rfl
  | cons token tokens =>
    obtain rfl | ⟨w, rfl⟩ := h token List.mem_cons_self
    · rfl
    · by_cases hw : w = agoWord
      · rw [hw, sum_ago]
        cases tokens <;> rfl
      · simp [sum_word hw, hw]

/-- **Tokens without numbers are a phrase in three cases.** -/
theorem ofTokens_of_plain (h : ∀ t ∈ tokens, t.IsPlain) :
    (∃ d, ofTokens tokens = .ok (.delta d)) ↔ tokens ∈ barePhrases := by
  constructor
  · rintro ⟨d, hd⟩
    unfold ofTokens at hd
    split at hd
    · cases hd
    next hne =>
    split at hd
    · cases hd
    next hinvalid =>
    cases tokens with
    | nil => exact absurd rfl hne
    | cons token tokens =>
      obtain ⟨htoken, hmore⟩ := List.forall_mem_cons.1 h
      obtain rfl | ⟨w, rfl⟩ := htoken
      · rw [dropMarker, sum_of_plain hmore] at hd
        split at hd
        · next hnil =>
          rw [hnil]
          decide
        · split at hd
          · next hago =>
            rw [hago]
            decide
          · cases hd
      · rw [dropMarker, sum_of_plain h, if_neg (List.cons_ne_nil _ _)] at hd
        · split at hd
          · next hago =>
            rw [hago]
            decide
          · cases hd
        · intro _ heq
          cases heq
  · intro htokens
    simp only [barePhrases, List.mem_cons, List.not_mem_nil, or_false] at htokens
    obtain rfl | rfl | rfl := htokens
    · exact ⟨.zero, rfl⟩
    · exact ⟨.zero, rfl⟩
    · exact ⟨.zero, rfl⟩

theorem read_of_numberless (h : Numberless cs) :
    (∃ d, read cs = .ok (.delta d)) ↔ (words isGap cs).map lower ∈ bareWords := by
  have hplain : ArePlain (words isGap cs) := by
    intro p hp
    obtain ⟨hpiece, hsub⟩ := isPiece_of_mem_words hp
    exact ⟨hpiece, h.sublist hsub⟩
  rw [read, ofText?_of_numberless h]
  constructor
  · rintro ⟨d, hd⟩
    obtain ⟨tokens, htokens, hd⟩ := bind_eq_ok_iff.1 hd
    have hphrase := (ofTokens_of_plain (isPlain_of_ofPieces hplain htokens)).1 ⟨d, hd⟩
    exact bareWords_of_ofPieces hplain htokens hphrase
  · intro hwords
    obtain ⟨tokens, hphrase, htokens⟩ := ofPieces_of_bareWords hwords
    rw [htokens]
    exact (ofTokens_of_plain (isPlain_of_ofPieces hplain htokens)).2 hphrase

end DurationPhrase

namespace DurationDesignator

variable {inTime : Bool} {d : Duration}

/-- Without numbers there are no parts. -/
theorem readParts_of_numberless (h : Numberless (c :: cs)) (hc : c ≠ 'T') :
    readParts inTime d (c :: cs) = .error .badFormat := by
  rw [readParts_cons hc, readPart, scan_of_numberless h]
  rfl

/-- **Designators without numbers are the two letters alone.** -/
theorem read_of_numberless (h : Numberless cs) :
    read cs = if trimWhere (· == ' ') cs = "PT".toList then .ok (.delta .zero)
      else .error .badFormat := by
  by_cases hhead : (trimWhere (· == ' ') cs).head? = some 'P'
  · obtain ⟨body, hbody⟩ := List.head?_eq_some_iff.1 hhead
    have hnumberless : Numberless body := by
      have htrimmed := h.sublist (trimWhere_sublist (· == ' ') cs)
      rw [hbody] at htrimmed
      exact htrimmed.of_cons
    cases body with
    | nil =>
      rw [read, hbody]
      rfl
    | cons c body =>
      rw [read_of_trimWhere hbody, hbody]
      by_cases hc : c = 'T'
      · subst hc
        rw [readParts_joint]
        cases body with
        | nil =>
          rw [readParts_nil]
          rfl
        | cons d body =>
          have hparts : readParts true .zero (d :: body) = .error .badFormat := by
            by_cases hd : d = 'T'
            · subst hd
              rw [readParts]
              rfl
            · exact readParts_of_numberless hnumberless.of_cons hd
          rw [hparts]
          simp [Except.map]
      · rw [readParts_of_numberless hnumberless hc]
        simp [Except.map, hc]
  · rw [read_of_head? hhead, if_neg]
    intro heq
    rw [heq] at hhead
    exact hhead rfl

end DurationDesignator

/-- The texts that are read although they have no number. -/
def IsBare (cs : List Char) : Prop :=
  (words isGap cs).map lower ∈ bareWords ∨ trimWhere (· == ' ') cs = "PT".toList

instance (cs : List Char) : Decidable (IsBare cs) := inferInstanceAs (Decidable (_ ∨ _))

/-- The two letters are no phrase. -/
theorem DurationPhrase.read_of_trimWhere (h : trimWhere (· == ' ') cs = "PT".toList) :
    DurationPhrase.read cs = .error .badFormat := by
  obtain ⟨lead, trail, hlead, htrail, heq⟩ := exists_append_trimWhere (· == ' ') cs
  have hblank {gap : List Char} (hgap : ∀ c ∈ gap, (c == ' ') = true) : ∀ c ∈ gap, isBlank c := by
    intro c hc
    obtain rfl : c = ' ' := by simpa using hgap c hc
    rfl
  have hword : ofText? "PT".toList = .ok [.word "pt"] := by
    have hletters := ofPiece_letters (w := "PT".toList) (by decide) (List.all_eq_true.1 rfl)
      (stops_nil _)
    rw [List.append_nil, ofPiece_nil] at hletters
    exact (ofText?_piece (by decide)).trans hletters
  rw [DurationPhrase.read, heq, h, List.append_assoc, ofText?_gap_append (hblank hlead),
    ofText?_append_gap (hblank htrail), hword]
  rfl

/-- **What is read although it has no number.** -/
theorem Duration.read_of_numberless (h : Numberless cs) :
    (∃ d, Duration.read cs = .ok (.delta d)) ↔ IsBare cs := by
  constructor
  · rintro ⟨d, hd⟩
    unfold Duration.read at hd
    split at hd
    · rw [DurationDesignator.read_of_numberless h] at hd
      split at hd
      · next htrim => exact .inr htrim
      · cases hd
    · exact .inl ((DurationPhrase.read_of_numberless h).1 ⟨d, hd⟩)
  · rintro (hwords | htrim)
    · obtain ⟨d, hd⟩ := (DurationPhrase.read_of_numberless h).2 hwords
      exact ⟨d, by rw [Duration.read, hd]⟩
    · refine ⟨.zero, ?_⟩
      rw [Duration.read, DurationPhrase.read_of_trimWhere htrim,
        DurationDesignator.read_of_numberless h, if_pos htrim]

/-! ## Spans without a digit -/

namespace Span

theorem read_of_zero {text : String} (h : Duration.read text.toList = .ok (.delta .zero)) :
    read text = .ok .zero := by
  have hword : word? Duration.zero.totalSeconds = some 0 := by decide
  rw [read_of_delta h, hword]
  rfl

/-- **No number is needed for a span.**  A text without a digit is the empty span, or it is refused
for its form or for the word of an invalid value.  It is read as if a zero stood behind each of its
points; without points, it is read exactly if it is the marker, the word for the opposite, or the
two of them in this order, with blanks and commas anywhere around, or if it is `PT` with spaces
around. -/
theorem read_without_digit (text : String) (h : Digitless text.toList) :
    (read text = .ok .zero ∨ read text = .error (.badSyntax .span text) ∨
        read text = .error (.unexpectedWord "invalid" .span text)) ∧
      (read (String.ofList (withZeros text.toList))).toOption = (read text).toOption ∧
      ('.' ∉ text.toList → (read text = .ok .zero ↔ IsBare text.toList)) := by
  have hwhole (hpoint : '.' ∉ text.toList) :=
    Duration.read_of_numberless (numberless_of_digitless h hpoint)
  obtain ⟨hbad, hbad'⟩ | ⟨_, reading, ⟨rfl | rfl, rfl⟩, hok, hok'⟩ := Duration.read_digitless h
  · have hread : read text = .error (.badSyntax .span text) := by
      rw [read, hbad]
      rfl
    refine ⟨.inr (.inl hread), ?_, fun hpoint => ?_⟩
    · rw [hread, read, String.toList_ofList, hbad']
      rfl
    · rw [← hwhole hpoint, hread, hbad]
      simp
  · have hread : read text = .error (.unexpectedWord "invalid" .span text) := by
      rw [read, hok]
    refine ⟨.inr (.inr hread), ?_, fun hpoint => ?_⟩
    · rw [hread, read, String.toList_ofList, hok']
      rfl
    · rw [← hwhole hpoint, hread, hok]
      simp
  · have hread := read_of_zero hok
    have hread' : read (String.ofList (withZeros text.toList)) = .ok .zero :=
      read_of_zero (by rwa [String.toList_ofList])
    refine ⟨.inl hread, by rw [hread, hread'], fun hpoint => ?_⟩
    rw [← hwhole hpoint, hread, hok]
    simp

/-- The marker, the word for the opposite behind a comma, and the letters of the second grammar are
spans; so is a point, like a zero behind a point. -/
theorem read_without_digit_marker :
    (read "@" = .ok .zero ∧ read "@, AGO" = .ok .zero ∧ read " PT " = .ok .zero ∧
        read "+@" ≠ .ok .zero) ∧
      (read ".0").toOption = (read ".").toOption := by
  refine ⟨⟨?_, ?_, ?_, ?_⟩, ?_⟩
  · exact ((read_without_digit "@" (by decide)).2.2 (by decide)).2 (by decide)
  · exact ((read_without_digit "@, AGO" (by decide)).2.2 (by decide)).2 (by decide)
  · exact ((read_without_digit " PT " (by decide)).2.2 (by decide)).2 (by decide)
  · intro hread
    have hbare := ((read_without_digit "+@" (by decide)).2.2 (by decide)).1 hread
    exact absurd hbare (by decide)
  · exact (read_without_digit "." (by decide)).2.1

end Span

end Horology
