import Horology.Duration.Designator
import Horology.Duration.Layout
import Horology.Proofs.Duration.Phrase

/-!
# Designators are read back

A duration of whole seconds in the designators of ISO 8601 is no phrase, and the second grammar
reads it as the duration it is.  That it is no phrase shows in its first letter, but only because
the numbers behind it are all small enough to become tokens.

## Main definitions

* `readParts_cons` — one part, and then the rest.
* `readParts_designated` — a field is added as it was written.
* `IsTail` — what may stand behind the first letter without being too large for a token.
* `read_eq_badFormat_of_isTail` — that designators are no phrase.
-/

namespace Horology.DurationDesignator

open Duration Quantity

/-! ## Reading designators -/

/-- Designators are letters. -/
theorem isAlpha_of_unit? {inTime : Bool} {c : Char} {unit : TimeUnit}
    (h : unit? inTime c = some unit) : c.isAlpha = true := by
  unfold unit? at h
  split at h
  · have hmem := mem_of_lookup h
    simp only [List.mem_cons, Prod.mk.injEq, List.not_mem_nil, or_false] at hmem
    rcases hmem with ⟨rfl, -⟩ | ⟨rfl, -⟩ | ⟨rfl, -⟩ <;> rfl
  · have hmem := mem_of_lookup h
    simp only [List.mem_cons, Prod.mk.injEq, List.not_mem_nil, or_false] at hmem
    rcases hmem with ⟨rfl, -⟩ | ⟨rfl, -⟩ | ⟨rfl, -⟩ | ⟨rfl, -⟩ <;> rfl

variable {d d' : Duration} {inTime : Bool} {cs : List Char} {c : Char} {z : Int} {unit : TimeUnit}

/-- Reading goes on behind a part. -/
theorem readParts_cons (hc : c ≠ 'T') (tail : List Char) :
    readParts inTime d (c :: tail) =
      readPart inTime d (c :: tail) >>= fun part => readParts inTime part.1 part.2 := by
  rw [readParts]
  · split
    · next heq =>
      rw [heq]
      rfl
    · next heq =>
      rw [heq]
      rfl
  · exact hc

/-- A number before a designator is added in the unit of the designator. -/
theorem readParts_number (hcs : IsNumber cs z) (hunit : unit? inTime c = some unit)
    (hadd : d.add? (.ofInt z) unit = .ok d') (rest : List Char) :
    readParts inTime d (cs ++ c :: rest) = readParts inTime d' rest := by
  have hc := isAlpha_of_unit? hunit
  have hpoint : c ≠ '.' := ne_of_class hc rfl
  have hscan : scan (cs ++ c :: rest) = .ok (.ofInt z, c :: rest) :=
    scan_of_isNumber hcs (by simp [endsWhole, isDigit_eq_false_of_isAlpha hc, hpoint])
  have hpart : readPart inTime d (cs ++ c :: rest) = .ok (d', rest) := by
    simp only [readPart, hscan, ok_bind, readAfter, hunit, hadd]
    rfl
  cases cs with
  | nil => exact absurd rfl hcs.ne_nil
  | cons c₀ cs =>
    have hfirst : c₀ ≠ 'T' := by
      rintro rfl
      exact absurd (hcs.isDigit_or_sign 'T' List.mem_cons_self) (by decide)
    rw [List.cons_append] at hpart ⊢
    rw [readParts_cons hfirst, hpart]
    rfl

/-- A field with its designator, which is left out if it is zero, is added. -/
theorem readParts_designated (h : d.Step z unit d') (hunit : unit? inTime c = some unit)
    (rest : List Char) :
    readParts inTime d (designated z c ++ rest) = readParts inTime d' rest := by
  by_cases hzero : z = 0
  · simp [designated, hzero, h.stay hzero]
  · rw [designated, if_neg hzero, List.append_assoc]
    exact readParts_number (isNumber_writeInt h.bound) hunit h.add rest

theorem readParts_joint (rest : List Char) :
    readParts false d ('T' :: rest) = readParts true d rest := by
  rw [readParts]
  rfl

theorem readParts_nil : readParts inTime d [] = .ok d := by
  rw [readParts]

/-- What stands behind the first letter, between spaces, is read as parts. -/
theorem read_of_trimWhere {body : List Char} (h : trimWhere (· == ' ') cs = 'P' :: c :: body) :
    read cs = (readParts false .zero (c :: body)).map .delta := by
  simp only [read, h]

/-- There may be no spaces. -/
theorem read_cons (hne : cs ≠ []) (hinside : ∀ c ∈ cs, isBlank c = false) :
    read ('P' :: cs) = (readParts false .zero cs).map .delta := by
  have htrim : trimWhere (· == ' ') ('P' :: cs) = 'P' :: cs := by
    apply trimWhere_of_forall
    intro c hc
    rw [beq_eq_false_iff_ne]
    rintro rfl
    rcases List.mem_cons.1 hc with hc | hc
    · cases hc
    · cases hinside ' ' hc
  cases cs with
  | nil => exact absurd rfl hne
  | cons c cs => exact read_of_trimWhere htrim

/-- A text that does not begin with the first letter is refused. -/
theorem read_of_head? (h : (trimWhere (· == ' ') cs).head? ≠ some 'P') :
    read cs = .error .badFormat := by
  unfold read
  split
  · next heq =>
    rw [heq] at h
    exact absurd rfl h
  · rfl

/-! ## Designators are no phrase -/

open DurationToken

/-- What may stand behind letters of a piece: further letters, and then a text that can be cut into
tokens. -/
structure IsTail (cs : List Char) : Prop where
  inside : ∀ c ∈ cs, isBlank c = false
  tokens : ∃ letters rest tokens, cs = letters ++ rest ∧ (∀ c ∈ letters, c.isAlpha) ∧
    Stops Char.isAlpha rest ∧ ofPiece rest = .ok tokens

theorem isTail_nil : IsTail [] :=
  ⟨by simp, [], [], [], rfl, by simp, by simp, ofPiece_nil⟩

/-- A letter may stand in front. -/
theorem IsTail.letter_cons (hc : c.isAlpha = true) (h : IsTail cs) : IsTail (c :: cs) := by
  obtain ⟨hinside, letters, rest, tokens, rfl, hletters, hrest, htokens⟩ := h
  refine ⟨?_, c :: letters, rest, tokens, rfl, ?_, hrest, htokens⟩
  · intro e he
    rcases List.mem_cons.1 he with rfl | he
    · exact isBlank_eq_false_of_isAlpha hc
    · exact hinside e he
  · intro e he
    rcases List.mem_cons.1 he with rfl | he
    · exact hc
    · exact hletters e he

/-- A number with a letter behind it may stand in front. -/
theorem IsTail.number_append {ds : List Char} (hds : IsNumber ds z) (hc : c.isAlpha = true)
    (h : IsTail cs) : IsTail (ds ++ c :: cs) := by
  obtain ⟨hinside, letters, rest, tokens, heq, hletters, hrest, htokens⟩ := h.letter_cons hc
  have hshape := hds.isDigit_or_sign
  refine ⟨?_, [], ds ++ c :: cs, .quantity (.ofInt z) (DurationToken.word? letters) :: tokens,
    rfl, by simp, ?_, ?_⟩
  · intro e he
    rcases List.mem_append.1 he with he | he
    · rcases hshape e he with h | rfl | rfl
      · exact isBlank_eq_false_of_isDigit h
      · rfl
      · rfl
    · exact hinside e he
  · cases ds with
    | nil => exact absurd rfl hds.ne_nil
    | cons e ds =>
      rw [List.cons_append, stops_cons]
      rcases hshape e List.mem_cons_self with h | rfl | rfl
      · exact isAlpha_eq_false_of_isDigit h
      · rfl
      · rfl
  · have hne : letters = [] → rest = [] := by
      rintro rfl
      rw [List.nil_append] at heq
      rw [← heq, stops_cons, hc] at hrest
      cases hrest
    rw [heq, ← List.append_assoc, ofPiece_number hds hletters hne hrest, htokens]
    rfl

theorem IsTail.designated_append (hz : z.natAbs ≤ 9223372036854775807) (hc : c.isAlpha = true)
    (h : IsTail cs) : IsTail (designated z c ++ cs) := by
  by_cases hzero : z = 0
  · simpa [designated, hzero] using h
  · rw [designated, if_neg hzero, List.append_assoc]
    exact h.number_append (isNumber_writeInt hz) hc

/-- **Designators are no phrase.**  Behind the `P` everything can be cut into tokens, and the first
of these is a word that is none of a phrase. -/
theorem read_eq_badFormat_of_isTail (h : IsTail cs) :
    DurationPhrase.read ('P' :: cs) = .error .badFormat := by
  obtain ⟨hinside, letters, rest, tokens, rfl, hletters, hrest, htokens⟩ := h
  have hinside' : ∀ c ∈ 'P' :: (letters ++ rest), isBlank c = false :=
    (IsTail.letter_cons rfl ⟨hinside, letters, rest, tokens, rfl, hletters, hrest, htokens⟩).inside
  have hletters' : ∀ c ∈ 'P' :: letters, c.isAlpha := by
    intro c hc
    rcases List.mem_cons.1 hc with rfl | hc
    · rfl
    · exact hletters c hc
  have hpiece := ofPiece_letters (List.cons_ne_nil 'P' letters) hletters' hrest
  rw [htokens, ok_bind] at hpiece
  have hall : DurationToken.ofText? ('P' :: (letters ++ rest)) =
      .ok (.word (String.ofList (lower ('P' :: letters))) :: tokens) := by
    rw [ofText?_piece ⟨List.cons_ne_nil _ _, hinside'⟩]
    exact hpiece
  -- The first letter tells the word from the two words that phrases know without a number.
  have hne {s : String} (hs : s.toList.head? ≠ some 'p') :
      String.ofList (lower ('P' :: letters)) ≠ s := by
    rintro rfl
    rw [String.toList_ofList] at hs
    exact hs rfl
  have hago := hne (s := DurationPhrase.agoWord) (by decide)
  have hinvalid := hne (s := DurationPhrase.invalidWord) (by decide)
  rw [DurationPhrase.read, hall, ok_bind]
  simp [DurationPhrase.ofTokens, DurationPhrase.dropMarker, DurationPhrase.sum, hago, hinvalid,
    Except.map]

end Horology.DurationDesignator
