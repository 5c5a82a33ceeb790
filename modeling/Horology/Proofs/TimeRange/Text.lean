import Horology.Proofs.Moment.Order
import Horology.Proofs.Moment.Text
import Horology.Proofs.TimeRange
import Horology.Proofs.TimeRange.Literal

/-!
# Texts of ranges are read back

The text of a valid range quotes the texts of its endpoints.  Nothing that names a moment has a
quote in it or begins with the name of the undefined range, so the literal that is read is the pair
of what the endpoints' texts name, and sorting that pair changes nothing.  An endpoint whose text
names the invalid moment makes the whole range invalid.

## Main definitions

* `Moment.not_mem_of_read`, `not_prefix_of_read` — what no text of a moment contains or begins with.
* `Moment.HasText` — the moments that have a text of their own, `Moment.IsKept` those that are read
  back from it.
* `TimeRange.read_quote` — the range of two quoted texts.
* `TimeRange.read_write_of_hasText` — the round trip.
-/

namespace Horology

/-- No word of a date begins with `r`, so that a word which does is taken for a zone. -/
theorem DateWordSense.ofWord_cons_r (w : List Char) :
    ofWord (String.ofList ('r' :: w)) = .zone := by
  have hne {s : String} (hs : s.toList.head? ≠ some 'r') : String.ofList ('r' :: w) ≠ s := by
    rintro rfl
    simp at hs
  have hlookup {α : Type} {l : List (String × α)} (hl : ∀ p ∈ l, p.1.toList.head? ≠ some 'r') :
      l.lookup (String.ofList ('r' :: w)) = none :=
    List.lookup_eq_none_iff.2 fun p hp => by simpa using hne (hl p hp)
  have hmonth : monthNames.lookup (String.ofList ('r' :: w)) = none := hlookup (by decide)
  have hreserved : ReservedWord.ofText? (String.ofList ('r' :: w)) = none := hlookup (by decide)
  have hidle : idleWords.contains (String.ofList ('r' :: w)) = false := by
    rw [List.contains_eq_mem, decide_eq_false_iff_not]
    intro hmem
    exact (show ∀ s ∈ idleWords, s.toList.head? ≠ some 'r' by decide) _ hmem (by simp)
  rw [ofWord, hmonth]
  simp only [hidle, hreserved, if_neg (hne (show "am".toList.head? ≠ some 'r' by decide)),
    if_neg (hne (show "pm".toList.head? ≠ some 'r' by decide)),
    if_neg (hne (show "bc".toList.head? ≠ some 'r' by decide)), Bool.false_eq_true, if_false,
    Option.isSome_none]

namespace Moment

/-- A text with a character that no date has is no moment. -/
theorem not_mem_of_read {session : Session} {text : String} {t : Moment} {c : Char}
    (hc : DateField.isAdmitted c = false) (h : read session text = .ok t) : c ∉ text.toList := by
  intro hmem
  rw [read, DateReading.read, DateField.ofText?_eq_none_of_mem hc hmem] at h
  cases h

/-- **A text that begins with the name of the undefined range is no moment**: its first two words
are both taken for zones. -/
theorem not_prefix_of_read {session : Session} {text : String} {t : Moment}
    (h : read session text = .ok t) : ¬ RangeLiteral.undefinedName <+: text.toList := by
  rintro ⟨rest, hrest⟩
  have hletters : ∀ c ∈ "Undefined".toList, c.isAlpha := List.all_eq_true.1 rfl
  have hwords : text.toList = "Undefined".toList ++ ' ' :: 'R' :: ("ange".toList ++ rest) :=
    hrest.symm
  rw [read, DateReading.read, hwords, DateField.ofText?_word_blank ⟨by decide, hletters⟩,
    DateField.ofText?_letter rfl] at h
  generalize ("ange".toList ++ rest).takeWhile DateField.inWord = w at h
  cases hfields : DateField.ofText? (("ange".toList ++ rest).dropWhile DateField.inWord) with
  | none =>
    rw [hfields] at h
    cases h
  | some fields =>
    have hfirst : DateSlots.place session.dateOrder {} (.word "Undefined".toList) =
        .ok { zoneWord := some "Undefined".toList } := rfl
    have hsense : DateWordSense.ofWord (String.ofList (lower ('R' :: w))) = .zone :=
      DateWordSense.ofWord_cons_r (lower w)
    have hsecond : DateSlots.place session.dateOrder { zoneWord := some "Undefined".toList }
        (.word ('R' :: w)) = .error .badSyntax := by
      rw [DateSlots.place, DateSlots.placeWord, hsense]
      rfl
    have hslots : DateSlots.ofFields session.dateOrder
        (.word "Undefined".toList :: .word ('R' :: w) :: fields) = .error .badSyntax := by
      rw [DateSlots.ofFields, DateSlots.foldlM_place_cons hfirst, List.foldlM_cons, hsecond]
      rfl
    simp only [hfields, Option.map_some, DateReading.ofFields, DateReading.reserved?,
      DateReading.ofDate, hslots] at h
    cases h

/-! ## Texts of endpoints -/

/-- The moments that have a text of their own: the finite ones, those with a word reserved for an
end of time, and the invalid one. -/
def HasText (t : Moment) : Prop :=
  t.isFinite = true ∨ t.raw = beginningRaw ∨ t.raw = endingRaw ∨ t.isInvalid = true

instance (t : Moment) : Decidable t.HasText := inferInstanceAs (Decidable (_ ∨ _))

/-- That the day calendars in a zone show at a moment, if it is finite, is not past the last one of
moments. -/
def IsKept (zone : TimeZone) (t : Moment) : Prop :=
  t.isFinite = true → t.localDay zone ≤ lastDay

instance (zone : TimeZone) (t : Moment) : Decidable (t.IsKept zone) :=
  inferInstanceAs (Decidable (_ → _))

theorem read_beginning (session : Session) : read session "-infinity" = .ok .beginning := by
  have hfields : DateField.ofText? "-infinity".toList =
      some [.signedWord "-infinity".toList] :=
    DateField.ofText?_signedWord (.inr rfl) (by decide) (List.all_eq_true.1 rfl)
  rw [read, DateReading.read, hfields]
  rfl

theorem read_ending (session : Session) : read session "infinity" = .ok .ending := by
  have hfields : DateField.ofText? ("infinity".toList ++ []) = some [.word "infinity".toList] := by
    rw [DateField.ofText?_word (by decide) (List.all_eq_true.1 rfl) (stops_nil _),
      DateField.ofText?_nil]
    rfl
  rw [List.append_nil] at hfields
  rw [read, DateReading.read, hfields]
  rfl

/-- The text of a moment that is not invalid names a moment with its word, or the invalid one where
the moment is not kept. -/
theorem exists_read_write {settings : Settings} (hsettings : settings.WritesOffsets) {t : Moment}
    (ht : t.HasText) (hvalid : t.isInvalid = false) {session : Session}
    (hsession : session.toSettings = settings) :
    ∃ t', read session (t.write settings) = .ok t' ∧
      (t.IsKept settings.zone → t'.raw = t.raw) ∧
      (¬ t.IsKept settings.zone → t' = .invalid) := by
  have hkept (hinfinite : ¬ t.isFinite = true) : t.IsKept settings.zone :=
    fun h => absurd h hinfinite
  rcases ht with hfinite | hraw | hraw | hinvalid
  · refine ⟨_, read_write_eq_ofCivil hsettings hfinite (.inl hsession), fun h => ?_, fun h => ?_⟩
    · have hday : (t.raw.toInt + settings.zone.eastAt t.raw.toInt) / 86400 ≤ lastDay := h hfinite
      rw [ofCivil_ofWall (isFinite_iff.1 hfinite) (hsettings.near _), if_pos hday,
        Int32.ofInt_toInt]
      rfl
    · have hday : ¬ (t.raw.toInt + settings.zone.eastAt t.raw.toInt) / 86400 ≤ lastDay :=
        fun hday => h fun _ => hday
      rw [ofCivil_ofWall (isFinite_iff.1 hfinite) (hsettings.near _), if_neg hday]
  · have hchars : t.chars settings = "-infinity".toList := by rw [chars, hraw]; rfl
    have hinfinite : ¬ t.isFinite = true := by rw [isFinite, hraw]; decide
    refine ⟨.beginning, ?_, fun _ => hraw.symm, fun h => absurd (hkept hinfinite) h⟩
    rw [write, hchars, String.ofList_toList, read_beginning]
  · have hchars : t.chars settings = "infinity".toList := by rw [chars, hraw]; rfl
    have hinfinite : ¬ t.isFinite = true := by rw [isFinite, hraw]; decide
    refine ⟨.ending, ?_, fun _ => hraw.symm, fun h => absurd (hkept hinfinite) h⟩
    rw [write, hchars, String.ofList_toList, read_ending]
  · rw [hvalid] at hinvalid
    cases hinvalid

end Moment

/-! ## Ranges -/

namespace TimeRange

open RangeLiteral (IsGap Quotes Opens NamesPair NamesUndefined)

/-- Two texts that name moments, quoted and in brackets, are the range between the moments. -/
theorem read_quote {session : Session} {u v : List Char} {x y : Moment}
    (hu : Moment.read session (String.ofList u) = .ok x)
    (hv : Moment.read session (String.ofList v) = .ok y) :
    read session (String.ofList ('[' :: quote u ++ ' ' :: quote v ++ [']'])) =
      .ok (between x y) := by
  have hquote {w : List Char} {t : Moment} (h : Moment.read session (String.ofList w) = .ok t) :
      '"' ∉ w := by
    simpa using Moment.not_mem_of_read (show DateField.isAdmitted '"' = false by decide) h
  have hprefix : ¬ RangeLiteral.undefinedName <+: u := by
    simpa using Moment.not_prefix_of_read hu
  have hblank : IsGap [' '] := by
    intro c hc
    rw [List.mem_singleton.1 hc]
    rfl
  have hnil : IsGap [] := nofun
  have htail : Quotes v [']'] (' ' :: quote v ++ [']']) := by
    have hquotes : Quotes v [']'] ([' '] ++ '"' :: (v ++ ['"', ']'])) := .intro hblank (hquote hv)
    simpa [quote] using hquotes
  have hhead : Opens u (' ' :: quote v ++ [']']) ('[' :: quote u ++ ' ' :: quote v ++ [']']) := by
    have hopens : Opens u (' ' :: quote v ++ [']'])
        ([] ++ '[' :: ([] ++ '"' :: (u ++ '"' :: (' ' :: quote v ++ [']'])))) :=
      .intro hnil (.intro hnil (hquote hu)) hprefix
    simpa [quote] using hopens
  have hpair : NamesPair session x y ('[' :: quote u ++ ' ' :: quote v ++ [']']) :=
    .intro hhead htail hnil hu hv
  rw [read, RangeLiteral.read_of_namesPair (by rwa [String.toList_ofList])]
  rfl

/-- The range that is undefined is read back from its text. -/
theorem read_undefined (session : Session) :
    read session (String.ofList ('[' :: quote RangeLiteral.undefinedName ++ [']'])) =
      .ok undefined := by
  have hnil : IsGap [] := nofun
  have hquoted : NamesUndefined ('[' :: quote RangeLiteral.undefinedName ++ [']']) :=
    .quoted hnil hnil ['"', ']']
  rw [read, RangeLiteral.read_of_namesUndefined (by rwa [String.toList_ofList])]
  rfl

/-- Sorting two moments with the words of the endpoints of a range in order gives a range with the
same endpoints. -/
theorem same_between {r : TimeRange} (hvalid : r.status = .valid) (hle : r.first ≤ r.last)
    {x y : Moment} (hx : x.raw = r.first.raw) (hy : y.raw = r.last.raw) :
    (between x y).same r = true := by
  obtain ⟨hfirst, hlast⟩ := isInvalid_of_status hvalid
  have hxvalid : x.isInvalid = false := by rw [Moment.isInvalid, hx]; exact hfirst
  have hyvalid : y.isInvalid = false := by rw [Moment.isInvalid, hy]; exact hlast
  have hordered : ¬ y < x := by
    rw [Moment.lt_iff, hxvalid, hx, hy]
    rw [Moment.le_iff, hlast] at hle
    simp only [Bool.false_eq_true, false_or] at hle ⊢
    omega
  have hstatus : (between x y).status = .valid := by
    simp [between, RangeStatus.ofEndpoints, hxvalid, hyvalid]
  have hbegins : (x.earlier y == r.first) = true := by
    rw [Moment.beq_iff, Moment.earlier, if_neg hordered, hx]
  have hends : (x.later y == r.last) = true := by
    rw [Moment.beq_iff, Moment.later, if_neg hordered, hy]
  rw [same, isValid, isValid, hstatus, hvalid]
  exact Bool.and_eq_true_iff.2 ⟨hbegins, hends⟩

/-- A range one end of which is invalid is invalid. -/
theorem status_between {x y : Moment} (h : x = .invalid ∨ y = .invalid) :
    (between x y).status = .invalid := by
  rcases h with rfl | rfl
  · rfl
  · exact RangeStatus.ofEndpoints_comm x .invalid

/-- **Ranges are read back from their texts.**  The undefined range stands for any invalid one.  A
valid range has the same endpoints as before, unless a finite one of them lies on a day past the
last one of moments: then what is read is invalid. -/
theorem read_write_of_hasText {settings : Settings} (hsettings : settings.WritesOffsets)
    {r : TimeRange} (hfirst : r.first.HasText) (hlast : r.last.HasText) (hle : r.first ≤ r.last)
    {session : Session} (hsession : session.toSettings = settings) :
    ∃ w, read session (r.write settings) = .ok w ∧
      (r.status = .invalid → w.first = .invalid ∧ w.last = .invalid ∧ (w == r) = true) ∧
      (r.status = .valid → r.first.IsKept settings.zone ∧ r.last.IsKept settings.zone →
        w.same r = true) ∧
      (r.status = .valid → ¬ (r.first.IsKept settings.zone ∧ r.last.IsKept settings.zone) →
        w.status = .invalid) := by
  cases hstatus : r.status with
  | invalid =>
    have hinvalid : r.isValid = false := by rw [isValid, hstatus]; rfl
    refine ⟨undefined, ?_, fun _ => ⟨rfl, rfl, ?_⟩, nofun, nofun⟩
    · rw [write, chars, if_neg (by simp [hinvalid]), read_undefined]
    · show (order undefined r == .eq) = true
      rw [order, hinvalid]
      rfl
  | valid =>
    have hvalid : r.isValid = true := by rw [isValid, hstatus]; rfl
    obtain ⟨hfirstValid, hlastValid⟩ := isInvalid_of_status hstatus
    obtain ⟨x, hx, hxkept, hxlost⟩ :=
      Moment.exists_read_write hsettings hfirst hfirstValid hsession
    obtain ⟨y, hy, hykept, hylost⟩ := Moment.exists_read_write hsettings hlast hlastValid hsession
    refine ⟨between x y, ?_, nofun, fun _ hkept => ?_, fun _ hlost => ?_⟩
    · rw [write, chars, if_pos hvalid]
      exact read_quote hx hy
    · exact same_between hstatus hle (hxkept hkept.1) (hykept hkept.2)
    · rcases not_and_or.1 hlost with h | h
      · exact status_between (.inl (hxlost h))
      · exact status_between (.inr (hylost h))

/-- All time up to the last finite second is read back west of UTC, where that second is on the day
before the last; in UTC the range is lost with it. -/
theorem read_write_of_hasText_last_second :
    let west : Session :=
      { dateStyle := .german, dateOrder := .dmy, zone := .fixed (-34201), now := 0,
        rulesOf? := fun _ => none }
    let utc : Session := { now := 0, rulesOf? := fun _ => none }
    let r := between .beginning (.seconds 2147483643)
    (∃ w, read west (write west.toSettings r) = .ok w ∧ w.same r = true) ∧
      ∃ w, read utc (write utc.toSettings r) = .ok w ∧ w.status = .invalid := by
  intro west utc r
  have hwest : west.toSettings.WritesOffsets :=
    ⟨TimeZone.isNear_fixed.2 (by decide), .inr rfl, fun _ => rfl⟩
  have hutc : utc.toSettings.WritesOffsets :=
    ⟨TimeZone.isNear_utc, .inl rfl, fun h => by cases h⟩
  constructor
  · obtain ⟨w, hread, -, hkept, -⟩ := read_write_of_hasText (r := r) hwest (by decide)
      (by decide) (by decide) rfl
    exact ⟨w, hread, hkept rfl (by decide)⟩
  · obtain ⟨w, hread, -, -, hlost⟩ := read_write_of_hasText (r := r) hutc (by decide)
      (by decide) (by decide) rfl
    exact ⟨w, hread, hlost rfl (by decide)⟩

end TimeRange

end Horology
