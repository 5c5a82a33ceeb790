import Horology.Proofs.Moment.Conversion

/-!
# Texts and timestamps of a wall reading

A session can be given a wall reading in two ways, as a text without a zone and as a timestamp.  The
text is cut into fields that fill slots; the timestamp has its fields from the calendar.  Both come
to the same reading, for which the session's zone has one offset, and so to the same moment.  They
differ in what they make of a reading that names no finite moment: the text is read as the invalid
moment, and the timestamp is out of range.

## Main definitions

* `Civil.isoFields`, `ofText?_writeIso` — the fields of a text without a zone.
* `Moment.read_writeIso` — what is read from it.
* `Moment.Agree` — that a text and a timestamp come to the same moment.
* `Moment.text_agrees_with_timestamp` — that they do for every wall reading of four-digit years.
-/

namespace Horology

/-! ## The text -/

/-- The fields of date and clock time with dashes and colons. -/
def Civil.isoFields (c : Civil) : List DateField :=
  [.date (fourDigits c.year ++ '-' :: twoDigits c.month ++ '-' :: twoDigits c.day) '-',
    .time c.writeClock]

/-- Date and clock time with nothing behind them are cut into their two fields. -/
theorem DateField.ofText?_writeIso {c : Civil} (hc : c.IsPlain) :
    ofText? c.writeIso = some c.isoFields := by
  have hyear := Civil.isRun_fourDigits hc.year.1
  have hmonth := Civil.isRun_twoDigits (Int.le_trans (by decide) hc.month.1)
  have hday := Civil.isRun_twoDigits (Int.le_trans (by decide) hc.day.1)
  have hdate := ofText?_date hyear hmonth hday (show separatesDate '-' from rfl) c.writeClock
  have hclock := ofText?_clock hc.isReading (stops_nil inTime) (stops_nil Char.isAlpha)
  rw [List.append_nil, ofText?_nil] at hclock
  rw [Civil.writeIso, hdate, hclock]
  rfl

/-- A text without a zone is read at the offset that the session's zone has for it. -/
theorem DateReading.read_writeIso {c : Civil} (hc : c.IsPlain) (session : Session) :
    read session c.writeIso = .ok (.civil c (session.zone.eastShowing c)) := by
  have hfields : (⟨c, 0, 0, none⟩ : Zoned).fields .iso session.dateOrder = c.isoFields := rfl
  have hslots : DateSlots.ofFields session.dateOrder c.isoFields = .ok (.ofCivil c) := by
    rw [← hfields]
    exact DateSlots.foldlM_place_fields hc (.inl rfl)
  have hcivil : (DateSlots.ofCivil c).civil = .ok c :=
    DateSlots.civil_ofCivil hc.isReading none none
  have hreserved : reserved? c.isoFields = none := rfl
  rw [read, DateField.ofText?_writeIso hc]
  simp only [ofFields, hreserved, ofDate, hslots, bind, Except.bind, hcivil]
  rfl

/-- The text of a timestamp of whole seconds, as long as its year has four digits. -/
theorem Timestamp.writeWall_count {w : Int}
    (hyear : 0 ≤ (Civil.ofWall w).year ∧ (Civil.ofWall w).year ≤ 9999) :
    writeWall (.count w 0) = String.ofList (Civil.ofWall w).writeIso := by
  have hwall : (Civil.ofWall w).writeWall = (Civil.ofWall w).writeIso := by
    rw [Civil.writeWall, if_pos hyear, Civil.writeIso]
  have hchars : writeWith [] (.count w 0) = (Civil.ofWall w).writeWall ++ [] ++ [] := rfl
  rw [writeWall, hchars, hwall, List.append_nil, List.append_nil]

namespace Moment

variable {session : Session}

/-- The moment of a text without a zone. -/
theorem read_writeIso {c : Civil} (hc : c.IsPlain) (session : Session) :
    read session (String.ofList c.writeIso) = .ok (ofCivil c (session.zone.eastShowing c)) := by
  rw [read, String.toList_ofList, DateReading.read_writeIso hc]
  rfl

/-! ## Agreement -/

/-- That a text and a timestamp come to the same moment.  The text always names one, finite or
invalid; the timestamp has the finite ones, and is out of range where the text is invalid. -/
structure Agree (text timestamp : Except Error Moment) : Prop where
  isOk : ∃ t, text = .ok t ∧ (t.isFinite = true ∨ t = .invalid)
  finite : ∀ n, text = .ok (.seconds n) ↔ timestamp = .ok (.seconds n)
  outOfRange : text = .ok .invalid ↔ timestamp = .error .timestampOutOfRange

/-- A moment as it is agrees with the demand that it be finite. -/
theorem agree_finite {t : Moment} (ht : t.isFinite = true ∨ t = .invalid) :
    Agree (.ok t) (finite t) := by
  rcases ht with ht | rfl
  · have hfinite : finite t = .ok t := if_pos ht
    have hne : t ≠ .invalid := by
      rintro rfl
      cases ht
    refine ⟨⟨t, rfl, .inl ht⟩, fun n => by rw [hfinite], ?_⟩
    rw [hfinite]
    exact iff_of_false (fun h => hne (Except.ok.inj h)) nofun
  · have hfinite : finite invalid = .error .timestampOutOfRange := rfl
    refine ⟨⟨.invalid, rfl, .inr rfl⟩, fun n => ?_, iff_of_true rfl hfinite⟩
    exact iff_of_false nofun (by rw [hfinite]; nofun)

/-- The text and the timestamp of a wall reading whose year has four digits. -/
theorem agree_writeIso {w : Int}
    (hyear : 0 ≤ (Civil.ofWall w).year ∧ (Civil.ofWall w).year ≤ 9999) (session : Session) :
    Agree (read session (String.ofList (Civil.ofWall w).writeIso))
      (ofWall session.zone (.count w 0)) := by
  have hplain : (Civil.ofWall w).IsPlain := ⟨Civil.exists_ofWall (by omega), hyear⟩
  rw [read_writeIso hplain]
  exact agree_finite (isFinite_or_eq_invalid_ofCivil _ _)

/-- A moment that has a wall reading in a zone below a day has one from 1901 to 2038, without a
fraction of a second. -/
theorem wall_of_toWall {zone : TimeZone} (hzone : ∀ u, (zone.eastAt u).natAbs < 86400) {t : Moment}
    {w : Int} {nanos : Nat} (h : t.toWall zone = .ok (.count w nanos)) :
    (-2177452800 ≤ w ∧ w < 2177452800) ∧ nanos = 0 := by
  unfold toWall at h
  split at h
  · cases h
  · cases h
  · cases h
  · next n hn =>
    have hword := Word.toInt_mem n
    have heast := hzone n.toInt
    have hcount : (zone.zoned n.toInt).civil.count = n.toInt + zone.eastAt n.toInt :=
      Civil.count_ofWall (by omega)
    split at h
    · next w' hw' =>
      rw [Civil.wall?, hcount] at hw'
      split at hw'
      · cases h
        obtain rfl := Option.some.inj hw'
        exact ⟨by omega, rfl⟩
      · cases hw'
    · cases h

/-- **The text and the timestamp of a wall reading come to the same moment**, in any session.  The
text of whole seconds of a year from 0 to 9999, without a zone, is always read: as a finite moment
exactly if the timestamp becomes that moment, and as the invalid one exactly if the timestamp is out
of range.  So the text of the timestamp that a moment has in the session's zone is read as the
moment that the timestamp comes back to. -/
theorem text_agrees_with_timestamp (session : Session) :
    (∀ w : Int, 0 ≤ (Civil.ofWall w).year ∧ (Civil.ofWall w).year ≤ 9999 →
      Agree (read session (String.ofList (Civil.ofWall w).writeIso))
        (ofWall session.zone (.count w 0))) ∧
    ((∀ u, (session.zone.eastAt u).natAbs < 86400) →
      ∀ (t : Moment) (w : Int) (nanos : Nat), t.toWall session.zone = .ok (.count w nanos) →
        Agree (read session (Timestamp.writeWall (.count w nanos)))
          (ofWall session.zone (.count w nanos))) := by
  constructor
  · intro w hyear
    exact agree_writeIso hyear session
  · intro hzone t w nanos h
    obtain ⟨hw, rfl⟩ := wall_of_toWall hzone h
    have hyear := year_ofWall hw
    rw [Timestamp.writeWall_count (by omega)]
    exact agree_writeIso (by omega) session

/-- With clocks set back from one hour east to UTC at second 0, the text of the repeated half hour
is read as its later second.  The word behind the end of time has a wall reading, whose text is read
as the invalid moment, and the timestamp does not come back. -/
theorem text_agrees_with_timestamp_repeated :
    let zone : TimeZone := .named "Zone" ⟨⟨3600, "CET"⟩, [(0, ⟨0, "UTC"⟩)]⟩
    let session : Session := { zone, now := 0, rulesOf? := fun _ => none }
    read session (String.ofList (Civil.ofWall 1800).writeIso) = .ok (.seconds 1800) ∧
      (∀ u, (zone.eastAt u).natAbs < 86400) ∧
      (Moment.seconds 2147483645).toWall zone = .ok (.count 2147483645 0) ∧
      read session (Timestamp.writeWall (.count 2147483645 0)) = .ok .invalid := by
  intro zone session
  have hzone : ∀ u, (zone.eastAt u).natAbs < 86400 :=
    ZoneRules.isBelowDay_of_regimes (z := ⟨⟨3600, "CET"⟩, [(0, ⟨0, "UTC"⟩)]⟩) (by decide)
  have hwall : (Moment.seconds 2147483645).toWall zone = .ok (.count 2147483645 0) := by decide
  obtain ⟨hreading, hmoment⟩ := text_agrees_with_timestamp session
  exact ⟨((hreading 1800 (by decide)).finite 1800).2 (by decide), hzone, hwall,
    (hmoment hzone _ _ _ hwall).outOfRange.2 (by decide)⟩

end Moment

end Horology
