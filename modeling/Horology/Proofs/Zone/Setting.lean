import Horology.Proofs.Message
import Horology.Proofs.Moment.Text

/-!
# Zones survive being written

A zone is written as a setting by its name or by its offset, as the entry of a record in the same
way, and inside a date/time text by the shortest text of its offset.  Each of these is read as the
zone, or the offset, it was written for.

## Main definitions

* `TimeZone.readIn_display` — a zone that a setting names is named by its own text.
* `Settings.ofDatumIn_toDatum` — settings in such a zone survive as records.
* `DateField.ofText?_zoned_fixed` — the offset of a bare zone is one field of a date/time text.
* `TimeZone.survives_writing` — these together.
-/

namespace Horology

namespace Offset

/-- A text that is read as an offset has no white space to trim. -/
theorem trim_of_read? {cs : List Char} {east : Int} (h : read? cs = some east) : trim cs = cs := by
  obtain ⟨sign, d, body, rfl, hsign, -, hbody⟩ := shape_of_read? h
  refine trimWhere_of_forall fun c hc => ?_
  rcases List.mem_cons.1 hc with rfl | hc
  · rcases hsign with rfl | rfl <;> decide
  · rcases hbody c hc with hdigit | rfl
    · exact isSpace_eq_false_of_isDigit hdigit
    · decide

theorem head?_of_read? {cs : List Char} {east : Int} (h : read? cs = some east) :
    cs.head? = some '+' ∨ cs.head? = some '-' := by
  obtain ⟨sign, d, body, rfl, hsign, -⟩ := shape_of_read? h
  exact hsign.imp (congrArg some) (congrArg some)

end Offset

namespace TimeZone

variable {rulesOf? : String → Option ZoneRules} {value : String} {zone : TimeZone}

/-- The words for UTC begin with a letter. -/
theorem not_utcWord_of_sign {cs : List Char} (h : cs.head? = some '+' ∨ cs.head? = some '-') :
    utcWords.contains (String.ofList (lower cs)) = false := by
  have hletters : ∀ word ∈ utcWords,
      word.toList.head? ≠ some '+' ∧ word.toList.head? ≠ some '-' := by
    decide
  refine Bool.eq_false_iff.2 fun hcontains => ?_
  have hword := hletters _ (List.contains_iff_mem.1 hcontains)
  have hlower : (lower cs).head? = cs.head?.map Char.toLower := List.head?_map
  rw [String.toList_ofList, hlower] at hword
  rcases h with h | h
  · exact hword.1 (by rw [h]; rfl)
  · exact hword.2 (by rw [h]; rfl)

/-- A text that is read as an offset names that bare offset. -/
theorem ofText?_of_read? {cs : List Char} {east : Int} (h : Offset.read? cs = some east) :
    ofText? rulesOf? cs = some (.fixed east) := by
  have hsign := Offset.head?_of_read? h
  rw [ofText?, not_utcWord_of_sign hsign, if_neg Bool.false_ne_true, if_pos hsign, h]
  rfl

/-- A bare offset that a setting names stays below sixteen hours. -/
theorem natAbs_lt_of_readIn {east : Int} (h : readIn rulesOf? value = .ok (.fixed east)) :
    east.natAbs < 57600 := by
  rcases ofText?_cases (readIn_eq_ok_iff.1 h) with h | ⟨_, heast, ⟨rfl⟩⟩ | ⟨rules, -, h⟩
  · cases h
  · exact Offset.natAbs_lt_of_read? heast
  · cases h

/-- **A zone that a setting names is named by its own text.** -/
theorem readIn_display (h : readIn rulesOf? value = .ok zone) :
    readIn rulesOf? zone.display = .ok zone := by
  rw [readIn_eq_ok_iff] at h ⊢
  rcases ofText?_cases h with rfl | ⟨east, heast, rfl⟩ | ⟨rules, -, rfl⟩
  · rfl
  · have hread : Offset.read? (Offset.writeFull east) = some east :=
      Offset.read?_writeFull (Offset.natAbs_lt_of_read? heast)
    rw [display, String.toList_ofList, Offset.trim_of_read? hread]
    exact ofText?_of_read? hread
  · rwa [display, String.toList_ofList, trim_trim]

end TimeZone

/-! ## Records -/

namespace Settings

open TimeRange (field_eq_some_iff)

theorem choice_dateStyle (style : DateStyle) :
    Datum.choice DateStyle.names (.text style.name) = .ok style := by
  cases style <;> rfl

theorem choice_dateOrder (order : DateOrder) :
    Datum.choice DateOrder.names (.text order.name) = .ok order := by
  cases order <;> rfl

theorem choice_spanStyle (style : SpanStyle) :
    Datum.choice SpanStyle.names (.text style.name) = .ok style := by
  cases style <;> rfl

/-- The record of settings has a field for each of them. -/
theorem exists_fields (settings : Settings) :
    ∃ fields, settings.toDatum = .record fields ∧
      fields.lookup "date_order" = some (.text settings.dateOrder.name) ∧
      fields.lookup "date_style" = some (.text settings.dateStyle.name) ∧
      fields.lookup "interval_style" = some (.text settings.spanStyle.name) ∧
      fields.lookup "time_zone" = some settings.zone.toDatum :=
  ⟨_, rfl, rfl, rfl, rfl, rfl⟩

/-- Settings whose zone is named by its own text survive as a record. -/
theorem ofDatumIn_toDatum {rulesOf? : String → Option ZoneRules} {settings : Settings}
    (h : TimeZone.readIn rulesOf? settings.zone.display = .ok settings.zone) :
    ofDatumIn rulesOf? settings.toDatum = .ok settings := by
  have hread : TimeZone.ofDatumIn rulesOf? settings.zone.toDatum = .ok settings.zone := by
    simp only [TimeZone.ofDatumIn, TimeZone.toDatum, h]
  obtain ⟨fields, hfields, horder, hstyle, hspan, hzone⟩ := exists_fields settings
  have horder := field_eq_some_iff.2 ⟨_, horder, choice_dateOrder _⟩
  have hstyle := field_eq_some_iff.2 ⟨_, hstyle, choice_dateStyle _⟩
  have hspan := field_eq_some_iff.2 ⟨_, hspan, choice_spanStyle _⟩
  have hzone := field_eq_some_iff.2 ⟨_, hzone, hread⟩
  simp only [hfields, ofDatumIn, horder, hstyle, hspan, hzone]
  rfl

end Settings

/-! ## Offsets in date/time texts -/

/-- The fields of date and clock time are no offsets. -/
theorem Zoned.offset_not_mem_fields (z : Zoned) (style : DateStyle) (order : DateOrder)
    (text : List Char) : DateField.offset text ∉ z.fields style order := by
  cases style with
  | iso => simp [fields]
  | sql => by_cases h : order = .dmy <;> simp [fields, h]
  | german => simp [fields]
  | postgres => by_cases h : order = .dmy <;> simp [fields, h]

/-- What a bare zone shows at a second of a word is cut into date, clock time and the offset. -/
theorem DateField.ofText?_zoned_fixed {east : Int} (heast : east.natAbs < 57600) (n : Int32)
    (style : DateStyle) (order : DateOrder) :
    ofText? (((TimeZone.fixed east).zoned n.toInt).write style order) =
      some (((TimeZone.fixed east).zoned n.toInt).fields style order
        ++ [.offset (Offset.write east)]) := by
  have hword := Word.toInt_mem n
  have hplain : ((TimeZone.fixed east).zoned n.toInt).civil.IsPlain :=
    Moment.isPlain_of_wall (w := n.toInt + east) (by omega)
  rw [ofText?_write hplain, ofText?_writeZone (.inr rfl)]
  rfl

/-! ## Zones and offsets -/

/-- **Zones survive being written.**  A zone that a setting names is named by its own text again,
and settings in it survive as records.  A bare offset is read back from the text it has inside a
date/time text, where it is one field, and the only one of its kind.  What rules the names of zones
have does not matter. -/
theorem TimeZone.survives_writing {rulesOf? : String → Option ZoneRules} {value : String}
    {zone : TimeZone} (h : readIn rulesOf? value = .ok zone) :
    readIn rulesOf? zone.display = .ok zone ∧
    (∀ settings : Settings, settings.zone = zone →
      Settings.ofDatumIn rulesOf? settings.toDatum = .ok settings) ∧
    ∀ east, zone = .fixed east →
      Offset.read? (Offset.write east) = some east ∧
      ∀ (n : Int32) (style : DateStyle) (order : DateOrder),
        ∃ fields, DateField.ofText? ((zone.zoned n.toInt).write style order) =
            some (fields ++ [.offset (Offset.write east)]) ∧
          ∀ text, .offset text ∉ fields := by
  have hdisplay := readIn_display h
  refine ⟨hdisplay, ?_, ?_⟩
  · rintro settings rfl
    exact Settings.ofDatumIn_toDatum hdisplay
  · rintro east rfl
    have heast := natAbs_lt_of_readIn h
    refine ⟨Offset.read?_write heast, fun n style order => ?_⟩
    exact ⟨_, DateField.ofText?_zoned_fixed heast n style order,
      Zoned.offset_not_mem_fields _ style order⟩

/-- Thirty seconds west of UTC, with blanks around and a colon between the groups: the zone's own
text is read as the same zone, and its text inside a date/time text as the same offset. -/
theorem TimeZone.survives_writing_half_minute :
    let rulesOf? : String → Option ZoneRules := fun _ => none
    readIn rulesOf? " -0:0:30\u00a0" = .ok (.fixed (-30)) ∧
      readIn rulesOf? "-00:00:30" = .ok (.fixed (-30)) ∧
      Offset.read? "-00:00:30".toList = some (-30) := by
  intro rulesOf?
  have hread : readIn rulesOf? " -0:0:30\u00a0" = .ok (.fixed (-30)) := by decide +kernel
  obtain ⟨hdisplay, -, hoffset⟩ := survives_writing hread
  exact ⟨hread, hdisplay, (hoffset (-30) rfl).1⟩

end Horology
