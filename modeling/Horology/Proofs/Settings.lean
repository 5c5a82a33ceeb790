import Horology.Proofs.Text
import Horology.Settings

/-!
# The combined date setting

The words of a combined date setting are taken up one after another, each adding to what the words
before it have asked for; style and order are settled when all words have been heard.  This module
shows that the outcome hangs only on which words there are, neither on their order nor on how often
they occur: a wish gathers what the words ask for, and there is one as long as every word is known
and no two name different styles or different orders.

## Main definitions

* `AsksUsual`, `NamesStyle`, `NamesOrder` — what a word asks for.
* `DateWish.Gathers` — that a wish is what was asked for before and by given words.
* `DateWish.ofWords?_eq_some_iff` — the wish that words add up to.
* `DateWords.Coherent`, `DateWords.SetsTo` — the words that make a setting, and what they set.
* `Settings.applyDateWords_by_words` — the setting by its words.
-/

namespace Horology

/-- The words of a combined date setting. -/
def dateWords (value : String) : List (List Char) := words separatesDateWords value.toList

/-! ## What a word asks for -/

/-- That a word asks for the usual style and order.  Letter case does not count. -/
def AsksUsual (w : List Char) : Prop := lower w = "default".toList

/-- That a word names a date style.  Neither white space around the name nor letter case counts. -/
def NamesStyle (w : List Char) (s : DateStyle) : Prop :=
  DateStyle.ofWord? (String.ofList (lower (trim w))) = some s

/-- That a word names a date order, under the same rules. -/
def NamesOrder (w : List Char) (o : DateOrder) : Prop :=
  DateOrder.ofWord? (String.ofList (lower (trim w))) = some o

instance (w : List Char) : Decidable (AsksUsual w) := inferInstanceAs (Decidable (_ = _))

instance (w : List Char) (s : DateStyle) : Decidable (NamesStyle w s) :=
  inferInstanceAs (Decidable (_ = _))

instance (w : List Char) (o : DateOrder) : Decidable (NamesOrder w o) :=
  inferInstanceAs (Decidable (_ = _))

/-- The word for the usual has no white space to trim. -/
theorem trim_of_asksUsual {w : List Char} (h : AsksUsual w) : trim w = w := by
  have hletters : ∀ c ∈ lower w, c.isAlpha = true := by
    rw [h]
    exact List.all_eq_true.1 rfl
  exact trimWhere_of_forall fun c hc => isSpace_eq_false_of_isAlpha (isAlpha_of_lower hletters c hc)

theorem not_namesStyle_of_asksUsual {w : List Char} (h : AsksUsual w) (s : DateStyle) :
    ¬ NamesStyle w s := by
  rw [NamesStyle, trim_of_asksUsual h, h]
  exact nofun

theorem not_namesOrder_of_asksUsual {w : List Char} (h : AsksUsual w) (o : DateOrder) :
    ¬ NamesOrder w o := by
  rw [NamesOrder, trim_of_asksUsual h, h]
  exact nofun

/-- No word names both a style and an order. -/
theorem not_namesOrder_of_namesStyle {w : List Char} {s : DateStyle} (h : NamesStyle w s)
    (o : DateOrder) : ¬ NamesOrder w o := by
  have hnames : ∀ entry ∈ [("iso", DateStyle.iso), ("sql", .sql), ("postgres", .postgres),
      ("german", .german)], DateOrder.ofWord? entry.1 = none := by
    decide
  have hnone := hnames _ (mem_of_lookup h)
  rw [NamesOrder, hnone]
  exact nofun

theorem settingWord_ofList (w : List Char) :
    settingWord (String.ofList w) = String.ofList (lower (trim w)) := by
  rw [settingWord, String.toList_ofList]

namespace DateWord

variable {w : List Char}

theorem ofWord?_eq_usual_iff : ofWord? w = some .usual ↔ AsksUsual w := by
  unfold ofWord?
  split
  · next h => exact iff_of_true rfl h
  · next h =>
    refine iff_of_false ?_ h
    split <;> simp

theorem ofWord?_eq_style_iff {s : DateStyle} : ofWord? w = some (.style s) ↔ NamesStyle w s := by
  unfold ofWord?
  rw [settingWord_ofList]
  split
  · next h => exact iff_of_false nofun (not_namesStyle_of_asksUsual h s)
  · split
    · next s' hs' =>
      rw [NamesStyle, hs']
      simp
    · next hnone =>
      rw [NamesStyle, hnone]
      simp

theorem ofWord?_eq_order_iff {o : DateOrder} : ofWord? w = some (.order o) ↔ NamesOrder w o := by
  unfold ofWord?
  rw [settingWord_ofList]
  split
  · next h => exact iff_of_false nofun (not_namesOrder_of_asksUsual h o)
  · split
    · next s hs => exact iff_of_false nofun (not_namesOrder_of_namesStyle hs o)
    · rw [NamesOrder]
      simp

end DateWord

/-! ## What words ask for together -/

namespace DateWish

/-- That a wish is what was asked for before together with what the words of a list ask for. -/
structure Gathers (before : DateWish) (ws : List (List Char)) (wish : DateWish) : Prop where
  known : ∀ w ∈ ws, DateWord.ofWord? w ≠ none
  style : ∀ s, wish.style = some s ↔
    before.style = some s ∨ ∃ w ∈ ws, DateWord.ofWord? w = some (.style s)
  order : ∀ o, wish.order = some o ↔
    before.order = some o ∨ ∃ w ∈ ws, DateWord.ofWord? w = some (.order o)
  usual : wish.usual = true ↔ before.usual = true ∨ ∃ w ∈ ws, DateWord.ofWord? w = some .usual

variable {before mid wish wish' : DateWish} {w : List Char} {ws : List (List Char)}

theorem Gathers.unique (h : Gathers before ws wish) (h' : Gathers before ws wish') :
    wish = wish' := by
  have hstyle : wish.style = wish'.style :=
    Option.ext fun s => (h.style s).trans (h'.style s).symm
  have horder : wish.order = wish'.order :=
    Option.ext fun o => (h.order o).trans (h'.order o).symm
  have husual : wish.usual = wish'.usual := Bool.eq_iff_iff.2 (h.usual.trans h'.usual.symm)
  cases wish
  cases wish'
  simp_all

theorem gathers_nil : Gathers before [] before where
  known := nofun
  style := by simp
  order := by simp
  usual := by simp

/-- Words can be gathered one by one. -/
theorem Gathers.cons_iff (h : Gathers before [w] mid) :
    Gathers before (w :: ws) wish ↔ Gathers mid ws wish := by
  have hknown := h.known w List.mem_cons_self
  have hstyle := h.style
  have horder := h.order
  have husual := h.usual
  simp only [List.mem_singleton, exists_eq_left] at hstyle horder husual
  constructor
  · intro hall
    exact ⟨fun v hv => hall.known v (List.mem_cons_of_mem w hv),
      fun s => by rw [hall.style s, hstyle]; simp [or_assoc],
      fun o => by rw [hall.order o, horder]; simp [or_assoc],
      by rw [hall.usual, husual]; simp [or_assoc]⟩
  · intro hrest
    exact ⟨List.forall_mem_cons.2 ⟨hknown, hrest.known⟩,
      fun s => by rw [hrest.style s, hstyle]; simp [or_assoc],
      fun o => by rw [hrest.order o, horder]; simp [or_assoc],
      by rw [hrest.usual, husual]; simp [or_assoc]⟩

theorem agrees_iff {α : Type} [DecidableEq α] {first : Option α} {second : α} :
    agrees first second = true ↔ ∀ a, first = some a → a = second := by
  cases first <;> simp [agrees]

/-- A second choice that agrees with the first adds nothing to it. -/
theorem eq_iff_of_agrees {α : Type} [DecidableEq α] {first : Option α} {second : α}
    (h : agrees first second = true) (a : α) : second = a ↔ first = some a ∨ second = a :=
  ⟨.inr, fun ha => ha.elim (fun hfirst => (agrees_iff.1 h a hfirst).symm) id⟩

/-- Nothing holds both a first choice and a second one that disagrees with it. -/
theorem agrees_of_eq {α : Type} [DecidableEq α] {first wished : Option α} {second : α}
    (hfirst : ∀ a, first = some a → wished = some a) (hsecond : wished = some second) :
    agrees first second = true :=
  agrees_iff.2 fun a ha => Option.some.inj ((hfirst a ha).symm.trans hsecond)

/-- **A further word is gathered, or no wish gathers it.** -/
theorem add?_cases (before : DateWish) (w : List Char) :
    (∃ mid, add? before w = some mid ∧ Gathers before [w] mid) ∨
      add? before w = none ∧ ∀ ws wish, ¬ Gathers before (w :: ws) wish := by
  unfold add?
  cases hw : DateWord.ofWord? w with
  | none => exact .inr ⟨rfl, fun ws wish h => h.known w List.mem_cons_self hw⟩
  | some word =>
    cases word with
    | usual => exact .inl ⟨_, rfl, by simp [hw], by simp [hw], by simp [hw], by simp [hw]⟩
    | style s =>
      by_cases hagrees : agrees before.style s = true
      · refine .inl ⟨_, if_pos hagrees, by simp [hw], fun s' => ?_, by simp [hw], by simp [hw]⟩
        simpa [hw] using eq_iff_of_agrees hagrees s'
      · refine .inr ⟨if_neg hagrees, fun ws wish h => hagrees ?_⟩
        have hnamed : wish.style = some s := (h.style s).2 (.inr ⟨w, List.mem_cons_self, hw⟩)
        exact agrees_of_eq (fun s' hs' => (h.style s').2 (.inl hs')) hnamed
    | order o =>
      by_cases hagrees : agrees before.order o = true
      · refine .inl ⟨_, if_pos hagrees, by simp [hw], by simp [hw], fun o' => ?_, by simp [hw]⟩
        simpa [hw] using eq_iff_of_agrees hagrees o'
      · refine .inr ⟨if_neg hagrees, fun ws wish h => hagrees ?_⟩
        have hnamed : wish.order = some o := (h.order o).2 (.inr ⟨w, List.mem_cons_self, hw⟩)
        exact agrees_of_eq (fun o' ho' => (h.order o').2 (.inl ho')) hnamed

/-- Words add up to the wish that gathers them. -/
theorem foldlM_add?_eq_some_iff :
    ws.foldlM add? before = some wish ↔ Gathers before ws wish := by
  induction ws generalizing before with
  | nil =>
    constructor
    · intro h
      obtain rfl : before = wish := Option.some.inj h
      exact gathers_nil
    · intro h
      rw [h.unique gathers_nil]
      rfl
  | cons w ws ih =>
    rw [List.foldlM_cons]
    rcases add?_cases before w with ⟨mid, hadd, hmid⟩ | ⟨hadd, hnone⟩
    · rw [hadd, hmid.cons_iff]
      exact ih
    · rw [hadd]
      exact iff_of_false nofun (hnone ws wish)

theorem ofWords?_eq_some_iff : ofWords? ws = some wish ↔ Gathers {} ws wish :=
  foldlM_add?_eq_some_iff

/-- What words gather hangs on which words there are. -/
theorem Gathers.congr {ws' : List (List Char)} (h : ∀ w, w ∈ ws' ↔ w ∈ ws)
    (hgathers : Gathers before ws wish) : Gathers before ws' wish := by
  obtain ⟨hknown, hstyle, horder, husual⟩ := hgathers
  simp only [← h] at hknown hstyle horder husual
  exact ⟨hknown, hstyle, horder, husual⟩

/-- Neither the order of words nor their number counts. -/
theorem ofWords?_congr {ws' : List (List Char)} (h : ∀ w, w ∈ ws' ↔ w ∈ ws) :
    ofWords? ws' = ofWords? ws := by
  refine Option.ext fun wish => ?_
  rw [ofWords?_eq_some_iff, ofWords?_eq_some_iff]
  exact ⟨fun hall => hall.congr fun w => (h w).symm, fun hall => hall.congr h⟩

/-- A gathered wish is empty only if there are no words. -/
theorem Gathers.isEmpty_iff (h : Gathers {} ws wish) : wish.isEmpty = true ↔ ws = [] := by
  constructor
  · intro hempty
    simp only [isEmpty, Bool.and_eq_true, Bool.not_eq_true', Option.isNone_iff_eq_none] at hempty
    obtain ⟨⟨hstyle, horder⟩, husual⟩ := hempty
    refine List.eq_nil_iff_forall_not_mem.2 fun w hw => ?_
    cases hword : DateWord.ofWord? w with
    | none => exact h.known w hw hword
    | some word =>
      cases word with
      | usual => simp [h.usual.2 (.inr ⟨w, hw, hword⟩)] at husual
      | style s => simp [(h.style s).2 (.inr ⟨w, hw, hword⟩)] at hstyle
      | order o => simp [(h.order o).2 (.inr ⟨w, hw, hword⟩)] at horder
  · rintro rfl
    rw [h.unique gathers_nil]
    rfl

end DateWish

/-! ## The setting by its words -/

namespace DateWords

/-- That no two words of a list name different things. -/
def NamesOne {α : Type} (names : List Char → α → Prop) (ws : List (List Char)) : Prop :=
  ∀ v ∈ ws, ∀ w ∈ ws, ∀ a b, names v a → names w b → a = b

/-- That the words of a list are a setting: there is one, each is known, and no two name different
styles or different orders. -/
structure Coherent (ws : List (List Char)) : Prop where
  ne_nil : ws ≠ []
  known : ∀ w ∈ ws, AsksUsual w ∨ (∃ s, NamesStyle w s) ∨ ∃ o, NamesOrder w o
  style : NamesOne NamesStyle ws
  order : NamesOne NamesOrder ws

/-- That a choice is what the words of a list name, and a given one where none names any. -/
structure Chooses {α : Type} (names : List Char → α → Prop) (ws : List (List Char))
    (otherwise choice : α) : Prop where
  named : ∀ w ∈ ws, ∀ a, names w a → choice = a
  unnamed : (∀ w ∈ ws, ∀ a, ¬ names w a) → choice = otherwise

/-- What the words of a list set: the style that is named, else the usual one if that is asked for,
and the order that is named, else the usual one if that is asked for, else the one that goes with
the German style.  All else is kept. -/
structure SetsTo (settings : Settings) (ws : List (List Char)) (result : Settings) : Prop where
  style : Chooses NamesStyle ws
    (if ∃ w ∈ ws, AsksUsual w then .iso else settings.dateStyle) result.dateStyle
  order : Chooses NamesOrder ws
    (if ∃ w ∈ ws, AsksUsual w then .mdy
      else if ∃ w ∈ ws, NamesStyle w .german then .dmy else settings.dateOrder) result.dateOrder
  kept : result.spanStyle = settings.spanStyle ∧ result.zone = settings.zone

section Words

variable {α : Type} {names : List Char → α → Prop} {ws ws' : List (List Char)} {a b : α}

/-- Words name one thing if an option holds what they name. -/
theorem namesOne_iff :
    NamesOne names ws ↔ ∃ named : Option α, ∀ a, named = some a ↔ ∃ w ∈ ws, names w a := by
  constructor
  · intro h
    by_cases hnamed : ∃ a, ∃ w ∈ ws, names w a
    · obtain ⟨a, w, hw, ha⟩ := hnamed
      refine ⟨some a, fun b => ⟨?_, ?_⟩⟩
      · rintro ⟨rfl⟩
        exact ⟨w, hw, ha⟩
      · rintro ⟨v, hv, hb⟩
        rw [h w hw v hv a b ha hb]
    · exact ⟨none, fun a => iff_of_false nofun fun ha => hnamed ⟨a, ha⟩⟩
  · rintro ⟨named, h⟩ v hv w hw a b ha hb
    exact Option.some.inj (((h a).2 ⟨v, hv, ha⟩).symm.trans ((h b).2 ⟨w, hw, hb⟩))

theorem chooses_iff {named : Option α} (h : ∀ a, named = some a ↔ ∃ w ∈ ws, names w a) :
    Chooses names ws a b ↔ b = named.getD a := by
  cases named with
  | none =>
    have hnone : ∀ w ∈ ws, ∀ a, ¬ names w a := fun w hw a ha => nomatch (h a).2 ⟨w, hw, ha⟩
    exact ⟨fun hb => hb.unnamed hnone, fun hb => ⟨fun w hw a ha => absurd ha (hnone w hw a),
      fun _ => hb⟩⟩
  | some c =>
    obtain ⟨w, hw, hc⟩ := (h c).1 rfl
    refine ⟨fun hb => hb.named w hw c hc, ?_⟩
    rintro rfl
    exact ⟨fun v hv a ha => Option.some.inj ((h a).2 ⟨v, hv, ha⟩),
      fun hnone => absurd hc (hnone w hw _)⟩

/-- With the fallback it would have come to, a choice comes to the same again. -/
theorem Chooses.again (h : Chooses names ws a b) : Chooses names ws b b :=
  ⟨h.named, fun _ => rfl⟩

end Words

open DateWish (Gathers)

variable {ws : List (List Char)} {wish : DateWish} {settings result : Settings}

theorem exists_style_iff (h : Gathers {} ws wish) (s : DateStyle) :
    wish.style = some s ↔ ∃ w ∈ ws, NamesStyle w s := by
  simpa [DateWord.ofWord?_eq_style_iff] using h.style s

theorem exists_order_iff (h : Gathers {} ws wish) (o : DateOrder) :
    wish.order = some o ↔ ∃ w ∈ ws, NamesOrder w o := by
  simpa [DateWord.ofWord?_eq_order_iff] using h.order o

theorem exists_usual_iff (h : Gathers {} ws wish) :
    wish.usual = true ↔ ∃ w ∈ ws, AsksUsual w := by
  simpa [DateWord.ofWord?_eq_usual_iff] using h.usual

/-- A word is known by what it asks for. -/
theorem known_iff {w : List Char} :
    DateWord.ofWord? w ≠ none ↔
      AsksUsual w ∨ (∃ s, NamesStyle w s) ∨ ∃ o, NamesOrder w o := by
  simp only [← DateWord.ofWord?_eq_usual_iff, ← DateWord.ofWord?_eq_style_iff,
    ← DateWord.ofWord?_eq_order_iff]
  cases DateWord.ofWord? w with
  | none => simp
  | some word => cases word <;> simp

/-- The words of a list are a setting if there are any and a wish gathers them. -/
theorem coherent_iff : Coherent ws ↔ ws ≠ [] ∧ ∃ wish, Gathers {} ws wish := by
  constructor
  · intro h
    obtain ⟨style, hstyle⟩ := namesOne_iff.1 h.style
    obtain ⟨order, horder⟩ := namesOne_iff.1 h.order
    refine ⟨h.ne_nil, ⟨style, order, decide (∃ w ∈ ws, AsksUsual w)⟩, ?_, ?_, ?_, ?_⟩
    · exact fun w hw => known_iff.2 (h.known w hw)
    · simpa [DateWord.ofWord?_eq_style_iff] using hstyle
    · simpa [DateWord.ofWord?_eq_order_iff] using horder
    · simp [DateWord.ofWord?_eq_usual_iff]
  · rintro ⟨hne, wish, h⟩
    exact ⟨hne, fun w hw => known_iff.1 (h.known w hw),
      namesOne_iff.2 ⟨wish.style, exists_style_iff h⟩,
      namesOne_iff.2 ⟨wish.order, exists_order_iff h⟩⟩

/-- What words set is what the wish that gathers them comes to. -/
theorem setsTo_iff (h : Gathers {} ws wish) :
    SetsTo settings ws result ↔ { settings with
      dateStyle := wish.finalStyle.getD settings.dateStyle
      dateOrder := wish.finalOrder.getD settings.dateOrder } = result := by
  have hstyle : wish.finalStyle.getD settings.dateStyle =
      wish.style.getD (if ∃ w ∈ ws, AsksUsual w then .iso else settings.dateStyle) := by
    simp only [DateWish.finalStyle, ← exists_usual_iff h]
    cases wish.style <;> cases wish.usual <;> rfl
  have horder : wish.finalOrder.getD settings.dateOrder =
      wish.order.getD (if ∃ w ∈ ws, AsksUsual w then .mdy
        else if ∃ w ∈ ws, NamesStyle w .german then .dmy else settings.dateOrder) := by
    simp only [DateWish.finalOrder, ← exists_usual_iff h, ← exists_style_iff h]
    by_cases hgerman : wish.style = some .german
    · cases wish.order <;> cases wish.usual <;> simp [hgerman]
    · cases wish.order <;> cases wish.usual <;> simp [hgerman]
  rw [hstyle, horder]
  constructor
  · rintro ⟨hstyle, horder, hspan, hzone⟩
    rw [← (chooses_iff (exists_style_iff h)).1 hstyle,
      ← (chooses_iff (exists_order_iff h)).1 horder, ← hspan, ← hzone]
  · rintro rfl
    exact ⟨(chooses_iff (exists_style_iff h)).2 rfl, (chooses_iff (exists_order_iff h)).2 rfl,
      rfl, rfl⟩

/-- What words set, they set again to what it is. -/
theorem SetsTo.again (h : SetsTo settings ws result) : SetsTo result ws result := by
  obtain ⟨hstyle, horder, -⟩ := h
  refine ⟨?_, ?_, rfl, rfl⟩
  · split
    · next husual => rwa [if_pos husual] at hstyle
    · exact hstyle.again
  · split
    · next husual => rwa [if_pos husual] at horder
    · split
      · next husual hgerman => rwa [if_neg husual, if_pos hgerman] at horder
      · exact horder.again

end DateWords

namespace Settings

open DateWish (Gathers ofWords?_eq_some_iff)
open DateWords (Coherent SetsTo coherent_iff setsTo_iff)

variable {settings result : Settings} {value : String}

/-- Words that are a setting make one. -/
theorem applyDateWords_of_gathers {wish : DateWish} (hne : dateWords value ≠ [])
    (h : Gathers {} (dateWords value) wish) :
    settings.applyDateWords value = .ok { settings with
      dateStyle := wish.finalStyle.getD settings.dateStyle
      dateOrder := wish.finalOrder.getD settings.dateOrder } := by
  have hwords : DateWish.ofWords? (words separatesDateWords value.toList) = some wish :=
    ofWords?_eq_some_iff.2 h
  have hempty : ¬ wish.isEmpty = true := fun hempty => hne (h.isEmpty_iff.1 hempty)
  simp only [applyDateWords, hwords, if_neg hempty]

/-- Words that are none are refused. -/
theorem applyDateWords_of_not_coherent (h : ¬ Coherent (dateWords value)) :
    settings.applyDateWords value = .error (.badSetting .dateStyle value) := by
  unfold applyDateWords
  split
  · rfl
  · next wish hwords =>
    have hgathers : Gathers {} (dateWords value) wish := ofWords?_eq_some_iff.1 hwords
    refine if_pos (hgathers.isEmpty_iff.2 ?_)
    by_contra hne
    exact h (coherent_iff.2 ⟨hne, wish, hgathers⟩)

theorem applyDateWords_eq_ok_iff :
    settings.applyDateWords value = .ok result ↔
      Coherent (dateWords value) ∧ SetsTo settings (dateWords value) result := by
  by_cases h : Coherent (dateWords value)
  · obtain ⟨hne, wish, hgathers⟩ := coherent_iff.1 h
    rw [applyDateWords_of_gathers hne hgathers, setsTo_iff hgathers, Except.ok.injEq]
    exact (and_iff_right h).symm
  · rw [applyDateWords_of_not_coherent h]
    exact iff_of_false nofun fun hall => h hall.1

theorem toOption_applyDateWords_congr {value' : String}
    (h : ∀ w, w ∈ dateWords value' ↔ w ∈ dateWords value) :
    (settings.applyDateWords value').toOption = (settings.applyDateWords value).toOption := by
  have hwords : DateWish.ofWords? (words separatesDateWords value'.toList) =
      DateWish.ofWords? (words separatesDateWords value.toList) := DateWish.ofWords?_congr h
  unfold applyDateWords
  rw [hwords]
  split
  · rfl
  · split <;> rfl

/-- **A combined date setting hangs on the set of its words alone.**  It succeeds exactly if the
words are a setting, with what they set, and is refused otherwise.  So texts with the same words, in
any order and however often, come to the same; and a text that has succeeded changes nothing when it
is applied again. -/
theorem applyDateWords_by_words (settings : Settings) (value : String) :
    (∀ result, settings.applyDateWords value = .ok result ↔
      Coherent (dateWords value) ∧ SetsTo settings (dateWords value) result) ∧
    ((∃ result, settings.applyDateWords value = .ok result) ↔ Coherent (dateWords value)) ∧
    (settings.applyDateWords value = .error (.badSetting .dateStyle value) ↔
      ¬ Coherent (dateWords value)) ∧
    (∀ value', (∀ w, w ∈ dateWords value' ↔ w ∈ dateWords value) →
      (settings.applyDateWords value').toOption = (settings.applyDateWords value).toOption) ∧
    ∀ result, settings.applyDateWords value = .ok result →
      result.applyDateWords value = .ok result := by
  have hok : (∃ result, settings.applyDateWords value = .ok result) ↔
      Coherent (dateWords value) := by
    constructor
    · rintro ⟨result, hresult⟩
      exact (applyDateWords_eq_ok_iff.1 hresult).1
    · intro h
      obtain ⟨hne, wish, hgathers⟩ := coherent_iff.1 h
      exact ⟨_, applyDateWords_of_gathers hne hgathers⟩
  refine ⟨fun _ => applyDateWords_eq_ok_iff, hok, ⟨?_, applyDateWords_of_not_coherent⟩,
    fun _ => toOption_applyDateWords_congr, fun result hresult => ?_⟩
  · intro herror h
    obtain ⟨result, hresult⟩ := hok.2 h
    rw [herror] at hresult
    cases hresult
  · obtain ⟨hcoherent, hsets⟩ := applyDateWords_eq_ok_iff.1 hresult
    exact applyDateWords_eq_ok_iff.2 ⟨hcoherent, hsets.again⟩

/-- The usual order goes before the one of the German style, wherever the word for it stands. -/
example : (applyDateWords {} "German default").toOption =
    some { dateStyle := .german, dateOrder := .mdy } := by
  decide +kernel

end Settings

end Horology
