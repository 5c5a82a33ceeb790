import Horology.Text.Character
import Mathlib.Data.List.DropRight

/-!
# Cutting texts

Readers take the longest front of a text that stays within a class of characters.  A written text
is therefore taken apart again where each piece stays within its class and what follows the piece
does not begin with a character of that class.

## Main definitions

* `Stops p cs` — that a text does not begin with a character of the class `p`.
* `takeWhile_of_stops`, `dropWhile_of_stops` — the cut behind a piece of the class.
* `Joined pieces text` — that a text consists of pieces with blanks between them.
* `words_append_cons` — a separator cuts the words of a text in two.
* `cut_induction` — induction on a text from one cut to the next.
* `takeWhile_flatMap`, `trimWhere_flatMap` — cuts of a text whose characters have been replaced.
-/

namespace Horology

/-! ## Classes of characters -/

/-- A character of a class differs from one outside it. -/
theorem ne_of_class {p : Char → Bool} {c d : Char} (hc : p c = true) (hd : p d = false) :
    c ≠ d := by
  rintro rfl
  exact Bool.false_ne_true (hd.symm.trans hc)

/-- The digits by their code points. -/
theorem isDigit_iff {c : Char} : c.isDigit = true ↔ 48 ≤ c.toNat ∧ c.toNat ≤ 57 := by
  have hrange : c.isDigit = (decide (48 ≤ c.val) && decide (c.val ≤ 57)) := rfl
  rw [hrange, Bool.and_eq_true, decide_eq_true_eq, decide_eq_true_eq, UInt32.le_iff_toNat_le,
    UInt32.le_iff_toNat_le]
  rfl

/-- The letters by their code points. -/
theorem isAlpha_iff {c : Char} : c.isAlpha = true ↔
    (65 ≤ c.toNat ∧ c.toNat ≤ 90) ∨ 97 ≤ c.toNat ∧ c.toNat ≤ 122 := by
  have hranges : c.isAlpha = (decide (65 ≤ c.val ∧ c.val ≤ 90) ||
    (decide (97 ≤ c.val) && decide (c.val ≤ 122))) := rfl
  rw [hranges, Bool.or_eq_true, Bool.and_eq_true, decide_eq_true_eq, decide_eq_true_eq,
    decide_eq_true_eq, UInt32.le_iff_toNat_le, UInt32.le_iff_toNat_le, UInt32.le_iff_toNat_le,
    UInt32.le_iff_toNat_le]
  rfl

/-- A letter is no digit. -/
theorem isDigit_eq_false_of_isAlpha {c : Char} (h : c.isAlpha) : c.isDigit = false := by
  refine Bool.eq_false_iff.2 fun hdigit => ?_
  have hletter := isAlpha_iff.1 h
  have hdigit := isDigit_iff.1 hdigit
  omega

/-- A digit is no letter. -/
theorem isAlpha_eq_false_of_isDigit {c : Char} (h : c.isDigit) : c.isAlpha = false := by
  by_cases halpha : c.isAlpha
  · rw [isDigit_eq_false_of_isAlpha halpha] at h
    cases h
  · exact Bool.eq_false_iff.2 halpha

/-- A digit is no blank. -/
theorem isBlank_eq_false_of_isDigit {c : Char} (h : c.isDigit) : isBlank c = false := by
  have hne (d : Char) (hd : d.isDigit = false) : c ≠ d := ne_of_class h hd
  simp [isBlank, hne]

/-- A letter is no blank. -/
theorem isBlank_eq_false_of_isAlpha {c : Char} (h : c.isAlpha) : isBlank c = false := by
  have hne (d : Char) (hd : d.isAlpha = false) : c ≠ d := ne_of_class h hd
  simp [isBlank, hne]

/-- Lower case changes letters only, and into letters. -/
theorem toLower_eq_self_or (c : Char) :
    c.toLower = c ∨ c.isAlpha = true ∧ c.toLower.isAlpha = true := by
  unfold Char.toLower
  split
  · next hupper =>
    have hrange : 65 ≤ c.toNat ∧ c.toNat ≤ 90 := hupper
    have hsmall : c.toNat + 32 < 2 ^ 32 := by omega
    have hshift : (c.val + 32).toNat = c.toNat + 32 :=
      (UInt32.toNat_add c.val 32).trans (Nat.mod_eq_of_lt hsmall)
    refine .inr ⟨isAlpha_iff.2 (.inl hrange), isAlpha_iff.2 (.inr ?_)⟩
    change 97 ≤ (c.val + 32).toNat ∧ (c.val + 32).toNat ≤ 122
    omega
  · exact .inl rfl

/-- A text that is of letters in lower case is of letters. -/
theorem isAlpha_of_lower {cs : List Char} (h : ∀ c ∈ lower cs, c.isAlpha) :
    ∀ c ∈ cs, c.isAlpha := by
  intro c hc
  rcases toLower_eq_self_or c with hsame | ⟨halpha, -⟩
  · rw [← hsame]
    exact h _ (List.mem_map_of_mem hc)
  · exact halpha

/-- A visible ASCII character is no white space. -/
theorem isSpace_eq_false_of_range {c : Char} (h0 : 32 < c.toNat) (h1 : c.toNat < 127) :
    isSpace c = false := by
  refine Bool.eq_false_iff.2 fun h => ?_
  simp [isSpace, spaceRanges] at h
  omega

theorem isSpace_eq_false_of_isAlpha {c : Char} (h : c.isAlpha) : isSpace c = false := by
  have hletter := isAlpha_iff.1 h
  exact isSpace_eq_false_of_range (by omega) (by omega)

theorem isSpace_eq_false_of_isDigit {c : Char} (h : c.isDigit) : isSpace c = false := by
  have hdigit := isDigit_iff.1 h
  exact isSpace_eq_false_of_range (by omega) (by omega)

/-! ## Tables -/

/-- What a table has for a key stands in the table. -/
theorem mem_of_lookup {α β : Type} [BEq α] [LawfulBEq α] {a : α} {b : β} {l : List (α × β)}
    (h : l.lookup a = some b) : (a, b) ∈ l := by
  obtain ⟨l₁, l₂, rfl, -⟩ := List.lookup_eq_some_iff.1 h
  simp

/-! ## Pieces -/

/-- That a text does not begin with a character of a class. -/
def Stops (p : Char → Bool) (cs : List Char) : Prop := ∀ c ∈ cs.head?, p c = false

@[simp] theorem stops_nil (p : Char → Bool) : Stops p [] := by simp [Stops]

@[simp] theorem stops_cons {p : Char → Bool} {c : Char} {cs : List Char} :
    Stops p (c :: cs) ↔ p c = false := by simp [Stops]

/-- The longest front within a class is a piece of the class before a text that stops it. -/
theorem takeWhile_of_stops {p : Char → Bool} {piece rest : List Char} (hp : ∀ c ∈ piece, p c)
    (hrest : Stops p rest) : (piece ++ rest).takeWhile p = piece := by
  rw [List.takeWhile_append_of_pos hp]
  cases rest with
  | nil => simp
  | cons c rest => simp [stops_cons.1 hrest]

/-- Behind the longest front within a class stands the text that stops it. -/
theorem dropWhile_of_stops {p : Char → Bool} {piece rest : List Char} (hp : ∀ c ∈ piece, p c)
    (hrest : Stops p rest) : (piece ++ rest).dropWhile p = rest := by
  rw [List.dropWhile_append_of_pos hp]
  cases rest with
  | nil => simp
  | cons c rest => simp [stops_cons.1 hrest]

/-- The longest front within a class does not reach beyond a character outside it. -/
theorem takeWhile_append_cons {p : Char → Bool} {c : Char} (hc : p c = false)
    (cs rest : List Char) : (cs ++ c :: rest).takeWhile p = cs.takeWhile p := by
  induction cs with
  | nil => simp [hc]
  | cons d cs ih => by_cases hd : p d <;> simp [hd, ih]

theorem dropWhile_append_cons {p : Char → Bool} {c : Char} (hc : p c = false)
    (cs rest : List Char) : (cs ++ c :: rest).dropWhile p = cs.dropWhile p ++ c :: rest := by
  induction cs with
  | nil => simp [hc]
  | cons d cs ih => by_cases hd : p d <;> simp [hd, ih]

/-- To show something of every text, show it of one without separators, and of one that is cut at
its first separator if it holds behind the cut. -/
theorem cut_induction {p : Char → Bool} {motive : List Char → Prop}
    (piece : ∀ cs, (∀ c ∈ cs, p c = false) → motive cs)
    (cut : ∀ cs c rest, (∀ d ∈ cs, p d = false) → p c = true → motive rest →
      motive (cs ++ c :: rest)) (cs : List Char) : motive cs := by
  induction hn : cs.length using Nat.strongRecOn generalizing cs with | ind n ih => ?_
  have hcut := List.takeWhile_append_dropWhile (p := fun c => !p c) (l := cs)
  have hfront : ∀ c ∈ cs.takeWhile fun c => !p c, p c = false := by
    intro c hc
    simpa using List.mem_takeWhile_imp hc
  cases hrest : cs.dropWhile fun c => !p c with
  | nil =>
    rw [hrest, List.append_nil] at hcut
    rw [hcut] at hfront
    exact piece cs hfront
  | cons c rest =>
    have hc : p c = true := by
      have hhead := List.head?_dropWhile_not (fun c => !p c) cs
      simpa [hrest] using hhead
    rw [hrest] at hcut
    have hlength := congrArg List.length hcut
    rw [List.length_append, List.length_cons] at hlength
    rw [← hcut]
    exact cut _ c rest hfront hc (ih rest.length (by omega) rest rfl)

/-! ## Replaced characters -/

/-- That characters are replaced by texts of their own class, none of them empty. -/
def KeepsClass (p : Char → Bool) (f : Char → List Char) : Prop :=
  ∀ c, f c ≠ [] ∧ ∀ d ∈ f c, p d = p c

section Replaced

variable {p : Char → Bool} {f : Char → List Char}

theorem takeWhile_flatMap (hf : KeepsClass p f) (cs : List Char) :
    (cs.flatMap f).takeWhile p = (cs.takeWhile p).flatMap f := by
  induction cs with
  | nil => rfl
  | cons c cs ih =>
    obtain ⟨hne, hclass⟩ := hf c
    rw [List.flatMap_cons, List.takeWhile_cons]
    cases hc : p c with
    | true =>
      rw [List.takeWhile_append_of_pos (by simpa [hc] using hclass), ih]
      rfl
    | false =>
      cases hfc : f c with
      | nil => exact absurd hfc hne
      | cons d ds => simp [hclass d (by simp [hfc]), hc]

theorem dropWhile_flatMap (hf : KeepsClass p f) (cs : List Char) :
    (cs.flatMap f).dropWhile p = (cs.dropWhile p).flatMap f := by
  induction cs with
  | nil => rfl
  | cons c cs ih =>
    obtain ⟨hne, hclass⟩ := hf c
    rw [List.flatMap_cons, List.dropWhile_cons]
    cases hc : p c with
    | true =>
      rw [List.dropWhile_append_of_pos (by simpa [hc] using hclass), ih]
      rfl
    | false =>
      cases hfc : f c with
      | nil => exact absurd hfc hne
      | cons d ds => simp [hclass d (by simp [hfc]), hc, hfc]

/-- Trimming and replacing can change places. -/
theorem trimWhere_flatMap (hf : KeepsClass p f) (cs : List Char) :
    trimWhere p (cs.flatMap f) = (trimWhere p cs).flatMap f := by
  have hreverse : KeepsClass p (List.reverse ∘ f) := by
    intro c
    obtain ⟨hne, hclass⟩ := hf c
    exact ⟨by simpa using hne, by simpa using hclass⟩
  rw [trimWhere, dropWhile_flatMap hf, List.reverse_flatMap, dropWhile_flatMap hreverse,
    List.reverse_flatMap, trimWhere]
  congr 1
  funext c
  simp

end Replaced

/-! ## Words -/

/-- That a text consists of pieces with blanks between each two of them. -/
inductive Joined : List (List Char) → List Char → Prop
  | single (piece : List Char) : Joined [piece] piece
  | cons (piece : List Char) {gap text : List Char} {pieces : List (List Char)} (hne : gap ≠ [])
    (hgap : ∀ c ∈ gap, isBlank c) (htext : Joined pieces text) :
    Joined (piece :: pieces) (piece ++ gap ++ text)

/-- A non-empty text without separators. -/
structure IsPiece (separates : Char → Bool) (cs : List Char) : Prop where
  ne_nil : cs ≠ []
  inside : ∀ c ∈ cs, separates c = false

instance (separates : Char → Bool) (cs : List Char) : Decidable (IsPiece separates cs) :=
  decidable_of_iff (cs ≠ [] ∧ cs.all (fun c => !separates c) = true)
    ⟨fun h => ⟨h.1, by simpa using h.2⟩, fun h => ⟨h.ne_nil, by simpa using h.inside⟩⟩

/-- A piece alone is one word. -/
theorem words_piece {separates : Char → Bool} {w : List Char} (hw : IsPiece separates w) :
    words separates w = [w] := by
  rw [words, List.splitOnP_eq_singleton hw.inside]
  simp [hw.ne_nil]

/-- The words before a separator and those behind it are the words of a text. -/
theorem words_append_cons {separates : Char → Bool} {c : Char} (hc : separates c)
    (cs rest : List Char) :
    words separates (cs ++ c :: rest) = words separates cs ++ words separates rest := by
  rw [words, List.splitOnP_append_cons _ _ hc, List.filter_append]
  rfl

/-- The words of a text are pieces of it. -/
theorem isPiece_of_mem_words {separates : Char → Bool} {w cs : List Char}
    (hw : w ∈ words separates cs) : IsPiece separates w ∧ w.Sublist cs := by
  have hwhole {cs : List Char} (hcs : ∀ c ∈ cs, separates c = false)
      (hw : w ∈ words separates cs) : IsPiece separates w ∧ w = cs := by
    by_cases hne : cs = []
    · subst hne
      cases hw
    · rw [words_piece ⟨hne, hcs⟩, List.mem_singleton] at hw
      subst hw
      exact ⟨⟨hne, hcs⟩, rfl⟩
  induction cs using cut_induction (p := separates) with
  | piece cs hcs =>
    obtain ⟨hpiece, rfl⟩ := hwhole hcs hw
    exact ⟨hpiece, List.Sublist.refl _⟩
  | cut cs c rest hcs hc ih =>
    rw [words_append_cons hc, List.mem_append] at hw
    obtain hw | hw := hw
    · obtain ⟨hpiece, rfl⟩ := hwhole hcs hw
      exact ⟨hpiece, List.sublist_append_left _ _⟩
    · obtain ⟨hpiece, hsub⟩ := ih hw
      exact ⟨hpiece, (hsub.cons c).trans (List.sublist_append_right _ _)⟩

/-- A text is what trimming leaves of it, with characters of the class around. -/
theorem exists_append_trimWhere (p : Char → Bool) (cs : List Char) :
    ∃ lead trail, (∀ c ∈ lead, p c) ∧ (∀ c ∈ trail, p c) ∧
      cs = lead ++ trimWhere p cs ++ trail := by
  have hfront := List.takeWhile_append_dropWhile (p := p) (l := cs)
  have hback := List.takeWhile_append_dropWhile (p := p) (l := (cs.dropWhile p).reverse)
  have hreverse := congrArg List.reverse hback
  rw [List.reverse_append, List.reverse_reverse] at hreverse
  refine ⟨cs.takeWhile p, ((cs.dropWhile p).reverse.takeWhile p).reverse,
    fun _ => List.mem_takeWhile_imp, ?_, ?_⟩
  · intro c hc
    exact List.mem_takeWhile_imp (List.mem_reverse.1 hc)
  · rw [trimWhere, List.append_assoc, hreverse, hfront]

theorem trimWhere_sublist (p : Char → Bool) (cs : List Char) : (trimWhere p cs).Sublist cs := by
  have hback := (List.dropWhile_sublist (l := (cs.dropWhile p).reverse) p).reverse
  rw [List.reverse_reverse] at hback
  exact hback.trans (List.dropWhile_sublist p)

/-- A text that has no character to trim is left as it is. -/
theorem trimWhere_of_forall {p : Char → Bool} {cs : List Char} (h : ∀ c ∈ cs, p c = false) :
    trimWhere p cs = cs := by
  have hstay {ds : List Char} (hds : ∀ c ∈ ds, p c = false) : ds.dropWhile p = ds := by
    cases ds with
    | nil => rfl
    | cons d ds => exact List.dropWhile_cons_of_neg (by simp [hds d List.mem_cons_self])
  have hreverse : ∀ c ∈ cs.reverse, p c = false := fun c hc => h c (List.mem_reverse.1 hc)
  rw [trimWhere, hstay h, hstay hreverse, List.reverse_reverse]

/-- Trimming leaves nothing to trim. -/
theorem trimWhere_trimWhere (p : Char → Bool) (cs : List Char) :
    trimWhere p (trimWhere p cs) = trimWhere p cs := by
  have hdropped := List.dropWhile_eq_self_iff.1 (List.dropWhile_idempotent p cs)
  have hfront : (trimWhere p cs).dropWhile p = trimWhere p cs := by
    have hbegins : trimWhere p cs <+: cs.dropWhile p := List.rdropWhile_prefix p _
    refine List.dropWhile_eq_self_iff.2 fun hlength => ?_
    rw [hbegins.getElem hlength]
    exact hdropped _
  rw [trimWhere, hfront, trimWhere, List.reverse_reverse, List.dropWhile_idempotent]

theorem trim_trim (cs : List Char) : trim (trim cs) = trim cs := trimWhere_trimWhere isSpace cs

end Horology
