import Horology.Proofs.Numeral
import Horology.Zone.Offset

/-!
# Numeric offsets survive being written

An offset is written in groups of two digits, and of its groups only those that say something, or
those and the minutes; the reader admits these spellings among others.  What is written for an
offset below sixteen hours is therefore read as that offset.

## Main definitions

* `read?_write`, `read?_writeFull` — an offset below sixteen hours is read back from either text.
* `isDigit_or_colon_of_mem_body`, `body_eq_cons` — the shape of the text after its sign.
* `shape_of_read?`, `shape_of_read?_digits` — the shape of the texts that are read, and of those
  without colons.
-/

namespace Horology.Offset

open Numeral (IsRun isRun_padded read?_padded)

/-! ## Groups -/

/-- Hours alone, in at most two digits. -/
theorem groups?_hours {h : List Char} {n : Nat} (hh : IsRun h) (hlen : h.length ≤ 2)
    (hn : Numeral.read? h = some n) : groups? h = some (n, 0, 0) := by
  have hcolon : ':'.isDigit = false := rfl
  simp [groups?, hh.splitOn_one hcolon, hlen, hn]

/-- Hours and minutes between colons. -/
theorem groups?_minutes {h m : List Char} {n k : Nat} (hh : IsRun h) (hm : IsRun m)
    (hn : Numeral.read? h = some n) (hk : Numeral.read? m = some k) :
    groups? (h ++ ':' :: m) = some (n, k, 0) := by
  have hcolon : ':'.isDigit = false := rfl
  simp [groups?, hh.splitOn_two hm hcolon, hn, hk]

/-- Hours, minutes and seconds between colons. -/
theorem groups?_seconds {h m s : List Char} {n k l : Nat} (hh : IsRun h) (hm : IsRun m)
    (hs : IsRun s) (hn : Numeral.read? h = some n) (hk : Numeral.read? m = some k)
    (hl : Numeral.read? s = some l) : groups? (h ++ ':' :: m ++ ':' :: s) = some (n, k, l) := by
  rw [groups?, hh.splitOn_three hm hs rfl]
  simp [hn, hk, hl]

/-! ## The written form -/

/-- The digits and colons of an offset after its sign. -/
def body (seconds : Nat) : List Char :=
  if seconds % 60 ≠ 0 then
    Numeral.padded 2 (seconds / 3600) ++ ':' :: Numeral.padded 2 (seconds / 60 % 60)
      ++ ':' :: Numeral.padded 2 (seconds % 60)
  else if seconds / 60 % 60 ≠ 0 then
    Numeral.padded 2 (seconds / 3600) ++ ':' :: Numeral.padded 2 (seconds / 60 % 60)
  else Numeral.padded 2 (seconds / 3600)

theorem write_eq (east : Int) : write east = sign east :: body east.natAbs := rfl

/-- The groups that are written are the groups that are read. -/
theorem groups?_body {seconds : Nat} (h : seconds < 57600) :
    groups? (body seconds) = some (seconds / 3600, seconds / 60 % 60, seconds % 60) := by
  unfold body
  split
  · exact groups?_seconds (isRun_padded _ _) (isRun_padded _ _) (isRun_padded _ _)
      (read?_padded _ _) (read?_padded _ _) (read?_padded _ _)
  · next hsec =>
    have hsec : seconds % 60 = 0 := by omega
    split
    · rw [hsec]
      exact groups?_minutes (isRun_padded _ _) (isRun_padded _ _) (read?_padded _ _)
        (read?_padded _ _)
    · next hmin =>
      have hmin : seconds / 60 % 60 = 0 := by omega
      rw [hsec, hmin]
      refine groups?_hours (isRun_padded _ _) ?_ (read?_padded _ _)
      have hlen : (Numeral.padded 2 (seconds / 3600)).length = 2 :=
        Numeral.length_padded (by decide) (by omega)
      omega

/-- The size of an offset is made of its groups. -/
theorem size?_of_groups? {body : List Char} {seconds : Nat} (h : seconds < 57600)
    (hgroups : groups? body = some (seconds / 3600, seconds / 60 % 60, seconds % 60)) :
    size? body = some (seconds : Int) := by
  have hbound : seconds / 3600 ≤ 15 ∧ seconds / 60 % 60 ≤ 59 ∧ seconds % 60 ≤ 59 := by omega
  simp only [size?, hgroups, hbound, and_self, if_true, Option.some.injEq]
  omega

theorem size?_body {seconds : Nat} (h : seconds < 57600) :
    size? (body seconds) = some (seconds : Int) :=
  size?_of_groups? h (groups?_body h)

/-- Behind the sign of an offset stands its size. -/
theorem read?_sign_cons {east : Int} {body : List Char}
    (h : size? body = some (east.natAbs : Int)) : read? (sign east :: body) = some east := by
  by_cases hsign : 0 ≤ east
  · simp only [sign, if_pos hsign, read?, h, Option.some.injEq]
    omega
  · simp only [sign, if_neg hsign, read?, h, Option.map_some, Option.some.injEq]
    omega

/-- **An offset below sixteen hours is read back from its text.** -/
theorem read?_write {east : Int} (h : east.natAbs < 57600) : read? (write east) = some east := by
  rw [write_eq]
  exact read?_sign_cons (size?_body h)

/-- The digits and colons of an offset after its sign, minutes always among them. -/
def fullBody (seconds : Nat) : List Char :=
  if seconds % 60 ≠ 0 then
    Numeral.padded 2 (seconds / 3600) ++ ':' :: Numeral.padded 2 (seconds / 60 % 60)
      ++ ':' :: Numeral.padded 2 (seconds % 60)
  else Numeral.padded 2 (seconds / 3600) ++ ':' :: Numeral.padded 2 (seconds / 60 % 60)

theorem writeFull_eq (east : Int) : writeFull east = sign east :: fullBody east.natAbs := rfl

theorem groups?_fullBody (seconds : Nat) :
    groups? (fullBody seconds) = some (seconds / 3600, seconds / 60 % 60, seconds % 60) := by
  unfold fullBody
  split
  · exact groups?_seconds (isRun_padded _ _) (isRun_padded _ _) (isRun_padded _ _)
      (read?_padded _ _) (read?_padded _ _) (read?_padded _ _)
  · next hsec =>
    have hsec : seconds % 60 = 0 := by omega
    rw [hsec]
    exact groups?_minutes (isRun_padded _ _) (isRun_padded _ _) (read?_padded _ _)
      (read?_padded _ _)

/-- **The text with minutes is read back too.** -/
theorem read?_writeFull {east : Int} (h : east.natAbs < 57600) :
    read? (writeFull east) = some east := by
  rw [writeFull_eq]
  exact read?_sign_cons (size?_of_groups? h (groups?_fullBody _))

/-! ## The shape of the text -/

theorem sign_eq_or (east : Int) : sign east = '+' ∨ sign east = '-' := by
  unfold sign
  split
  · exact Or.inl rfl
  · exact Or.inr rfl

/-- After the sign come digits and colons. -/
theorem isDigit_or_colon_of_mem_body {seconds : Nat} {c : Char} (hc : c ∈ body seconds) :
    c.isDigit ∨ c = ':' := by
  have hdigit {n : Nat} (h : c ∈ Numeral.padded 2 n) : c.isDigit ∨ c = ':' :=
    .inl (Numeral.isDigit_of_mem_padded h)
  unfold body at hc
  split at hc
  · simp only [List.mem_append, List.mem_cons] at hc
    rcases hc with (hc | hc | hc) | hc | hc
    · exact hdigit hc
    · exact .inr hc
    · exact hdigit hc
    · exact .inr hc
    · exact hdigit hc
  · split at hc
    · simp only [List.mem_append, List.mem_cons] at hc
      rcases hc with hc | hc | hc
      · exact hdigit hc
      · exact .inr hc
      · exact hdigit hc
    · exact hdigit hc

/-- The first character after the sign is a digit. -/
theorem body_eq_cons (seconds : Nat) : ∃ d rest, body seconds = d :: rest ∧ d.isDigit := by
  obtain ⟨d, ds, hds⟩ := List.exists_cons_of_ne_nil (Numeral.padded_ne_nil 2 (seconds / 3600))
  have hd : d.isDigit := Numeral.isDigit_of_mem_padded (hds ▸ List.mem_cons_self)
  unfold body
  rw [hds]
  split
  · exact ⟨d, _, rfl, hd⟩
  · split
    · exact ⟨d, _, rfl, hd⟩
    · exact ⟨d, ds, rfl, hd⟩

/-- A text that is read has a sign and behind it a size. -/
theorem exists_size?_of_read? {cs : List Char} {east : Int} (h : read? cs = some east) :
    ∃ sign body e, cs = sign :: body ∧ (sign = '+' ∨ sign = '-') ∧ size? body = some e := by
  unfold read? at h
  split at h
  · exact ⟨'+', _, east, rfl, .inl rfl, h⟩
  · obtain ⟨e, he, -⟩ := Option.map_eq_some_iff.1 h
    exact ⟨'-', _, e, rfl, .inr rfl, he⟩
  · cases h

/-- An offset that is a sign and digits has up to four of them. -/
theorem shape_of_read?_digits {sign : Char} {digits : List Char} {east : Int}
    (hdigits : ∀ c ∈ digits, c.isDigit) (h : read? (sign :: digits) = some east) :
    (sign = '+' ∨ sign = '-') ∧ IsRun digits ∧ digits.length ≤ 4 := by
  obtain ⟨sign, digits, e, ⟨rfl, rfl⟩, hsign, he⟩ := exists_size?_of_read? h
  have hne : digits ≠ [] := by
    rintro rfl
    cases he
  have hrun : IsRun digits := ⟨hne, hdigits⟩
  refine ⟨hsign, hrun, Nat.le_of_not_lt ?_⟩
  intro hlength
  have hgroups : groups? digits = none := by
    rw [groups?, hrun.splitOn_one (show ':'.isDigit = false from rfl)]
    simp only [if_neg (show ¬ digits.length ≤ 2 by omega),
      if_neg (show ¬ digits.length ≤ 4 by omega)]
  rw [size?, hgroups] at he
  cases he

/-- That a text is digits and colons, a digit first. -/
structure IsColonRun (cs : List Char) : Prop where
  first : ∃ d rest, cs = d :: rest ∧ d.isDigit
  inside : ∀ c ∈ cs, c.isDigit ∨ c = ':'

theorem isColonRun_of_isRun {cs : List Char} (h : IsRun cs) : IsColonRun cs := by
  obtain ⟨d, rest, rfl⟩ := List.exists_cons_of_ne_nil h.ne_nil
  exact ⟨⟨d, rest, rfl, h.isDigit d List.mem_cons_self⟩, fun c hc => .inl (h.isDigit c hc)⟩

/-- Runs of digits may be joined by colons. -/
theorem IsColonRun.append {cs ds : List Char} (hcs : IsColonRun cs) (hds : IsColonRun ds) :
    IsColonRun (cs ++ ':' :: ds) := by
  obtain ⟨d, rest, rfl, hd⟩ := hcs.first
  refine ⟨⟨d, rest ++ ':' :: ds, rfl, hd⟩, ?_⟩
  intro c hc
  rcases List.mem_append.1 hc with hc | hc
  · exact hcs.inside c hc
  · rcases List.mem_cons.1 hc with rfl | hc
    · exact .inr rfl
    · exact hds.inside c hc

/-- What is read as hours, minutes and seconds is digits and colons. -/
theorem isColonRun_of_groups? {body : List Char} {g : Nat × Nat × Nat}
    (h : groups? body = some g) : IsColonRun body := by
  have hjoin : [':'].intercalate (body.splitOn ':') = body := List.intercalate_splitOn ':'
  have hrun {cs : List Char} {n : Nat} (hread : Numeral.read? cs = some n) : IsColonRun cs :=
    isColonRun_of_isRun (Numeral.isRun_of_read? hread)
  unfold groups? at h
  split at h
  · next ds hsplit =>
    obtain rfl : ds = body := by simpa [hsplit] using hjoin
    split at h
    · obtain ⟨n, hn, -⟩ := Option.bind_eq_some_iff.1 h
      exact hrun hn
    · split at h
      · obtain ⟨hours, hh, h⟩ := Option.bind_eq_some_iff.1 h
        obtain ⟨minutes, hm, -⟩ := Option.bind_eq_some_iff.1 h
        have hfront := Numeral.isRun_of_read? hh
        have hback := Numeral.isRun_of_read? hm
        rw [← List.take_append_drop (ds.length - 2) ds]
        exact isColonRun_of_isRun (hfront.append hback)
      · cases h
  · next hours minutes hsplit =>
    obtain rfl : hours ++ ':' :: minutes = body := by simpa [hsplit] using hjoin
    obtain ⟨h', hh, h⟩ := Option.bind_eq_some_iff.1 h
    obtain ⟨m', hm, -⟩ := Option.bind_eq_some_iff.1 h
    exact (hrun hh).append (hrun hm)
  · next hours minutes seconds hsplit =>
    obtain rfl : hours ++ ':' :: (minutes ++ ':' :: seconds) = body := by
      simpa [hsplit] using hjoin
    obtain ⟨h', hh, h⟩ := Option.bind_eq_some_iff.1 h
    obtain ⟨m', hm, h⟩ := Option.bind_eq_some_iff.1 h
    obtain ⟨s', hs, -⟩ := Option.bind_eq_some_iff.1 h
    exact (hrun hh).append ((hrun hm).append (hrun hs))
  · cases h

/-- **The texts that are read as offsets are a sign, a digit, and digits and colons.** -/
theorem shape_of_read? {cs : List Char} {east : Int} (h : read? cs = some east) :
    ∃ sign d body, cs = sign :: d :: body ∧ (sign = '+' ∨ sign = '-') ∧ d.isDigit ∧
      ∀ c ∈ d :: body, c.isDigit ∨ c = ':' := by
  obtain ⟨sign, body, e, rfl, hsign, he⟩ := exists_size?_of_read? h
  have hbody : IsColonRun body := by
    unfold size? at he
    split at he
    · next hgroups => exact isColonRun_of_groups? hgroups
    · cases he
  obtain ⟨d, rest, rfl, hd⟩ := hbody.first
  exact ⟨sign, d, rest, rfl, hsign, hd, hbody.inside⟩

end Horology.Offset
