import Horology.Text.Numeral

/-!
# Numeric offsets

An offset from UTC is a number of seconds, positive to the east.  Its text is a sign with hours,
minutes and seconds; readers admit up to 15:59:59 either way.

## Main definitions

* `Offset.read?` — the offset that a text denotes, in any of the admitted spellings.
* `Offset.write` — the shortest text in two-digit groups: minutes and seconds only where needed.
* `Offset.writeFull` — the text that always has minutes.
-/

namespace Horology.Offset

/-- Hours, minutes and seconds of an offset text after its sign: groups between colons, or up to
four digits of which the last two are minutes once there are three. -/
def groups? (body : List Char) : Option (Nat × Nat × Nat) :=
  match body.splitOn ':' with
  | [ds] =>
    if ds.length ≤ 2 then do return (← Numeral.read? ds, 0, 0)
    else if ds.length ≤ 4 then do
      return (← Numeral.read? (ds.take (ds.length - 2)),
        ← Numeral.read? (ds.drop (ds.length - 2)), 0)
    else none
  | [h, m] => do return (← Numeral.read? h, ← Numeral.read? m, 0)
  | [h, m, s] => do return (← Numeral.read? h, ← Numeral.read? m, ← Numeral.read? s)
  | _ => none

/-- The size of an offset, from its text after the sign. -/
def size? (body : List Char) : Option Int :=
  match groups? body with
  | some (h, m, s) =>
    if h ≤ 15 ∧ m ≤ 59 ∧ s ≤ 59 then some (h * 3600 + m * 60 + s) else none
  | none => none

/-- The offset a signed text denotes, in seconds east of UTC. -/
def read? : List Char → Option Int
  | '+' :: body => size? body
  | '-' :: body => (size? body).map fun e => -e
  | _ => none

/-- The sign of an offset; UTC itself is written to the east. -/
def sign (east : Int) : Char := if 0 ≤ east then '+' else '-'

/-- An offset in two-digit groups, without seconds where they are zero, and without minutes where
both are. -/
def write (east : Int) : List Char :=
  let seconds := east.natAbs
  let hour := Numeral.padded 2 (seconds / 3600)
  let minute := ':' :: Numeral.padded 2 (seconds / 60 % 60)
  let second := ':' :: Numeral.padded 2 (seconds % 60)
  sign east ::
    (if seconds % 60 ≠ 0 then hour ++ minute ++ second
      else if seconds / 60 % 60 ≠ 0 then hour ++ minute
      else hour)

/-- An offset in two-digit groups, hours and minutes always, seconds where they are not zero. -/
def writeFull (east : Int) : List Char :=
  let seconds := east.natAbs
  let minutes := Numeral.padded 2 (seconds / 3600) ++ ':' :: Numeral.padded 2 (seconds / 60 % 60)
  sign east ::
    (if seconds % 60 ≠ 0 then minutes ++ ':' :: Numeral.padded 2 (seconds % 60) else minutes)

/-- No offset that is read reaches sixteen hours. -/
theorem natAbs_lt_of_read? {cs : List Char} {east : Int} (h : read? cs = some east) :
    east.natAbs < 57600 := by
  have bound {body : List Char} {e : Int} (he : size? body = some e) : 0 ≤ e ∧ e < 57600 := by
    unfold size? at he
    split at he
    · split at he
      · obtain rfl := Option.some.inj he
        omega
      · exact absurd he (by simp)
    · exact absurd he (by simp)
  unfold read? at h
  split at h
  · have := bound h
    omega
  · obtain ⟨e, he, rfl⟩ := Option.map_eq_some_iff.1 h
    have := bound he
    omega
  · exact absurd h (by simp)

end Horology.Offset
