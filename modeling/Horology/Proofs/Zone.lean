import Horology.Proofs.Text
import Horology.Zone.TimeZone

/-!
# Offsets of zones

Texts carry offsets below sixteen hours either way, and so do zones that stay below that at all
times.  A setting names UTC, an offset that its text is read as, or a zone that has rules.

## Main definitions

* `ZoneRules.regimeAt_mem` — the regime of a second is one of the zone's.
* `TimeZone.IsNear` — that a zone stays below sixteen hours.
* `TimeZone.readIn_eq_ok_iff`, `TimeZone.ofText?_cases` — the zones that settings name.
-/

namespace Horology

namespace ZoneRules

/-- Every regime of a zone. -/
def regimes (z : ZoneRules) : List Regime := z.first :: z.changes.map Prod.snd

theorem follow_mem (u : Int) (current : Regime) (changes : List (Int × Regime)) :
    follow u current changes ∈ current :: changes.map Prod.snd := by
  induction changes generalizing current with
  | nil => simp [follow]
  | cons change changes ih =>
    rw [follow]
    split
    · exact List.mem_cons_self
    · exact List.mem_cons_of_mem _ (ih change.2)

/-- The regime in force at a second is one of the zone's. -/
theorem regimeAt_mem (z : ZoneRules) (u : Int) : z.regimeAt u ∈ z.regimes :=
  follow_mem u z.first z.changes

end ZoneRules

namespace TimeZone

/-- A zone whose offset is below sixteen hours at any second. -/
def IsNear (zone : TimeZone) : Prop := ∀ u, (zone.eastAt u).natAbs < 57600

theorem isNear_fixed {east : Int} : (fixed east).IsNear ↔ east.natAbs < 57600 :=
  ⟨fun h => h 0, fun h _ => h⟩

theorem isNear_utc : utc.IsNear := by
  intro u
  show (0 : Int).natAbs < 57600
  decide

/-! ## Zones of settings -/

section Setting

variable {rulesOf? : String → Option ZoneRules} {value : String} {zone : TimeZone}

theorem readIn_eq_ok_iff :
    readIn rulesOf? value = .ok zone ↔ ofText? rulesOf? (trim value.toList) = some zone := by
  unfold readIn
  split
  · next heq => rw [heq, Except.ok.injEq, Option.some.injEq]
  · next heq => exact iff_of_false nofun (by simp [heq])

/-- A zone that a text names is UTC, an offset that the text is read as, or has the text as its
name, with the rules of that name. -/
theorem ofText?_cases {cs : List Char} (h : ofText? rulesOf? cs = some zone) :
    zone = utc ∨ (∃ east, Offset.read? cs = some east ∧ zone = .fixed east) ∨
      ∃ rules, rulesOf? (String.ofList cs) = some rules ∧
        zone = .named (String.ofList cs) rules := by
  unfold ofText? at h
  split at h
  · exact .inl (Option.some.inj h).symm
  · split at h
    · obtain ⟨east, heast, rfl⟩ := Option.map_eq_some_iff.1 h
      exact .inr (.inl ⟨east, heast, rfl⟩)
    · obtain ⟨rules, hrules, rfl⟩ := Option.map_eq_some_iff.1 h
      exact .inr (.inr ⟨rules, hrules, rfl⟩)

end Setting

end TimeZone

end Horology
