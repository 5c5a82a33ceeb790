/-!
# Zone rules

A time zone is given by what its clocks observed from when on: a first regime without a start, and
changes to other regimes, each at a UTC second.  Asked about a UTC second, a zone has exactly one
regime; asked which regimes make the clocks on its walls show a given reading, it has none inside a
skipped stretch, two inside a repeated one, and one otherwise.

## Main definitions

* `Regime` — an offset from UTC and the abbreviation that goes with it.
* `ZoneRules` — the first regime and the changes.
* `ZoneRules.regimeAt` — the regime in force at a UTC second.
* `ZoneRules.regimesShowing` — the regimes under which a wall reading is shown, earliest first.
* `ZoneRules.constant`, `ZoneRules.utc` — the zones that never change, and UTC among them.
-/

namespace Horology

/-- What the clocks of a zone observe for a while: an offset in seconds east of UTC, and the
abbreviation it is called by. -/
structure Regime where
  offset : Int
  abbreviation : String
  deriving DecidableEq, Repr

/-- The regimes of a zone.  A change is a UTC second and the regime in force from then on; changes
are listed in ascending order. -/
structure ZoneRules where
  first : Regime
  changes : List (Int × Regime)
  deriving DecidableEq, Repr

namespace ZoneRules

/-- The regime that changes lead to, from `current`, by the UTC second `u`. -/
def follow (u : Int) (current : Regime) : List (Int × Regime) → Regime
  | [] => current
  | (start, next) :: changes => if u < start then current else follow u next changes

/-- The regime in force at a UTC second. -/
def regimeAt (z : ZoneRules) (u : Int) : Regime := follow u z.first z.changes

/-- Whether `start`, if there is one, has passed at the UTC second `u`. -/
def hasBegun (start : Option Int) (u : Int) : Bool :=
  match start with
  | none => true
  | some s => s ≤ u

/-- The regimes showing the wall reading `w`, from the span of `current`, begun at `start`, on. -/
def showing (w : Int) (start : Option Int) (current : Regime) :
    List (Int × Regime) → List Regime
  | [] => if hasBegun start (w - current.offset) then [current] else []
  | (finish, next) :: changes =>
    (if hasBegun start (w - current.offset) && w - current.offset < finish then [current] else [])
      ++ showing w (some finish) next changes

/-- The regimes under which the clocks of the zone show the wall reading `w`, earliest first. -/
def regimesShowing (z : ZoneRules) (w : Int) : List Regime := showing w none z.first z.changes

/-- The offset, in seconds east of UTC, that a wall reading is taken to have.

Of two regimes showing it the later counts.  A reading inside a skipped stretch has none; it gets
the offset in force a day before, its own numbers being read as a UTC second. -/
def offsetShowing (z : ZoneRules) (w : Int) : Int :=
  match (z.regimesShowing w).getLast? with
  | some r => r.offset
  | none => (z.regimeAt (w - 86400)).offset

/-- The zone that never changes. -/
def constant (r : Regime) : ZoneRules := ⟨r, []⟩

/-- The zone of UTC. -/
def utc : ZoneRules := constant ⟨0, "UTC"⟩

@[simp] theorem regimeAt_constant (r : Regime) (u : Int) : (constant r).regimeAt u = r := rfl

end ZoneRules

end Horology
