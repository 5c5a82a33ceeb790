import Horology.Proofs.Zone
import Mathlib.Data.Int.LeastGreatest
import Mathlib.Data.List.Pairwise
import Mathlib.Order.Bounds.Basic

/-!
# The seconds at which a zone shows a wall reading

The rules of a zone answer two questions.  `regimeAt` says what the clocks show at a second;
`regimesShowing` goes the other way, from a wall reading to the regimes that show it.  Here the
second is shown to be the inverse of the first: it lists exactly the seconds showing the reading,
earliest first.  The offset that a reading is taken to have is then that of the last of these
seconds.  Where there is none, clocks were set forward past the reading; the rule that looks a day
back finds the offset from before that, provided that changes are at least two days apart.

## Main definitions

* `ZoneRules.IsSorted`, `ZoneRules.IsSpaced` — changes in ascending order, and two days apart.
* `ZoneRules.IsBelowDay` — offsets below a day.
* `ZoneRules.Shows`, `ZoneRules.Skips` — seconds that show a reading, and changes past it.
* `ZoneRules.mem_regimesShowing`, `ZoneRules.pairwise_regimesShowing` — the list of regimes showing
  a reading.
* `ZoneRules.isGreatest_of_getLast?`, `ZoneRules.isLeast_of_find?` — the last of them, and the first
  of a kind.
* `ZoneRules.HasOffset` — the offset that a reading has.
* `ZoneRules.offsetShowing_eq_iff` — the offset that a reading is taken to have.
-/

namespace Horology.ZoneRules

variable {z : ZoneRules} {u v w : Int}

/-- Changes are listed in ascending order, no two at one second. -/
def IsSorted (z : ZoneRules) : Prop := z.changes.Pairwise fun a b => a.1 < b.1

/-- Changes are listed in ascending order and are at least two days apart. -/
def IsSpaced (z : ZoneRules) : Prop := z.changes.Pairwise fun a b => a.1 + 172800 ≤ b.1

instance (z : ZoneRules) : Decidable z.IsSorted := inferInstanceAs (Decidable (List.Pairwise _ _))

instance (z : ZoneRules) : Decidable z.IsSpaced := inferInstanceAs (Decidable (List.Pairwise _ _))

/-- The offset is below a day at any second. -/
def IsBelowDay (z : ZoneRules) : Prop := ∀ u, (z.regimeAt u).offset.natAbs < 86400

/-- The clocks show the wall reading `w` at the UTC second `u`. -/
def Shows (z : ZoneRules) (u w : Int) : Prop := u + (z.regimeAt u).offset = w

/-- The clocks are set forward past the wall reading `w` at the UTC second `u`: up to then they
have not shown it, and from then on they are past it. -/
def Skips (z : ZoneRules) (u w : Int) : Prop :=
  u + (z.regimeAt (u - 1)).offset ≤ w ∧ w < u + (z.regimeAt u).offset

theorem IsSpaced.isSorted (h : z.IsSpaced) : z.IsSorted :=
  h.imp fun {_ _} hab => by omega

/-- The offset is below a day if it is so in every regime of the zone. -/
theorem isBelowDay_of_regimes (h : ∀ r ∈ z.regimes, r.offset.natAbs < 86400) : z.IsBelowDay := by
  intro u
  exact h _ (z.regimeAt_mem u)

/-- A near zone is below a day. -/
theorem isBelowDay_of_isNear {name : String} (h : (TimeZone.named name z).IsNear) :
    z.IsBelowDay := by
  intro u
  exact (h u).trans (by decide)

@[simp] theorem shows_constant {r : Regime} : (constant r).Shows u w ↔ u + r.offset = w := .rfl

/-! ## The regime of a second -/

/-- Two seconds between which no change begins have the same regime. -/
theorem follow_congr {current : Regime} {changes : List (Int × Regime)}
    (h : ∀ c ∈ changes, u < c.1 ↔ v < c.1) :
    follow u current changes = follow v current changes := by
  induction changes generalizing current with
  | nil => rfl
  | cons change changes ih =>
    have hchange := h change List.mem_cons_self
    rw [follow, follow, ih fun c hc => h c (List.mem_cons_of_mem change hc)]
    exact if_congr hchange rfl rfl

/-- Where the regime differs, a change has begun in between. -/
theorem exists_change_of_regimeAt_ne (hle : u ≤ v) (hne : z.regimeAt u ≠ z.regimeAt v) :
    ∃ c ∈ z.changes, u < c.1 ∧ c.1 ≤ v := by
  by_contra hnone
  refine hne (follow_congr fun c hc => ⟨fun hu => ?_, fun hv => by omega⟩)
  by_contra hv
  exact hnone ⟨c, hc, hu, by omega⟩

/-- Changes of a spaced zone that are less than two days apart are one. -/
theorem IsSpaced.eq_of_lt (h : z.IsSpaced) {a b : Int × Regime} (ha : a ∈ z.changes)
    (hb : b ∈ z.changes) (hab : a.1 < b.1 + 172800) (hba : b.1 < a.1 + 172800) : a = b := by
  by_contra hne
  have hsymm : z.changes.Pairwise fun a b => a.1 + 172800 ≤ b.1 ∨ b.1 + 172800 ≤ a.1 :=
    h.imp .inl
  have : Std.Symm fun a b : Int × Regime => a.1 + 172800 ≤ b.1 ∨ b.1 + 172800 ≤ a.1 :=
    ⟨fun _ _ => Or.symm⟩
  have := hsymm.forall ha hb hne
  omega

/-! ## The regimes that show a reading -/

@[simp] theorem hasBegun_some {s : Int} : hasBegun (some s) u = true ↔ s ≤ u := decide_eq_true_iff

/-- The regimes listed by `showing` are those that are in force when they show the reading. -/
theorem mem_showing {start : Option Int} {current r : Regime} {changes : List (Int × Regime)}
    (hsorted : changes.Pairwise fun a b => a.1 < b.1)
    (hstart : ∀ c ∈ changes, hasBegun start c.1 = true) :
    r ∈ showing w start current changes ↔
      hasBegun start (w - r.offset) = true ∧ follow (w - r.offset) current changes = r := by
  induction changes generalizing start current with
  | nil =>
    rw [showing, follow, List.mem_ite_nil_right, List.mem_singleton]
    constructor
    · rintro ⟨hbegun, rfl⟩
      exact ⟨hbegun, rfl⟩
    · rintro ⟨hbegun, rfl⟩
      exact ⟨hbegun, rfl⟩
  | cons change changes ih =>
    obtain ⟨finish, next⟩ := change
    obtain ⟨hfinish, hsorted⟩ := List.pairwise_cons.1 hsorted
    have hafter : ∀ c ∈ changes, hasBegun (some finish) c.1 = true := fun c hc =>
      hasBegun_some.2 (hfinish c hc).le
    have hbegun (h : finish ≤ w - r.offset) : hasBegun start (w - r.offset) = true := by
      have hbefore := hstart (finish, next) List.mem_cons_self
      cases start with
      | none => rfl
      | some s => exact hasBegun_some.2 ((hasBegun_some.1 hbefore).trans h)
    rw [showing, List.mem_append, ih hsorted hafter, follow, List.mem_ite_nil_right,
      List.mem_singleton, hasBegun_some, Bool.and_eq_true, decide_eq_true_eq]
    -- The first regime shows the reading before it ends, and the others do so after that.
    by_cases hlt : w - r.offset < finish
    · rw [if_pos hlt]
      constructor
      · rintro (⟨⟨hcurrent, -⟩, rfl⟩ | ⟨hge, -⟩)
        · exact ⟨hcurrent, rfl⟩
        · omega
      · rintro ⟨hcurrent, rfl⟩
        exact .inl ⟨⟨hcurrent, hlt⟩, rfl⟩
    · rw [if_neg hlt]
      constructor
      · rintro (⟨⟨-, hbefore⟩, rfl⟩ | ⟨hle, hfollow⟩)
        · exact absurd hbefore hlt
        · exact ⟨hbegun hle, hfollow⟩
      · rintro ⟨-, hfollow⟩
        exact .inr ⟨by omega, hfollow⟩

/-- **The regimes showing a reading are those in force at the second at which they show it.** -/
theorem mem_regimesShowing {r : Regime} (hz : z.IsSorted) :
    r ∈ z.regimesShowing w ↔ z.regimeAt (w - r.offset) = r :=
  (mem_showing hz fun _ _ => rfl).trans (and_iff_right rfl)

theorem pairwise_showing {start : Option Int} {current : Regime} {changes : List (Int × Regime)}
    (hsorted : changes.Pairwise fun a b => a.1 < b.1)
    (hstart : ∀ c ∈ changes, hasBegun start c.1 = true) :
    (showing w start current changes).Pairwise fun r s => s.offset < r.offset := by
  induction changes generalizing start current with
  | nil =>
    rw [showing]
    split
    · exact List.pairwise_singleton _ _
    · exact .nil
  | cons change changes ih =>
    obtain ⟨finish, next⟩ := change
    obtain ⟨hfinish, hsorted⟩ := List.pairwise_cons.1 hsorted
    have hafter : ∀ c ∈ changes, hasBegun (some finish) c.1 = true := fun c hc =>
      hasBegun_some.2 (hfinish c hc).le
    rw [showing, List.pairwise_append]
    refine ⟨?_, ih hsorted hafter, fun r hr s hs => ?_⟩
    · split
      · exact List.pairwise_singleton _ _
      · exact .nil
    · rw [List.mem_ite_nil_right, List.mem_singleton, Bool.and_eq_true, decide_eq_true_eq] at hr
      obtain ⟨⟨-, hlt⟩, rfl⟩ := hr
      have hge : finish ≤ w - s.offset := hasBegun_some.1 ((mem_showing hsorted hafter).1 hs).1
      omega

/-- The regimes showing a reading are listed by ascending seconds, thus by descending offsets. -/
theorem pairwise_regimesShowing (hz : z.IsSorted) (w : Int) :
    (z.regimesShowing w).Pairwise fun r s => s.offset < r.offset :=
  pairwise_showing hz fun _ _ => rfl

/-- The regime in force at a second that shows a reading is among those that show it. -/
theorem Shows.mem_regimesShowing (hz : z.IsSorted) (h : z.Shows u w) :
    z.regimeAt u ∈ z.regimesShowing w := by
  have hu : w - (z.regimeAt u).offset = u := by
    rw [← h]
    omega
  rw [ZoneRules.mem_regimesShowing hz, hu]

/-- A regime that shows a reading does so at the second that its offset gives. -/
theorem shows_of_mem_regimesShowing {r : Regime} (hz : z.IsSorted)
    (hr : r ∈ z.regimesShowing w) : z.Shows (w - r.offset) w := by
  rw [Shows, (ZoneRules.mem_regimesShowing hz).1 hr]
  omega

/-- No regime shows a reading that is shown at no second. -/
theorem regimesShowing_eq_nil_iff (hz : z.IsSorted) :
    z.regimesShowing w = [] ↔ ∀ u, ¬ z.Shows u w := by
  rw [List.eq_nil_iff_forall_not_mem]
  exact ⟨fun h u hu => h _ (hu.mem_regimesShowing hz),
    fun h r hr => h _ (shows_of_mem_regimesShowing hz hr)⟩

/-- The last of the regimes showing a reading is in force at the last second that shows it. -/
theorem isGreatest_of_getLast? {r : Regime} (hz : z.IsSorted)
    (hr : (z.regimesShowing w).getLast? = some r) :
    IsGreatest {v | z.Shows v w} (w - r.offset) := by
  obtain ⟨rs, hrs⟩ := List.getLast?_eq_some_iff.1 hr
  have hpairwise := pairwise_regimesShowing hz w
  rw [hrs, List.pairwise_append] at hpairwise
  refine ⟨shows_of_mem_regimesShowing hz (hrs ▸ by simp), fun v hv => ?_⟩
  have hmem := Shows.mem_regimesShowing hz hv
  rw [hrs, List.mem_append, List.mem_singleton] at hmem
  have hv : v + (z.regimeAt v).offset = w := hv
  rcases hmem with hmem | heq
  · have := hpairwise.2.2 _ hmem r (List.mem_singleton_self r)
    omega
  · rw [heq] at hv
    omega

/-- The first regime of some kind among those showing a reading is in force at the first second that
shows it under a regime of that kind. -/
theorem isLeast_of_find? {p : Regime → Bool} {r : Regime} (hz : z.IsSorted)
    (hr : (z.regimesShowing w).find? p = some r) :
    IsLeast {v | z.Shows v w ∧ p (z.regimeAt v) = true} (w - r.offset) := by
  obtain ⟨hp, before, after, hrs, hbefore⟩ := List.find?_eq_some_iff_append.1 hr
  have hmem := List.mem_of_find?_eq_some hr
  have hpairwise := pairwise_regimesShowing hz w
  rw [hrs, List.pairwise_append, List.pairwise_cons] at hpairwise
  refine ⟨⟨shows_of_mem_regimesShowing hz hmem, ?_⟩, ?_⟩
  · rwa [(mem_regimesShowing hz).1 hmem]
  · rintro v ⟨hv, hpv⟩
    have hmemv := hv.mem_regimesShowing hz
    rw [hrs, List.mem_append, List.mem_cons] at hmemv
    have hv : v + (z.regimeAt v).offset = w := hv
    rcases hmemv with hmemv | heq | hmemv
    · have := hbefore _ hmemv
      simp [hpv] at this
    · rw [heq] at hv
      omega
    · have := hpairwise.2.1.1 _ hmemv
      omega

/-- Among the seconds showing a reading there is a last one. -/
theorem Shows.exists_isGreatest (hz : z.IsSorted) (h : z.Shows u w) :
    ∃ v, IsGreatest {v | z.Shows v w} v := by
  have hne := List.ne_nil_of_mem (h.mem_regimesShowing hz)
  exact ⟨_, isGreatest_of_getLast? hz (List.getLast?_eq_some_getLast hne)⟩

/-! ## The offset of a reading -/

/-- The offset that a wall reading has in a zone: the one at the last second that shows the reading,
and where there is none, the one right before clocks were set forward past it. -/
inductive HasOffset (z : ZoneRules) (w : Int) : Int → Prop
  | shown {u : Int} (last : IsGreatest {v | z.Shows v w} u) : HasOffset z w (z.regimeAt u).offset
  | skipped {u : Int} (hidden : ∀ v, ¬ z.Shows v w) (skips : z.Skips u w) :
    HasOffset z w (z.regimeAt (u - 1)).offset

/-! ## Repeated and skipped readings -/

/-- Where no second shows a reading, clocks are set forward past it. -/
theorem exists_skips (hday : z.IsBelowDay) (hnone : ∀ u, ¬ z.Shows u w) : ∃ u, z.Skips u w := by
  -- The first second at which the clocks are past the reading.
  obtain ⟨u, hu, hleast⟩ := Int.exists_least_of_bdd
    (P := fun u => w < u + (z.regimeAt u).offset)
    ⟨w - 86400, fun u hu => by
      have := hday u
      omega⟩
    ⟨w + 86400, by
      have := hday (w + 86400)
      omega⟩
  refine ⟨u, ?_, hu⟩
  have hbefore : ¬ w < u - 1 + (z.regimeAt (u - 1)).offset := by
    intro h
    have := hleast _ h
    omega
  have hne : u - 1 + (z.regimeAt (u - 1)).offset ≠ w := hnone (u - 1)
  omega

section Spaced

variable (hz : z.IsSpaced) (hday : z.IsBelowDay)
include hz hday

/-- A skipped reading, read as a UTC second and taken a day back, falls into the regime that was in
force before the clocks were set forward. -/
theorem regimeAt_of_skips (h : z.Skips u w) : z.regimeAt (w - 86400) = z.regimeAt (u - 1) := by
  obtain ⟨hbefore, hafter⟩ := h
  have hoffsetBefore := hday (u - 1)
  have hoffset := hday u
  obtain ⟨c, hc, hcu, huc⟩ : ∃ c ∈ z.changes, u - 1 < c.1 ∧ c.1 ≤ u := by
    refine exists_change_of_regimeAt_ne (by omega) fun heq => ?_
    rw [heq] at hbefore
    omega
  by_contra hne
  obtain ⟨d, hd, hwd, hdu⟩ := exists_change_of_regimeAt_ne (by omega) hne
  have := hz.eq_of_lt hc hd (by omega) (by omega)
  subst this
  omega

/-- A reading is taken to have an offset that it has. -/
theorem hasOffset_offsetShowing (w : Int) : z.HasOffset w (z.offsetShowing w) := by
  unfold offsetShowing
  split
  · next r hr =>
    have hlast := isGreatest_of_getLast? hz.isSorted hr
    have hmem := (mem_regimesShowing hz.isSorted).1 (List.mem_of_getLast? hr)
    exact hmem ▸ .shown hlast
  · next hnone =>
    have hhidden := (regimesShowing_eq_nil_iff hz.isSorted).1 (List.getLast?_eq_none_iff.1 hnone)
    obtain ⟨u, hu⟩ := exists_skips hday hhidden
    rw [regimeAt_of_skips hz hday hu]
    exact .skipped hhidden hu

/-- A reading has one offset. -/
theorem HasOffset.unique {east east' : Int} (h : z.HasOffset w east) (h' : z.HasOffset w east') :
    east = east' := by
  cases h with
  | shown hu =>
    cases h' with
    | shown hv => rw [hu.unique hv]
    | skipped hhidden => exact absurd hu.1 (hhidden _)
  | skipped hhidden hu =>
    cases h' with
    | shown hv => exact absurd hv.1 (hhidden _)
    | skipped _ hv => rw [← regimeAt_of_skips hz hday hu, ← regimeAt_of_skips hz hday hv]

/-- **The offset that a reading is taken to have is the one that it has.** -/
theorem offsetShowing_eq_iff {east : Int} : z.offsetShowing w = east ↔ z.HasOffset w east := by
  constructor
  · rintro rfl
    exact hasOffset_offsetShowing hz hday w
  · intro h
    exact HasOffset.unique hz hday (hasOffset_offsetShowing hz hday w) h

end Spaced

end Horology.ZoneRules
