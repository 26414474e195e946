import InjectorTree.Proofs.Placement.SelfSupport

/-!
# What a search does not find is not there

Without converters, and where bindings may be created at all, a search misses nothing: if it does not find a
place for a key, then the key is placeable nowhere on the path. What carries the argument through nested
attempts is what the search has ruled out on its way: a staged binding is staged where its key belongs as far
as the injectors above are concerned, and what is remembered as failed is not placeable. So it does not matter
that attempts run into staged bindings, nor that some are never made again.

* `RuledOut`: the invariant.
* `searches`: the search keeps it, and is complete.
-/

namespace InjectorTree

open Hierarchy

/-- Above its owner, the key of a staged binding is not placeable, and neither is what is remembered. -/
structure RuledOut (h : Hierarchy) (n : InjectorId) (d : Draft) : Prop where
  above : ∀ binding ∈ d.staged, ∀ q ∈ h.lineage binding.owner, ¬h.Placeable n q binding.key
  failed : ∀ {p : InjectorId} {key : Key}, (p, key) ∈ d.failed → ¬h.Placeable n p key

/-- What a complete search promises. -/
structure Searches (h : Hierarchy) (n : InjectorId) (locate : InjectorId → Key → Run Draft Binding) :
    Prop where
  ok : ∀ {m : InjectorId} {key : Key} {d d' : Draft} {binding : Binding}, m ∈ h.path n → Fits h n d →
    RuledOut h n d → locate m key d = some (.ok binding, d') → RuledOut h n d'
  error : ∀ {m : InjectorId} {key : Key} {d d' : Draft} {report : Report}, m ∈ h.path n → Fits h n d →
    RuledOut h n d → locate m key d = some (.error report, d') →
      RuledOut h n d' ∧ h.lookup m key = none ∧ ∀ q ∈ h.path m, ¬h.Placeable n q key

variable {h : Hierarchy} {n m p : InjectorId} {key : Key} {d d' : Draft} {binding : Binding} {report : Report}
  {locate : InjectorId → Key → Run Draft Binding}

theorem ruledOut_start (h : Hierarchy) (n : InjectorId) : RuledOut h n { hierarchy := h } :=
  ⟨fun _ hMem => absurd hMem List.not_mem_nil, fun hMem => absurd hMem List.not_mem_nil⟩

theorem RuledOut.marks (hO : RuledOut h n d) (hStaged : d'.staged = d.staged)
    (hFailed : d'.failed = d.failed) : RuledOut h n d' where
  above binding hMem := hO.above binding (hStaged ▸ hMem)
  failed hMem := hO.failed (hFailed ▸ hMem)

/-- A binding may be staged in the first injector, from the root, in which its key is not ruled out. -/
theorem RuledOut.start (hO : RuledOut h n d) (hS : Placement.Started h p key d binding d')
    (hAbove : ∀ q ∈ h.lineage p, ¬h.Placeable n q key) : RuledOut h n d' where
  above other hMem := by
    rw [hS.staged, List.mem_append, List.mem_singleton] at hMem
    rcases hMem with hMem | rfl
    · exact hO.above other hMem
    · rw [hS.owner, hS.key]
      exact hAbove
  failed hMem := hO.failed (hS.failed ▸ hMem)

namespace Placement

-- ---------------------------------------------------------------------------
-- Supplying
-- ---------------------------------------------------------------------------

/-- Locating a key on which a binding depends keeps what was ruled out. -/
theorem supplyOne_ruledOut (hL : Locates h n locate) (hS : Searches h n locate)
    (hOwner : binding.owner ∈ h.path n) :
    ∀ dependency d first d', Fits h n d ∧ RuledOut h n d →
      Run.within (.at binding.source)
        (Run.within (.locating dependency) (locate binding.owner dependency)) d = some (.ok first, d') →
      Fits h n d' ∧ RuledOut h n d' := by
  intro dependency d first d' hBefore hFirst
  have hLocate := supplyOne_eq_ok_iff.mp hFirst
  exact ⟨(hL.ok hOwner hBefore.1 hLocate).1, hS.ok hOwner hBefore.1 hBefore.2 hLocate⟩

theorem supply_ruledOut (hL : Locates h n locate) (hS : Searches h n locate)
    (hOwner : binding.owner ∈ h.path n) (hF : Fits h n d) (hO : RuledOut h n d) {located : List Binding}
    (hRun : supply locate binding d = some (.ok located, d')) : RuledOut h n d' :=
  (Run.forEach_ok (supplyOne_ruledOut hL hS hOwner) ⟨hF, hO⟩ hRun).2

/-- If a binding cannot be supplied, some key on which it depends is neither bound nor placeable. -/
theorem supply_impossible (hL : Locates h n locate) (hS : Searches h n locate)
    (hOwner : binding.owner ∈ h.path n) (hF : Fits h n d) (hO : RuledOut h n d)
    (hRun : supply locate binding d = some (.error report, d')) :
    RuledOut h n d' ∧ ∃ dependency ∈ binding.strategy.dependencies,
      h.lookup binding.owner dependency = none ∧ ∀ q ∈ h.path binding.owner, ¬h.Placeable n q dependency := by
  obtain ⟨dependency, hMem, d₁, ⟨hF₁, hO₁⟩, hFailed⟩ :=
    Run.exists_mem_of_forEach_error (supplyOne_ruledOut hL hS hOwner) ⟨hF, hO⟩ hRun
  obtain ⟨inner, hLocate, -⟩ := exists_of_supplyOne_error hFailed
  obtain ⟨hO', hNone, hNowhere⟩ := hS.error hOwner hF₁ hO₁ hLocate
  exact ⟨hO', dependency, hMem, hNone, hNowhere⟩

-- ---------------------------------------------------------------------------
-- Attempts
-- ---------------------------------------------------------------------------

/-- What is refused is not placeable: if the key is staged below, it has been ruled out here. -/
theorem not_placeable_of_refused (hW : h.WellFormed) (hn : h.isLive n = true) (hM : Hierarchy.Marked d.hierarchy h)
    (hO : RuledOut h n d) (hR : Refused h p key d d') : ¬h.Placeable n p key := by
  rcases hR.reason with hStaged | hNever
  · rw [Ne, stagedBelow_eq_nil_iff hM] at hStaged
    simp only [Classical.not_forall, Classical.not_not] at hStaged
    obtain ⟨other, hMem, rfl, hBelow⟩ := hStaged
    exact hO.above other hMem p hBelow
  · intro hPlaceable
    obtain ⟨declaration, hStartable, -⟩ := hPlaceable.startable hW hn
    exact hNever declaration hStartable

theorem attempt_ruledOut (hL : Locates h n locate) (hS : Searches h n locate) (hF : Fits h n d)
    (hV : Vacant h n d p key) (hO : RuledOut h n d) (hAbove : ∀ q ∈ h.lineage p, ¬h.Placeable n q key)
    (hRun : attempt locate p key d = some (.ok binding, d')) : RuledOut h n d' := by
  obtain ⟨d₁, located, hStart, hSupply⟩ := attempt_eq_ok_iff.mp hRun
  have hStarted := start_ok hF.marked hStart
  exact supply_ruledOut hL hS (hStarted.owner ▸ hV.onPath) (hF.snoc (hStarted.stageable hF hV))
    (hO.start hStarted hAbove) hSupply

/-- An attempt that fails rules out what it was for. -/
theorem attempt_impossible (hW : h.WellFormed) (hn : h.isLive n = true) (hL : Locates h n locate)
    (hS : Searches h n locate) (hF : Fits h n d) (hV : Vacant h n d p key) (hO : RuledOut h n d)
    (hAbove : ∀ q ∈ h.lineage p, ¬h.Placeable n q key)
    (hRun : attempt locate p key d = some (.error report, d')) :
    RuledOut h n d' ∧ ¬h.Placeable n p key := by
  obtain ⟨-, hStaged⟩ := attempt_error hL hF hV hRun
  obtain ⟨d₁, -, -, -, hFailed, hReason⟩ := exists_of_attempt_error hRun
  have hBefore : RuledOut h n d₁ ∧ ¬h.Placeable n p key := by
    rcases hReason with hStart | ⟨binding, d₂, hStart, hSupply⟩
    · have hRefused := start_error hF.marked hStart
      exact ⟨hO.marks hRefused.staged hRefused.failed, not_placeable_of_refused hW hn hF.marked hO hRefused⟩
    · have hStarted := start_ok hF.marked hStart
      obtain ⟨hO₁, dependency, hMem, hNone, hNowhere⟩ :=
        supply_impossible hL hS (hStarted.owner ▸ hV.onPath) (hF.snoc (hStarted.stageable hF hV))
          (hO.start hStarted hAbove) hSupply
      refine ⟨hO₁, fun hPlaceable => ?_⟩
      -- a self-supporting set would have the key that could not be located
      obtain ⟨declaration, hStartable, hBuilt⟩ := hStarted.declaration
      obtain ⟨declaration', hStartable', hDependencies⟩ := hPlaceable.startable hW hn
      have hSame := hStartable'.declared
      rw [hStartable.declared, Option.some.injEq] at hSame
      subst hSame
      rw [hBuilt.strategy] at hMem
      rw [hStarted.owner] at hNone hNowhere
      rcases hDependencies dependency hMem with hFound | ⟨q, hq, hOther⟩
      · rw [hNone] at hFound
        cases hFound
      · exact hNowhere q hq hOther
  -- what was staged since is taken back, and at most this attempt is remembered in addition
  refine ⟨⟨fun other hMem => hO.above other (hStaged ▸ hMem), fun {q x} hMem => ?_⟩, hBefore.2⟩
  rcases hFailed _ hMem with ⟨-, hEq⟩ | hOld
  · cases hEq
    exact hBefore.2
  · exact hBefore.1.failed hOld

-- ---------------------------------------------------------------------------
-- The choice of the injector
-- ---------------------------------------------------------------------------

/-- The injectors above a candidate are those that were tried before it. -/
theorem lineage_of_candidates (hR : h.Rooted) {before rest : List InjectorId} {candidate : InjectorId}
    (hSplit : before ++ candidate :: rest = (h.lineage m).reverse) :
    h.lineage candidate = before.reverse ∧ candidate ∈ h.lineage m := by
  have hLineage : h.lineage m = rest.reverse ++ candidate :: before.reverse := by
    rw [← List.reverse_reverse (h.lineage m), ← hSplit]
    simp
  refine ⟨(hR.lineage_of_append hLineage).2.1, ?_⟩
  rw [hLineage]
  exact List.mem_append_right _ List.mem_cons_self

/-- Trying the candidates from the root on, each one after all that are above it. -/
theorem place_searches (hW : h.WellFormed) (hn : h.isLive n = true) (hL : Locates h n locate)
    (hS : Searches h n locate) (before candidates : List InjectorId)
    (hSplit : before ++ candidates = (h.lineage m).reverse)
    (hBefore : ∀ q ∈ before, ¬h.Placeable n q key) (hF : Fits h n d) (hV : Vacant h n d m key)
    (hO : RuledOut h n d) {outcome : Except Report Binding}
    (hRun : place locate m key candidates d = some (outcome, d')) :
    RuledOut h n d' ∧ (outcome.toOption = none → ∀ q ∈ h.path m, ¬h.Placeable n q key) := by
  induction candidates generalizing before d with
  | nil =>
    -- the requesting injector comes last
    have hAbove : ∀ q ∈ h.lineage m, ¬h.Placeable n q key := fun q hq => by
      rw [← List.mem_reverse, ← hSplit, List.append_nil] at hq
      exact hBefore q hq
    cases outcome with
    | ok binding => exact ⟨attempt_ruledOut hL hS hF hV hO hAbove hRun, fun hNone => (nomatch hNone)⟩
    | error report =>
      obtain ⟨hO', hNot⟩ := attempt_impossible hW hn hL hS hF hV hO hAbove hRun
      refine ⟨hO', fun _ q hq => ?_⟩
      rcases mem_path_iff.mp hq with rfl | hq
      · exact hNot
      · exact hAbove q hq
  | cons candidate rest ih =>
    obtain ⟨hLineage, hMem⟩ := lineage_of_candidates hW.rooted hSplit
    have hAbove : ∀ q ∈ h.lineage candidate, ¬h.Placeable n q key := fun q hq => by
      rw [hLineage, List.mem_reverse] at hq
      exact hBefore q hq
    have hUp := hV.up hW.rooted (mem_path_of_mem_lineage hMem)
    have hSplit' : (before ++ [candidate]) ++ rest = (h.lineage m).reverse := by
      rw [← hSplit, List.append_assoc, List.singleton_append]
    have hNext : ¬h.Placeable n candidate key → ∀ q ∈ before ++ [candidate], ¬h.Placeable n q key := by
      intro hNot q hq
      rcases List.mem_append.mp hq with hq | hq
      · exact hBefore q hq
      · exact List.mem_singleton.mp hq ▸ hNot
    rcases exists_of_place_cons hRun with ⟨hFailed, hRun⟩ | ⟨other, rfl, hAttempt⟩ | ⟨report, d₁, hAttempt, hRun⟩
    · -- skipped, because it has been ruled out before
      exact ih _ hSplit' (hNext (hO.failed hFailed)) hF hV hO hRun
    · exact ⟨attempt_ruledOut hL hS hF hUp hO hAbove hAttempt, fun hNone => (nomatch hNone)⟩
    · obtain ⟨hF₁, hStaged⟩ := attempt_error hL hF hUp hAttempt
      obtain ⟨hO₁, hNot⟩ := attempt_impossible hW hn hL hS hF hUp hO hAbove hAttempt
      exact ih _ hSplit' (hNext hNot) hF₁ (hV.of_staged hStaged) hO₁ hRun

-- ---------------------------------------------------------------------------
-- The search
-- ---------------------------------------------------------------------------

/-- Without converters on a path there are none on the path of any injector of it. -/
theorem converters_eq_nil (hR : h.Rooted) (hNoConverters : h.converters n = []) (hm : m ∈ h.path n) :
    h.converters m = [] :=
  List.subset_nil.mp (hNoConverters ▸ hR.converters_subset hm)

/-- Without converters on a path there is nothing to convert on it. -/
theorem conversion?_eq_none (hR : h.Rooted) (hNoConverters : h.converters n = []) (hm : m ∈ h.path n)
    (key : Key) : conversion? h m key = none := by
  have hNone := converters_eq_nil hR hNoConverters hm
  simp only [conversion?, hNone, List.filter_nil]
  cases key.qualifier with
  | none => rfl
  | some qualifier =>
    cases h.explicitBinding? m (key.withType .text) with
    | none => rfl
    | some constant =>
      rcases constant with ⟨_, _, ⟨value⟩ | _ | _ | _⟩
      · show (value.text?.bind fun _ => none) = none
        cases value.text? <;> rfl
      · rfl
      · rfl
      · rfl

/-- The search is complete, by induction on how deeply attempts may be nested. -/
theorem searches (hW : h.WellFormed) (hn : h.isLive n = true) (hNoConverters : h.converters n = [])
    (hOnly : h.isExplicitOnly n = false) (fuel : Nat) : Searches h n (Placement.locate fuel) := by
  induction fuel with
  | zero =>
    -- without fuel there is no outcome
    constructor
    · intro m key d d' binding _ _ _ hRun
      cases hRun
    · intro m key d d' report _ _ _ hRun
      cases hRun
  | succ fuel ih =>
    -- a key that is not there yet is placed
    have hPlace : ∀ {m key d outcome d'}, m ∈ h.path n → Fits h n d →
        (d.hierarchy.lookup m key).or (d.lookup m key) = none →
        Placement.locate (fuel + 1) m key d = some (outcome, d') →
        Vacant h n d m key ∧
          place (Placement.locate fuel) m key (h.lineage m).reverse d = some (outcome, d') := by
      intro m key d outcome d' hm hF hNone hRun
      simp only [Placement.locate, hNone, createOnDemand, hF.marked.core.sameShape.conversion?,
        hF.marked.core.sameShape.isExplicitOnly, hF.marked.core.lineage,
        conversion?_eq_none hW.rooted hNoConverters hm, hW.rooted.isExplicitOnly_eq_false hm hOnly] at hRun
      rw [Option.or_eq_none_iff, hF.marked.core.lookup] at hNone
      exact ⟨vacant_of_lookup hW.rooted hF hm hNone.1 hNone.2, hRun⟩
    have hLocates := locates hW.rooted n fuel
    constructor
    · intro m key d d' binding hm hF hO hRun
      cases hFound : (d.hierarchy.lookup m key).or (d.lookup m key) with
      | some found =>
        simp only [Placement.locate, hFound] at hRun
        cases hRun
        exact hO
      | none =>
        obtain ⟨hV, hRun⟩ := hPlace hm hF hFound hRun
        exact (place_searches hW hn hLocates ih [] _ rfl (List.forall_mem_nil _) hF hV hO hRun).1
    · intro m key d d' report hm hF hO hRun
      cases hFound : (d.hierarchy.lookup m key).or (d.lookup m key) with
      | some found =>
        simp only [Placement.locate, hFound] at hRun
        cases hRun
      | none =>
        obtain ⟨hV, hRun⟩ := hPlace hm hF hFound hRun
        obtain ⟨hO', hNowhere⟩ :=
          place_searches hW hn hLocates ih [] _ rfl (List.forall_mem_nil _) hF hV hO hRun
        exact ⟨hO', hV.unbound, hNowhere rfl⟩

end Placement

end InjectorTree
