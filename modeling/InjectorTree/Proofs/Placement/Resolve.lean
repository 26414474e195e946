import InjectorTree.Proofs.Hierarchy.Publishing
import InjectorTree.Proofs.Placement.Fuel

/-!
# Resolving

Resolving a key finds its binding, or searches for one and publishes the draft of the search. It always ends.
A resolution that fails leaves marks only; one that succeeds adds the staged bindings, and keeps the hierarchy
well-formed.

* `resolve_ends`: resolving always ends.
* `resolve_error`, `resolve_ok`: what it leaves behind.
* `publish_spec`: what publishing a draft changes.
-/

namespace InjectorTree.Hierarchy

open Placement

variable {h h' : Hierarchy} {n m : InjectorId} {key : Key} {d : Draft} {binding : Binding} {report : Report}
  {outcome : Except Report Binding}

-- ---------------------------------------------------------------------------
-- Publishing a draft
-- ---------------------------------------------------------------------------

/-- Every staged binding can be published. -/
theorem Fits.ownable (hW : h.WellFormed) (hn : h.isLive n = true) (hF : Fits h n d)
    (hMem : binding ∈ d.staged) : d.hierarchy.Ownable binding := by
  have hLive := hW.rooted.isLive_of_mem_path hn (hF.onPath binding hMem)
  have hUnbound := hF.unbound binding hMem
  have hKey := key_ne_injector_of_lookup hLive hUnbound
  have hCore := hF.marked.core
  exact
    { live := by
        rw [hCore.isLive]
        exact hLive
      key := hKey
      origin := (hF.made binding hMem).origin
      path := by
        rw [hCore.lookup]
        exact hUnbound
      below := fun m hm => by
        rw [hCore.lineage] at hm
        rw [hCore.binding?]
        exact (hW.claimants_eq_nil_iff hKey).mp (hF.unclaimed binding hMem) m hm
      newest := fun {m other old} hOld => by
        rw [hCore.binding?] at hOld
        exact Nat.lt_of_lt_of_le (hW.numbered hOld) (hF.older binding hMem)
      numbered := hF.newer binding hMem }

/-- Publishing changes nothing but injectors. -/
theorem publish_eq (d : Draft) : ∃ injectors, d.publish = { d.hierarchy with injectors } := by
  rw [publish_eq_foldl]
  exact foldl_eq_of_injectors own_eq d.staged d.hierarchy

theorem nextBinding_publish (d : Draft) : d.publish.nextBinding = d.hierarchy.nextBinding := by
  obtain ⟨injectors, hEq⟩ := publish_eq d
  rw [hEq]

/-- Publishing adds the staged bindings, and nothing else that the library asks for. -/
theorem publish_spec (hW : h.WellFormed) (hn : h.isLive n = true) (hF : Fits h n d) :
    d.publish.WellFormed ∧ SameShape d.publish h ∧ h.nextBinding ≤ d.publish.nextBinding ∧
      ∀ (m : InjectorId) (key : Key) (binding : Binding),
        d.publish.binding? m key = some binding ↔
          h.binding? m key = some binding ∨ binding ∈ d.staged ∧ binding.owner = m ∧ binding.key = key := by
  obtain ⟨hWell, hBindings⟩ := foldl_own hF.marked.wellFormed (fun _ hMem => Fits.ownable hW hn hF hMem)
    hF.keys hF.order
  rw [← publish_eq_foldl] at hWell
  refine ⟨hWell, ?_, ?_, fun m key binding => ?_⟩
  · rw [publish_eq_foldl]
    exact (sameShape_foldl_own d.staged d.hierarchy).trans hF.marked.core.sameShape
  · rw [nextBinding_publish]
    exact hF.marked.nextBinding
  · rw [publish_eq_foldl, hBindings, hF.marked.core.binding?]

-- ---------------------------------------------------------------------------
-- Resolving
-- ---------------------------------------------------------------------------

/-- What a search leaves for others. -/
def settle (outcome : Except Report Binding) (d : Draft) : Hierarchy :=
  match outcome with
  | .ok _ => d.publish
  | .error _ => d.hierarchy

theorem resolve_of_lookup (hFound : h.lookup n key = some binding) :
    h.resolve n key = some (.ok binding, h) := by
  simp only [resolve, hFound]

theorem resolve_of_lookup_eq_none (hNone : h.lookup n key = none) :
    h.resolve n key = some (outcome, h') ↔
      ∃ d, Placement.locate (depthBound h n) n key { hierarchy := h } = some (outcome, d) ∧
        h' = settle outcome d := by
  simp only [resolve, hNone]
  rcases Placement.locate (depthBound h n) n key { hierarchy := h } with _ | ⟨report | binding, d⟩
  · simp
  · simp only [Option.some.injEq, Prod.mk.injEq]
    constructor
    · rintro ⟨rfl, rfl⟩
      exact ⟨d, ⟨rfl, rfl⟩, rfl⟩
    · rintro ⟨_, ⟨rfl, rfl⟩, rfl⟩
      exact ⟨rfl, rfl⟩
  · simp only [Option.some.injEq, Prod.mk.injEq]
    constructor
    · rintro ⟨rfl, rfl⟩
      exact ⟨d, ⟨rfl, rfl⟩, rfl⟩
    · rintro ⟨_, ⟨rfl, rfl⟩, rfl⟩
      exact ⟨rfl, rfl⟩

/-- Resolving always ends. -/
theorem resolve_ends (hW : h.WellFormed) (n : InjectorId) (key : Key) : ∃ r, h.resolve n key = some r := by
  cases hLookup : h.lookup n key with
  | some binding => exact ⟨_, resolve_of_lookup hLookup⟩
  | none =>
    obtain ⟨⟨outcome, d⟩, hLocate⟩ :
        ∃ r, Placement.locate (depthBound h n) n key { hierarchy := h } = some r :=
      locate_ends hW.rooted self_mem_path (fits_start hW n) (enoughFuel_depthBound h n)
    exact ⟨_, (resolve_of_lookup_eq_none hLookup).mpr ⟨d, hLocate, rfl⟩⟩

/-- A resolution that fails leaves marks only. -/
theorem resolve_error (hW : h.WellFormed) (hRun : h.resolve n key = some (.error report, h')) :
    h.lookup n key = none ∧ Marked h' h := by
  cases hLookup : h.lookup n key with
  | some binding =>
    rw [resolve_of_lookup hLookup] at hRun
    cases hRun
  | none =>
    obtain ⟨d, hLocate, rfl⟩ := (resolve_of_lookup_eq_none hLookup).mp hRun
    exact ⟨rfl, ((locates hW.rooted n _).error self_mem_path (fits_start hW n) hLocate).1.marked⟩

/-- A resolution that succeeds found the binding, or published a draft with it. -/
theorem resolve_ok (hW : h.WellFormed) (hRun : h.resolve n key = some (.ok binding, h')) :
    h.lookup n key = some binding ∧ h' = h ∨
      h.lookup n key = none ∧ ∃ d, h' = d.publish ∧ Fits h n d ∧ Grown h { hierarchy := h } binding d ∧
        binding ∈ d.staged ∧ binding.key = key ∧ binding.owner ∈ h.path n := by
  cases hLookup : h.lookup n key with
  | some found =>
    rw [resolve_of_lookup hLookup] at hRun
    cases hRun
    exact Or.inl ⟨rfl, rfl⟩
  | none =>
    obtain ⟨d, hLocate, rfl⟩ := (resolve_of_lookup_eq_none hLookup).mp hRun
    obtain ⟨hF, hGrown, hLocated⟩ := (locates hW.rooted n _).ok self_mem_path (fits_start hW n) hLocate
    rcases hLocated with ⟨hFound, -⟩ | ⟨-, hStaged, hKey, hOwner⟩
    · rw [hLookup] at hFound
      cases hFound
    · exact Or.inr ⟨rfl, d, rfl, hF, hGrown, hStaged, hKey, hOwner⟩

/-- What a key resolves to is owned on the path. -/
theorem owner_mem_path_of_resolve (hW : h.WellFormed) (hRun : h.resolve n key = some (.ok binding, h')) :
    binding.owner ∈ h.path n := by
  rcases resolve_ok hW hRun with ⟨hFound, -⟩ | ⟨-, d, -, -, -, -, -, hOwner⟩
  · obtain ⟨p, hp, hb⟩ := exists_of_lookup hFound
    exact (hW.binding? hb).2.1 ▸ hp
  · exact hOwner

/-- Resolving keeps the hierarchy well-formed, and its shape. -/
theorem wellFormed_resolve (hW : h.WellFormed) (hn : h.isLive n = true)
    (hRun : h.resolve n key = some (outcome, h')) :
    h'.WellFormed ∧ SameShape h' h ∧ h.nextBinding ≤ h'.nextBinding := by
  cases outcome with
  | error report =>
    have hMarked := (resolve_error hW hRun).2
    exact ⟨hMarked.wellFormed, hMarked.core.sameShape, hMarked.nextBinding⟩
  | ok binding =>
    rcases resolve_ok hW hRun with ⟨-, rfl⟩ | ⟨-, d, rfl, hF, -⟩
    · exact ⟨hW, SameShape.refl h', Nat.le_refl _⟩
    · obtain ⟨hWell, hShape, hNext, -⟩ := publish_spec hW hn hF
      exact ⟨hWell, hShape, hNext⟩

end InjectorTree.Hierarchy
