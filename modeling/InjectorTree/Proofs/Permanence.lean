import InjectorTree.Proofs.Placement.Characterisation
import InjectorTree.Proofs.Runs

/-!
# What is resolved stays resolved

What a key was resolved to once, it is resolved to ever after, by the injector for which it was resolved and by
all that are below it. Nothing that happens in between can put another binding in its place: not a creation, not
another request, not a drop.

* `owned_of_resolve`: what a resolution returns is owned on the path.
* `Owned.resolve_eq`: what is owned on the path is what the key resolves to.
* `resolve_above_owner`: whoever is above the owner cannot resolve the key.
* `resolve_permanent`: steps change neither.
-/

namespace InjectorTree.Hierarchy

variable {h h' h'' : Hierarchy} {n m : InjectorId} {key : Key} {binding : Binding}

/-- The binding is owned on the path of an injector, under its key. -/
structure Owned (h : Hierarchy) (n : InjectorId) (key : Key) (binding : Binding) : Prop where
  onPath : binding.owner ∈ h.path n
  bound : h.binding? binding.owner key = some binding

/-- What a resolution returns is owned on the path afterwards. -/
theorem owned_of_resolve (hW : h.WellFormed) (hn : h.isLive n = true)
    (hRun : h.resolve n key = some (.ok binding, h')) : h'.Owned n key binding := by
  have hPath := (wellFormed_resolve hW hn hRun).2.1.path n
  refine ⟨hPath ▸ owner_mem_path_of_resolve hW hRun, ?_⟩
  rcases resolve_ok hW hRun with ⟨hFound, rfl⟩ | ⟨-, d, rfl, hF, -, hStaged, hKey, -⟩
  · obtain ⟨p, -, hb⟩ := exists_of_lookup hFound
    rw [(hW.binding? hb).2.1]
    exact hb
  · obtain ⟨-, -, -, hBindings⟩ := publish_spec hW hn hF
    exact (hBindings _ _ _).mpr (Or.inr ⟨hStaged, rfl, hKey⟩)

/-- What is owned on a path is found there without creating anything. -/
theorem Owned.resolve_eq (hW : h.WellFormed) (hKey : key ≠ .injector) (hO : h.Owned n key binding) :
    h.resolve n key = some (.ok binding, h) :=
  resolve_of_lookup ((hW.lookup_eq_some_iff hKey).mpr ⟨binding.owner, hO.onPath, hO.bound⟩)

/-- Nobody else on the path owns the key. -/
theorem Owned.unique (hW : h.WellFormed) (hKey : key ≠ .injector) (hO : h.Owned n key binding) (hm : m ∈ h.path n)
    (hOther : m ≠ binding.owner) : h.binding? m key = none := by
  rcases hW.rooted.mem_path_or_mem_lineage hm hO.onPath with hAbove | hBelow
  · have hLine := hW.line hKey ((mem_path_iff.mp hAbove).resolve_left (Ne.symm hOther))
    exact hLine.resolve_right (hO.bound ▸ Option.some_ne_none binding)
  · have hLine := hW.line hKey hBelow
    exact hLine.resolve_left (hO.bound ▸ Option.some_ne_none binding)

/-- What is owned on a path is owned on the paths from further below. -/
theorem Owned.below (hW : h.WellFormed) (hO : h.Owned n key binding) (hn : n ∈ h.path m) :
    h.Owned m key binding :=
  ⟨hW.rooted.mem_path_trans hn hO.onPath, hO.bound⟩

/-- An owner lives as long as those below it do, and keeps what it owns. -/
theorem Owned.steps (hW : h.WellFormed) (hn : h.isLive n = true) (hO : h.Owned n key binding)
    (hSteps : Steps h h') (hn' : h'.isLive n = true) : h'.Owned n key binding := by
  have hC := hSteps.continues hW
  have hPath := hC.path (hW.rooted.fresh hn) hn'
  have hOwner : binding.owner ∈ h'.path n := hPath ▸ hO.onPath
  have hLive := (hSteps.wellFormed hW).rooted.isLive_of_mem_path hn' hOwner
  exact ⟨hOwner, hC.binding? hLive hO.bound⟩

/-- Above its owner, a key cannot be resolved: the line from the owner upwards would have a second one. -/
theorem resolve_above_owner (hW : h.WellFormed) (hKey : key ≠ .injector) (hn : n ∈ h.lineage m)
    (hb : h.binding? m key = some binding) : ∃ report h', h.resolve n key = some (.error report, h') := by
  have hLive : h.isLive n = true := hW.rooted.isLive_ancestor hn
  obtain ⟨⟨outcome, h'⟩, hEnds⟩ := resolve_ends hW n key
  cases outcome with
  | error report => exact ⟨report, h', hEnds⟩
  | ok other =>
    obtain ⟨hW', hShape, -⟩ := wellFormed_resolve hW hLive hEnds
    have hOther := owned_of_resolve hW hLive hEnds
    have hm : h'.isLive m = true := (hShape.isLive m).trans (isLive_of_binding? hb)
    have hStill := (continues_resolve hW hLive hEnds).binding? hm hb
    rw [← hShape.lineage m] at hn
    rcases hW'.line hKey (hW'.rooted.mem_lineage_of_lineage hn hOther.onPath) with hNone | hNone
    · rw [hStill] at hNone
      cases hNone
    · rw [hOther.bound] at hNone
      cases hNone

/-- Once a key was resolved at an injector, and for as long as the injector is live, the key resolves to the same
binding there and at every injector below, new ones included, and no resolution of it changes anything. The
binding is where it was, as it was, and nobody else on those paths owns the key. The only exception is the key
under which every injector provides itself. -/
theorem resolve_permanent (hReach : Reachable h) (hn : h.isLive n = true) (hKey : key ≠ .injector)
    (hRun : h.resolve n key = some (.ok binding, h')) (hSteps : Steps h' h'') (hn'' : h''.isLive n = true) :
    h''.binding? binding.owner key = some binding ∧
      ∀ m, n ∈ h''.path m →
        h''.resolve m key = some (.ok binding, h'') ∧ binding.owner ∈ h''.path m ∧
          ∀ p ∈ h''.path m, p ≠ binding.owner → h''.binding? p key = none := by
  have hW := hReach.wellFormed
  have hStep : Step h h' := .resolve hn hRun
  have hW' := hStep.wellFormed hW
  have hW'' := hSteps.wellFormed hW'
  have hn' : h'.isLive n = true := ((wellFormed_resolve hW hn hRun).2.1.isLive n).trans hn
  have hOwned := (owned_of_resolve hW hn hRun).steps hW' hn' hSteps hn''
  refine ⟨hOwned.bound, fun m hm => ?_⟩
  have hBelow := hOwned.below hW'' hm
  exact ⟨hBelow.resolve_eq hW'' hKey, hBelow.onPath, fun p hp hOther => hBelow.unique hW'' hKey hp hOther⟩

/-- A child that is created after its grandparent has resolved a key. -/
theorem resolve_permanent_in_circle :
    let key := Key.of .text
    let h := circle key (.of .singleton)
    let h' := (resolve 0 key).after h
    let h'' := (h'.create (some 1) .empty false).2
    Reachable h ∧ h.isLive 0 = true ∧ key ≠ .injector ∧ Steps h' h'' ∧ h''.isLive 0 = true ∧
      h'.isLive 2 = false ∧ 0 ∈ h''.path 2 ∧
      ∃ binding, h.resolve 0 key = some (.ok binding, h') ∧ h''.resolve 2 key = some (.ok binding, h'') := by
  intro key h h' h''
  have hReach := reachable_circle key (.of .singleton)
  have hKey : key ≠ .injector := by decide
  have hSteps : Steps h' h'' := .single (.create fun p hp => by cases hp; rfl)
  have hn'' : h''.isLive 0 = true := by decide
  have hPath : 0 ∈ h''.path 2 := by decide
  obtain ⟨binding, hRun⟩ : ∃ binding, h.resolve 0 key = some (.ok binding, h') :=
    Run.exists_ok_after (by decide)
  exact ⟨hReach, rfl, hKey, hSteps, hn'', by decide, hPath, binding, hRun,
    ((resolve_permanent hReach rfl hKey hRun hSteps hn'').2 2 hPath).1⟩

end InjectorTree.Hierarchy
