import InjectorTree.Proofs.Hierarchy.Shape

/-!
# The core of a hierarchy

A search for a binding leaves marks on a hierarchy even if it fails: scopes that were found are remembered,
bindings that are never published have used up numbers, and user code has changed its state. The *core* is
what remains when those marks are wiped off: the injectors with their bindings and claims, and what is held
of them. Everything that a search asks of a hierarchy depends on its core only, so a search goes on in the
hierarchy in which it began.

* `SameCore` says that two hierarchies have one core; they have one shape then, and agree on bindings too.
* `sameCore_findScope`, `sameCore_makeBinding`: looking for a scope and making a binding keep the core.
-/

namespace InjectorTree

/-- An injector without the scopes it remembers. -/
def Injector.bare (injector : Injector) : Injector :=
  { injector with scopeCache := ∅ }

namespace Hierarchy

/-- The hierarchies differ in marks only. -/
structure SameCore (h' h : Hierarchy) : Prop where
  injector? : ∀ n, (h'.injector? n).map Injector.bare = (h.injector? n).map Injector.bare
  keys : h'.injectors.keys = h.injectors.keys
  holds : h'.holds = h.holds
  nextInjector : h'.nextInjector = h.nextInjector

variable {h h' h'' : Hierarchy} {n : InjectorId} {key : Key}

namespace SameCore

protected theorem refl (h : Hierarchy) : SameCore h h :=
  ⟨fun _ => rfl, rfl, rfl, rfl⟩

protected theorem symm (hs : SameCore h' h) : SameCore h h' :=
  ⟨fun n => (hs.injector? n).symm, hs.keys.symm, hs.holds.symm, hs.nextInjector.symm⟩

protected theorem trans (hs' : SameCore h'' h') (hs : SameCore h' h) : SameCore h'' h where
  injector? n := (hs'.injector? n).trans (hs.injector? n)
  keys := hs'.keys.trans hs.keys
  holds := hs'.holds.trans hs.holds
  nextInjector := hs'.nextInjector.trans hs.nextInjector

theorem sameShape (hs : SameCore h' h) : SameShape h' h where
  injector? n := by
    have hMap := congrArg (Option.map Injector.shape) (hs.injector? n)
    rw [Option.map_map, Option.map_map] at hMap
    exact hMap
  keys := hs.keys
  holds := hs.holds
  nextInjector := hs.nextInjector

theorem exists_injector (hs : SameCore h' h) {injector' : Injector} (hn : h'.injector? n = some injector') :
    ∃ injector, h.injector? n = some injector ∧ injector'.bare = injector.bare := by
  have hMap := hs.injector? n
  rw [hn] at hMap
  obtain ⟨injector, hInjector, hBare⟩ := Option.map_eq_some_iff.mp hMap.symm
  exact ⟨injector, hInjector, hBare.symm⟩

/-- What does not depend on the remembered scopes is the same of both. -/
theorem bind {α : Type} {f : Injector → Option α} (hf : ∀ injector, f injector.bare = f injector)
    (hs : SameCore h' h) (n : InjectorId) : (h'.injector? n).bind f = (h.injector? n).bind f := by
  have hBind : ∀ o : Option Injector, (o.map Injector.bare).bind f = o.bind f := by
    intro o
    cases o with
    | none => rfl
    | some injector => exact hf injector
  rw [← hBind, hs.injector?, hBind]

theorem nearest {α : Type} {f : Injector → Option α} (hf : ∀ injector, f injector.bare = f injector)
    (hs : SameCore h' h) (n : InjectorId) : h'.nearest n f = h.nearest n f := by
  rw [Hierarchy.nearest, Hierarchy.nearest, hs.sameShape.path]
  congr 1
  funext m
  exact hs.bind hf m

theorem isLive (hs : SameCore h' h) (n : InjectorId) : h'.isLive n = h.isLive n :=
  hs.sameShape.isLive n

theorem lineage (hs : SameCore h' h) (n : InjectorId) : h'.lineage n = h.lineage n :=
  hs.sameShape.lineage n

theorem path (hs : SameCore h' h) (n : InjectorId) : h'.path n = h.path n :=
  hs.sameShape.path n

theorem binding? (hs : SameCore h' h) (n : InjectorId) (key : Key) : h'.binding? n key = h.binding? n key :=
  hs.bind (f := (·.binding? key)) (fun _ => rfl) n

theorem bindings (hs : SameCore h' h) (n : InjectorId) : h'.bindings n = h.bindings n := by
  have hElim : ∀ h : Hierarchy, h.bindings n = ((h.injector? n).bind fun i => some i.bindings).getD [] := by
    intro h
    rw [Hierarchy.bindings]
    cases h.injector? n <;> rfl
  rw [hElim, hElim, hs.bind (fun _ => rfl)]

theorem lookup (hs : SameCore h' h) (n : InjectorId) (key : Key) : h'.lookup n key = h.lookup n key :=
  hs.nearest (f := (·.binding? key)) (fun _ => rfl) n

theorem createdBinding? (hs : SameCore h' h) (n : InjectorId) (key : Key) :
    h'.createdBinding? n key = h.createdBinding? n key :=
  hs.nearest (f := (·.created.get? key)) (fun _ => rfl) n

theorem claimants (hs : SameCore h' h) (n : InjectorId) (key : Key) :
    h'.claimants n key = h.claimants n key := by
  rw [Hierarchy.claimants, Hierarchy.claimants, hs.bind (f := (·.claims.get? key)) (fun _ => rfl), funext hs.isLive]

end SameCore

-- ---------------------------------------------------------------------------
-- What keeps the core
-- ---------------------------------------------------------------------------

/-- A change of one injector keeps the core if it changes the remembered scopes only. -/
theorem sameCore_modify (h : Hierarchy) (n : InjectorId) {f : Injector → Injector}
    (hf : ∀ injector, (f injector).bare = injector.bare) : SameCore (h.modify n f) h where
  injector? m := by
    rw [injector?_modify]
    split
    · rw [Option.map_map]
      congr 1
      funext injector
      exact hf injector
    · rfl
  keys := Table.keys_modify ..
  holds := rfl
  nextInjector := rfl

theorem sameCore_findScopeOn (tag : ScopeTag) (ns : List InjectorId) (h : Hierarchy) :
    SameCore (findScopeOn tag ns h).2 h := by
  induction ns with
  | nil => exact SameCore.refl h
  | cons n above ih =>
    unfold findScopeOn
    split
    · exact SameCore.refl h
    · split
      · exact SameCore.refl h
      · split
        · next h' hAbove =>
          rw [hAbove] at ih
          exact ih
        · next registration h' hAbove =>
          rw [hAbove] at ih
          refine SameCore.trans (sameCore_modify h' n ?_) ih
          exact fun _ => rfl

theorem sameCore_findScope (h : Hierarchy) (n : InjectorId) (tag : ScopeTag) :
    SameCore (h.findScope n tag).2 h :=
  sameCore_findScopeOn tag (h.path n) h

/-- Neither user code, nor what layers keep, nor what is held of bindings belongs to the core. -/
theorem sameCore_of_injectors (hInjectors : h'.injectors = h.injectors) (hHolds : h'.holds = h.holds)
    (hNext : h'.nextInjector = h.nextInjector) : SameCore h' h where
  injector? n := by rw [Hierarchy.injector?, Hierarchy.injector?, hInjectors]
  keys := by rw [hInjectors]
  holds := hHolds
  nextInjector := hNext

theorem sameCore_makeBinding (h : Hierarchy) (key : Key) (strategy : Strategy)
    (scope : Option (ScopeTag × Scope)) (source : Source) (origin : Origin) (owner : InjectorId) :
    SameCore (h.makeBinding key strategy scope source origin owner).2 h :=
  sameCore_of_injectors rfl rfl rfl

end Hierarchy

end InjectorTree
