import InjectorTree.Placement
import InjectorTree.Proofs.Hierarchy.Paths

/-!
# The shape of a hierarchy

Requests add bindings and claims to the injectors of a hierarchy and let them remember scopes. What an
injector was created with stays: its lineage and everything its modules declared. That is its *shape*.

* `SameShape` says that two hierarchies consist of the same injectors up to what requests change, and
  `SameShapeOn` that they do so as far as some injectors are concerned; the lemmas below it list what they agree
  on.
* `Rooted.of_sameShape`: whether the injectors form trees is a matter of shape.
-/

namespace InjectorTree

/-- An injector as it was created: without created bindings, claims and remembered scopes. -/
def Injector.shape (injector : Injector) : Injector :=
  { injector with created := ∅, claims := ∅, scopeCache := ∅ }

namespace Hierarchy

/-- The hierarchies consist of the same injectors, up to what requests change. -/
structure SameShape (h' h : Hierarchy) : Prop where
  injector? : ∀ n, (h'.injector? n).map Injector.shape = (h.injector? n).map Injector.shape
  keys : h'.injectors.keys = h.injectors.keys
  holds : h'.holds = h.holds
  nextInjector : h'.nextInjector = h.nextInjector

variable {h h' h'' : Hierarchy} {n : InjectorId}

namespace SameShape

protected theorem refl (h : Hierarchy) : SameShape h h :=
  ⟨fun _ => rfl, rfl, rfl, rfl⟩

protected theorem symm (hs : SameShape h' h) : SameShape h h' :=
  ⟨fun n => (hs.injector? n).symm, hs.keys.symm, hs.holds.symm, hs.nextInjector.symm⟩

protected theorem trans (hs' : SameShape h'' h') (hs : SameShape h' h) : SameShape h'' h where
  injector? n := (hs'.injector? n).trans (hs.injector? n)
  keys := hs'.keys.trans hs.keys
  holds := hs'.holds.trans hs.holds
  nextInjector := hs'.nextInjector.trans hs.nextInjector

end SameShape

/-- The hierarchies agree on the shapes of the injectors that are seen, and with an injector its ancestors are. -/
structure SameShapeOn (Seen : InjectorId → Prop) (h' h : Hierarchy) : Prop where
  closed : ∀ {n p : InjectorId}, Seen n → p ∈ h.lineage n → Seen p
  injector? : ∀ {n : InjectorId}, Seen n → (h'.injector? n).map Injector.shape = (h.injector? n).map Injector.shape

namespace SameShapeOn

variable {Seen : InjectorId → Prop}

/-- What depends on the shape only is the same of both. -/
theorem bind {α : Type} {f : Injector → Option α} (hf : ∀ injector, f injector.shape = f injector)
    (hs : SameShapeOn Seen h' h) (hn : Seen n) : (h'.injector? n).bind f = (h.injector? n).bind f := by
  have hBind : ∀ o : Option Injector, (o.map Injector.shape).bind f = o.bind f := by
    intro o
    cases o with
    | none => rfl
    | some injector => exact hf injector
  rw [← hBind, hs.injector? hn, hBind]

theorem isLive (hs : SameShapeOn Seen h' h) (hn : Seen n) : h'.isLive n = h.isLive n := by
  have hSome := congrArg Option.isSome (hs.injector? hn)
  rwa [Option.isSome_map, Option.isSome_map] at hSome

theorem lineage (hs : SameShapeOn Seen h' h) (hn : Seen n) : h'.lineage n = h.lineage n := by
  have hLineage : ∀ h : Hierarchy, h.lineage n = ((h.injector? n).bind fun i => some i.lineage).getD [] := by
    intro h
    rw [Hierarchy.lineage]
    cases h.injector? n <;> rfl
  rw [hLineage, hLineage, hs.bind (fun _ => rfl) hn]

theorem path (hs : SameShapeOn Seen h' h) (hn : Seen n) : h'.path n = h.path n := by
  rw [Hierarchy.path, Hierarchy.path, hs.lineage hn]

theorem seen_of_mem_path (hs : SameShapeOn Seen h' h) (hn : Seen n) {p : InjectorId} (hp : p ∈ h.path n) :
    Seen p := by
  rcases mem_path_iff.mp hp with rfl | hp
  · exact hn
  · exact hs.closed hn hp

theorem isExplicitOnly (hs : SameShapeOn Seen h' h) (hn : Seen n) :
    h'.isExplicitOnly n = h.isExplicitOnly n := by
  have hOnly : ∀ h : Hierarchy,
      h.isExplicitOnly n = ((h.injector? n).bind fun i => some i.explicitOnly).getD false := by
    intro h
    rw [Hierarchy.isExplicitOnly]
    cases h.injector? n <;> rfl
  rw [hOnly, hOnly, hs.bind (fun _ => rfl) hn]

/-- The nearest answer is the same if the answers of all that are seen are. -/
theorem nearest_congr {α : Type} {f : Injector → Option α} (hs : SameShapeOn Seen h' h)
    (hf : ∀ p, Seen p → (h'.injector? p).bind f = (h.injector? p).bind f) (hn : Seen n) :
    h'.nearest n f = h.nearest n f := by
  have hFound : ∀ ps : List InjectorId, (∀ p ∈ ps, Seen p) →
      (ps.findSome? fun p => (h'.injector? p).bind f) = ps.findSome? fun p => (h.injector? p).bind f := by
    intro ps hSeen
    induction ps with
    | nil => rfl
    | cons p rest ih =>
      rw [List.findSome?_cons, List.findSome?_cons, hf p (hSeen p List.mem_cons_self),
        ih fun q hq => hSeen q (List.mem_cons_of_mem p hq)]
  rw [Hierarchy.nearest, Hierarchy.nearest, hs.path hn]
  exact hFound _ fun p hp => hs.seen_of_mem_path hn hp

theorem nearest {α : Type} {f : Injector → Option α} (hf : ∀ injector, f injector.shape = f injector)
    (hs : SameShapeOn Seen h' h) (hn : Seen n) : h'.nearest n f = h.nearest n f :=
  hs.nearest_congr (fun _ hp => hs.bind hf hp) hn

theorem collect {α : Type} {f : Injector → List α} (hf : ∀ injector, f injector.shape = f injector)
    (hs : SameShapeOn Seen h' h) {ns : List InjectorId} (hns : ∀ n ∈ ns, Seen n) :
    h'.collect ns f = h.collect ns f := by
  have hElim : ∀ (h : Hierarchy) (m : InjectorId),
      (h.injector? m).elim [] f = ((h.injector? m).bind fun i => some (f i)).getD [] := by
    intro h m
    cases h.injector? m <;> rfl
  rw [Hierarchy.collect, Hierarchy.collect]
  rw [List.flatMap_def, List.flatMap_def]
  congr 1
  refine List.map_congr_left fun m hm => ?_
  rw [hElim, hElim, hs.bind (fun injector => by rw [hf]) (hns m hm)]

theorem explicitBinding? (hs : SameShapeOn Seen h' h) (hn : Seen n) (key : Key) :
    h'.explicitBinding? n key = h.explicitBinding? n key :=
  hs.nearest (f := (·.explicit.get? key)) (fun _ => rfl) hn

theorem declaration? (hs : SameShapeOn Seen h' h) (hn : Seen n) (key : Key) :
    h'.declaration? n key = h.declaration? n key :=
  hs.nearest (f := (·.implicit.get? key)) (fun _ => rfl) hn

theorem nearestScope (hs : SameShapeOn Seen h' h) (hn : Seen n) (tag : ScopeTag) :
    h'.nearestScope n tag = h.nearestScope n tag :=
  hs.nearest (f := (·.scopes.get? tag)) (fun _ => rfl) hn

theorem converters (hs : SameShapeOn Seen h' h) (hn : Seen n) : h'.converters n = h.converters n := by
  rw [Hierarchy.converters, Hierarchy.converters, hs.path hn]
  exact hs.collect (f := (·.converters)) (fun _ => rfl) fun _ hp => hs.seen_of_mem_path hn hp

theorem conversion? (hs : SameShapeOn Seen h' h) (hn : Seen n) (key : Key) :
    Placement.conversion? h' n key = Placement.conversion? h n key := by
  unfold Placement.conversion?
  rw [hs.explicitBinding? hn, hs.converters hn]

/-- The bound on the depth of a search is the same. -/
theorem depthBound (hs : SameShapeOn Seen h' h) (hn : Seen n) :
    Placement.depthBound h' n = Placement.depthBound h n := by
  have hKeys : h'.collect (h.path n) (·.implicit.keys) = h.collect (h.path n) (·.implicit.keys) :=
    hs.collect (fun _ => rfl) fun _ hp => hs.seen_of_mem_path hn hp
  rw [Placement.depthBound, Placement.depthBound, Placement.declaredKeys, Placement.declaredKeys, hs.path hn, hKeys]

end SameShapeOn

namespace SameShape

/-- Shapes that are the same everywhere are so on whatever is seen. -/
theorem on (hs : SameShape h' h) : SameShapeOn (fun _ => True) h' h :=
  ⟨fun _ _ => trivial, fun _ => hs.injector? _⟩

theorem bind {α : Type} {f : Injector → Option α} (hf : ∀ injector, f injector.shape = f injector)
    (hs : SameShape h' h) (n : InjectorId) : (h'.injector? n).bind f = (h.injector? n).bind f :=
  hs.on.bind hf trivial

theorem isLive (hs : SameShape h' h) (n : InjectorId) : h'.isLive n = h.isLive n :=
  hs.on.isLive trivial

theorem lineage (hs : SameShape h' h) (n : InjectorId) : h'.lineage n = h.lineage n :=
  hs.on.lineage trivial

theorem path (hs : SameShape h' h) (n : InjectorId) : h'.path n = h.path n :=
  hs.on.path trivial

theorem isBelow (hs : SameShape h' h) (m n : InjectorId) : h'.isBelow m n = h.isBelow m n := by
  rw [Hierarchy.isBelow, Hierarchy.isBelow, hs.lineage]

theorem isExplicitOnly (hs : SameShape h' h) (n : InjectorId) :
    h'.isExplicitOnly n = h.isExplicitOnly n :=
  hs.on.isExplicitOnly trivial

theorem nearest {α : Type} {f : Injector → Option α} (hf : ∀ injector, f injector.shape = f injector)
    (hs : SameShape h' h) (n : InjectorId) : h'.nearest n f = h.nearest n f :=
  hs.on.nearest hf trivial

theorem collect {α : Type} {f : Injector → List α} (hf : ∀ injector, f injector.shape = f injector)
    (hs : SameShape h' h) (ns : List InjectorId) : h'.collect ns f = h.collect ns f :=
  hs.on.collect hf fun _ _ => trivial

theorem explicitBinding? (hs : SameShape h' h) (n : InjectorId) (key : Key) :
    h'.explicitBinding? n key = h.explicitBinding? n key :=
  hs.on.explicitBinding? trivial key

theorem declaration? (hs : SameShape h' h) (n : InjectorId) (key : Key) :
    h'.declaration? n key = h.declaration? n key :=
  hs.on.declaration? trivial key

theorem nearestScope (hs : SameShape h' h) (n : InjectorId) (tag : ScopeTag) :
    h'.nearestScope n tag = h.nearestScope n tag :=
  hs.on.nearestScope trivial tag

theorem converters (hs : SameShape h' h) (n : InjectorId) : h'.converters n = h.converters n :=
  hs.on.converters trivial

theorem hooks (hs : SameShape h' h) (n : InjectorId) : h'.hooks n = h.hooks n := by
  rw [Hierarchy.hooks, hs.path, Hierarchy.hooks]
  exact hs.collect (fun _ => rfl) _

theorem conversion? (hs : SameShape h' h) (n : InjectorId) (key : Key) :
    Placement.conversion? h' n key = Placement.conversion? h n key :=
  hs.on.conversion? trivial key

end SameShape

/-- A change of one injector keeps the shape if it changes nothing that the injector was created with. -/
theorem sameShape_modify (h : Hierarchy) (n : InjectorId) {f : Injector → Injector}
    (hf : ∀ injector, (f injector).shape = injector.shape) : SameShape (h.modify n f) h where
  injector? m := by
    rw [injector?_modify]
    split
    · rw [Option.map_map]
      congr 1
      funext injector
      exact hf injector
    · rfl
  keys := Table.keys_modify ..
  holds := rfl
  nextInjector := rfl

theorem sameShape_foldl_modify {f : Injector → Injector}
    (hf : ∀ injector, (f injector).shape = injector.shape) (ns : List InjectorId) (h : Hierarchy) :
    SameShape (ns.foldl (fun h n => h.modify n f) h) h := by
  induction ns generalizing h with
  | nil => exact SameShape.refl h
  | cons n rest ih => exact (ih (h.modify n f)).trans (sameShape_modify h n hf)

theorem injector?_foldl_modify {f : Injector → Injector} {ns : List InjectorId} (hNodup : ns.Nodup)
    (h : Hierarchy) (m : InjectorId) :
    (ns.foldl (fun h n => h.modify n f) h).injector? m =
      if m ∈ ns then (h.injector? m).map f else h.injector? m := by
  induction ns generalizing h with
  | nil => rfl
  | cons n rest ih =>
    -- the first one is not changed again, as it is not among the rest
    rw [List.nodup_cons] at hNodup
    rw [List.foldl_cons, ih hNodup.2, injector?_modify]
    by_cases hEq : n = m
    · subst hEq
      rw [if_neg hNodup.1, if_pos rfl, if_pos List.mem_cons_self]
    · rw [if_neg hEq]
      by_cases hMem : m ∈ rest
      · rw [if_pos hMem, if_pos (List.mem_cons_of_mem n hMem)]
      · rw [if_neg hMem, if_neg fun h => (List.mem_cons.mp h).elim (Ne.symm hEq) hMem]

/-- What changes nothing but injectors does not, however often it is done. -/
theorem foldl_eq_of_injectors {α : Type} {step : Hierarchy → α → Hierarchy}
    (hStep : ∀ h a, ∃ injectors, step h a = { h with injectors }) (list : List α) (h : Hierarchy) :
    ∃ injectors, list.foldl step h = { h with injectors } := by
  induction list generalizing h with
  | nil => exact ⟨h.injectors, rfl⟩
  | cons first rest ih =>
    obtain ⟨injectors, hFirst⟩ := hStep h first
    obtain ⟨injectors', hRest⟩ := ih (step h first)
    rw [hFirst] at hRest
    refine ⟨injectors', ?_⟩
    rw [List.foldl_cons, hFirst]
    exact hRest

theorem Rooted.of_sameShape (hR : h.Rooted) (hs : SameShape h' h) : h'.Rooted where
  distinct := by
    rw [hs.keys]
    exact hR.distinct
  fresh hLive := by
    rw [hs.isLive] at hLive
    rw [hs.nextInjector]
    exact hR.fresh hLive
  parent hn := by
    rw [hs.lineage] at hn
    rw [hs.isLive, hs.lineage, hs.isExplicitOnly, hs.isExplicitOnly]
    exact hR.parent hn
  held hn := by
    rw [hs.holds] at hn
    rw [hs.isLive]
    exact hR.held hn

end Hierarchy

end InjectorTree
