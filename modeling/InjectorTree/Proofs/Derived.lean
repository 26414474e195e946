import InjectorTree.Proofs.Equipped
import InjectorTree.Proofs.NearestScopes

/-!
# Where strategies come from

Nobody makes up a strategy on the way, or a scope. Whatever an injector owns provides the injector itself, or one
instance, or has a strategy that some injector on the path declares, and it is in no scope but one in which something is
declared there. So the keys on which bindings on a path depend are known from what its injectors were created with,
however many bindings are yet to be created, and so are the layers that may be around them.

* `strategies`, `dependencyKeys`, `tags`: the strategies that are declared on a path, the keys on which they depend, and
  the scopes in which something is declared.
* `strategy_cases`: what is known of the strategy of a binding.
* `mem_dependencyKeys`: a key on which a binding on the path depends is one of those.
* `AllLayers.of_binding?`: what holds of the layers that come with the scopes on a path holds of the layers of its bindings.
-/

namespace InjectorTree

/-- The strategies that the injector itself declares, explicitly or implicitly. -/
def Injector.strategies (injector : Injector) : List Strategy :=
  injector.explicit.values.map (·.strategy) ++ injector.implicit.values.map (·.strategy)

/-- The tags of the scopes in which the injector declares something. -/
def Injector.tags (injector : Injector) : List ScopeTag :=
  injector.explicit.values.filterMap (·.scope) ++ injector.implicit.values.filterMap (·.scope)

namespace Hierarchy

open Placement

variable {h h' : Hierarchy} {n p : InjectorId} {key : Key} {binding : Binding}

/-- The strategies that are declared on the path of an injector. -/
def strategies (h : Hierarchy) (n : InjectorId) : List Strategy :=
  h.collect (h.path n) Injector.strategies

/-- The keys on which the strategies depend that are declared on the path. -/
def dependencyKeys (h : Hierarchy) (n : InjectorId) : List Key :=
  (h.strategies n).flatMap Strategy.dependencies

/-- The tags of the scopes in which something is declared on the path. -/
def tags (h : Hierarchy) (n : InjectorId) : List ScopeTag :=
  h.collect (h.path n) Injector.tags

-- ---------------------------------------------------------------------------
-- What is declared on a path
-- ---------------------------------------------------------------------------

theorem strategies_subset (hR : h.Rooted) (hp : p ∈ h.path n) : h.strategies p ⊆ h.strategies n := by
  intro strategy hMem
  obtain ⟨q, hq, hOwn⟩ := mem_collect.mp hMem
  exact mem_collect.mpr ⟨q, hR.mem_path_trans hp hq, hOwn⟩

theorem dependencyKeys_subset (hR : h.Rooted) (hp : p ∈ h.path n) : h.dependencyKeys p ⊆ h.dependencyKeys n := by
  intro key hMem
  obtain ⟨strategy, hStrategy, hKey⟩ := List.mem_flatMap.mp hMem
  exact List.mem_flatMap.mpr ⟨strategy, strategies_subset hR hp hStrategy, hKey⟩

theorem tags_subset (hR : h.Rooted) (hp : p ∈ h.path n) : h.tags p ⊆ h.tags n := by
  intro tag hMem
  obtain ⟨q, hq, hOwn⟩ := mem_collect.mp hMem
  exact mem_collect.mpr ⟨q, hR.mem_path_trans hp hq, hOwn⟩

theorem SameShapeOn.tags {Seen : InjectorId → Prop} (hs : SameShapeOn Seen h' h) (hn : Seen n) :
    h'.tags n = h.tags n := by
  rw [Hierarchy.tags, Hierarchy.tags, hs.path hn]
  exact hs.collect (fun _ => rfl) fun _ hp => hs.seen_of_mem_path hn hp

theorem SameShapeOn.strategies {Seen : InjectorId → Prop} (hs : SameShapeOn Seen h' h) (hn : Seen n) :
    h'.strategies n = h.strategies n := by
  rw [Hierarchy.strategies, Hierarchy.strategies, hs.path hn]
  exact hs.collect (fun _ => rfl) fun _ hp => hs.seen_of_mem_path hn hp

/-- They stay the same as long as the injector lives. -/
theorem Continues.strategies (hC : Continues h h') (hR : h.Rooted) (hR' : h'.Rooted) (hn : h.isLive n = true)
    (hn' : h'.isLive n = true) : h'.strategies n = h.strategies n :=
  (hC.sameShapeOn hR hR' hn hn').strategies self_mem_path

theorem Continues.dependencyKeys (hC : Continues h h') (hR : h.Rooted) (hR' : h'.Rooted) (hn : h.isLive n = true)
    (hn' : h'.isLive n = true) : h'.dependencyKeys n = h.dependencyKeys n := by
  rw [Hierarchy.dependencyKeys, hC.strategies hR hR' hn hn', Hierarchy.dependencyKeys]

theorem mem_strategies_of_declaration? {declaration : Declaration}
    (hDeclared : h.declaration? n key = some declaration) : declaration.strategy ∈ h.strategies n := by
  obtain ⟨p, hp, injector, hInjector, hGet⟩ := exists_of_nearest hDeclared
  refine mem_collect.mpr ⟨p, hp, injector, hInjector, List.mem_append_right _ ?_⟩
  exact List.mem_map_of_mem (Table.mem_values_of_get? hGet)

theorem mem_tags_of_declaration? {declaration : Declaration} {tag : ScopeTag}
    (hDeclared : h.declaration? n key = some declaration) (hTag : declaration.scope = some tag) : tag ∈ h.tags n := by
  obtain ⟨p, hp, injector, hInjector, hGet⟩ := exists_of_nearest hDeclared
  refine mem_collect.mpr ⟨p, hp, injector, hInjector, List.mem_append_right _ ?_⟩
  exact List.mem_filterMap.mpr ⟨declaration, Table.mem_values_of_get? hGet, hTag⟩

-- ---------------------------------------------------------------------------
-- What bindings have
-- ---------------------------------------------------------------------------

/-- The binding provides one instance, or has a strategy that is declared on the path of its owner, and something is
declared in its scope there. -/
structure Derived (h : Hierarchy) (binding : Binding) : Prop where
  strategy : (∃ value, binding.strategy = .fixed value) ∨ binding.strategy ∈ h.strategies binding.owner
  scope : ∀ tag, binding.scope = some tag → tag ∈ h.tags binding.owner

theorem Made.derived (hM : h.Made binding) : h.Derived binding := by
  rcases hM with ⟨declaration, hStartable, hBuilt⟩ | ⟨conversion, -, hConverted⟩
  · refine ⟨Or.inr ?_, fun tag hTag => ?_⟩
    · rw [hBuilt.strategy]
      exact mem_strategies_of_declaration? hStartable.declared
    · exact mem_tags_of_declaration? hStartable.declared (hBuilt.scope.symm.trans hTag)
  · refine ⟨Or.inl hConverted.strategy, fun tag hTag => ?_⟩
    rw [hConverted.scope] at hTag
    cases hTag

/-- What injectors declare stays the same, so what is derived stays so. -/
theorem SameShapeOn.derived {Seen : InjectorId → Prop} (hs : SameShapeOn Seen h' h) (hOwner : Seen binding.owner)
    (hD : h.Derived binding) : h'.Derived binding where
  strategy := by
    rw [hs.strategies hOwner]
    exact hD.strategy
  scope := by
    rw [hs.tags hOwner]
    exact hD.scope

/-- Whatever was created or converted on demand is derived. -/
def AllDerived (h : Hierarchy) : Prop :=
  ∀ p key binding, h.binding? p key = some binding → binding.origin = .justInTime ∨ binding.origin = .converted →
    h.Derived binding

theorem Step.allDerived (hW : h.WellFormed) (hAll : h.AllDerived) (hStep : Step h h') : h'.AllDerived := by
  intro p key binding hb hOrigin
  have hW' := hStep.wellFormed hW
  obtain rfl := (hW'.binding? hb).2.1
  have hLive' := isLive_of_binding? hb
  rcases hStep.exists_draft hW hb hOrigin with hOld | ⟨n, result, d, hn, rfl, hF, -, hMem⟩
  · have hShape := (hStep.continues hW).sameShapeOn hW.rooted hW'.rooted (isLive_of_binding? hOld) hLive'
    exact hShape.derived self_mem_path (hAll _ key binding hOld hOrigin)
  · obtain ⟨-, hShape, -⟩ := publish_spec hW hn hF
    exact hShape.on.derived trivial (hF.made binding hMem).derived

theorem Reachable.allDerived (hReach : Reachable h) : h.AllDerived := by
  induction hReach with
  | refl =>
    intro p key binding hb
    cases hb
  | tail hBefore hStep ih => exact hStep.allDerived (Reachable.wellFormed hBefore) ih

/-- Whatever an injector owns provides the injector, or is derived. -/
theorem derived_of_binding? (hReach : Reachable h) (hb : h.binding? p key = some binding) :
    binding.strategy = .itself ∧ binding.scope = none ∨ h.Derived binding := by
  have hW := hReach.wellFormed
  obtain ⟨injector, hInjector, hOwn⟩ := Option.bind_eq_some_iff.mp hb
  by_cases hKey : key = .injector
  · subst hKey
    exact Or.inl (hW.provided_itself hb)
  · refine Or.inr ?_
    have hOwner : h.injector? binding.owner = some injector := by rw [(hW.binding? hb).2.1, hInjector]
    rw [Injector.binding?_of_ne hKey] at hOwn
    cases hExplicit : injector.explicit.get? key with
    | some own =>
      rw [hExplicit, Option.some_or, Option.some.injEq] at hOwn
      subst hOwn
      have hMem := Table.mem_values_of_get? hExplicit
      refine ⟨Or.inr (mem_collect.mpr ⟨_, self_mem_path, injector, hOwner, List.mem_append_left _ ?_⟩), fun tag hTag => ?_⟩
      · exact List.mem_map_of_mem hMem
      · refine mem_collect.mpr ⟨_, self_mem_path, injector, hOwner, List.mem_append_left _ ?_⟩
        exact List.mem_filterMap.mpr ⟨own, hMem, hTag⟩
    | none =>
      rw [hExplicit, Option.none_or] at hOwn
      exact hReach.allDerived p key binding hb ((hW.coherent hInjector).created hOwn).2.2.1

theorem strategy_cases (hReach : Reachable h) (hb : h.binding? p key = some binding) :
    binding.strategy = .itself ∨ (∃ value, binding.strategy = .fixed value) ∨
      binding.strategy ∈ h.strategies binding.owner :=
  (derived_of_binding? hReach hb).imp And.left Derived.strategy

/-- A key on which a binding on the path depends is one on which something depends that is declared on the path. -/
theorem mem_dependencyKeys (hReach : Reachable h) (hp : p ∈ h.path n) (hb : h.binding? p key = some binding)
    {dependency : Key} (hDependency : dependency ∈ binding.strategy.dependencies) :
    dependency ∈ h.dependencyKeys n := by
  rcases strategy_cases hReach hb with hItself | ⟨value, hFixed⟩ | hDeclared
  · rw [hItself] at hDependency
    cases hDependency
  · rw [hFixed] at hDependency
    cases hDependency
  · rw [(hReach.wellFormed.binding? hb).2.1] at hDeclared
    exact List.mem_flatMap.mpr
      ⟨binding.strategy, strategies_subset hReach.wellFormed.rooted hp hDeclared, hDependency⟩

-- ---------------------------------------------------------------------------
-- The layers around bindings
-- ---------------------------------------------------------------------------

/-- Whatever is declared on the path of the injector is declared in scopes whose layers are of the kind, for every
injector on the path. -/
def AllLayers (Q : Layer → Prop) (n : InjectorId) (h : Hierarchy) : Prop :=
  ∀ tag ∈ h.tags n, ∀ m ∈ h.path n, ∀ registration, h.nearestScope m tag = some registration →
    ∀ key user, ∀ layer ∈ (registration.scope.wrap key user).1, Q layer

variable {Q : Layer → Prop}

theorem AllLayers.up (hAll : AllLayers Q n h) (hR : h.Rooted) (hp : p ∈ h.path n) : AllLayers Q p h :=
  fun tag hTag m hm => hAll tag (tags_subset hR hp hTag) m (hR.mem_path_trans hp hm)

theorem SameShape.allLayers (hs : SameShape h' h) (hAll : AllLayers Q n h) : AllLayers Q n h' := by
  intro tag hTag m hm registration hNearest
  rw [hs.on.tags trivial] at hTag
  rw [hs.path] at hm
  rw [hs.nearestScope] at hNearest
  exact hAll tag hTag m hm registration hNearest

/-- The layers of whatever is owned on the path are of the kind, too. -/
theorem AllLayers.of_binding? (hAll : AllLayers Q n h) (hReach : Reachable h) (hp : p ∈ h.path n)
    (hb : h.binding? p key = some binding) : ∀ layer ∈ binding.layers, Q layer := by
  obtain ⟨before, after, hWrapped⟩ := hReach.allWrapped p key binding hb
  obtain rfl := (hReach.wellFormed.binding? hb).2.1
  cases hScope : binding.scope with
  | none =>
    rw [(hWrapped.bare hScope).1]
    exact fun layer hMem => nomatch hMem
  | some tag =>
    have hTag : tag ∈ h.tags binding.owner := by
      rcases derived_of_binding? hReach hb with ⟨-, hNone⟩ | hD
      · rw [hScope] at hNone
        cases hNone
      · exact hD.scope tag hScope
    obtain ⟨registration, hNearest, hWrap⟩ := hWrapped.wrapped tag hScope
    have hOfKind := hAll tag (tags_subset hReach.wellFormed.rooted hp hTag) binding.owner hp registration hNearest
      binding.key before
    rw [hWrap] at hOfKind
    exact hOfKind

end Hierarchy

end InjectorTree
