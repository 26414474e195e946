import Mathlib.Data.List.Basic
import InjectorTree.Hierarchy.Lifetime
import InjectorTree.Proofs.Hierarchy.Core

/-!
# Other numbers for bindings

The numbers of bindings tell bindings apart, and that is all they do. A hierarchy in which the bindings have other
numbers is a *mirror* of the first one: it answers in the same way, with the other numbers in its answers. The
scopes that injectors remember are left aside.

* `Mirror`: the relation, for a renumbering that keeps distinct numbers distinct and continues to do so for numbers
  that are still to be given out.
* `Mirror.lineage`, `Mirror.claimants` and so on: answers that do not speak of numbers are the same.
* `Mirror.binding?`, `Mirror.nearest_map` and so on: bindings in answers are the renumbered ones.
* `Mirror.isReferred`: the same injectors are referred to.
-/

namespace InjectorTree

namespace Table

variable {κ κ' ν μ : Type} [DecidableEq κ] [DecidableEq κ']

/-- Changes every key. -/
def mapKeys (t : Table κ ν) (f : κ → κ') : Table κ' ν :=
  ⟨t.entries.map fun entry => (f entry.1, entry.2)⟩

theorem get?_mapKeys {f : κ → κ'} (hf : Function.Injective f) (t : Table κ ν) (k : κ) :
    (t.mapKeys f).get? (f k) = t.get? k := by
  obtain ⟨entries⟩ := t
  simp only [get?, mapKeys, List.findSome?_map, Function.comp_def, hf.eq_iff]

theorem mapKeys_insert {f : κ → κ'} (hf : Function.Injective f) (t : Table κ ν) (k : κ) (v : ν) :
    (t.insert k v).mapKeys f = (t.mapKeys f).insert (f k) v := by
  obtain ⟨entries⟩ := t
  simp only [insert, mapKeys, mk.injEq]
  induction entries with
  | nil => rfl
  | cons entry rest ih =>
    simp only [insertEntry, List.map_cons, hf.eq_iff]
    split
    · rfl
    · rw [List.map_cons, ih]

theorem mapValues_insert (t : Table κ ν) (k : κ) (v : ν) (f : κ → ν → μ) :
    (t.insert k v).mapValues f = (t.mapValues f).insert k (f k v) := by
  obtain ⟨entries⟩ := t
  simp only [insert, mapValues, mk.injEq]
  induction entries with
  | nil => rfl
  | cons entry rest ih =>
    simp only [insertEntry, List.map_cons]
    split
    · rfl
    · rw [List.map_cons, ih]

theorem mapValues_insertNew (t : Table κ ν) (k : κ) (v : ν) (f : κ → ν → μ) :
    (t.insertNew k v).mapValues f = (t.mapValues f).insertNew k (f k v) := by
  unfold insertNew contains
  rw [get?_mapValues, Option.isSome_map]
  split
  · rfl
  · exact mapValues_insert t k v f

omit [DecidableEq κ] in
theorem mapValues_mapValues {ξ : Type} (t : Table κ ν) (f : κ → ν → μ) (g : κ → μ → ξ) :
    (t.mapValues f).mapValues g = t.mapValues fun k v => g k (f k v) := by
  simp only [mapValues, List.map_map, Function.comp_def]

omit [DecidableEq κ] in
theorem values_mapValues (t : Table κ ν) (f : ν → μ) : (t.mapValues fun _ => f).values = t.values.map f := by
  simp only [values, mapValues, List.map_map, Function.comp_def]

omit [DecidableEq κ] in
theorem mapValues_filter (t : Table κ ν) (p : κ → Bool) (f : κ → ν → μ) :
    (t.filter fun k _ => p k).mapValues f = (t.mapValues f).filter fun k _ => p k := by
  simp only [filter, mapValues, List.filter_map, Function.comp_def]

/-- Tables with the same keys and the same values for them are one. -/
theorem eq_of_get? {t t' : Table κ ν} (hNodup : t.keys.Nodup) (hKeys : t'.keys = t.keys)
    (hGet : ∀ k, t'.get? k = t.get? k) : t' = t := by
  have hPairs : ∀ {s : Table κ ν}, s.keys.Nodup →
      s.entries = s.keys.filterMap fun k => (s.get? k).map fun v => (k, v) := by
    intro s hs
    rw [keys, List.filterMap_map]
    refine (List.filterMap_some.symm.trans (List.filterMap_congr fun entry hMem => ?_))
    simp only [Function.comp_apply]
    rw [(get?_eq_some_iff hs).mpr hMem, Option.map_some]
  have hEntries : t'.entries = t.entries := by
    rw [hPairs (hKeys ▸ hNodup), hPairs hNodup, hKeys]
    exact List.filterMap_congr fun k _ => by rw [hGet]
  obtain ⟨entries⟩ := t
  obtain ⟨entries'⟩ := t'
  exact congrArg mk hEntries

end Table

-- ---------------------------------------------------------------------------
-- Renumbering
-- ---------------------------------------------------------------------------

/-- The binding with another number. -/
def Binding.renumber (ρ : BindingId → BindingId) (binding : Binding) : Binding :=
  { binding with id := ρ binding.id }

/-- The injector with other numbers for its bindings. -/
def Injector.renumber (ρ : BindingId → BindingId) (injector : Injector) : Injector :=
  { injector with
    itself := injector.itself.renumber ρ
    explicit := injector.explicit.mapValues fun _ binding => binding.renumber ρ
    created := injector.created.mapValues fun _ binding => binding.renumber ρ }

variable {ρ : BindingId → BindingId}

theorem Injector.binding?_renumber (injector : Injector) (key : Key) :
    (injector.renumber ρ).binding? key = (injector.binding? key).map (Binding.renumber ρ) := by
  simp only [Injector.binding?, Injector.renumber, Table.get?_mapValues]
  split
  · rfl
  · exact Option.map_or.symm

theorem Injector.bindings_renumber (injector : Injector) :
    (injector.renumber ρ).bindings = injector.bindings.map (Binding.renumber ρ) := by
  simp only [Injector.bindings, Injector.renumber, Table.values_mapValues, List.map_cons, List.map_append]

namespace Hierarchy

/-- The second hierarchy is the first one with other numbers for its bindings, up to remembered scopes. -/
structure Mirror (ρ : BindingId → BindingId) (h h' : Hierarchy) : Prop where
  injective : Function.Injective ρ
  injectors : h'.injectors.mapValues (fun _ injector => injector.bare) =
    h.injectors.mapValues fun _ injector => (injector.renumber ρ).bare
  holds : h'.holds = h.holds
  heldBindings : h'.heldBindings = h.heldBindings.map ρ
  nextInjector : h'.nextInjector = h.nextInjector
  nextBinding : ∀ i, ρ (h.nextBinding + i) = h'.nextBinding + i
  kept : h'.kept = h.kept.mapKeys fun place => (ρ place.1, place.2)
  user : h'.user = h.user

variable {h h' : Hierarchy} {n m : InjectorId} {key : Key}

namespace Mirror

-- ---------------------------------------------------------------------------
-- Single injectors
-- ---------------------------------------------------------------------------

/-- What does not depend on remembered scopes is found in the renumbered injector. -/
theorem map {α : Type} {f : Injector → α} (hBare : ∀ injector, f injector.bare = f injector) (hM : Mirror ρ h h')
    (n : InjectorId) : (h'.injector? n).map f = (h.injector? n).map fun injector => f (injector.renumber ρ) := by
  have hInjector := congrArg (fun t => (t.get? n).map f) hM.injectors
  simp only [Table.get?_mapValues, Option.map_map, Function.comp_def, hBare] at hInjector
  exact hInjector

theorem bind_map {α : Type} {f : Injector → Option α} {g : α → α} (hBare : ∀ injector, f injector.bare = f injector)
    (hf : ∀ injector, f (injector.renumber ρ) = (f injector).map g) (hM : Mirror ρ h h') (n : InjectorId) :
    (h'.injector? n).bind f = ((h.injector? n).bind f).map g := by
  have hMap := congrArg Option.join (hM.map hBare n)
  simp only [hf] at hMap
  cases hn' : h'.injector? n <;> cases hn : h.injector? n <;> rw [hn, hn'] at hMap <;> exact hMap

/-- What depends on nothing that is renumbered is the same of both. -/
theorem elim {α : Type} {f : Injector → α} (hBare : ∀ injector, f injector.bare = f injector)
    (hf : ∀ injector, f (injector.renumber ρ) = f injector) (hM : Mirror ρ h h') (default : α) (n : InjectorId) :
    (h'.injector? n).elim default f = (h.injector? n).elim default f := by
  have hMap := congrArg (Option.getD · default) (hM.map hBare n)
  simp only [hf] at hMap
  cases hn' : h'.injector? n <;> cases hn : h.injector? n <;> rw [hn, hn'] at hMap <;> exact hMap

theorem bind {α : Type} {f : Injector → Option α} (hBare : ∀ injector, f injector.bare = f injector)
    (hf : ∀ injector, f (injector.renumber ρ) = f injector) (hM : Mirror ρ h h') (n : InjectorId) :
    (h'.injector? n).bind f = (h.injector? n).bind f := by
  rw [hM.bind_map (g := id) hBare (fun injector => by rw [hf, Option.map_id_apply]) n, Option.map_id_apply]

theorem keys (hM : Mirror ρ h h') : h'.injectors.keys = h.injectors.keys := by
  have hKeys := congrArg Table.keys hM.injectors
  rwa [Table.keys_mapValues, Table.keys_mapValues] at hKeys

theorem isLive (hM : Mirror ρ h h') (n : InjectorId) : h'.isLive n = h.isLive n := by
  have hSome := congrArg Option.isSome (hM.map (f := Injector.bare) (fun _ => rfl) n)
  rwa [Option.isSome_map, Option.isSome_map] at hSome

theorem lineage (hM : Mirror ρ h h') (n : InjectorId) : h'.lineage n = h.lineage n := by
  have hElim : ∀ h : Hierarchy, h.lineage n = (h.injector? n).elim [] (·.lineage) := by
    intro h
    rw [Hierarchy.lineage]
    cases h.injector? n <;> rfl
  rw [hElim, hElim, hM.elim (fun _ => rfl) fun _ => rfl]

theorem path (hM : Mirror ρ h h') (n : InjectorId) : h'.path n = h.path n := by
  rw [Hierarchy.path, Hierarchy.path, hM.lineage]

theorem isExplicitOnly (hM : Mirror ρ h h') (n : InjectorId) : h'.isExplicitOnly n = h.isExplicitOnly n :=
  hM.elim (f := (·.explicitOnly)) (fun _ => rfl) (fun _ => rfl) false n

theorem claimants (hM : Mirror ρ h h') (n : InjectorId) (key : Key) : h'.claimants n key = h.claimants n key := by
  rw [Hierarchy.claimants, Hierarchy.claimants, hM.bind (f := (·.claims.get? key)) (fun _ => rfl) fun _ => rfl,
    funext hM.isLive]

theorem binding? (hM : Mirror ρ h h') (n : InjectorId) (key : Key) :
    h'.binding? n key = (h.binding? n key).map (Binding.renumber ρ) :=
  hM.bind_map (f := (·.binding? key)) (fun _ => rfl) (fun injector => injector.binding?_renumber key) n

theorem bindings (hM : Mirror ρ h h') (n : InjectorId) :
    h'.bindings n = (h.bindings n).map (Binding.renumber ρ) := by
  have hMap := congrArg (Option.getD · []) (hM.map (f := Injector.bindings) (fun _ => rfl) n)
  simp only [Injector.bindings_renumber] at hMap
  rw [Hierarchy.bindings, Hierarchy.bindings]
  cases hn' : h'.injector? n <;> cases hn : h.injector? n <;> rw [hn, hn'] at hMap <;> exact hMap

-- ---------------------------------------------------------------------------
-- What is seen on a path
-- ---------------------------------------------------------------------------

theorem nearest_map {α : Type} {f : Injector → Option α} {g : α → α}
    (hBare : ∀ injector, f injector.bare = f injector)
    (hf : ∀ injector, f (injector.renumber ρ) = (f injector).map g) (hM : Mirror ρ h h') (n : InjectorId) :
    h'.nearest n f = (h.nearest n f).map g := by
  rw [Hierarchy.nearest, Hierarchy.nearest, hM.path, List.map_findSome?]
  congr 1
  funext m
  exact hM.bind_map hBare hf m

theorem nearest {α : Type} {f : Injector → Option α} (hBare : ∀ injector, f injector.bare = f injector)
    (hf : ∀ injector, f (injector.renumber ρ) = f injector) (hM : Mirror ρ h h') (n : InjectorId) :
    h'.nearest n f = h.nearest n f := by
  rw [hM.nearest_map (g := id) hBare (fun injector => by rw [hf, Option.map_id_apply]) n, Option.map_id_apply]

theorem collect {α : Type} {f : Injector → List α} (hBare : ∀ injector, f injector.bare = f injector)
    (hf : ∀ injector, f (injector.renumber ρ) = f injector) (hM : Mirror ρ h h') (ns : List InjectorId) :
    h'.collect ns f = h.collect ns f := by
  rw [Hierarchy.collect, Hierarchy.collect]
  congr 1
  funext m
  exact hM.elim hBare hf [] m

theorem lookup (hM : Mirror ρ h h') (n : InjectorId) (key : Key) :
    h'.lookup n key = (h.lookup n key).map (Binding.renumber ρ) :=
  hM.nearest_map (f := (·.binding? key)) (fun _ => rfl) (fun injector => injector.binding?_renumber key) n

theorem explicitBinding? (hM : Mirror ρ h h') (n : InjectorId) (key : Key) :
    h'.explicitBinding? n key = (h.explicitBinding? n key).map (Binding.renumber ρ) :=
  hM.nearest_map (f := (·.explicit.get? key)) (fun _ => rfl) (fun _ => Table.get?_mapValues ..) n

theorem createdBinding? (hM : Mirror ρ h h') (n : InjectorId) (key : Key) :
    h'.createdBinding? n key = (h.createdBinding? n key).map (Binding.renumber ρ) :=
  hM.nearest_map (f := (·.created.get? key)) (fun _ => rfl) (fun _ => Table.get?_mapValues ..) n

theorem declaration? (hM : Mirror ρ h h') (n : InjectorId) (key : Key) :
    h'.declaration? n key = h.declaration? n key :=
  hM.nearest (f := (·.implicit.get? key)) (fun _ => rfl) (fun _ => rfl) n

theorem nearestScope (hM : Mirror ρ h h') (n : InjectorId) (tag : ScopeTag) :
    h'.nearestScope n tag = h.nearestScope n tag :=
  hM.nearest (f := (·.scopes.get? tag)) (fun _ => rfl) (fun _ => rfl) n

theorem hooks (hM : Mirror ρ h h') (n : InjectorId) : h'.hooks n = h.hooks n := by
  rw [Hierarchy.hooks, Hierarchy.hooks, hM.path]
  exact hM.collect (fun _ => rfl) (fun _ => rfl) _

theorem conversion? (hM : Mirror ρ h h') (n : InjectorId) (key : Key) :
    Placement.conversion? h' n key = Placement.conversion? h n key := by
  have hConverters : h'.converters n = h.converters n := by
    rw [Hierarchy.converters, Hierarchy.converters, hM.path]
    exact hM.collect (fun _ => rfl) (fun _ => rfl) _
  unfold Placement.conversion?
  rw [hM.explicitBinding?, hConverters]
  cases h.explicitBinding? n (key.withType .text) <;> rfl

/-- The bound on the depth of a search is the same. -/
theorem depthBound (hM : Mirror ρ h h') (n : InjectorId) : Placement.depthBound h' n = Placement.depthBound h n := by
  have hKeys : h'.collect (h.path n) (·.implicit.keys) = h.collect (h.path n) (·.implicit.keys) :=
    hM.collect (fun _ => rfl) (fun _ => rfl) _
  rw [Placement.depthBound, Placement.depthBound, Placement.declaredKeys, Placement.declaredKeys, hM.path, hKeys]

-- ---------------------------------------------------------------------------
-- References
-- ---------------------------------------------------------------------------

/-- What holds of some injector, whatever it remembers and however it is numbered. -/
theorem any_values {p p' : Injector → Bool} (hBare : ∀ injector, p' injector.bare = p' injector)
    (hp : ∀ injector, p' (injector.renumber ρ) = p injector) (hM : Mirror ρ h h') :
    h'.injectors.values.any p' = h.injectors.values.any p := by
  have hAny := congrArg (fun t => t.values.any p') hM.injectors
  simp only [Table.values_mapValues, List.any_map, Function.comp_def, hBare, hp] at hAny
  exact hAny

theorem hasBinding (hM : Mirror ρ h h') (number : BindingId) : h'.hasBinding (ρ number) = h.hasBinding number := by
  have hOwned : (h'.injectors.values.any fun injector => injector.bindings.any fun own => own.id = ρ number) =
      h.injectors.values.any fun injector => injector.bindings.any fun own => own.id = number := by
    refine hM.any_values (fun _ => rfl) fun injector => ?_
    simp only [Injector.bindings_renumber, List.any_map, Function.comp_def, Binding.renumber, hM.injective.eq_iff]
  rw [Hierarchy.hasBinding, Hierarchy.hasBinding, hOwned, hM.heldBindings]
  simp only [List.mem_map_of_injective hM.injective]

theorem keptHandles (hM : Mirror ρ h h') : h'.keptHandles = h.keptHandles.map fun kept => (ρ kept.1, kept.2) := by
  rw [Hierarchy.keptHandles, Hierarchy.keptHandles, hM.kept, Table.mapKeys, List.filterMap_map, List.map_filterMap]
  congr 1
  funext entry
  obtain ⟨⟨number, height⟩, value⟩ := entry
  cases value with
  | made identity type content => rfl
  | handle injector => cases injector <;> rfl

/-- The same injectors are referred to. -/
theorem isReferred (hM : Mirror ρ h h') (n : InjectorId) : h'.isReferred n = h.isReferred n := by
  have hChild : h'.hasChild n = h.hasChild n := hM.any_values (fun _ => rfl) fun _ => rfl
  have hKept : h'.isKept n = h.isKept n := by
    simp only [Hierarchy.isKept, hM.keptHandles, List.any_map, Function.comp_def, hM.hasBinding]
  rw [Hierarchy.isReferred, Hierarchy.isReferred, hM.holds, hChild, hKept]

end Mirror

end Hierarchy

end InjectorTree
