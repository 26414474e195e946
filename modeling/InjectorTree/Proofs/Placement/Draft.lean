import Mathlib.Logic.Relation
import InjectorTree.Proofs.Placement.Start

/-!
# Drafts

A search works on a draft. Whatever it does, the draft fits the hierarchy in which the search began: every
staged binding could be published there on its own, no two are for one key, and they are numbered in the order
in which they were made.

* `Fits`: the invariant of drafts; `Fits.snoc` and `Fits.sublist` say how it is kept when a binding is staged
  and when bindings are taken back.
* `Grown`: what a search that succeeds adds to the draft it was given. What is added is supplied with
  everything it depends on, and is there for the sake of the result.
-/

namespace InjectorTree

open Placement

namespace Hierarchy

/-- The binding is what a conversion makes. -/
structure ConvertedFrom (conversion : Conversion) (binding : Binding) : Prop where
  strategy : ∃ value, binding.strategy = .fixed value
  scope : binding.scope = none
  source : binding.source = conversion.source
  origin : binding.origin = .converted
  layers : binding.layers = []

/-- The binding is one that the hierarchy allows for in the injector that owns it. -/
def Made (h : Hierarchy) (binding : Binding) : Prop :=
  (∃ declaration, h.Startable binding.owner binding.key declaration ∧ h.BuiltFrom declaration binding) ∨
    ∃ conversion, conversion? h binding.owner binding.key = some conversion ∧ ConvertedFrom conversion binding

variable {h : Hierarchy} {binding : Binding}

theorem Made.origin (hM : h.Made binding) : binding.origin = .justInTime ∨ binding.origin = .converted := by
  rcases hM with ⟨declaration, -, hBuilt⟩ | ⟨conversion, -, hConverted⟩
  · exact Or.inl hBuilt.origin
  · exact Or.inr hConverted.origin

end Hierarchy

open Hierarchy

/-- The draft is one of a search that began in the hierarchy `h` for the injector `n`. -/
structure Fits (h : Hierarchy) (n : InjectorId) (d : Draft) : Prop where
  marked : Marked d.hierarchy h
  onPath : ∀ binding ∈ d.staged, binding.owner ∈ h.path n
  unbound : ∀ binding ∈ d.staged, h.lookup binding.owner binding.key = none
  unclaimed : ∀ binding ∈ d.staged, h.claimants binding.owner binding.key = []
  made : ∀ binding ∈ d.staged, h.Made binding
  keys : (d.staged.map (·.key)).Nodup
  order : d.staged.Pairwise fun first second => first.id < second.id
  older : ∀ binding ∈ d.staged, h.nextBinding ≤ binding.id
  newer : ∀ binding ∈ d.staged, binding.id < d.hierarchy.nextBinding

/-- Everything is located or staged on which the binding depends. -/
def Supplied (h : Hierarchy) (staged : List Binding) (binding : Binding) : Prop :=
  ∀ dependency ∈ binding.strategy.dependencies,
    (h.lookup binding.owner dependency).isSome = true ∨
      ∃ other ∈ staged, other.key = dependency ∧ other.owner ∈ h.path binding.owner

/-- The second binding is staged for a key on which the first one depends. -/
def Uses (h : Hierarchy) (staged : List Binding) (first second : Binding) : Prop :=
  second ∈ staged ∧ second.key ∈ first.strategy.dependencies ∧ second.owner ∈ h.path first.owner

/-- One draft grew out of another one for the sake of a result. -/
structure Grown (h : Hierarchy) (d : Draft) (result : Binding) (d' : Draft) : Prop where
  grows : d.staged <+: d'.staged
  supplied : ∀ binding ∈ d'.staged, binding ∈ d.staged ∨ Supplied h d'.staged binding
  used : ∀ binding ∈ d'.staged,
    binding ∈ d.staged ∨ Relation.ReflTransGen (Uses h d'.staged) result binding

variable {h : Hierarchy} {n m : InjectorId} {key : Key} {d d' d'' : Draft} {binding result : Binding}
  {staged staged' : List Binding}

-- ---------------------------------------------------------------------------
-- The invariant
-- ---------------------------------------------------------------------------

theorem fits_start (hW : h.WellFormed) (n : InjectorId) : Fits h n { hierarchy := h } where
  marked := Marked.refl hW
  onPath _ hMem := absurd hMem List.not_mem_nil
  unbound _ hMem := absurd hMem List.not_mem_nil
  unclaimed _ hMem := absurd hMem List.not_mem_nil
  made _ hMem := absurd hMem List.not_mem_nil
  keys := List.nodup_nil
  order := List.Pairwise.nil
  older _ hMem := absurd hMem List.not_mem_nil
  newer _ hMem := absurd hMem List.not_mem_nil

/-- The invariant says nothing of memories, and outlives marks. -/
theorem Fits.marks (hF : Fits h n d) (hMarked : Marked d'.hierarchy d.hierarchy)
    (hStaged : d'.staged = d.staged) : Fits h n d' where
  marked := hMarked.trans hF.marked
  onPath := by
    rw [hStaged]
    exact hF.onPath
  unbound := by
    rw [hStaged]
    exact hF.unbound
  unclaimed := by
    rw [hStaged]
    exact hF.unclaimed
  made := by
    rw [hStaged]
    exact hF.made
  keys := by
    rw [hStaged]
    exact hF.keys
  order := by
    rw [hStaged]
    exact hF.order
  older := by
    rw [hStaged]
    exact hF.older
  newer binding hMem := by
    rw [hStaged] at hMem
    exact Nat.lt_of_lt_of_le (hF.newer binding hMem) hMarked.nextBinding

/-- Bindings can be taken back. -/
theorem Fits.sublist (hF : Fits h n d) (hHierarchy : d'.hierarchy = d.hierarchy)
    (hStaged : d'.staged.Sublist d.staged) : Fits h n d' where
  marked := by
    rw [hHierarchy]
    exact hF.marked
  onPath binding hMem := hF.onPath binding (hStaged.subset hMem)
  unbound binding hMem := hF.unbound binding (hStaged.subset hMem)
  unclaimed binding hMem := hF.unclaimed binding (hStaged.subset hMem)
  made binding hMem := hF.made binding (hStaged.subset hMem)
  keys := hF.keys.sublist (hStaged.map _)
  order := hF.order.sublist hStaged
  older binding hMem := hF.older binding (hStaged.subset hMem)
  newer binding hMem := by
    rw [hHierarchy]
    exact hF.newer binding (hStaged.subset hMem)

/-- A binding that is staged last is a new one, of a key that is not staged yet. -/
structure Stageable (h : Hierarchy) (n : InjectorId) (d : Draft) (binding : Binding) (d' : Draft) : Prop where
  marked : Marked d'.hierarchy d.hierarchy
  staged : d'.staged = d.staged ++ [binding]
  onPath : binding.owner ∈ h.path n
  unbound : h.lookup binding.owner binding.key = none
  unclaimed : h.claimants binding.owner binding.key = []
  made : h.Made binding
  fresh : ∀ other ∈ d.staged, other.key ≠ binding.key
  older : d.hierarchy.nextBinding ≤ binding.id
  newer : binding.id < d'.hierarchy.nextBinding

theorem Fits.snoc (hF : Fits h n d) (hS : Stageable h n d binding d') : Fits h n d' := by
  -- what holds of each staged binding on its own has to be shown of the new one only
  have hAll : ∀ {P : Binding → Prop}, (∀ other ∈ d.staged, P other) → P binding →
      ∀ other ∈ d'.staged, P other := by
    intro P hOld hNew other hMem
    rw [hS.staged, List.mem_append, List.mem_singleton] at hMem
    rcases hMem with hMem | rfl
    · exact hOld other hMem
    · exact hNew
  refine
    { marked := hS.marked.trans hF.marked
      onPath := hAll hF.onPath hS.onPath
      unbound := hAll hF.unbound hS.unbound
      unclaimed := hAll hF.unclaimed hS.unclaimed
      made := hAll hF.made hS.made
      keys := ?_
      order := ?_
      older := hAll hF.older (Nat.le_trans hF.marked.nextBinding hS.older)
      newer := hAll (fun other hMem =>
        Nat.lt_of_lt_of_le (hF.newer other hMem) hS.marked.nextBinding) hS.newer }
  · rw [hS.staged, List.map_append, List.map_singleton, List.nodup_append]
    refine ⟨hF.keys, List.pairwise_singleton _ _, ?_⟩
    intro other hOther last hLast
    obtain ⟨old, hOld, rfl⟩ := List.mem_map.mp hOther
    rw [List.mem_singleton.mp hLast]
    exact hS.fresh old hOld
  · rw [hS.staged, List.pairwise_append]
    refine ⟨hF.order, List.pairwise_singleton _ _, ?_⟩
    intro other hOther last hLast
    rw [List.mem_singleton.mp hLast]
    exact Nat.lt_of_lt_of_le (hF.newer other hOther) hS.older

-- ---------------------------------------------------------------------------
-- What is staged where
-- ---------------------------------------------------------------------------

/-- A draft locates what is staged for the key on the path. -/
theorem exists_of_lookup_draft (hM : Marked d.hierarchy h) (hFound : d.lookup m key = some binding) :
    binding ∈ d.staged ∧ binding.key = key ∧ binding.owner ∈ h.path m := by
  rw [Draft.lookup_eq] at hFound
  obtain ⟨p, hp, hFound⟩ := List.exists_of_findSome?_eq_some hFound
  rw [hM.core.path] at hp
  have hHolds := List.find?_some hFound
  simp only [Bool.and_eq_true, decide_eq_true_eq] at hHolds
  exact ⟨List.mem_of_find?_eq_some hFound, hHolds.2, hHolds.1 ▸ hp⟩

/-- What a draft does not locate is not staged on the path. -/
theorem not_mem_path_of_lookup_draft (hM : Marked d.hierarchy h) (hNone : d.lookup m key = none)
    (hMem : binding ∈ d.staged) (hKey : binding.key = key) : binding.owner ∉ h.path m := by
  intro hPath
  rw [← hM.core.path] at hPath
  rw [Draft.lookup_eq] at hNone
  have hFind := List.findSome?_eq_none_iff.mp hNone binding.owner hPath
  have hFalse := List.find?_eq_none.mp hFind binding hMem
  simp [hKey] at hFalse

theorem stagedBelow_eq_nil_iff (hM : Marked d.hierarchy h) :
    d.stagedBelow m key = [] ↔ ∀ binding ∈ d.staged, binding.key = key → m ∉ h.lineage binding.owner := by
  rw [Draft.stagedBelow_eq, List.map_eq_nil_iff, List.filter_eq_nil_iff]
  refine forall₂_congr fun binding _ => ?_
  rw [Bool.and_eq_true, decide_eq_true_eq, isBelow_iff, hM.core.lineage, not_and]

-- ---------------------------------------------------------------------------
-- Growth
-- ---------------------------------------------------------------------------

theorem Supplied.mono (hS : Supplied h staged binding) (hSubset : staged ⊆ staged') :
    Supplied h staged' binding := fun dependency hDependency =>
  (hS dependency hDependency).imp_right fun ⟨other, hOther, hRest⟩ => ⟨other, hSubset hOther, hRest⟩

theorem Uses.mono {first second : Binding} (hU : Uses h staged first second) (hSubset : staged ⊆ staged') :
    Uses h staged' first second :=
  ⟨hSubset hU.1, hU.2⟩

theorem reaches_mono {first second : Binding}
    (hReaches : Relation.ReflTransGen (Uses h staged) first second) (hSubset : staged ⊆ staged') :
    Relation.ReflTransGen (Uses h staged') first second :=
  Relation.ReflTransGen.mono (fun _ _ hUses => Uses.mono hUses hSubset) _ _ hReaches

theorem Grown.refl (h : Hierarchy) (d : Draft) (result : Binding) : Grown h d result d :=
  ⟨List.prefix_refl _, fun _ hMem => Or.inl hMem, fun _ hMem => Or.inl hMem⟩

end InjectorTree
