import InjectorTree.Proofs.Placement.Lockstep
import InjectorTree.Proofs.Placement.Resolve

/-!
# Hierarchies that are alike on a path

What a resolution finds out is a matter of the injectors on the path of the one for which a key is resolved: what
they declare, what they own, and what is claimed of them. If two hierarchies agree on that, then a key is resolved
in both or in neither, and the report is the same. What is not the same are the numbers of new bindings, and what
scopes and converters make of the state of user code.

* `AlikeOn`: the agreement; marks do not disturb it.
* `Conversion.Steady`: a conversion whose success is no matter of the state of user code.
* `resolve_match`: resolutions end in the same way.
* `SameBindings`: agreement on what is owned; bindings that match are published alike (`SameBindings.foldl_own`).
-/

namespace InjectorTree

open Placement Run

/-- A conversion that succeeds in every state of user code, or fails in every state, for one reason. -/
def Placement.Conversion.Steady (conversion : Conversion) (key : Key) : Prop :=
  ∀ registration, conversion.converters = [registration] →
    (∀ user, ∃ value, (registration.converter.convert conversion.text key user).1 = .ok value) ∨
      ∃ reason, ∀ user, (registration.converter.convert conversion.text key user).1 = .error reason

/-- The bindings are the same, up to their numbers, their layers and what was converted for them. -/
structure Binding.Matches (binding binding' : Binding) : Prop where
  key : binding'.key = binding.key
  owner : binding'.owner = binding.owner
  scope : binding'.scope = binding.scope
  source : binding'.source = binding.source
  origin : binding'.origin = binding.origin
  strategy : binding'.strategy = binding.strategy ∨
    binding.origin = .converted ∧ ∃ value value', binding.strategy = .fixed value ∧ binding'.strategy = .fixed value'

protected theorem Binding.Matches.refl (binding : Binding) : binding.Matches binding :=
  ⟨rfl, rfl, rfl, rfl, rfl, Or.inl rfl⟩

theorem Binding.Matches.dependencies {binding binding' : Binding} (hM : binding.Matches binding') :
    binding'.strategy.dependencies = binding.strategy.dependencies := by
  rcases hM.strategy with hSame | ⟨-, value, value', hValue, hValue'⟩
  · rw [hSame]
  · rw [hValue, hValue']
    rfl

namespace Hierarchy

/-- The hierarchies agree on some injectors and on all above them, and what there is to convert on their paths is
steady. -/
structure AlikeOn (Seen : InjectorId → Prop) (h h' : Hierarchy) : Prop where
  wellFormed : h.WellFormed
  wellFormed' : h'.WellFormed
  shape : SameShapeOn Seen h' h
  binding? : ∀ {n : InjectorId}, Seen n → ∀ key, h'.binding? n key = h.binding? n key
  claimants : ∀ {n : InjectorId}, Seen n → ∀ key, h'.claimants n key = h.claimants n key
  steady : ∀ {n : InjectorId}, Seen n → ∀ key conversion, conversion? h n key = some conversion →
    conversion.Steady key

variable {h h' h₁ h₁' : Hierarchy} {Seen : InjectorId → Prop} {n : InjectorId} {key : Key}
  {binding binding' : Binding}

namespace AlikeOn

theorem lookup (hA : AlikeOn Seen h h') (hn : Seen n) (key : Key) : h'.lookup n key = h.lookup n key :=
  hA.shape.nearest_congr (f := (·.binding? key)) (fun _ hp => hA.binding? hp key) hn

/-- Marks do not matter. -/
theorem marks (hA : AlikeOn Seen h h') (hM : Marked h₁ h) (hM' : Marked h₁' h') : AlikeOn Seen h₁ h₁' where
  wellFormed := hM.wellFormed
  wellFormed' := hM'.wellFormed
  shape := by
    refine ⟨fun {n p} hn hp => hA.shape.closed hn (hM.core.lineage n ▸ hp), fun {n} hn => ?_⟩
    rw [hM.core.sameShape.injector?, hM'.core.sameShape.injector?]
    exact hA.shape.injector? hn
  binding? hn key := by
    rw [hM.core.binding?, hM'.core.binding?]
    exact hA.binding? hn key
  claimants hn key := by
    rw [hM.core.claimants, hM'.core.claimants]
    exact hA.claimants hn key
  steady hn key conversion hConversion :=
    hA.steady hn key conversion (hM.core.sameShape.conversion? _ key ▸ hConversion)

end AlikeOn

/-- A hierarchy is alike to itself. -/
theorem alikeOn_self (hW : h.WellFormed) (n : InjectorId)
    (hSteady : ∀ m ∈ h.path n, ∀ key conversion, conversion? h m key = some conversion → conversion.Steady key) :
    AlikeOn (· ∈ h.path n) h h where
  wellFormed := hW
  wellFormed' := hW
  shape := ⟨fun hm hp => hW.rooted.mem_path_trans hm (mem_path_of_mem_lineage hp), fun _ => rfl⟩
  binding? _ _ := rfl
  claimants _ _ := rfl
  steady hm := hSteady _ hm

/-- Hierarchies compared by what they answer on some injectors. -/
def comparisonOn (Seen : InjectorId → Prop) : Comparison where
  Alike := AlikeOn Seen
  Seen
  Same := Binding.Matches
  Value _ _ := True

theorem lawful_comparisonOn (Seen : InjectorId → Prop) : (comparisonOn Seen).Lawful where
  above hA hn hp := hA.shape.closed hn hp
  lineage hA hn := hA.shape.lineage hn
  lookup {h h' n} key hA hn := by
    rw [hA.lookup hn]
    cases h.lookup n key with
    | none => exact .none
    | some binding => exact .some (.refl binding)
  claimants key hA hn := hA.claimants hn key
  declaration? key hA hn := hA.shape.declaration? hn key
  conversion? key hA hn := hA.shape.conversion? hn key
  isExplicitOnly hA hn := hA.shape.isExplicitOnly hn
  findScope {h h' n} tag hA hn := by
    refine ⟨?_, hA.marks (marked_findScope hA.wellFormed n tag) (marked_findScope hA.wellFormed' n tag)⟩
    rw [findScope_fst hA.wellFormed.rooted hA.wellFormed.caches, findScope_fst hA.wellFormed'.rooted
      hA.wellFormed'.caches]
    exact hA.shape.nearestScope hn tag
  make key strategy scope source origin hA _ := by
    refine ⟨⟨rfl, rfl, rfl, rfl, rfl, Or.inl rfl⟩, ?_⟩
    exact hA.marks (marked_makeBinding hA.wellFormed key strategy scope source origin _)
      (marked_makeBinding hA.wellFormed' key strategy scope source origin _)
  convert {h h' n key conversion registration} hA hn hConversion hOne := by
    refine ⟨hA.marks (marked_user hA.wellFormed _) (marked_user hA.wellFormed' _), ?_⟩
    rcases hA.steady hn key conversion hConversion registration hOne with hAlways | ⟨reason, hNever⟩
    · obtain ⟨value, hValue⟩ := hAlways h.user
      obtain ⟨value', hValue'⟩ := hAlways h'.user
      exact Or.inr ⟨value, value', hValue, hValue', trivial⟩
    · exact Or.inl ⟨reason, hNever h.user, hNever h'.user⟩
  makeConverted {h h' n value value'} key source hA _ _ := by
    refine ⟨⟨rfl, rfl, rfl, rfl, rfl, Or.inr ⟨rfl, value, value', rfl, rfl⟩⟩, ?_⟩
    exact hA.marks (marked_makeBinding hA.wellFormed key (.fixed value) none source .converted n)
      (marked_makeBinding hA.wellFormed' key (.fixed value') none source .converted n)
  same hM := ⟨hM.key, hM.owner, hM.source, hM.dependencies⟩

/-- Where hierarchies are alike, a key is resolved in both, to bindings that match, or fails in both with one
report. -/
theorem resolve_match (hA : AlikeOn Seen h h') (hn : Seen n) (key : Key) :
    Match Binding.Matches (fun _ _ => True) (h.resolve n key) (h'.resolve n key) := by
  have hStart : Paired (comparisonOn Seen) True { hierarchy := h } { hierarchy := h' } :=
    ⟨hA, .nil, fun _ => ⟨rfl, rfl⟩⟩
  have hSearch := locate_match (lawful_comparisonOn Seen) trivial (depthBound h n) hn key hStart
  simp only [resolve, hA.lookup hn, hA.shape.depthBound hn]
  split
  · exact .ok (.refl _) trivial
  · generalize locate (depthBound h n) n key { hierarchy := h } = found at hSearch ⊢
    generalize locate (depthBound h n) n key { hierarchy := h' } = found' at hSearch ⊢
    cases hSearch with
    | endless => exact .endless
    | error _ => exact .error trivial
    | ok hSame _ => exact .ok hSame trivial

-- ---------------------------------------------------------------------------
-- What is published
-- ---------------------------------------------------------------------------

/-- The injectors are the same, and own the same bindings, up to their numbers, their layers and what was converted
for them. -/
structure SameBindings (h h' : Hierarchy) : Prop where
  shape : SameShape h' h
  binding? : ∀ m key, Option.Rel Binding.Matches (h.binding? m key) (h'.binding? m key)
  claims : ∀ m key, h'.claimsOf m key = h.claimsOf m key

/-- Marks are no bindings. -/
theorem sameBindings_of_marked (hM : Marked h₁ h) (hM' : Marked h₁' h) : SameBindings h₁ h₁' where
  shape := hM'.core.sameShape.trans hM.core.sameShape.symm
  binding? m key := by
    rw [hM.core.binding?, hM'.core.binding?]
    cases h.binding? m key with
    | none => exact .none
    | some binding => exact .some (.refl binding)
  claims m key := (hM'.core.claimsOf m key).trans (hM.core.claimsOf m key).symm

/-- Bindings that match go to injectors that own the same. -/
theorem binding?_owning_match {injector injector' : Injector} (hSame : binding.Matches binding')
    (hBefore : Option.Rel Binding.Matches (injector.binding? key) (injector'.binding? key)) :
    Option.Rel Binding.Matches ((injector.owning binding).binding? key)
      ((injector'.owning binding').binding? key) := by
  rw [Injector.binding?_owning, Injector.binding?_owning, hSame.key]
  generalize injector.binding? key = owned at hBefore ⊢
  generalize injector'.binding? key = owned' at hBefore ⊢
  split
  · cases hBefore with
    | none => exact .some hSame
    | some hOwned => exact .some hOwned
  · exact hBefore

/-- Publishing bindings that match. -/
theorem SameBindings.own (hR : h.Rooted) (hS : SameBindings h h') (hSame : binding.Matches binding') :
    SameBindings (h.own binding) (h'.own binding') where
  shape := (sameShape_own h' binding').trans (hS.shape.trans (sameShape_own h binding).symm)
  binding? m key := by
    rw [binding?_own_eq hR, binding?_own_eq (hR.of_sameShape hS.shape), hSame.owner]
    have hShape := hS.shape.injector? m
    have hBefore := hS.binding? m key
    split
    · simp only [Hierarchy.binding?] at hBefore
      generalize h.injector? m = owner at hShape hBefore ⊢
      generalize h'.injector? m = owner' at hShape hBefore ⊢
      rcases owner with _ | injector <;> rcases owner' with _ | injector'
      · exact .none
      · cases hShape
      · cases hShape
      · exact binding?_owning_match hSame hBefore
    · exact hBefore
  claims m key := by
    rw [claimsOf_own hR, claimsOf_own (hR.of_sameShape hS.shape), hS.shape.lineage, hSame.owner, hSame.key,
      hS.claims, Binding.claim, Binding.claim, hSame.owner, hSame.source]

theorem SameBindings.foldl_own {bindings bindings' : List Binding} (hR : h.Rooted) (hS : SameBindings h h')
    (hSame : List.Forall₂ Binding.Matches bindings bindings') :
    SameBindings (bindings.foldl Hierarchy.own h) (bindings'.foldl Hierarchy.own h') := by
  induction hSame generalizing h h' with
  | nil => exact hS
  | cons hFirst _ ih => exact ih (hR.of_sameShape (sameShape_own _ _)) (hS.own hR hFirst)

end Hierarchy

end InjectorTree
