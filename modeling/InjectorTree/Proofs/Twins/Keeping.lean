import InjectorTree.Proofs.Continuity
import InjectorTree.Proofs.Placement.Lockstep

/-!
# What is kept for bindings

Layers keep instances for bindings, and callers hold bindings. Both are noted under the numbers of the bindings.
Creating injectors, resolving keys and giving up injectors leave the notes alone.

* `SameNotes`: the notes of both are the same.
* `sameNotes_create`, `sameNotes_resolve`, `sameNotes_release`: what leaves them alone.
* `Tidy`: there are no notes for bindings that are still to be made.
-/

namespace InjectorTree

open Placement Run

namespace Hierarchy

/-- The same instances are kept for bindings, and the same bindings are held. -/
structure SameNotes (h' h : Hierarchy) : Prop where
  heldBindings : h'.heldBindings = h.heldBindings
  kept : h'.kept = h.kept

/-- Whatever is kept or held for a binding is for one that was made. -/
structure Tidy (h : Hierarchy) : Prop where
  held : ∀ number ∈ h.heldBindings, number < h.nextBinding
  kept : ∀ place ∈ h.kept.keys, place.1 < h.nextBinding

variable {h h' h'' : Hierarchy} {n : InjectorId} {key : Key}

namespace SameNotes

protected theorem refl (h : Hierarchy) : SameNotes h h :=
  ⟨rfl, rfl⟩

protected theorem trans (hs' : SameNotes h'' h') (hs : SameNotes h' h) : SameNotes h'' h :=
  ⟨hs'.heldBindings.trans hs.heldBindings, hs'.kept.trans hs.kept⟩

end SameNotes

theorem Tidy.of_sameNotes (hT : h.Tidy) (hs : SameNotes h' h) (hNext : h.nextBinding ≤ h'.nextBinding) : h'.Tidy where
  held number hMem := Nat.lt_of_lt_of_le (hT.held number (hs.heldBindings ▸ hMem)) hNext
  kept place hMem := Nat.lt_of_lt_of_le (hT.kept place (hs.kept ▸ hMem)) hNext

-- ---------------------------------------------------------------------------
-- Claims, scopes and sweeps
-- ---------------------------------------------------------------------------

theorem sameNotes_announce (h : Hierarchy) (binding : Binding) : SameNotes (h.announce binding) h := by
  rw [announce, claim]
  generalize h.lineage binding.owner = ns
  induction ns generalizing h with
  | nil => exact SameNotes.refl h
  | cons n rest ih => exact ⟨(ih (h.modify n _)).heldBindings, (ih (h.modify n _)).kept⟩

theorem sameNotes_foldl_announce (bindings : List Binding) (h : Hierarchy) : SameNotes (bindings.foldl announce h) h := by
  induction bindings generalizing h with
  | nil => exact SameNotes.refl h
  | cons first rest ih => exact (ih (h.announce first)).trans (sameNotes_announce h first)

theorem sameNotes_foldl_own (bindings : List Binding) (h : Hierarchy) : SameNotes (bindings.foldl own h) h := by
  induction bindings generalizing h with
  | nil => exact SameNotes.refl h
  | cons first rest ih =>
    have hOwn : SameNotes (h.own first) h := ⟨(sameNotes_announce h first).heldBindings, (sameNotes_announce h first).kept⟩
    exact (ih (h.own first)).trans hOwn

theorem sameNotes_findScope (h : Hierarchy) (n : InjectorId) (tag : ScopeTag) :
    SameNotes (h.findScope n tag).2 h := by
  obtain ⟨injectors, hEq⟩ := findScopeOn_snd tag (h.path n) h
  rw [findScope, hEq]
  exact ⟨rfl, rfl⟩

theorem sameNotes_sweepAll (times : Nat) (h : Hierarchy) : SameNotes (h.sweepAll times) h := by
  obtain ⟨injectors, hEq⟩ := sweepAll_eq times h
  rw [hEq]
  exact ⟨rfl, rfl⟩

theorem sameNotes_release (h : Hierarchy) (n : InjectorId) : SameNotes (h.release n) h := by
  have hSwept := sameNotes_sweepAll h.injectors.entries.length { h with holds := h.holds.erase n }
  exact ⟨hSwept.heldBindings, hSwept.kept⟩

-- ---------------------------------------------------------------------------
-- Creating
-- ---------------------------------------------------------------------------

theorem sameNotes_adopt (parent : Option InjectorId) (explicitOnly : Bool) (module : Module)
    (scopes : Table ScopeTag ScopeRegistration) (accepted : List Admission.Accepted) (h : Hierarchy) :
    SameNotes (h.adopt parent explicitOnly module scopes accepted).2 h := by
  obtain ⟨bindings, number, user, hBound, -⟩ :=
    bindAll_spec h.nextInjector accepted { h with nextInjector := h.nextInjector + 1 }
  have hHold : ∀ (h : Hierarchy) (n : InjectorId), SameNotes (h.hold n) h := fun _ _ => ⟨rfl, rfl⟩
  simp only [adopt, foldl_claim_bindAll]
  simp only [hBound]
  exact (hHold _ _).trans ((sameNotes_foldl_announce _ _).trans ⟨rfl, rfl⟩)

theorem sameNotes_create (parent : Option InjectorId) (module : Module) (explicitOnly : Bool) (h : Hierarchy) :
    SameNotes (h.create parent module explicitOnly).2 h := by
  obtain ⟨injectors, hEq⟩ := Admission.checkBindings_snd
    (Admission.firstRegistrations (Admission.scopeGroups parent.isNone module.scopes)) parent module.bindings h
  have hChecked : SameNotes (Admission.checkBindings
      (Admission.firstRegistrations (Admission.scopeGroups parent.isNone module.scopes)) parent module.bindings h).2
      h := hEq ▸ ⟨rfl, rfl⟩
  unfold create
  simp only
  split
  · exact (sameNotes_adopt ..).trans hChecked
  · exact hChecked

-- ---------------------------------------------------------------------------
-- Resolving
-- ---------------------------------------------------------------------------

/-- A hierarchy compared with itself, as long as it has the notes of another one. -/
def keepingNotes (h₀ : Hierarchy) : Comparison where
  Alike h h' := h = h' ∧ SameNotes h h₀
  Seen _ := True
  Same := Eq
  Value := Eq

theorem lawful_keepingNotes (h₀ : Hierarchy) : (keepingNotes h₀).Lawful where
  above _ _ _ := trivial
  lineage := by
    rintro h _ n ⟨rfl, -⟩ -
    rfl
  lookup := by
    rintro h _ n key ⟨rfl, -⟩ -
    cases h.lookup n key with
    | none => exact .none
    | some binding => exact .some rfl
  claimants := by
    rintro h _ n key ⟨rfl, -⟩ -
    rfl
  declaration? := by
    rintro h _ n key ⟨rfl, -⟩ -
    rfl
  conversion? := by
    rintro h _ n key ⟨rfl, -⟩ -
    rfl
  isExplicitOnly := by
    rintro h _ n ⟨rfl, -⟩ -
    rfl
  findScope := by
    rintro h _ n tag ⟨rfl, hs⟩ -
    exact ⟨rfl, rfl, (sameNotes_findScope h n tag).trans hs⟩
  make := by
    rintro h _ n key strategy scope source origin ⟨rfl, hs⟩ -
    exact ⟨rfl, rfl, hs.heldBindings, hs.kept⟩
  convert := by
    rintro h _ n key conversion registration ⟨rfl, hs⟩ - - -
    refine ⟨⟨rfl, hs.heldBindings, hs.kept⟩, ?_⟩
    cases (registration.converter.convert conversion.text key h.user).1 with
    | error reason => exact Or.inl ⟨reason, rfl, rfl⟩
    | ok value => exact Or.inr ⟨value, value, rfl, rfl, rfl⟩
  makeConverted := by
    rintro h _ n value _ key source ⟨rfl, hs⟩ - rfl
    exact ⟨rfl, rfl, hs.heldBindings, hs.kept⟩
  same := by
    rintro binding _ rfl
    exact ⟨rfl, rfl, rfl, rfl⟩

theorem sameNotes_resolve {outcome : Except Report Binding} (hRun : h.resolve n key = some (outcome, h')) :
    SameNotes h' h := by
  have hStart : Paired (keepingNotes h) True { hierarchy := h } { hierarchy := h } :=
    ⟨⟨rfl, SameNotes.refl h⟩, .nil, fun _ => ⟨rfl, rfl⟩⟩
  have hSearch := locate_match (lawful_keepingNotes h) trivial (depthBound h n) (n := n) trivial key hStart
  cases hLookup : h.lookup n key with
  | some binding =>
    rw [resolve_of_lookup hLookup] at hRun
    cases hRun
    exact SameNotes.refl h
  | none =>
    obtain ⟨d, hLocate, rfl⟩ := (resolve_of_lookup_eq_none hLookup).mp hRun
    rw [hLocate] at hSearch
    cases hSearch with
    | error hAfter => exact hAfter.hierarchy.2
    | ok _ hAfter =>
      rw [settle, publish_eq_foldl]
      exact (sameNotes_foldl_own d.staged d.hierarchy).trans hAfter.hierarchy.2

end Hierarchy

end InjectorTree
