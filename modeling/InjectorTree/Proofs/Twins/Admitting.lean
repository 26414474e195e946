import InjectorTree.Proofs.Twins.Steps

/-!
# Creating injectors in twins

A module that is admitted to a hierarchy is admitted to its twin, and what stands against it in one stands against
it in the other.

* `Twin.checkBindings`: the checks come to the same findings.
* `Mirror.adopt`: the new injector is the same one up to the numbers of its bindings.
* `Twin.create`: a creation has the same outcome, and leaves twins behind.
-/

namespace InjectorTree.Hierarchy

open Admission

variable {ρ : BindingId → BindingId} {h h' : Hierarchy} {n : InjectorId} {key : Key} {parent : Option InjectorId}

-- ---------------------------------------------------------------------------
-- The checks
-- ---------------------------------------------------------------------------

/-- The reports name sources and no numbers. -/
theorem Mirror.conflict (hM : Mirror ρ h h') (parent : Option InjectorId) (declaration : Declaration) :
    Admission.conflict h' parent declaration = Admission.conflict h parent declaration := by
  unfold Admission.conflict
  split
  · rfl
  · cases parent with
    | none => rfl
    | some p =>
      simp only [hM.explicitBinding?, hM.createdBinding?]
      cases h.explicitBinding? p declaration.key with
      | some existing => rfl
      | none => cases h.createdBinding? p declaration.key <;> rfl

namespace Twin

theorem resolveScope (hT : Twin ρ h h') (scopes : Table ScopeTag ScopeRegistration) (parent : Option InjectorId)
    (declaration : Declaration) :
    (Admission.resolveScope scopes parent declaration h').1 = (Admission.resolveScope scopes parent declaration h).1 ∧
      Twin ρ (Admission.resolveScope scopes parent declaration h).2
        (Admission.resolveScope scopes parent declaration h').2 := by
  have hScope : ∀ tag, (scopeFor scopes parent tag h').1 = (scopeFor scopes parent tag h).1 ∧
      Twin ρ (scopeFor scopes parent tag h).2 (scopeFor scopes parent tag h').2 := by
    intro tag
    unfold scopeFor
    split
    · exact ⟨rfl, hT⟩
    · split
      · exact ⟨rfl, hT⟩
      · exact hT.findScope _ tag
  unfold Admission.resolveScope
  cases declaration.scope with
  | none => exact ⟨rfl, hT⟩
  | some tag =>
    obtain ⟨hFound, hAfter⟩ := hScope tag
    rcases hFind : scopeFor scopes parent tag h with ⟨found, h₁⟩
    rcases hFind' : scopeFor scopes parent tag h' with ⟨found', h₁'⟩
    rw [hFind, hFind'] at hFound hAfter
    obtain rfl : found' = found := hFound
    simp only [hFind, hFind']
    cases found' with
    | none => exact ⟨rfl, hAfter⟩
    | some registration => exact ⟨rfl, hAfter⟩

theorem checkKey (hT : Twin ρ h h') (scopes : Table ScopeTag ScopeRegistration) (parent : Option InjectorId)
    (findings : Findings) (group : List Declaration) :
    (Admission.checkKey scopes parent findings h' group).1 = (Admission.checkKey scopes parent findings h group).1 ∧
      Twin ρ (Admission.checkKey scopes parent findings h group).2
        (Admission.checkKey scopes parent findings h' group).2 := by
  match group with
  | [] => exact ⟨rfl, hT⟩
  | [declaration] =>
    rw [Admission.checkKey, Admission.checkKey, hT.conflict]
    cases Admission.conflict h parent declaration with
    | some report => exact ⟨rfl, hT⟩
    | none =>
      obtain ⟨hFound, hAfter⟩ := hT.resolveScope scopes parent declaration
      refine ⟨?_, hAfter⟩
      simp only [hFound]
  | _ :: _ :: _ => exact ⟨rfl, hT⟩

/-- The checks come to the same findings. -/
theorem checkBindings (hT : Twin ρ h h') (scopes : Table ScopeTag ScopeRegistration) (parent : Option InjectorId)
    (declarations : List Declaration) :
    (Admission.checkBindings scopes parent declarations h').1 =
        (Admission.checkBindings scopes parent declarations h).1 ∧
      Twin ρ (Admission.checkBindings scopes parent declarations h).2
        (Admission.checkBindings scopes parent declarations h').2 := by
  have hGroups : ∀ (groups : List (List Declaration)) (found found' : Findings × Hierarchy), found'.1 = found.1 →
      Twin ρ found.2 found'.2 →
        let check := fun (found : Findings × Hierarchy) group =>
          Admission.checkKey scopes parent found.1 found.2 group
        (groups.foldl check found').1 = (groups.foldl check found).1 ∧
          Twin ρ (groups.foldl check found).2 (groups.foldl check found').2 := by
    intro groups
    induction groups with
    | nil => exact fun _ _ hFindings hT => ⟨hFindings, hT⟩
    | cons group rest ih =>
      rintro ⟨findings, h⟩ ⟨findings', h'⟩ hFindings hT
      obtain rfl : findings' = findings := hFindings
      obtain ⟨hFirst, hAfter⟩ := hT.checkKey scopes parent findings' group
      exact ih _ _ hFirst hAfter
  exact hGroups _ ({}, h) ({}, h') rfl hT

end Twin

-- ---------------------------------------------------------------------------
-- The new injector
-- ---------------------------------------------------------------------------

theorem Mirror.bindAll (hM : Mirror ρ h h') (owner : InjectorId) (accepted : List Accepted) :
    (Hierarchy.bindAll owner accepted h').1 = (Hierarchy.bindAll owner accepted h).1.map (Binding.renumber ρ) ∧
      Mirror ρ (Hierarchy.bindAll owner accepted h).2 (Hierarchy.bindAll owner accepted h').2 := by
  induction accepted generalizing h h' with
  | nil => exact ⟨rfl, hM⟩
  | cons one rest ih =>
    obtain ⟨hFirst, hAfter⟩ := hM.makeBinding one.declaration.key one.declaration.strategy one.scope
      one.declaration.source .explicit owner
    obtain ⟨hRest, hEnd⟩ := ih hAfter
    refine ⟨?_, hEnd⟩
    simp only [Hierarchy.bindAll, List.map_cons]
    rw [hFirst, hRest]

/-- The table of the bindings, with other numbers. -/
theorem mapValues_foldl_insert (ρ : BindingId → BindingId) (bindings : List Binding) (t : Table Key Binding) :
    (bindings.foldl (fun t binding => t.insert binding.key binding) t).mapValues
        (fun _ binding => binding.renumber ρ) =
      (bindings.map (Binding.renumber ρ)).foldl (fun t binding => t.insert binding.key binding)
        (t.mapValues fun _ binding => binding.renumber ρ) := by
  induction bindings generalizing t with
  | nil => rfl
  | cons first rest ih =>
    rw [List.foldl_cons, ih, Table.mapValues_insert, List.map_cons, List.foldl_cons]
    rfl

/-- The new injector is the same one, up to the numbers of its bindings. -/
theorem Mirror.adopt (hM : Mirror ρ h h') (parent : Option InjectorId) (explicitOnly : Bool) (module : Module)
    (scopes : Table ScopeTag ScopeRegistration) (accepted : List Accepted) :
    (h'.adopt parent explicitOnly module scopes accepted).1 = (h.adopt parent explicitOnly module scopes accepted).1 ∧
      Mirror ρ (h.adopt parent explicitOnly module scopes accepted).2
        (h'.adopt parent explicitOnly module scopes accepted).2 := by
  have hNext : Mirror ρ { h with nextInjector := h.nextInjector + 1 }
      { h' with nextInjector := h.nextInjector + 1 } := { hM with nextInjector := rfl }
  obtain ⟨hBindings, hBound⟩ := hNext.bindAll h.nextInjector accepted
  unfold Hierarchy.adopt
  simp only [hM.nextInjector, foldl_claim_bindAll, newInjector]
  generalize Hierarchy.bindAll h.nextInjector accepted { h with nextInjector := h.nextInjector + 1 } = bound at *
  generalize Hierarchy.bindAll h.nextInjector accepted { h' with nextInjector := h.nextInjector + 1 } = bound' at *
  obtain ⟨bindings, h₁⟩ := bound
  obtain ⟨bindings', h₁'⟩ := bound'
  obtain rfl : bindings' = bindings.map (Binding.renumber ρ) := hBindings
  obtain ⟨hItself, hMade⟩ := hBound.makeBinding .injector .itself none .builtin .builtin h.nextInjector
  have hPath := funext hMade.path
  have hOnly := funext hMade.isExplicitOnly
  simp only [hItself, hPath, hOnly]
  generalize h₁.makeBinding .injector .itself none .builtin .builtin h.nextInjector = made at *
  generalize h₁'.makeBinding .injector .itself none .builtin .builtin h.nextInjector = made' at *
  -- the table of explicit bindings is renumbered too
  have hTable := mapValues_foldl_insert ρ bindings ∅
  refine ⟨trivial, ((hMade.insert h.nextInjector ?_).foldl_announce bindings).hold _⟩
  simp only [Injector.renumber, hTable]
  rfl

/-- A creation has the same outcome in twins, and leaves twins behind. -/
theorem Twin.create (hT : Twin ρ h h') (module : Module) (explicitOnly : Bool)
    (hLive : ∀ p, parent = some p → h.isLive p = true) :
    (h'.create parent module explicitOnly).1 = (h.create parent module explicitOnly).1 ∧
      Twin ρ (h.create parent module explicitOnly).2 (h'.create parent module explicitOnly).2 := by
  have hMirror : (h'.create parent module explicitOnly).1 = (h.create parent module explicitOnly).1 ∧
      Mirror ρ (h.create parent module explicitOnly).2 (h'.create parent module explicitOnly).2 := by
    obtain ⟨hFindings, hAfter⟩ := hT.checkBindings (firstRegistrations (scopeGroups parent.isNone module.scopes))
      parent module.bindings
    unfold Hierarchy.create
    simp only [hFindings]
    split
    · obtain ⟨hNew, hEnd⟩ := hAfter.toMirror.adopt parent explicitOnly module
        (firstRegistrations (scopeGroups parent.isNone module.scopes)) _
      exact ⟨congrArg Except.ok hNew, hEnd⟩
    · exact ⟨rfl, hAfter.toMirror⟩
  refine ⟨hMirror.1, ?_⟩
  exact
    { toMirror := hMirror.2
      wellFormed := wellFormed_create hT.wellFormed hLive
      wellFormed' := wellFormed_create hT.wellFormed' fun p hp => (hT.isLive p).trans (hLive p hp)
      tidy := hT.tidy.of_sameNotes (sameNotes_create parent module explicitOnly h)
        (continues_create hT.wellFormed hLive).nextBinding }

end InjectorTree.Hierarchy
