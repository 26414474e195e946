import InjectorTree.Proofs.Placement.Start
import InjectorTree.Proofs.Runs

/-!
# Searches in step

What a search does depends on the answers that its hierarchy gives to a few questions. In two hierarchies that
answer alike, searches make the same attempts, in the same order, and end in the same way.

* `Comparison` says what it takes to answer alike; it is a parameter, since hierarchies are compared in several
  ways.
* `Paired` relates the drafts of two searches. What they remember of failed attempts is compared if that is
  asked for.
* `start_match`, `convert_match` and so on: the parts of the search go in step.
* `locate_match`: so does the search, if the memories are the same.
-/

namespace InjectorTree

open Placement Run

/-- A way to compare hierarchies, as far as the injectors that are seen are concerned. -/
structure Comparison where
  Alike : Hierarchy → Hierarchy → Prop
  Seen : InjectorId → Prop
  /-- Compares bindings. -/
  Same : Binding → Binding → Prop
  /-- Compares converted values. -/
  Value : Instance → Instance → Prop

/-- Hierarchies that are alike give answers that are the same, and stay alike under what a search does to them. -/
structure Comparison.Lawful (C : Comparison) : Prop where
  above : ∀ {h h' n p}, C.Alike h h' → C.Seen n → p ∈ h.lineage n → C.Seen p
  lineage : ∀ {h h' n}, C.Alike h h' → C.Seen n → h'.lineage n = h.lineage n
  lookup : ∀ {h h' n} (key : Key), C.Alike h h' → C.Seen n → Option.Rel C.Same (h.lookup n key) (h'.lookup n key)
  claimants : ∀ {h h' n} (key : Key), C.Alike h h' → C.Seen n → h'.claimants n key = h.claimants n key
  declaration? : ∀ {h h' n} (key : Key), C.Alike h h' → C.Seen n → h'.declaration? n key = h.declaration? n key
  conversion? : ∀ {h h' n} (key : Key), C.Alike h h' → C.Seen n → conversion? h' n key = conversion? h n key
  isExplicitOnly : ∀ {h h' n}, C.Alike h h' → C.Seen n → h'.isExplicitOnly n = h.isExplicitOnly n
  findScope : ∀ {h h' n} (tag : ScopeTag), C.Alike h h' → C.Seen n →
    (h'.findScope n tag).1 = (h.findScope n tag).1 ∧ C.Alike (h.findScope n tag).2 (h'.findScope n tag).2
  make : ∀ {h h' n} (key : Key) (strategy : Strategy) (scope : Option (ScopeTag × Scope)) (source : Source)
    (origin : Origin), C.Alike h h' → C.Seen n →
      C.Same (h.makeBinding key strategy scope source origin n).1
          (h'.makeBinding key strategy scope source origin n).1 ∧
        C.Alike (h.makeBinding key strategy scope source origin n).2
          (h'.makeBinding key strategy scope source origin n).2
  convert : ∀ {h h' n} {key : Key} {conversion : Conversion} {registration : ConverterRegistration},
    C.Alike h h' → C.Seen n → Placement.conversion? h n key = some conversion →
      conversion.converters = [registration] →
        let converted := registration.converter.convert conversion.text key h.user
        let converted' := registration.converter.convert conversion.text key h'.user
        C.Alike { h with user := converted.2 } { h' with user := converted'.2 } ∧
          ((∃ reason, converted.1 = .error reason ∧ converted'.1 = .error reason) ∨
            ∃ value value', converted.1 = .ok value ∧ converted'.1 = .ok value' ∧ C.Value value value')
  makeConverted : ∀ {h h' n} {value value' : Instance} (key : Key) (source : Source), C.Alike h h' → C.Seen n →
    C.Value value value' →
      C.Same (h.makeBinding key (.fixed value) none source .converted n).1
          (h'.makeBinding key (.fixed value') none source .converted n).1 ∧
        C.Alike (h.makeBinding key (.fixed value) none source .converted n).2
          (h'.makeBinding key (.fixed value') none source .converted n).2
  same : ∀ {binding binding'}, C.Same binding binding' →
    binding'.key = binding.key ∧ binding'.owner = binding.owner ∧ binding'.source = binding.source ∧
      binding'.strategy.dependencies = binding.strategy.dependencies

/-- The drafts of two searches, in hierarchies that are alike, with bindings that are the same. The memories are
the same too if the comparison is to be strict. -/
structure Paired (C : Comparison) (strict : Prop) (d d' : Draft) : Prop where
  hierarchy : C.Alike d.hierarchy d'.hierarchy
  staged : List.Forall₂ (fun binding binding' => C.Same binding binding' ∧ C.Seen binding.owner) d.staged d'.staged
  memory : strict → d'.failed = d.failed ∧ d'.conflicts = d.conflicts

variable {C : Comparison} {strict : Prop} {n : InjectorId} {key : Key} {d d' : Draft} {binding binding' : Binding}
  {locate locate' : InjectorId → Key → Run Draft Binding}

theorem Comparison.Lawful.path (hC : C.Lawful) {h h' : Hierarchy} (hAlike : C.Alike h h') (hSeen : C.Seen n) :
    h'.path n = h.path n := by
  rw [Hierarchy.path, Hierarchy.path, hC.lineage hAlike hSeen]

namespace Paired

/-- Another pair of hierarchies under the same bindings and memories. -/
theorem withHierarchy (hd : Paired C strict d d') {h h' : Hierarchy} (hAlike : C.Alike h h') :
    Paired C strict { d with hierarchy := h } { d' with hierarchy := h' } :=
  ⟨hAlike, hd.staged, hd.memory⟩

/-- What is staged for a key on the path of an injector. -/
theorem lookup (hC : C.Lawful) (hd : Paired C strict d d') (hSeen : C.Seen n) :
    Option.Rel C.Same (d.lookup n key) (d'.lookup n key) := by
  have hFind : ∀ m, Option.Rel C.Same
      (d.staged.find? fun binding => binding.owner = m && binding.key = key)
      (d'.staged.find? fun binding => binding.owner = m && binding.key = key) := by
    intro m
    have hStaged := hd.staged
    generalize d.staged = staged at hStaged ⊢
    generalize d'.staged = staged' at hStaged ⊢
    induction hStaged with
    | nil => exact .none
    | cons hFirst _ ih =>
      obtain ⟨hKey, hOwner, -⟩ := hC.same hFirst.1
      rw [List.find?_cons, List.find?_cons, hKey, hOwner]
      split
      · exact .some hFirst.1
      · exact ih
  rw [Draft.lookup_eq, Draft.lookup_eq, hC.path hd.hierarchy hSeen]
  induction d.hierarchy.path n with
  | nil => exact .none
  | cons m rest ih =>
    rw [List.findSome?_cons, List.findSome?_cons]
    have hFirst := hFind m
    generalize (d.staged.find? fun binding => binding.owner = m && binding.key = key) = found at hFirst ⊢
    generalize (d'.staged.find? fun binding => binding.owner = m && binding.key = key) = found' at hFirst ⊢
    cases hFirst with
    | none => exact ih
    | some hSame => exact .some hSame

theorem stagedBelow (hC : C.Lawful) (hd : Paired C strict d d') : d'.stagedBelow n key = d.stagedBelow n key := by
  rw [Draft.stagedBelow_eq, Draft.stagedBelow_eq]
  have hStaged := hd.staged
  generalize d.staged = staged at hStaged ⊢
  generalize d'.staged = staged' at hStaged ⊢
  induction hStaged with
  | nil => rfl
  | cons hFirst _ ih =>
    obtain ⟨hKey, hOwner, hSource, -⟩ := hC.same hFirst.1
    rw [List.filter_cons, List.filter_cons, hKey, hOwner, Hierarchy.isBelow, Hierarchy.isBelow,
      hC.lineage hd.hierarchy hFirst.2]
    split
    · rw [List.map_cons, List.map_cons, hSource, ih]
    · exact ih

/-- The key is located in both, or in neither. -/
theorem located (key : Key) (hC : C.Lawful) (hd : Paired C strict d d') (hSeen : C.Seen n) :
    Option.Rel C.Same ((d.hierarchy.lookup n key).or (d.lookup n key))
      ((d'.hierarchy.lookup n key).or (d'.lookup n key)) := by
  have hLookup := hC.lookup key hd.hierarchy hSeen
  generalize d.hierarchy.lookup n key = found at hLookup ⊢
  generalize d'.hierarchy.lookup n key = found' at hLookup ⊢
  cases hLookup with
  | none => exact hd.lookup hC hSeen
  | some hSame => exact .some hSame

/-- One more binding is staged in both. -/
theorem snoc (hd : Paired C strict d d') {h h' : Hierarchy} (hAlike : C.Alike h h') {staged staged' : Staged}
    (hSame : C.Same staged.binding staged'.binding) (hOwner : C.Seen staged.binding.owner) :
    Paired C strict { d with hierarchy := h, pending := d.pending ++ [staged] }
      { d' with hierarchy := h', pending := d'.pending ++ [staged'] } where
  hierarchy := hAlike
  staged := by
    rw [Draft.staged_snoc, Draft.staged_snoc]
    exact List.rel_append hd.staged (.cons ⟨hSame, hOwner⟩ .nil)
  memory := hd.memory

end Paired

namespace Placement

-- ---------------------------------------------------------------------------
-- Starting
-- ---------------------------------------------------------------------------

theorem checkUnclaimed_match (hC : C.Lawful) (hd : Paired C strict d d') (hSeen : C.Seen n) :
    Match (fun _ _ => True) (Paired C strict) (checkUnclaimed n key d) (checkUnclaimed n key d') := by
  have hPair : Paired C strict (if (d.stagedBelow n key).isEmpty then d else { d with conflicts := d.conflicts + 1 })
      (if (d.stagedBelow n key).isEmpty then d' else { d' with conflicts := d'.conflicts + 1 }) := by
    split
    · exact hd
    · refine ⟨hd.hierarchy, hd.staged, fun hStrict => ?_⟩
      exact ⟨(hd.memory hStrict).1, congrArg (· + 1) (hd.memory hStrict).2⟩
  simp only [checkUnclaimed, hd.stagedBelow hC, hC.claimants key hd.hierarchy hSeen]
  split
  · exact .ok trivial hPair
  · exact .error hPair

theorem visibleDeclaration_match (hC : C.Lawful) (hd : Paired C strict d d') (hSeen : C.Seen n) :
    Match Eq (Paired C strict) (visibleDeclaration n key d) (visibleDeclaration n key d') := by
  simp only [visibleDeclaration, hC.declaration? key hd.hierarchy hSeen]
  split
  · exact .ok rfl hd
  · exact .error hd

theorem checkObjection_match (hd : Paired C strict d d') (declaration : Declaration) :
    Match Eq (Paired C strict) (checkObjection key declaration d) (checkObjection key declaration d') := by
  unfold checkObjection
  cases declaration.strategy.objection key declaration.scope with
  | some problem => exact .error hd
  | none => exact .ok rfl hd

theorem visibleScope_match (hC : C.Lawful) (hd : Paired C strict d d') (hSeen : C.Seen n)
    (declaration : Declaration) :
    Match Eq (Paired C strict) (visibleScope n declaration d) (visibleScope n declaration d') := by
  unfold visibleScope
  cases declaration.scope with
  | none => exact .ok rfl hd
  | some tag =>
    obtain ⟨hFound, hAlike⟩ := hC.findScope tag hd.hierarchy hSeen
    rcases hFind : d.hierarchy.findScope n tag with ⟨found, h⟩
    rcases hFind' : d'.hierarchy.findScope n tag with ⟨found', h'⟩
    rw [hFind, hFind'] at hFound hAlike
    obtain rfl : found' = found := hFound
    cases found' with
    | none =>
      simp only [hFind, hFind']
      exact .error (hd.withHierarchy hAlike)
    | some registration =>
      simp only [hFind, hFind']
      exact .ok rfl (hd.withHierarchy hAlike)

/-- A binding is started in both, or in neither, for the same reason. -/
theorem start_match (hC : C.Lawful) (hd : Paired C strict d d') (hSeen : C.Seen n) :
    Match (fun binding binding' => C.Same binding binding' ∧ binding.owner = n) (Paired C strict)
      (start n key d) (start n key d') := by
  refine Match.bind (checkUnclaimed_match hC hd hSeen) (fun _ _ hd => hd) fun _ _ d d' _ hd => ?_
  refine Match.bind (visibleDeclaration_match hC hd hSeen) (fun _ _ hd => hd) ?_
  rintro declaration _ d d' rfl hd
  have hScope : Match Eq (Paired C strict)
      ((checkObjection key declaration >>= fun _ => visibleScope n declaration) d)
      ((checkObjection key declaration >>= fun _ => visibleScope n declaration) d') :=
    Match.bind (checkObjection_match hd declaration) (fun _ _ hd => hd) fun _ _ _ _ _ hd =>
      visibleScope_match hC hd hSeen declaration
  refine Match.bind (hScope.within _) (fun _ _ hd => hd) ?_
  rintro scope _ d d' rfl hd
  obtain ⟨hSame, hAlike⟩ :=
    hC.make key declaration.strategy scope declaration.source .justInTime hd.hierarchy hSeen
  exact .ok ⟨hSame, rfl⟩ (hd.snoc hAlike hSame hSeen)

-- ---------------------------------------------------------------------------
-- Attempts
-- ---------------------------------------------------------------------------

/-- What bindings that are the same depend on is located in step. -/
theorem supply_match (locate locate' : InjectorId → Key → Run Draft Binding) {R : Draft → Draft → Prop}
    (hC : C.Lawful) (hSame : C.Same binding binding')
    (hL : ∀ dependency ∈ binding.strategy.dependencies, ∀ d d', R d d' →
      Match C.Same R (locate binding.owner dependency d) (locate' binding.owner dependency d')) (hd : R d d') :
    Match (List.Forall₂ C.Same) R (supply locate binding d) (supply locate' binding' d') := by
  obtain ⟨-, hOwner, hSource, hDependencies⟩ := hC.same hSame
  unfold supply
  rw [hOwner, hSource, hDependencies]
  refine Match.forEach _ hd fun dependency hMem d d' hd => ?_
  exact ((hL dependency hMem d d' hd).within _).within _

theorem createAt_match (key : Key) (hC : C.Lawful)
    (hL : ∀ key d d', Paired C strict d d' → Match C.Same (Paired C strict) (locate n key d) (locate' n key d'))
    (hd : Paired C strict d d') (hSeen : C.Seen n) :
    Match C.Same (Paired C strict) (createAt locate n key d) (createAt locate' n key d') := by
  rw [createAt_eq, createAt_eq]
  refine Match.bind (start_match hC hd hSeen) (fun _ _ hd => hd) ?_
  rintro binding binding' d d' ⟨hSame, hOwner⟩ hd
  have hSupply := supply_match locate locate' hC hSame
    (fun dependency _ d d' hd => hOwner.symm ▸ hL dependency d d' hd) hd
  exact Match.bind hSupply (fun _ _ hd => hd) fun _ _ _ _ _ hd => .ok hSame hd

/-- What a failed attempt staged is taken back in both. -/
theorem attempt_of_createAt (hd : Paired C strict d d')
    (hCreate : Match C.Same (Paired C strict) (createAt locate n key d) (createAt locate' n key d')) :
    Match C.Same (Paired C strict) (attempt locate n key d) (attempt locate' n key d') := by
  unfold attempt
  generalize createAt locate n key d = made at hCreate ⊢
  generalize createAt locate' n key d' = made' at hCreate ⊢
  cases hCreate with
  | endless => exact .endless
  | ok hSame hAfter => exact .ok hSame hAfter
  | error hAfter =>
    refine .error ⟨hAfter.hierarchy, ?_, fun hStrict => ?_⟩
    · rw [Draft.staged_take, Draft.staged_take, ← hd.staged.length_eq]
      exact List.forall₂_take _ hAfter.staged
    · obtain ⟨hFailed, hConflicts⟩ := hAfter.memory hStrict
      refine ⟨?_, hConflicts⟩
      rw [hFailed, hConflicts, (hd.memory hStrict).2]

theorem attempt_match (key : Key) (hC : C.Lawful)
    (hL : ∀ key d d', Paired C strict d d' → Match C.Same (Paired C strict) (locate n key d) (locate' n key d'))
    (hd : Paired C strict d d') (hSeen : C.Seen n) :
    Match C.Same (Paired C strict) (attempt locate n key d) (attempt locate' n key d') :=
  attempt_of_createAt hd (createAt_match key hC hL hd hSeen)

/-- The same candidates are left out. -/
theorem place_match (hC : C.Lawful) (hStrict : strict) (candidates : List InjectorId)
    (hCandidates : ∀ candidate ∈ candidates, C.Seen candidate)
    (hL : ∀ n, C.Seen n → ∀ key d d', Paired C strict d d' →
      Match C.Same (Paired C strict) (locate n key d) (locate' n key d'))
    (hd : Paired C strict d d') (hSeen : C.Seen n) :
    Match C.Same (Paired C strict) (place locate n key candidates d) (place locate' n key candidates d') := by
  induction candidates generalizing d d' with
  | nil => exact attempt_match key hC (hL n hSeen) hd hSeen
  | cons candidate rest ih =>
    have hRest := fun other hMem => hCandidates other (List.mem_cons_of_mem candidate hMem)
    have hFirst := hCandidates candidate List.mem_cons_self
    simp only [place, (hd.memory hStrict).1]
    split
    · exact ih hRest hd
    · have hAttempt := attempt_match key hC (hL candidate hFirst) hd hFirst
      generalize attempt locate candidate key d = tried at hAttempt ⊢
      generalize attempt locate' candidate key d' = tried' at hAttempt ⊢
      cases hAttempt with
      | endless => exact .endless
      | ok hSame hAfter => exact .ok hSame hAfter
      | error hAfter => exact ih hRest hAfter

-- ---------------------------------------------------------------------------
-- The search
-- ---------------------------------------------------------------------------

theorem runConverter_match (hC : C.Lawful) (hd : Paired C strict d d') (hSeen : C.Seen n) {conversion : Conversion}
    (hConversion : conversion? d.hierarchy n key = some conversion) {registration : ConverterRegistration}
    (hOne : conversion.converters = [registration]) :
    Match C.Value (Paired C strict) (runConverter registration conversion.text key d)
      (runConverter registration conversion.text key d') := by
  obtain ⟨hAlike, hOutcome⟩ := hC.convert hd.hierarchy hSeen hConversion hOne
  simp only [runConverter]
  rcases hOutcome with ⟨reason, hReason, hReason'⟩ | ⟨value, value', hValue, hValue', hSame⟩
  · rw [hReason, hReason']
    exact .error (hd.withHierarchy hAlike)
  · rw [hValue, hValue']
    exact .ok hSame (hd.withHierarchy hAlike)

theorem convert_match (hC : C.Lawful) (hd : Paired C strict d d') (hSeen : C.Seen n) {conversion : Conversion}
    (hConversion : conversion? d.hierarchy n key = some conversion) :
    Match C.Same (Paired C strict) (convert conversion n key d) (convert conversion n key d') := by
  unfold convert
  rcases hOne : conversion.converters with _ | ⟨registration, _ | ⟨second, rest⟩⟩
  · exact .error hd
  · refine Match.bind (runConverter_match hC hd hSeen hConversion hOne) (fun _ _ hd => hd) ?_
    intro value value' d d' hValue hd
    refine Match.bind (checkUnclaimed_match hC hd hSeen) (fun _ _ hd => hd) fun _ _ d d' _ hd => ?_
    obtain ⟨hSame, hAlike⟩ := hC.makeConverted key conversion.source hd.hierarchy hSeen hValue
    exact .ok hSame (hd.snoc hAlike hSame hSeen)
  · exact .error hd

theorem createOnDemand_match (hC : C.Lawful) (hStrict : strict)
    (hL : ∀ n, C.Seen n → ∀ key d d', Paired C strict d d' →
      Match C.Same (Paired C strict) (locate n key d) (locate' n key d'))
    (hd : Paired C strict d d') (hSeen : C.Seen n) :
    Match C.Same (Paired C strict) (createOnDemand locate n key d) (createOnDemand locate' n key d') := by
  simp only [createOnDemand, hC.conversion? key hd.hierarchy hSeen, hC.isExplicitOnly hd.hierarchy hSeen,
    hC.lineage hd.hierarchy hSeen]
  split
  · next conversion hConversion => exact convert_match hC hd hSeen hConversion
  · split
    · exact .error hd
    · refine place_match hC hStrict _ (fun candidate hMem => ?_) hL hd hSeen
      exact hC.above hd.hierarchy hSeen (List.mem_reverse.mp hMem)

/-- Searches with the same memory make the same attempts. -/
theorem locate_match (hC : C.Lawful) (hStrict : strict) (fuel : Nat) {n : InjectorId} (hSeen : C.Seen n) (key : Key)
    {d d' : Draft} (hd : Paired C strict d d') :
    Match C.Same (Paired C strict) (Placement.locate fuel n key d) (Placement.locate fuel n key d') := by
  induction fuel generalizing n key d d' with
  | zero => exact .endless
  | succ fuel ih =>
    have hLocated := hd.located key hC hSeen
    simp only [Placement.locate]
    generalize (d.hierarchy.lookup n key).or (d.lookup n key) = found at hLocated ⊢
    generalize (d'.hierarchy.lookup n key).or (d'.lookup n key) = found' at hLocated ⊢
    cases hLocated with
    | some hSame => exact .ok hSame hd
    | none => exact createOnDemand_match hC hStrict (fun n hSeen key d d' hd => ih hSeen key hd) hd hSeen

end Placement

end InjectorTree
