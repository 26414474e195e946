import InjectorTree.Proofs.Hierarchy.ScopeCache

/-!
# Starting a binding

Creating a binding on demand begins with checks at one injector, and if they pass, the binding is staged. Only
then are the keys located on which it depends. What the checks ask for is a matter of the hierarchy in which
the search began, but for the question whether the key is staged below.

* `createAt_eq`: creating is starting, and then supplying what the binding depends on.
* `start_ok`, `start_error`: when a binding is started, and what it leaves behind if it is not.
* `WrappedIn`: how the scope of a binding is applied to it; a binding that is started is wrapped so.
-/

namespace InjectorTree

namespace Hierarchy

/-- Nothing in the hierarchy stands against a binding of the key in the injector, made from the declaration. -/
structure Startable (h : Hierarchy) (p : InjectorId) (key : Key) (declaration : Declaration) : Prop where
  unclaimed : h.claimants p key = []
  declared : h.declaration? p key = some declaration
  sound : declaration.strategy.objection key declaration.scope = none
  registered : ∀ tag, declaration.scope = some tag → (h.nearestScope p tag).isSome = true

/-- The layers that the scope of a tag puts on a binding, for some state of user code. -/
def layersFor (h : Hierarchy) (p : InjectorId) (key : Key) (tag : Option ScopeTag) (user : UserState) :
    List Layer :=
  (tag.bind (h.nearestScope p)).elim [] fun registration => (registration.scope.wrap key user).1

/-- The scope, if there is one, is what the search finds for its tag. -/
def FoundBy (find : ScopeTag → Option ScopeRegistration) (scope : Option (ScopeTag × Scope)) : Prop :=
  ∀ pair ∈ scope, ∃ registration, find pair.1 = some registration ∧ registration.scope = pair.2

/-- The binding is wrapped by the scope that is nearest to its owner, which leaves the second state of user code behind
if it is called in the first one. A binding in no scope is not wrapped. -/
structure WrappedIn (h : Hierarchy) (binding : Binding) (user user' : UserState) : Prop where
  bare : binding.scope = none → binding.layers = [] ∧ user' = user
  wrapped : ∀ tag, binding.scope = some tag → ∃ registration, h.nearestScope binding.owner tag = some registration ∧
    registration.scope.wrap binding.key user = (binding.layers, user')

/-- The binding is what the declaration makes in its owner. -/
structure BuiltFrom (h : Hierarchy) (declaration : Declaration) (binding : Binding) : Prop where
  strategy : binding.strategy = declaration.strategy
  scope : binding.scope = declaration.scope
  source : binding.source = declaration.source
  origin : binding.origin = .justInTime
  layers : ∃ user, binding.layers = h.layersFor binding.owner binding.key declaration.scope user

variable {h h' : Hierarchy} {p : InjectorId} {key : Key} {declaration : Declaration}

/-- Marks do not matter. -/
theorem SameCore.startable (hs : SameCore h' h) (hS : h'.Startable p key declaration) :
    h.Startable p key declaration where
  unclaimed := by
    rw [← hs.claimants]
    exact hS.unclaimed
  declared := by
    rw [← hs.sameShape.declaration?]
    exact hS.declared
  sound := hS.sound
  registered tag hTag := by
    rw [← hs.sameShape.nearestScope]
    exact hS.registered tag hTag

/-- What a declaration makes is a matter of shape. -/
theorem SameShape.builtFrom {binding : Binding} (hs : SameShape h' h) (hB : h'.BuiltFrom declaration binding) :
    h.BuiltFrom declaration binding where
  strategy := hB.strategy
  scope := hB.scope
  source := hB.source
  origin := hB.origin
  layers := by
    obtain ⟨user, hLayers⟩ := hB.layers
    have hNearest : h'.nearestScope binding.owner = h.nearestScope binding.owner :=
      funext fun tag => hs.nearestScope binding.owner tag
    rw [layersFor, hNearest] at hLayers
    exact ⟨user, hLayers⟩

theorem foundBy_none (find : ScopeTag → Option ScopeRegistration) : FoundBy find none :=
  fun _ hMem => nomatch hMem

theorem foundBy_bind (find : ScopeTag → Option ScopeRegistration) (named : Option ScopeTag) :
    FoundBy find (named.bind fun tag => (find tag).map fun registration => (tag, registration.scope)) := by
  intro pair hMem
  obtain ⟨tag, -, hFound⟩ := Option.bind_eq_some_iff.mp hMem
  obtain ⟨registration, hRegistered, rfl⟩ := Option.map_eq_some_iff.mp hFound
  exact ⟨registration, hRegistered, rfl⟩

/-- A binding that is made in the nearest scope of its owner is wrapped by it, whatever else there is. -/
theorem wrappedIn_makeBinding {scope : Option (ScopeTag × Scope)} {owner : InjectorId}
    (hFound : FoundBy (h.nearestScope owner) scope) (h₀ : Hierarchy) (key : Key) (strategy : Strategy)
    (source : Source) (origin : Origin) :
    h.WrappedIn (h₀.makeBinding key strategy scope source origin owner).1 h₀.user
      (h₀.makeBinding key strategy scope source origin owner).2.user := by
  cases scope with
  | none => exact ⟨fun _ => ⟨rfl, rfl⟩, fun _ hScope => nomatch hScope⟩
  | some pair =>
    refine ⟨fun hScope => (nomatch hScope), ?_⟩
    rintro _ ⟨⟩
    obtain ⟨registration, hNearest, hSame⟩ := hFound pair rfl
    refine ⟨registration, hNearest, ?_⟩
    rw [hSame]
    rfl

theorem marked_user (hW : h.WellFormed) (user : UserState) : Marked { h with user } h :=
  ⟨sameCore_of_injectors rfl rfl rfl, hW.of_injectors rfl rfl rfl (Nat.le_refl _), Nat.le_refl _⟩

end Hierarchy

namespace Placement

open Hierarchy

variable {h : Hierarchy} {d d' : Draft} {n : InjectorId} {key : Key} {declaration : Declaration}
  {binding : Binding} {report : Report}

-- ---------------------------------------------------------------------------
-- The checks
-- ---------------------------------------------------------------------------

theorem checkUnclaimed_ok {u : Unit} (hRun : checkUnclaimed n key d = some (.ok u, d')) :
    d' = d ∧ d.hierarchy.claimants n key = [] ∧ d.stagedBelow n key = [] := by
  unfold checkUnclaimed at hRun
  simp only [List.isEmpty_iff, List.append_eq_nil_iff] at hRun
  split at hRun
  · next hNone =>
    rw [if_pos hNone.2, Option.some.injEq, Prod.mk.injEq] at hRun
    exact ⟨hRun.2.symm, hNone⟩
  · cases hRun

/-- While nothing is staged, only claims stand in the way. -/
theorem checkUnclaimed_of_claimed (hStaged : d.staged = []) (hClaimed : d.hierarchy.claimants n key ≠ []) :
    checkUnclaimed n key d =
      some (.error (.of (.childBlocksParent key (d.hierarchy.claimants n key))), d) := by
  have hBelow : d.stagedBelow n key = [] := by rw [Draft.stagedBelow_eq, hStaged]; rfl
  have hFilled : (d.hierarchy.claimants n key).isEmpty = false := by
    rw [List.isEmpty_eq_false_iff]
    exact hClaimed
  simp [checkUnclaimed, hBelow, hFilled]

theorem checkUnclaimed_of_free (hStaged : d.staged = []) (hFree : d.hierarchy.claimants n key = []) :
    checkUnclaimed n key d = some (.ok (), d) := by
  have hBelow : d.stagedBelow n key = [] := by rw [Draft.stagedBelow_eq, hStaged]; rfl
  simp [checkUnclaimed, hBelow, hFree]

/-- A check that fails because the key is staged below is counted. -/
theorem checkUnclaimed_error (hRun : checkUnclaimed n key d = some (.error report, d')) :
    d' = { d with conflicts := if d.stagedBelow n key = [] then d.conflicts else d.conflicts + 1 } ∧
      (d.stagedBelow n key ≠ [] ∨ d.hierarchy.claimants n key ≠ []) := by
  unfold checkUnclaimed at hRun
  simp only [List.isEmpty_iff, List.append_eq_nil_iff] at hRun
  split at hRun
  · cases hRun
  · next hSome =>
    rw [Option.some.injEq, Prod.mk.injEq] at hRun
    refine ⟨?_, ?_⟩
    · rw [← hRun.2]
      split <;> rfl
    · rw [← Classical.not_and_iff_not_or_not, and_comm]
      exact hSome

theorem checkUnclaimed_ends (n : InjectorId) (key : Key) (d : Draft) :
    ∃ r, checkUnclaimed n key d = some r := by
  simp only [checkUnclaimed]
  split
  · exact ⟨_, rfl⟩
  · exact ⟨_, rfl⟩

theorem visibleDeclaration_ok (hRun : visibleDeclaration n key d = some (.ok declaration, d')) :
    d' = d ∧ d.hierarchy.declaration? n key = some declaration := by
  unfold visibleDeclaration at hRun
  split at hRun
  · next hFound =>
    rw [Option.some.injEq, Prod.mk.injEq, Except.ok.injEq] at hRun
    exact ⟨hRun.2.symm, hRun.1 ▸ hFound⟩
  · cases hRun

theorem visibleDeclaration_error (hRun : visibleDeclaration n key d = some (.error report, d')) :
    d' = d ∧ d.hierarchy.declaration? n key = none := by
  unfold visibleDeclaration at hRun
  split at hRun
  · cases hRun
  · next hFound =>
    rw [Option.some.injEq, Prod.mk.injEq] at hRun
    exact ⟨hRun.2.symm, hFound⟩

theorem checkObjection_ok {u : Unit} (hRun : checkObjection key declaration d = some (.ok u, d')) :
    d' = d ∧ declaration.strategy.objection key declaration.scope = none := by
  rw [checkObjection] at hRun
  cases hObjection : declaration.strategy.objection key declaration.scope with
  | some problem =>
    rw [hObjection] at hRun
    cases hRun
  | none =>
    rw [hObjection] at hRun
    simp only [Run.pure_apply, Option.some.injEq, Prod.mk.injEq] at hRun
    exact ⟨hRun.2.symm, rfl⟩

theorem checkObjection_error (hRun : checkObjection key declaration d = some (.error report, d')) :
    d' = d ∧ declaration.strategy.objection key declaration.scope ≠ none := by
  rw [checkObjection] at hRun
  cases hObjection : declaration.strategy.objection key declaration.scope with
  | some problem =>
    rw [hObjection] at hRun
    simp only [Run.fail_apply, Option.some.injEq, Prod.mk.injEq] at hRun
    exact ⟨hRun.2.symm, Option.some_ne_none problem⟩
  | none =>
    rw [hObjection] at hRun
    cases hRun

/-- The scope is the nearest one, and the search leaves marks only. -/
theorem visibleScope_ok (hW : d.hierarchy.WellFormed) {scope : Option (ScopeTag × Scope)}
    (hRun : visibleScope n declaration d = some (.ok scope, d')) :
    (∃ hierarchy, d' = { d with hierarchy } ∧ Marked hierarchy d.hierarchy) ∧
      (∀ tag, declaration.scope = some tag → (d.hierarchy.nearestScope n tag).isSome = true) ∧
      scope = declaration.scope.bind fun tag =>
        (d.hierarchy.nearestScope n tag).map fun registration => (tag, registration.scope) := by
  unfold visibleScope at hRun
  cases hTag : declaration.scope with
  | none =>
    simp only [hTag, Option.some.injEq, Prod.mk.injEq, Except.ok.injEq] at hRun
    obtain ⟨rfl, rfl⟩ := hRun
    exact ⟨⟨d.hierarchy, rfl, Marked.refl hW⟩, fun _ hSome => (nomatch hSome), rfl⟩
  | some tag =>
    have hFst := findScope_fst hW.rooted hW.caches n tag
    have hMarked := marked_findScope hW n tag
    simp only [hTag] at hRun
    split at hRun
    · next registration hierarchy hFind =>
      rw [Option.some.injEq, Prod.mk.injEq, Except.ok.injEq] at hRun
      rw [hFind] at hFst hMarked
      refine ⟨⟨hierarchy, hRun.2.symm, hMarked⟩, ?_, ?_⟩
      · rintro _ ⟨⟩
        rw [← hFst]
        rfl
      · rw [← hRun.1, Option.bind_some, ← hFst]
        rfl
    · cases hRun

theorem visibleScope_error (hW : d.hierarchy.WellFormed)
    (hRun : visibleScope n declaration d = some (.error report, d')) :
    (∃ hierarchy, d' = { d with hierarchy } ∧ Marked hierarchy d.hierarchy) ∧
      ∃ tag, declaration.scope = some tag ∧ d.hierarchy.nearestScope n tag = none := by
  unfold visibleScope at hRun
  cases hTag : declaration.scope with
  | none =>
    rw [hTag] at hRun
    cases hRun
  | some tag =>
    have hFst := findScope_fst hW.rooted hW.caches n tag
    have hMarked := marked_findScope hW n tag
    simp only [hTag] at hRun
    split at hRun
    · cases hRun
    · next hierarchy hFind =>
      rw [Option.some.injEq, Prod.mk.injEq] at hRun
      rw [hFind] at hFst hMarked
      exact ⟨⟨hierarchy, hRun.2.symm, hMarked⟩, tag, rfl, hFst.symm⟩

/-- Looking for a scope is no matter of user code. -/
theorem user_visibleScope {outcome : Except Report (Option (ScopeTag × Scope))}
    (hRun : visibleScope n declaration d = some (outcome, d')) : d'.hierarchy.user = d.hierarchy.user := by
  unfold visibleScope at hRun
  split at hRun
  · cases hRun
    rfl
  · next tag _ =>
    have hUser := user_findScope d.hierarchy n tag
    split at hRun <;> next hFind =>
      rw [hFind] at hUser
      cases hRun
      exact hUser

-- ---------------------------------------------------------------------------
-- Starting
-- ---------------------------------------------------------------------------

/-- The first half of `createAt`: the checks, and the binding staged. -/
def start (n : InjectorId) (key : Key) : Run Draft Binding := do
  checkUnclaimed n key
  let declaration ← visibleDeclaration n key
  let scope ← Run.within (.at declaration.source) do
    checkObjection key declaration
    visibleScope n declaration
  stage n key declaration.strategy scope declaration.source .justInTime

/-- The second half of `createAt`: the keys located on which the binding depends. -/
def supply (locate : InjectorId → Key → Run Draft Binding) (binding : Binding) : Run Draft (List Binding) :=
  Run.forEach
    (fun dependency =>
      Run.within (.at binding.source)
        (Run.within (.locating dependency) (locate binding.owner dependency)))
    binding.strategy.dependencies

/-- Creating is starting, and then supplying what the binding depends on. -/
theorem createAt_eq (locate : InjectorId → Key → Run Draft Binding) (n : InjectorId) (key : Key) :
    createAt locate n key = do
      let binding ← start n key
      let _ ← supply locate binding
      return binding := by
  unfold createAt start
  simp only [bind_assoc]
  rfl

/-- The binding was started, from a declaration that the hierarchy `h` allows for. -/
structure Started (h : Hierarchy) (n : InjectorId) (key : Key) (d : Draft) (binding : Binding)
    (d' : Draft) : Prop where
  declaration : ∃ declaration, h.Startable n key declaration ∧ h.BuiltFrom declaration binding
  wrapped : h.WrappedIn binding d.hierarchy.user d'.hierarchy.user
  free : d.stagedBelow n key = []
  owner : binding.owner = n
  key : binding.key = key
  older : d.hierarchy.nextBinding ≤ binding.id
  newer : binding.id < d'.hierarchy.nextBinding
  marked : Marked d'.hierarchy d.hierarchy
  staged : d'.staged = d.staged ++ [binding]
  failed : d'.failed = d.failed
  conflicts : d'.conflicts = d.conflicts

/-- The binding was not started: the key is staged below, or the hierarchy `h` does not allow for it. -/
structure Refused (h : Hierarchy) (n : InjectorId) (key : Key) (d d' : Draft) : Prop where
  reason : d.stagedBelow n key ≠ [] ∨ ∀ declaration, ¬h.Startable n key declaration
  marked : Marked d'.hierarchy d.hierarchy
  user : d'.hierarchy.user = d.hierarchy.user
  staged : d'.staged = d.staged
  failed : d'.failed = d.failed
  conflicts : d'.conflicts = if d.stagedBelow n key = [] then d.conflicts else d.conflicts + 1

/-- Starting always ends. -/
theorem start_ends (n : InjectorId) (key : Key) (d : Draft) : ∃ r, start n key d = some r := by
  refine Run.bind_ends (checkUnclaimed_ends n key d) fun _ d₁ _ => ?_
  have hVisible : ∃ r, visibleDeclaration n key d₁ = some r := by
    unfold visibleDeclaration
    split <;> exact ⟨_, rfl⟩
  refine Run.bind_ends hVisible fun declaration d₂ _ => ?_
  have hObjection : ∃ r, checkObjection key declaration d₂ = some r := by
    unfold checkObjection
    cases declaration.strategy.objection key declaration.scope <;> exact ⟨_, rfl⟩
  have hScope : ∀ d₃, ∃ r, visibleScope n declaration d₃ = some r := fun d₃ => by
    unfold visibleScope
    cases declaration.scope with
    | none => exact ⟨_, rfl⟩
    | some tag =>
      rcases hFind : d₃.hierarchy.findScope n tag with ⟨_ | registration, hierarchy⟩
      · exact ⟨_, by simp only [hFind]; rfl⟩
      · exact ⟨_, by simp only [hFind]; rfl⟩
  exact Run.bind_ends (Run.within_ends (Run.bind_ends hObjection fun _ d₃ _ => hScope d₃))
    fun _ _ _ => ⟨_, rfl⟩

/-- A binding that is started is allowed for, and staged last. -/
theorem start_ok (hM : Marked d.hierarchy h) (hRun : start n key d = some (.ok binding, d')) :
    Started h n key d binding d' := by
  obtain ⟨_, d₁, hUnclaimed, hRest⟩ := Run.bind_eq_ok_iff.mp hRun
  obtain ⟨declaration, d₂, hVisible, hRest⟩ := Run.bind_eq_ok_iff.mp hRest
  obtain ⟨scope, d₃, hWithin, hStage⟩ := Run.bind_eq_ok_iff.mp hRest
  obtain ⟨_, d₄, hObjection, hScope⟩ := Run.bind_eq_ok_iff.mp (Run.within_eq_ok_iff.mp hWithin)
  obtain ⟨rfl, hClaimants, hFree⟩ := checkUnclaimed_ok hUnclaimed
  obtain ⟨rfl, hDeclared⟩ := visibleDeclaration_ok hVisible
  obtain ⟨rfl, hSound⟩ := checkObjection_ok hObjection
  obtain ⟨⟨hierarchy, rfl, hMarked⟩, hRegistered, hEq⟩ := visibleScope_ok hM.wellFormed hScope
  have hStartable : d₄.hierarchy.Startable n key declaration :=
    ⟨hClaimants, hDeclared, hSound, hRegistered⟩
  simp only [stage, Option.some.injEq, Prod.mk.injEq, Except.ok.injEq] at hStage
  obtain ⟨rfl, rfl⟩ := hStage
  have hMade := marked_makeBinding hMarked.wellFormed key declaration.strategy scope declaration.source
    .justInTime n
  have hTag : ∀ tag, d₄.hierarchy.nearestScope n tag = h.nearestScope n tag := fun tag =>
    hM.core.sameShape.nearestScope n tag
  have hUser : hierarchy.user = d₄.hierarchy.user := user_visibleScope hScope
  have hFound : FoundBy (h.nearestScope n) scope := by
    rw [hEq, ← funext hTag]
    exact foundBy_bind _ _
  have hWrapped := wrappedIn_makeBinding hFound hierarchy key declaration.strategy declaration.source .justInTime
  have hScopeTag : scope.map Prod.fst = declaration.scope := by
    rw [hEq]
    cases hSome : declaration.scope with
    | none => rfl
    | some tag =>
      obtain ⟨registration, hFound⟩ := Option.isSome_iff_exists.mp (hRegistered tag hSome)
      rw [Option.bind_some, hFound]
      rfl
  have hLayers : (scope.elim ([], hierarchy.user) fun pair => pair.2.wrap key hierarchy.user).1 =
      h.layersFor n key declaration.scope hierarchy.user := by
    rw [hEq, layersFor]
    cases declaration.scope with
    | none => rfl
    | some tag =>
      rw [Option.bind_some, Option.bind_some, hTag]
      cases h.nearestScope n tag <;> rfl
  exact
    { declaration := ⟨declaration, hM.core.startable hStartable, rfl, hScopeTag, rfl, rfl, _, hLayers⟩
      wrapped := hUser ▸ hWrapped
      free := hFree
      owner := rfl
      key := rfl
      older := hMarked.nextBinding
      newer := Nat.lt_succ_self _
      marked := hMade.trans hMarked
      staged := Draft.staged_snoc ..
      failed := rfl
      conflicts := rfl }

/-- Where no binding is started, the key is staged below, or a binding is not allowed for. -/
theorem start_error (hM : Marked d.hierarchy h) (hRun : start n key d = some (.error report, d')) :
    Refused h n key d d' := by
  have hRefl := Marked.refl hM.wellFormed
  rcases Run.bind_eq_error_iff.mp hRun with hUnclaimed | ⟨_, d₁, hUnclaimed, hFree⟩
  · obtain ⟨rfl, hReason⟩ := checkUnclaimed_error hUnclaimed
    refine ⟨hReason.imp_right fun hClaimed declaration hStartable => ?_, hRefl, rfl, rfl, rfl, rfl⟩
    exact hClaimed (hM.core.symm.startable hStartable).unclaimed
  obtain ⟨rfl, -, hNotBelow⟩ := checkUnclaimed_ok hUnclaimed
  have hCount : d₁.conflicts = if d₁.stagedBelow n key = [] then d₁.conflicts else d₁.conflicts + 1 :=
    (if_pos hNotBelow).symm
  rcases Run.bind_eq_error_iff.mp hFree with hVisible | ⟨declaration, d₂, hVisible, hFound⟩
  · obtain ⟨rfl, hNone⟩ := visibleDeclaration_error hVisible
    refine ⟨Or.inr fun declaration hStartable => ?_, hRefl, rfl, rfl, rfl, hCount⟩
    have hDeclared := (hM.core.symm.startable hStartable).declared
    rw [hNone] at hDeclared
    cases hDeclared
  obtain ⟨rfl, hDeclared⟩ := visibleDeclaration_ok hVisible
  -- the declaration is the only one that counts
  have hSame : ∀ other, h.Startable n key other → d₂.hierarchy.Startable n key declaration := by
    intro other hStartable
    have hOther := hM.core.symm.startable hStartable
    have hEq := hOther.declared
    rw [hDeclared, Option.some.injEq] at hEq
    exact hEq ▸ hOther
  rcases Run.bind_eq_error_iff.mp hFound with hWithin | ⟨scope, d₃, -, hStage⟩
  · obtain ⟨report', hInner, -⟩ := Run.within_eq_error_iff.mp hWithin
    rcases Run.bind_eq_error_iff.mp hInner with hObjection | ⟨_, d₃, hObjection, hScope⟩
    · obtain ⟨rfl, hUnsound⟩ := checkObjection_error hObjection
      exact ⟨Or.inr fun other hStartable => hUnsound (hSame other hStartable).sound, hRefl, rfl, rfl, rfl,
        hCount⟩
    · obtain ⟨rfl, -⟩ := checkObjection_ok hObjection
      obtain ⟨⟨hierarchy, rfl, hMarked⟩, tag, hTag, hNone⟩ := visibleScope_error hM.wellFormed hScope
      refine ⟨Or.inr fun other hStartable => ?_, hMarked, user_visibleScope hScope, rfl, rfl, hCount⟩
      have hRegistered := (hSame other hStartable).registered tag hTag
      rw [hNone] at hRegistered
      cases hRegistered
  · cases hStage

end Placement

end InjectorTree
