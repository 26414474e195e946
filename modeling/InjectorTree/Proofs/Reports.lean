import InjectorTree.Proofs.Admission

/-!
# What stands against a creation

Whether a module is admitted, and what is reported if it is not, is a matter of the path of the parent: the checks
look up bindings and scopes there, and the marks that they leave do not influence each other.

* `reportsFor`: everything that stands against a module, without reference to what the checks leave behind.
* `create_admitted`, `create_refused`: a creation succeeds if that is nothing, and reports it otherwise.
* `reportsFor_of_sameCore`: marks do not matter.
* `created_declared`: what is created owns a binding for each declaration.
* `about_reportsFor`: what is reported about a key is what is reported about the declarations of that key.
-/

namespace InjectorTree

/-- The key that a problem is about; scopes have none. -/
def Problem.key? : Problem → Option Key
  | .duplicateBinding key _ => some key
  | .parentBlocksChild key _ _ => some key
  | .childBlocksParent key _ => some key
  | .unresolvedScope _ => none
  | .duplicateScope _ _ => none
  | .scopedInstance key => some key
  | .selfBinding key => some key
  | .builtinKey key => some key
  | .unresolvableDependency key => some key
  | .jitDisabled key => some key
  | .converterConflict key _ => some key
  | .conversionFailed key _ _ => some key
  | .cycleDetected key _ => some key
  | .invalidInstance key _ => some key
  | .constructionFailed key _ => some key

namespace Admission

open Hierarchy

/-- What is reported about the scope that a declaration names. -/
def scopeReport (h : Hierarchy) (scopes : Table ScopeTag ScopeRegistration) (parent : Option InjectorId)
    (declaration : Declaration) : List Report :=
  match declaration.scope with
  | none => []
  | some tag =>
    if ((scopes.get? tag).or (parent.bind fun p => h.nearestScope p tag)).isSome then []
    else [Report.within (.of (.unresolvedScope tag)) (.at declaration.source)]

/-- What is reported about the words of a declaration. -/
def objections (declaration : Declaration) : List Report :=
  (declaration.strategy.objection declaration.key declaration.scope).toList.map fun problem =>
    Report.within (.of problem) (.at declaration.source)

/-- What is reported about the declarations of one key. -/
def keyReports (h : Hierarchy) (scopes : Table ScopeTag ScopeRegistration) (parent : Option InjectorId) :
    List Declaration → List Report
  | [] => []
  | [declaration] =>
    match conflict h parent declaration with
    | some report => [report]
    | none => objections declaration ++ scopeReport h scopes parent declaration
  | declaration :: declarations =>
    [.of (.duplicateBinding declaration.key ((declaration :: declarations).map (·.source)))]

/-- Everything that stands against a module. -/
def reportsFor (h : Hierarchy) (parent : Option InjectorId) (module : Module) : List Report :=
  let groups := scopeGroups parent.isNone module.scopes
  scopeReports groups ++
    (Table.groupBy (·.key) module.bindings).values.flatMap (keyReports h (firstRegistrations groups) parent)

variable {h h' : Hierarchy} {parent : Option InjectorId} {module : Module} {explicitOnly : Bool} {key : Key}
  {declaration : Declaration}

-- ---------------------------------------------------------------------------
-- Marks
-- ---------------------------------------------------------------------------

theorem keyReports_of_sameCore (hs : SameCore h' h) (scopes : Table ScopeTag ScopeRegistration)
    (parent : Option InjectorId) (group : List Declaration) :
    keyReports h' scopes parent group = keyReports h scopes parent group := by
  have hScope : ∀ declaration,
      scopeReport h' scopes parent declaration = scopeReport h scopes parent declaration := by
    intro declaration
    simp only [scopeReport, hs.sameShape.nearestScope]
  unfold keyReports
  split
  · rfl
  · rw [conflict_of_sameCore hs, hScope]
  · rfl

theorem reportsFor_of_sameCore (hs : SameCore h' h) (parent : Option InjectorId) (module : Module) :
    reportsFor h' parent module = reportsFor h parent module := by
  have hKeys := fun scopes => funext fun group => keyReports_of_sameCore hs scopes parent group
  simp only [reportsFor, hKeys]

-- ---------------------------------------------------------------------------
-- The checks
-- ---------------------------------------------------------------------------

/-- The scope of a declaration is the registered one, or the nearest one. -/
theorem scopeFor_fst (hW : h.WellFormed) (scopes : Table ScopeTag ScopeRegistration) (parent : Option InjectorId)
    (tag : ScopeTag) :
    (scopeFor scopes parent tag h).1 = (scopes.get? tag).or (parent.bind fun p => h.nearestScope p tag) := by
  unfold scopeFor
  cases scopes.get? tag with
  | some registration => rfl
  | none =>
    cases parent with
    | none => rfl
    | some p => exact findScope_fst hW.rooted hW.caches p tag

theorem resolveScope_reports (hW : h.WellFormed) (scopes : Table ScopeTag ScopeRegistration)
    (parent : Option InjectorId) (declaration : Declaration) :
    (resolveScope scopes parent declaration h).1.1 = scopeReport h scopes parent declaration := by
  unfold resolveScope scopeReport
  cases declaration.scope with
  | none => rfl
  | some tag =>
    have hFound := scopeFor_fst hW scopes parent tag
    rcases hScope : scopeFor scopes parent tag h with ⟨_ | registration, h'⟩
    · rw [hScope] at hFound
      simp only [hScope, ← hFound]
      rfl
    · rw [hScope] at hFound
      simp only [hScope, ← hFound]
      rfl

theorem checkKey_reports (hW : h.WellFormed) (scopes : Table ScopeTag ScopeRegistration)
    (parent : Option InjectorId) (findings : Findings) (group : List Declaration) :
    (checkKey scopes parent findings h group).1.reports = findings.reports ++ keyReports h scopes parent group := by
  match group with
  | [] => exact (List.append_nil _).symm
  | [declaration] =>
    rw [checkKey, keyReports]
    cases conflict h parent declaration with
    | some report => rfl
    | none =>
      rw [← resolveScope_reports hW, ← List.append_assoc]
      rfl
  | _ :: _ :: _ => rfl

/-- The checks of several groups report about each of them what they would report about it alone. -/
theorem checkGroups_reports (hW : h.WellFormed) (scopes : Table ScopeTag ScopeRegistration)
    (parent : Option InjectorId) (groups : List (List Declaration)) (findings : Findings) :
    (groups.foldl (fun (findings, h) group => checkKey scopes parent findings h group) (findings, h)).1.reports =
      findings.reports ++ groups.flatMap (keyReports h scopes parent) := by
  induction groups generalizing h findings with
  | nil => exact (List.append_nil _).symm
  | cons group rest ih =>
    have hMarked := (checkKey_spec hW scopes parent findings group).1
    have hSame : keyReports (checkKey scopes parent findings h group).2 scopes parent = keyReports h scopes parent :=
      funext fun other => keyReports_of_sameCore hMarked.core scopes parent other
    have hRest := ih hMarked.wellFormed (checkKey scopes parent findings h group).1
    rw [checkKey_reports hW, hSame, List.append_assoc] at hRest
    rw [List.foldl_cons, List.flatMap_cons]
    exact hRest

-- ---------------------------------------------------------------------------
-- Creating
-- ---------------------------------------------------------------------------

/-- What the checks report is everything that stands against the module. -/
theorem reports_checkBindings (hW : h.WellFormed) (parent : Option InjectorId) (module : Module) :
    scopeReports (scopeGroups parent.isNone module.scopes) ++
        (checkBindings (firstRegistrations (scopeGroups parent.isNone module.scopes)) parent module.bindings
          h).1.reports =
      reportsFor h parent module := by
  rw [checkBindings, checkGroups_reports hW]
  rfl

/-- Where nothing stands against a module, its injector is created. -/
theorem create_admitted (hW : h.WellFormed) (explicitOnly : Bool) (hNone : reportsFor h parent module = []) :
    ∃ n h', h.create parent module explicitOnly = (.ok n, h') := by
  have hReports := reports_checkBindings hW parent module
  rw [hNone] at hReports
  simp only [create, hReports]
  exact ⟨_, _, rfl⟩

/-- Where something stands against a module, the creation fails and reports it. -/
theorem create_refused (hW : h.WellFormed) (explicitOnly : Bool) (hSome : reportsFor h parent module ≠ []) :
    ∃ h', h.create parent module explicitOnly = (.error (reportsFor h parent module), h') := by
  have hReports := reports_checkBindings hW parent module
  have hFilled : (reportsFor h parent module).isEmpty = false := by
    rw [List.isEmpty_eq_false_iff]
    exact hSome
  simp only [create, hReports, hFilled]
  exact ⟨_, rfl⟩

/-- A creation that succeeded had nothing against it. -/
theorem reportsFor_of_create (hW : h.WellFormed) {n : InjectorId}
    (hRun : h.create parent module explicitOnly = (.ok n, h')) : reportsFor h parent module = [] := by
  refine Classical.byContradiction fun hSome => ?_
  obtain ⟨h'', hRefused⟩ := create_refused hW explicitOnly hSome
  rw [hRefused] at hRun
  cases hRun

/-- Declarations of one key against which nothing stands are accepted. -/
theorem checkKey_accepted {scopes : Table ScopeTag ScopeRegistration} (findings : Findings)
    {group : List Declaration} (hNone : keyReports h scopes parent group = []) :
    (checkKey scopes parent findings h group).1.accepted.map (·.declaration) =
      findings.accepted.map (·.declaration) ++ group := by
  match group with
  | [] => exact (List.append_nil _).symm
  | [declaration] =>
    rw [keyReports] at hNone
    rw [checkKey]
    cases hConflict : conflict h parent declaration with
    | some report =>
      rw [hConflict] at hNone
      cases hNone
    | none => exact List.map_append
  | _ :: _ :: _ => cases hNone

theorem checkGroups_accepted (hW : h.WellFormed) {scopes : Table ScopeTag ScopeRegistration}
    (groups : List (List Declaration)) (hNone : ∀ group ∈ groups, keyReports h scopes parent group = [])
    (findings : Findings) :
    (groups.foldl (fun (findings, h) group => checkKey scopes parent findings h group)
        (findings, h)).1.accepted.map (·.declaration) =
      findings.accepted.map (·.declaration) ++ groups.flatten := by
  induction groups generalizing h findings with
  | nil => exact (List.append_nil _).symm
  | cons group rest ih =>
    have hMarked := (checkKey_spec hW scopes parent findings group).1
    have hRest : ∀ other ∈ rest,
        keyReports (checkKey scopes parent findings h group).2 scopes parent other = [] := fun other hMem => by
      rw [keyReports_of_sameCore hMarked.core]
      exact hNone other (List.mem_cons_of_mem group hMem)
    have hAll := ih hMarked.wellFormed hRest (checkKey scopes parent findings h group).1
    rw [checkKey_accepted findings (hNone group List.mem_cons_self), List.append_assoc] at hAll
    exact hAll

/-- Where no scope is missing, the scope that was found is that of the declared tag. -/
theorem resolveScope_tag {scopes : Table ScopeTag ScopeRegistration} {declaration : Declaration}
    (hNone : (resolveScope scopes parent declaration h).1.1 = []) :
    (resolveScope scopes parent declaration h).1.2.map Prod.fst = declaration.scope := by
  unfold resolveScope at hNone ⊢
  generalize declaration.scope = named at hNone ⊢
  cases named with
  | none => rfl
  | some tag =>
    dsimp only at hNone ⊢
    generalize scopeFor scopes parent tag h = found at hNone ⊢
    obtain ⟨_ | registration, h'⟩ := found
    · cases hNone
    · rfl

/-- The declarations that were accepted have the scopes of their tags, or something was reported. -/
def Findings.Complete (findings : Findings) : Prop :=
  findings.reports = [] → ∀ one ∈ findings.accepted, one.scope.map Prod.fst = one.declaration.scope

theorem complete_checkKey {scopes : Table ScopeTag ScopeRegistration} {findings : Findings}
    (hFindings : findings.Complete) (h : Hierarchy) (group : List Declaration) :
    (checkKey scopes parent findings h group).1.Complete := by
  match group with
  | [] => exact hFindings
  | [declaration] =>
    rw [checkKey]
    cases conflict h parent declaration with
    | some report => exact fun hNone => absurd (List.append_eq_nil_iff.mp hNone).2 (List.cons_ne_nil _ _)
    | none =>
      intro hNone one hOne
      have hParts := List.append_eq_nil_iff.mp hNone
      rcases List.mem_append.mp hOne with hOld | hNew
      · exact hFindings (List.append_eq_nil_iff.mp hParts.1).1 one hOld
      · obtain rfl := List.mem_singleton.mp hNew
        exact resolveScope_tag hParts.2
  | _ :: _ :: _ => exact fun hNone => absurd (List.append_eq_nil_iff.mp hNone).2 (List.cons_ne_nil _ _)

theorem complete_checkBindings (scopes : Table ScopeTag ScopeRegistration) (parent : Option InjectorId)
    (declarations : List Declaration) (h : Hierarchy) : (checkBindings scopes parent declarations h).1.Complete := by
  have hGroups : ∀ (groups : List (List Declaration)) (found : Findings × Hierarchy), found.1.Complete →
      (groups.foldl (fun found group => checkKey scopes parent found.1 found.2 group) found).1.Complete := by
    intro groups
    induction groups with
    | nil => exact fun found hFound => hFound
    | cons group rest ih => exact fun found hFound => ih _ (complete_checkKey hFound found.2 group)
  exact hGroups _ ({}, h) fun _ _ hOne => absurd hOne List.not_mem_nil

/-- Declarations against which nothing stands are each alone with their key, so the groups stand in the order of the
declarations. -/
theorem flatten_groups {scopes : Table ScopeTag ScopeRegistration} {declarations : List Declaration}
    (hNone : ∀ group ∈ (Table.groupBy (·.key) declarations).values, keyReports h scopes parent group = []) :
    (Table.groupBy (·.key) declarations).values.flatten = declarations := by
  refine Table.flatten_groupBy (·.key) declarations fun k => ?_
  have hGroup := Table.get?_groupBy (·.key) declarations k
  cases hGet : (Table.groupBy (·.key) declarations).get? k with
  | none =>
    rw [hGet, Option.getD_none] at hGroup
    rw [← hGroup]
    exact Nat.zero_le 1
  | some group =>
    -- a group of two would have been reported
    rw [hGet, Option.getD_some] at hGroup
    have hNone := hNone group (Table.mem_values_of_get? hGet)
    rw [← hGroup]
    match group with
    | [] => exact Nat.zero_le 1
    | [_] => exact Nat.le_refl 1
    | _ :: _ :: _ => cases hNone

/-- The injector that is created owns a binding for each declaration of its module. -/
theorem created_declared (hW : h.WellFormed) (hLive : ∀ p, parent = some p → h.isLive p = true) {n : InjectorId}
    (hRun : h.create parent module explicitOnly = (.ok n, h')) (hDeclared : declaration ∈ module.bindings) :
    ∃ binding, h'.binding? n declaration.key = some binding ∧ DeclaredBy declaration binding := by
  have hNothing := reportsFor_of_create hW hRun
  rw [reportsFor, List.append_eq_nil_iff, List.flatMap_eq_nil_iff] at hNothing
  obtain ⟨findings, checked, hCheck, hMarked, hNodup, hConflict, hAdopted⟩ := exists_findings_of_create hW hRun
  have hAccepted := checkGroups_accepted hW _ hNothing.2 {}
  rw [← checkBindings, hCheck] at hAccepted
  -- the declaration is in the group of its key, and so it was accepted
  have hGroup := Table.get?_groupBy (·.key) module.bindings declaration.key
  have hOf : declaration ∈ module.bindings.filter (·.key = declaration.key) :=
    List.mem_filter.mpr ⟨hDeclared, decide_eq_true rfl⟩
  obtain ⟨one, hOne, rfl⟩ : ∃ one ∈ findings.accepted, one.declaration = declaration := by
    rw [← List.mem_map, hAccepted, List.map_nil, List.nil_append, List.mem_flatten]
    cases hGet : (Table.groupBy (·.key) module.bindings).get? declaration.key with
    | none =>
      rw [hGet, Option.getD_none] at hGroup
      rw [← hGroup] at hOf
      cases hOf
    | some group =>
      rw [hGet, Option.getD_some] at hGroup
      exact ⟨group, Table.mem_values_of_get? hGet, hGroup ▸ hOf⟩
  obtain ⟨made, injector, bindings, hMade, hAdoptable, -, hAll, -, hAdopt⟩ :=
    adopt_eq explicitOnly module (firstRegistrations (scopeGroups parent.isNone module.scopes)) hMarked.wellFormed
      (fun p hp => by rw [hMarked.core.isLive]; exact hLive p hp) hNodup hConflict
  rw [hAdopt, Prod.mk.injEq] at hAdopted
  obtain ⟨binding, hBinding, hOwn⟩ := hAll one hOne
  have hKey := ne_injector_of_isBuiltin (isBuiltin_of_conflict (hConflict one hOne))
  refine ⟨binding, ?_, hOwn⟩
  rw [← hAdopted.2, ← hAdopted.1, ← hMade.core.nextInjector, binding?_adopted hMade.wellFormed.toConsistent hAdoptable,
    if_pos rfl, hAdoptable.binding?_eq_some_iff hKey]
  exact ⟨hBinding, hOwn.key⟩

-- ---------------------------------------------------------------------------
-- What is reported about a key
-- ---------------------------------------------------------------------------

/-- What is wrong with the words of a declaration is about its key. -/
theorem key?_of_mem_objections {report : Report} (hMem : report ∈ objections declaration) :
    report.problem.key? = some declaration.key := by
  obtain ⟨problem, hProblem, rfl⟩ := List.mem_map.mp hMem
  rw [Option.mem_toList] at hProblem
  unfold Strategy.objection at hProblem
  split at hProblem
  · split at hProblem
    · cases hProblem
      rfl
    · cases hProblem
  · split at hProblem
    · cases hProblem
      rfl
    · cases hProblem
  · cases hProblem
  · cases hProblem

theorem key?_of_conflict {report : Report} (hConflict : conflict h parent declaration = some report) :
    report.problem.key? = some declaration.key := by
  unfold conflict at hConflict
  split at hConflict
  · cases hConflict
    rfl
  · split at hConflict
    · cases hConflict
    · split at hConflict
      · cases hConflict
        rfl
      · obtain ⟨created, -, rfl⟩ := Option.map_eq_some_iff.mp hConflict
        rfl

/-- What is reported about the declarations of a key is about that key, or about a scope. -/
theorem key?_of_mem_keyReports {scopes : Table ScopeTag ScopeRegistration} {group : List Declaration}
    (hKeys : ∀ declaration ∈ group, declaration.key = key) {report : Report}
    (hMem : report ∈ keyReports h scopes parent group) :
    report.problem.key? = some key ∨ report.problem.key? = none := by
  unfold keyReports at hMem
  split at hMem
  · cases hMem
  · next declaration =>
    have hKey := hKeys declaration List.mem_cons_self
    split at hMem
    · next other hConflict =>
      rw [List.mem_singleton] at hMem
      rw [hMem, key?_of_conflict hConflict, hKey]
      exact Or.inl rfl
    · rcases List.mem_append.mp hMem with hMem | hMem
      · rw [key?_of_mem_objections hMem, hKey]
        exact Or.inl rfl
      · unfold scopeReport at hMem
        split at hMem
        · cases hMem
        · split at hMem
          · cases hMem
          · rw [List.mem_singleton] at hMem
            rw [hMem]
            exact Or.inr rfl
  · next declaration rest _ =>
    rw [List.mem_singleton] at hMem
    rw [hMem, ← hKeys declaration List.mem_cons_self]
    exact Or.inl rfl

/-- The reports that are about a key. -/
def about (key : Key) (reports : List Report) : List Report :=
  reports.filter fun report => report.problem.key? = some key

theorem about_keyReports_of_ne (h : Hierarchy) (scopes : Table ScopeTag ScopeRegistration)
    (parent : Option InjectorId) {other : Key} {group : List Declaration}
    (hKeys : ∀ declaration ∈ group, declaration.key = other) (hNe : other ≠ key) :
    about key (keyReports h scopes parent group) = [] := by
  rw [about, List.filter_eq_nil_iff]
  intro report hMem hAbout
  rw [decide_eq_true_eq] at hAbout
  rcases key?_of_mem_keyReports hKeys hMem with hOther | hNone
  · rw [hAbout, Option.some.injEq] at hOther
    exact hNe hOther.symm
  · rw [hAbout] at hNone
    cases hNone

/-- Groups of other keys have nothing to say about a key. -/
theorem about_groups (h : Hierarchy) (scopes : Table ScopeTag ScopeRegistration) (parent : Option InjectorId)
    {groups : List (Key × List Declaration)}
    (hNodup : (groups.map Prod.fst).Nodup)
    (hKeys : ∀ group ∈ groups, ∀ declaration ∈ group.2, declaration.key = group.1) {group : List Declaration}
    (hMem : (key, group) ∈ groups) :
    about key ((groups.map Prod.snd).flatMap (keyReports h scopes parent)) =
      about key (keyReports h scopes parent group) := by
  have hNothing : ∀ rest : List (Key × List Declaration), (∀ other ∈ rest, other ∈ groups) →
      key ∉ rest.map Prod.fst → about key ((rest.map Prod.snd).flatMap (keyReports h scopes parent)) = [] := by
    intro rest hRest hNotMem
    induction rest with
    | nil => rfl
    | cons other rest ih =>
      rw [List.map_cons, List.mem_cons, not_or] at hNotMem
      have hOther :=
        about_keyReports_of_ne h scopes parent (hKeys other (hRest other List.mem_cons_self)) (Ne.symm hNotMem.1)
      have hLater := ih (fun one hOne => hRest one (List.mem_cons_of_mem other hOne)) hNotMem.2
      rw [about] at hOther hLater ⊢
      rw [List.map_cons, List.flatMap_cons, List.filter_append, hOther, hLater, List.append_nil]
  obtain ⟨before, after, hSplit⟩ := List.append_of_mem hMem
  rw [hSplit, List.map_append, List.map_cons, List.nodup_append] at hNodup
  obtain ⟨-, hAfter, hApart⟩ := hNodup
  rw [List.nodup_cons] at hAfter
  have hBefore := hNothing before (fun other hOther => hSplit ▸ List.mem_append_left _ hOther) fun hKey =>
    hApart key hKey key List.mem_cons_self rfl
  have hRest := hNothing after
    (fun other hOther => hSplit ▸ List.mem_append_right _ (List.mem_cons_of_mem _ hOther)) hAfter.1
  rw [about] at hBefore hRest ⊢
  rw [hSplit, List.map_append, List.map_cons, List.flatMap_append, List.flatMap_cons, List.filter_append,
    List.filter_append, hBefore, hRest, List.nil_append, List.append_nil]
  rfl

/-- What is reported about a key that is declared is what is reported about its declarations. -/
theorem about_reportsFor (h : Hierarchy) (parent : Option InjectorId)
    (hDeclared : module.bindings.filter (·.key = key) ≠ []) :
    about key (reportsFor h parent module) =
      about key (keyReports h (firstRegistrations (scopeGroups parent.isNone module.scopes)) parent
        (module.bindings.filter (·.key = key))) := by
  have hGroup := Table.get?_groupBy (·.key) module.bindings key
  have hNodup := Table.nodup_keys_groupBy (·.key) module.bindings
  cases hGet : (Table.groupBy (·.key) module.bindings).get? key with
  | none =>
    rw [hGet] at hGroup
    exact absurd hGroup.symm hDeclared
  | some group =>
    rw [hGet, Option.getD_some] at hGroup
    have hKeys : ∀ one ∈ (Table.groupBy (·.key) module.bindings).entries, ∀ declaration ∈ one.2,
        declaration.key = one.1 := fun _ => Table.key_of_mem_groupBy
    have hScopes : about key (scopeReports (scopeGroups parent.isNone module.scopes)) = [] := by
      rw [about, List.filter_eq_nil_iff]
      intro report hMem
      obtain ⟨⟨tag, registrations⟩, -, hEntry⟩ := List.mem_filterMap.mp hMem
      simp only at hEntry
      split at hEntry
      · cases hEntry
        exact of_decide_eq_false rfl
      · cases hEntry
    have hAbout := about_groups h (firstRegistrations (scopeGroups parent.isNone module.scopes)) parent hNodup hKeys
      (Table.mem_entries_of_get? hGet)
    rw [hGroup] at hAbout
    rw [about] at hScopes ⊢
    rw [reportsFor, List.filter_append, hScopes, List.nil_append]
    exact hAbout

/-- Where nothing stands against a module, nothing stands against a declaration that is the only one of its key. -/
theorem conflict_eq_none (hNone : reportsFor h parent module = [])
    (hOnce : module.bindings.filter (·.key = key) = [declaration]) : conflict h parent declaration = none := by
  have hMem : declaration ∈ module.bindings.filter (·.key = key) := hOnce ▸ List.mem_singleton_self declaration
  have hKey : declaration.key = key := of_decide_eq_true (List.mem_filter.mp hMem).2
  have hAbout := about_reportsFor h parent (hOnce ▸ List.cons_ne_nil _ _)
  rw [hNone, hOnce, keyReports] at hAbout
  cases hConflict : conflict h parent declaration with
  | none => rfl
  | some report =>
    rw [hConflict] at hAbout
    have hReported : report ∈ about key [report] :=
      List.mem_filter.mpr ⟨List.mem_singleton_self report, decide_eq_true (hKey ▸ key?_of_conflict hConflict)⟩
    have hAbsurd : report ∈ about key [] := hAbout ▸ hReported
    cases hAbsurd

end Admission

end InjectorTree
