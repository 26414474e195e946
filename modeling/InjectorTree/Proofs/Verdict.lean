import InjectorTree.Proofs.Placement.Characterisation
import InjectorTree.Proofs.Reports
import InjectorTree.Proofs.Runs

/-!
# The verdict on a module

The checks group registrations and declarations in tables, look up scopes that were only just found to be registered
twice, and stop early for some keys. What comes out is one list, and this is how it reads: each tag with its
registrations, in the order in which tags first occur, then each key with its declarations, in the order in which
keys first occur. What is said of a tag or a key is said from its own registrations or declarations and from the path
of the parent.

* `verdict`: the list, read off the module without tables.
* `reportsFor_eq`: the checks report the verdict.
* `create_verdict`: a creation fails exactly if the verdict is not empty, and reports it.
-/

namespace InjectorTree

namespace Admission

open Hierarchy

/-! ## Reading a module -/

/-- The scopes that an injector registers itself: a root has the singleton first, then come those of its module. -/
def ownScopes (isRoot : Bool) (module : Module) : List ScopeRegistration :=
  if isRoot then singletonRegistration :: module.scopes else module.scopes

/-- What is said of a tag: all its registrations, if there are several. -/
def tagVerdict (scopes : List ScopeRegistration) (tag : ScopeTag) : List Report :=
  let same := scopes.filter (·.tag = tag)
  if 1 < same.length then [.of (.duplicateScope tag (same.map (·.source)))] else []

/-- What is said of the words of a declaration: whether it scopes an instance, or binds its key to itself. -/
def wordVerdict (declaration : Declaration) : List Report :=
  match declaration.strategy, declaration.scope with
  | .fixed _, some _ => [Report.within (.of (.scopedInstance declaration.key)) (.at declaration.source)]
  | .linked target, _ =>
    if target = declaration.key then
      [Report.within (.of (.selfBinding declaration.key)) (.at declaration.source)]
    else []
  | _, _ => []

/-- Whether a tag is registered by the injector itself or on the path of its parent. -/
def isVisible (h : Hierarchy) (parent : Option InjectorId) (scopes : List ScopeRegistration) (tag : ScopeTag) :
    Bool :=
  scopes.any (·.tag = tag) || parent.any fun p => (h.nearestScope p tag).isSome

/-- What is said of the scope of a declaration: whether its tag is registered nowhere. -/
def scopeVerdict (h : Hierarchy) (parent : Option InjectorId) (scopes : List ScopeRegistration)
    (declaration : Declaration) : List Report :=
  match declaration.scope with
  | some tag =>
    if isVisible h parent scopes tag then []
    else [Report.within (.of (.unresolvedScope tag)) (.at declaration.source)]
  | none => []

/-- Whether a binding was created on demand. -/
def isCreated (binding : Binding) : Bool :=
  binding.origin = .justInTime ∨ binding.origin = .converted

/-- What the ancestors of a new injector bind a key to, outermost first. -/
def boundAbove (h : Hierarchy) (parent : Option InjectorId) (key : Key) : List Binding :=
  (parent.elim [] h.path).reverse.filterMap fun ancestor => h.binding? ancestor key

/-- What is said of a declaration that is the only one of its key. -/
def loneVerdict (h : Hierarchy) (parent : Option InjectorId) (scopes : List ScopeRegistration)
    (declaration : Declaration) : List Report :=
  if declaration.key.type = .injector then
    [Report.within (.of (.builtinKey declaration.key)) (.at declaration.source)]
  else
    let above := boundAbove h parent declaration.key
    match above.find? (·.origin = .explicit), above.find? isCreated with
    | some existing, _ => [.of (.duplicateBinding declaration.key [existing.source, declaration.source])]
    | none, some created => [.of (.parentBlocksChild declaration.key created.source declaration.source)]
    | none, none => wordVerdict declaration ++ scopeVerdict h parent scopes declaration

/-- What is said of a key: all its declarations, if there are several, and nothing else then. -/
def keyVerdict (h : Hierarchy) (parent : Option InjectorId) (scopes : List ScopeRegistration)
    (declarations : List Declaration) (key : Key) : List Report :=
  match declarations.filter (·.key = key) with
  | [] => []
  | [declaration] => loneVerdict h parent scopes declaration
  | same => [.of (.duplicateBinding key (same.map (·.source)))]

/-- Everything that is said of a module: of its tags first, then of its keys, each as it first occurs. -/
def verdict (h : Hierarchy) (parent : Option InjectorId) (module : Module) : List Report :=
  let scopes := ownScopes parent.isNone module
  (scopes.map (·.tag)).eraseDups.flatMap (tagVerdict scopes) ++
    (module.bindings.map (·.key)).eraseDups.flatMap (keyVerdict h parent scopes module.bindings)

variable {h : Hierarchy} {parent : Option InjectorId} {scopes : List ScopeRegistration} {module : Module}
  {declaration : Declaration} {key : Key} {tag : ScopeTag}

-- ---------------------------------------------------------------------------
-- The checks
-- ---------------------------------------------------------------------------

theorem scopeGroups_eq (isRoot : Bool) (module : Module) :
    scopeGroups isRoot module.scopes = .groupBy (·.tag) (ownScopes isRoot module) :=
  rfl

theorem scopeReports_groupBy (scopes : List ScopeRegistration) :
    scopeReports (.groupBy (·.tag) scopes) = (scopes.map (·.tag)).eraseDups.flatMap (tagVerdict scopes) := by
  rw [scopeReports, Table.entries_groupBy, List.filterMap_map, List.filterMap_eq_flatMap_toList]
  refine congrArg (List.flatMap · _) (funext fun tag => ?_)
  simp only [Function.comp_apply, tagVerdict]
  split <;> rfl

/-- A tag is among the first registrations exactly if it is registered. -/
theorem isSome_firstRegistrations (scopes : List ScopeRegistration) (tag : ScopeTag) :
    ((firstRegistrations (.groupBy (·.tag) scopes)).get? tag).isSome = scopes.any (·.tag = tag) := by
  rw [Bool.eq_iff_iff, Table.isSome_get?_iff, List.any_eq_true, Table.keys, firstRegistrations,
    Table.entries_groupBy, List.filterMap_map, List.map_filterMap]
  simp only [List.mem_filterMap, List.mem_eraseDups, List.mem_map, Function.comp_apply, Option.map_map]
  constructor
  · rintro ⟨_, ⟨registration, hMem, rfl⟩, hHead⟩
    obtain ⟨first, -, rfl⟩ := Option.map_eq_some_iff.mp hHead
    exact ⟨registration, hMem, decide_eq_true rfl⟩
  · rintro ⟨registration, hMem, hTag⟩
    rw [decide_eq_true_eq] at hTag
    have hOf : registration ∈ scopes.filter (·.tag = tag) := List.mem_filter.mpr ⟨hMem, decide_eq_true hTag⟩
    refine ⟨tag, ⟨registration, hMem, hTag⟩, ?_⟩
    rw [List.head?_eq_some_head (List.ne_nil_of_mem hOf)]
    rfl

/-- Of several registrations of a tag the first one counts. -/
theorem get?_firstRegistrations (scopes : List ScopeRegistration) (tag : ScopeTag) :
    (firstRegistrations (.groupBy (·.tag) scopes)).get? tag = scopes.find? (·.tag = tag) := by
  have hSome := isSome_firstRegistrations scopes tag
  cases hGet : (firstRegistrations (.groupBy (·.tag) scopes)).get? tag with
  | none =>
    rw [hGet, ← List.isSome_find?] at hSome
    exact (Option.not_isSome_iff_eq_none.mp (Bool.eq_false_iff.mp hSome.symm)).symm
  | some first =>
    have hEntry := Table.mem_entries_of_get? hGet
    rw [firstRegistrations, Table.entries_groupBy, List.filterMap_map, List.mem_filterMap] at hEntry
    obtain ⟨other, -, hHead⟩ := hEntry
    obtain ⟨registration, hFirst, hSame⟩ := Option.map_eq_some_iff.mp hHead
    cases hSame
    rw [← List.head?_filter]
    exact hFirst.symm

theorem objections_eq (declaration : Declaration) : objections declaration = wordVerdict declaration := by
  unfold objections Strategy.objection wordVerdict
  cases declaration.strategy with
  | fixed value => cases declaration.scope <;> rfl
  | linked target => by_cases hSelf : target = declaration.key <;> simp [hSelf]
  | provided run => rfl
  | constructed constructor => rfl

theorem scopeReport_eq (h : Hierarchy) (parent : Option InjectorId) (scopes : List ScopeRegistration)
    (declaration : Declaration) :
    scopeReport h (firstRegistrations (.groupBy (·.tag) scopes)) parent declaration =
      scopeVerdict h parent scopes declaration := by
  unfold scopeReport scopeVerdict
  cases declaration.scope with
  | none => rfl
  | some tag =>
    have hAbove : (parent.bind fun p => h.nearestScope p tag).isSome =
        parent.any fun p => (h.nearestScope p tag).isSome := by cases parent <;> rfl
    simp only [isVisible, ← isSome_firstRegistrations, ← hAbove, ← Option.isSome_or]

/-- Ancestors bind a key once at most, and from the parent it is located. -/
theorem boundAbove_eq (hW : h.WellFormed) (hKey : key ≠ .injector) (parent : Option InjectorId) :
    boundAbove h parent key = (parent.bind fun p => h.lookup p key).toList := by
  cases parent with
  | none => rfl
  | some p =>
    rw [boundAbove, Option.elim_some, List.filterMap_reverse, hW.filterMap_path hKey, Option.bind_some]
    cases h.lookup p key <;> rfl

/-- Whatever an ancestor binds, it has declared or created. -/
theorem origin_of_mem_boundAbove {above : Binding} (hW : h.WellFormed) (hKey : key ≠ .injector)
    (hAbove : above ∈ boundAbove h parent key) : above.origin = .explicit ∨ isCreated above = true := by
  obtain ⟨ancestor, -, hb⟩ := List.mem_filterMap.mp hAbove
  cases hOrigin : above.origin with
  | explicit => exact Or.inl rfl
  | justInTime | converted => exact Or.inr (by simp [isCreated, hOrigin])
  | builtin => exact absurd ((hW.binding? hb).2.2.mp hOrigin) hKey

theorem keyReports_singleton (hW : h.WellFormed) (parent : Option InjectorId) (scopes : List ScopeRegistration)
    (declaration : Declaration) :
    keyReports h (firstRegistrations (.groupBy (·.tag) scopes)) parent [declaration] =
      loneVerdict h parent scopes declaration := by
  rw [keyReports, conflict_eq hW, objections_eq, scopeReport_eq]
  unfold loneVerdict
  by_cases hBuiltin : declaration.key.type = .injector
  · simp [hBuiltin, Key.isBuiltin]
  · have hKey : declaration.key ≠ .injector := ne_injector_of_isBuiltin (decide_eq_false hBuiltin)
    have hOrigin : ∀ above ∈ boundAbove h parent declaration.key,
        above.origin = .explicit ∨ isCreated above = true := fun _ => origin_of_mem_boundAbove hW hKey
    rw [boundAbove_eq hW hKey] at hOrigin ⊢
    simp only [hBuiltin, Key.isBuiltin, decide_false, Bool.false_eq_true, if_false]
    cases hAbove : parent.bind fun p => h.lookup p declaration.key with
    | none => rfl
    | some above =>
      have hMade := hOrigin above (Option.mem_toList.mpr hAbove)
      by_cases hExplicit : above.origin = .explicit
      · simp [hExplicit]
      · simp [hExplicit, hMade.resolve_left hExplicit]

theorem keyReports_eq (hW : h.WellFormed) (parent : Option InjectorId) (scopes : List ScopeRegistration)
    (declarations : List Declaration) (key : Key) :
    keyReports h (firstRegistrations (.groupBy (·.tag) scopes)) parent (declarations.filter (·.key = key)) =
      keyVerdict h parent scopes declarations key := by
  have hKeys : ∀ declaration ∈ declarations.filter (·.key = key), declaration.key = key := fun _ hMem =>
    of_decide_eq_true (List.mem_filter.mp hMem).2
  unfold keyVerdict
  generalize declarations.filter (·.key = key) = same at hKeys ⊢
  match same with
  | [] => rfl
  | [declaration] => exact keyReports_singleton hW parent scopes declaration
  | first :: second :: rest =>
    rw [← hKeys first List.mem_cons_self]
    rfl

/-- The checks report the verdict. -/
theorem reportsFor_eq (hW : h.WellFormed) (parent : Option InjectorId) (module : Module) :
    reportsFor h parent module = verdict h parent module := by
  rw [reportsFor, verdict, scopeGroups_eq, scopeReports_groupBy, Table.values, Table.entries_groupBy, List.map_map,
    List.flatMap_map]
  refine congrArg (_ ++ List.flatMap · _) (funext fun key => ?_)
  exact keyReports_eq hW parent _ module.bindings key

end Admission

namespace Hierarchy

open Admission

variable {h h' : Hierarchy} {n : InjectorId} {parent : Option InjectorId} {module : Module} {explicitOnly : Bool}

/-- The next number goes to the injector that is created. -/
theorem eq_nextInjector_of_create (hW : h.WellFormed)
    (hRun : h.create parent module explicitOnly = (.ok n, h')) : n = h.nextInjector := by
  obtain ⟨findings, checked, hCheck, hMarked, -, -⟩ := checkBindings_spec hW
    (firstRegistrations (scopeGroups parent.isNone module.scopes)) parent module.bindings
  simp only [create, hCheck] at hRun
  split at hRun
  · rw [Prod.mk.injEq, Except.ok.injEq] at hRun
    rw [← hRun.1, ← hMarked.core.nextInjector]
    rfl
  · cases hRun

/-- What a creation that fails reports is the verdict. -/
theorem reports_eq_verdict (hW : h.WellFormed) {reports : List Report}
    (hRun : h.create parent module explicitOnly = (.error reports, h')) : reports = verdict h parent module := by
  rw [← reportsFor_eq hW]
  by_cases hNone : reportsFor h parent module = []
  · obtain ⟨n, h'', hAdmitted⟩ := create_admitted hW explicitOnly hNone
    rw [hAdmitted] at hRun
    cases hRun
  · obtain ⟨h'', hRefused⟩ := create_refused hW explicitOnly hNone
    rw [hRefused, Prod.mk.injEq, Except.error.injEq] at hRun
    exact hRun.1.symm

/-- A creation succeeds if nothing is said of the module, and gives the next number to the injector. Otherwise it
fails, and its reports are the verdict on the module: of each tag that is registered more than once all sources, in
the order in which tags first occur, and then of each key, in the order in which keys first occur, all sources if it
is declared more than once; else that it is built in; else that an ancestor binds it, explicitly or not; else what is
wrong with the words of the declaration and with its scope. -/
theorem create_verdict (hReach : Reachable h) (parent : Option InjectorId) (module : Module) (explicitOnly : Bool) :
    (h.create parent module explicitOnly).1 =
      if verdict h parent module = [] then .ok h.nextInjector else .error (verdict h parent module) := by
  have hW := hReach.wellFormed
  rw [← reportsFor_eq hW]
  split
  · next hNone =>
    obtain ⟨n, h', hRun⟩ := create_admitted hW explicitOnly hNone
    rw [hRun, eq_nextInjector_of_create hW hRun]
  · next hSome =>
    obtain ⟨h', hRun⟩ := create_refused hW explicitOnly hSome
    rw [hRun]

/-- Below a root that has created `A` and `B`, a module that registers a tag twice, binds `A`, binds `C` twice, binds
`D` to itself in a scope that nobody registered, and binds an injector. -/
theorem create_verdict_of_troubled :
    let a := Key.of ⟨10, "A"⟩
    let c := Key.of ⟨12, "C"⟩
    let d := Key.of ⟨13, "D"⟩
    let own := Key.named .injector "own"
    let fixed : Strategy := .fixed (.handle none)
    let h := (resolve 0 a).after (circle a (.of ⟨11, "B"⟩))
    let module : Module :=
      ⟨[⟨c, fixed, none, .type "1"⟩, ⟨a, fixed, none, .type "2"⟩, ⟨d, .linked d, some (.named "t"), .type "3"⟩,
        ⟨c, fixed, none, .type "4"⟩, ⟨own, fixed, none, .type "5"⟩], [],
        [⟨.named "s", .singleton, .type "6"⟩, ⟨.named "s", .singleton, .type "7"⟩], [], []⟩
    let told : List Report :=
      [.of (.duplicateScope (.named "s") [.type "6", .type "7"]),
        .of (.duplicateBinding c [.type "1", .type "4"]),
        .of (.parentBlocksChild a .builtin (.type "2")),
        Report.within (.of (.selfBinding d)) (.at (.type "3")),
        Report.within (.of (.unresolvedScope (.named "t"))) (.at (.type "3")),
        Report.within (.of (.builtinKey own)) (.at (.type "5"))]
    Reachable h ∧ verdict h (some 1) module = told ∧ (h.create (some 1) module false).1 = .error told := by
  intro a c d own fixed h module told
  obtain ⟨binding, hRun⟩ : ∃ binding, (circle a (.of ⟨11, "B"⟩)).resolve 0 a = some (.ok binding, h) :=
    Run.exists_ok_after (by decide +kernel)
  have hReach : Reachable h := (reachable_circle a _).tail (.resolve rfl hRun)
  have hVerdict : verdict h (some 1) module = told := by decide +kernel
  have hCreate := create_verdict hReach (some 1) module false
  rw [hVerdict, if_neg (List.cons_ne_nil _ _)] at hCreate
  exact ⟨hReach, hVerdict, hCreate⟩

end Hierarchy

end InjectorTree
