import InjectorTree.Hierarchy.ScopeSearch
import InjectorTree.Hierarchy.Lifetime

/-!
# Admitting modules

A module becomes an injector, at the root of a new tree or below a parent, if nothing stands against it.
Every problem is reported, not only the first one:

* a scope tag that is registered more than once;
* a key that is declared more than once, in the module or on an ancestor;
* a key for which an ancestor has created a binding on demand;
* a key of injectors, a single instance in a scope, a key bound to itself;
* a scope tag that nothing is registered for.

Only when there is no problem, the scopes of the bindings are applied and the keys are claimed on the
ancestors.
-/

namespace InjectorTree

namespace Admission

/-! ## Scopes -/

/-- The registration that every root has. -/
def singletonRegistration : ScopeRegistration := ⟨.singleton, .singleton, .builtin⟩

/-- The registrations by tag, in the order in which the tags were first registered. -/
def scopeGroups (isRoot : Bool) (registrations : List ScopeRegistration) :
    Table ScopeTag (List ScopeRegistration) :=
  .groupBy (·.tag) (if isRoot then singletonRegistration :: registrations else registrations)

/-- One report for each tag that is registered more than once. -/
def scopeReports (groups : Table ScopeTag (List ScopeRegistration)) : List Report :=
  groups.entries.filterMap fun (tag, registrations) =>
    if 1 < registrations.length then some (.of (.duplicateScope tag (registrations.map (·.source))))
    else none

/-- The scopes by tag. Of several registrations the first one counts. -/
def firstRegistrations (groups : Table ScopeTag (List ScopeRegistration)) :
    Table ScopeTag ScopeRegistration :=
  ⟨groups.entries.filterMap fun (tag, registrations) =>
    registrations.head?.map fun registration => (tag, registration)⟩

/-! ## Bindings -/

/-- What stands against a declaration whatever else it says: its key is the injector's own, or is bound on
an ancestor already. -/
def conflict (h : Hierarchy) (parent : Option InjectorId) (declaration : Declaration) : Option Report :=
  if declaration.key.isBuiltin then
    some (Report.within (.of (.builtinKey declaration.key)) (.at declaration.source))
  else
    match parent with
    | none => none
    | some parent =>
      match h.explicitBinding? parent declaration.key with
      | some existing =>
        some (.of (.duplicateBinding declaration.key [existing.source, declaration.source]))
      | none =>
        (h.createdBinding? parent declaration.key).map fun created =>
          .of (.parentBlocksChild declaration.key created.source declaration.source)

/-- The scope of a declaration: registered by the module, or found from the parent. -/
def scopeFor (scopes : Table ScopeTag ScopeRegistration) (parent : Option InjectorId) (tag : ScopeTag)
    (h : Hierarchy) : Option ScopeRegistration × Hierarchy :=
  match scopes.get? tag with
  | some registration => (some registration, h)
  | none =>
    match parent with
    | none => (none, h)
    | some parent => h.findScope parent tag

/-- The scope that a declaration names, or a report if there is none. -/
def resolveScope (scopes : Table ScopeTag ScopeRegistration) (parent : Option InjectorId)
    (declaration : Declaration) (h : Hierarchy) :
    (List Report × Option (ScopeTag × Scope)) × Hierarchy :=
  match declaration.scope with
  | none => (([], none), h)
  | some tag =>
    match scopeFor scopes parent tag h with
    | (some registration, h) => (([], some (tag, registration.scope)), h)
    | (none, h) => (([Report.within (.of (.unresolvedScope tag)) (.at declaration.source)], none), h)

/-- A declaration with its scope. -/
structure Accepted where
  declaration : Declaration
  scope : Option (ScopeTag × Scope)

/-- The declarations checked so far: the reports about them, and those that nothing but their own words may
stand against. -/
structure Findings where
  reports : List Report := []
  accepted : List Accepted := []

/-- Checks the declarations of one key. -/
def checkKey (scopes : Table ScopeTag ScopeRegistration) (parent : Option InjectorId)
    (findings : Findings) (h : Hierarchy) : List Declaration → Findings × Hierarchy
  | [] => (findings, h)
  | [declaration] =>
    match conflict h parent declaration with
    | some report => ({ findings with reports := findings.reports ++ [report] }, h)
    | none =>
      let objections :=
        (declaration.strategy.objection declaration.key declaration.scope).toList.map fun problem =>
          Report.within (.of problem) (.at declaration.source)
      let ((unresolved, scope), h) := resolveScope scopes parent declaration h
      ({ reports := findings.reports ++ objections ++ unresolved
         accepted := findings.accepted ++ [⟨declaration, scope⟩] }, h)
  | declaration :: declarations =>
    ({ findings with
       reports := findings.reports ++
         [.of (.duplicateBinding declaration.key ((declaration :: declarations).map (·.source)))] }, h)

/-- Checks the declarations key by key, in the order in which the keys were first declared. -/
def checkBindings (scopes : Table ScopeTag ScopeRegistration) (parent : Option InjectorId)
    (declarations : List Declaration) (h : Hierarchy) : Findings × Hierarchy :=
  (Table.groupBy (·.key) declarations).values.foldl
    (fun (findings, h) group => checkKey scopes parent findings h group) ({}, h)

end Admission

namespace Hierarchy

/-- Makes the explicit bindings of a new injector, in order. -/
def bindAll (owner : InjectorId) : List Admission.Accepted → Hierarchy → List Binding × Hierarchy
  | [], h => ([], h)
  | accepted :: rest, h =>
    let declaration := accepted.declaration
    let (binding, h) :=
      h.makeBinding declaration.key declaration.strategy accepted.scope declaration.source .explicit owner
    let (bindings, h) := bindAll owner rest h
    (binding :: bindings, h)

/-- The injector that a module becomes, with its bindings. -/
def newInjector (h : Hierarchy) (parent : Option InjectorId) (explicitOnly : Bool) (module : Module)
    (scopes : Table ScopeTag ScopeRegistration) (itself : Binding) (bindings : List Binding) : Injector where
  lineage := parent.elim [] h.path
  explicitOnly := explicitOnly || parent.elim false h.isExplicitOnly
  itself
  explicit := bindings.foldl (fun table binding => table.insert binding.key binding) ∅
  scopes
  implicit := module.implicit.foldl (fun table declaration => table.insert declaration.key declaration) ∅
  hooks := module.hooks
  converters := module.converters

/-- Adds an injector below a parent, or as a new root. The caller holds it. -/
def adopt (parent : Option InjectorId) (explicitOnly : Bool) (module : Module)
    (scopes : Table ScopeTag ScopeRegistration) (accepted : List Admission.Accepted) (h : Hierarchy) :
    InjectorId × Hierarchy :=
  let n := h.nextInjector
  let (bindings, h) := bindAll n accepted { h with nextInjector := n + 1 }
  let (itself, h) := h.makeBinding .injector .itself none .builtin .builtin n
  let injector := h.newInjector parent explicitOnly module scopes itself bindings
  let h := { h with injectors := h.injectors.insert n injector }
  (n, (bindings.foldl (fun h binding => h.claim n binding.key binding.source) h).hold n)

/-- Creates an injector from a module, or reports everything that stands against it. -/
def create (parent : Option InjectorId) (module : Module) (explicitOnly : Bool) (h : Hierarchy) :
    Except (List Report) InjectorId × Hierarchy :=
  let groups := Admission.scopeGroups parent.isNone module.scopes
  let scopes := Admission.firstRegistrations groups
  let (findings, h) := Admission.checkBindings scopes parent module.bindings h
  let reports := Admission.scopeReports groups ++ findings.reports
  if reports.isEmpty then
    let (n, h) := h.adopt parent explicitOnly module scopes findings.accepted
    (.ok n, h)
  else (.error reports, h)

end Hierarchy

end InjectorTree
