import InjectorTree.Hierarchy.ScopeSearch
import InjectorTree.Run

/-!
# Placing bindings on demand

A key without a binding on the path of the requesting injector can still get one. A qualified key may be
converted from a text constant under the same qualifier; the converted binding belongs to the requesting
injector. Any other binding is created from an implicit declaration, at the root-most injector of the path
where it can be created in full: no live descendant binds the key, a declaration is visible, its scope is
registered, and every key it depends on can be located from there. The attempt at the requesting injector
comes last, and its report is the one that counts.

Bindings are *staged* in a draft, before their dependencies, so that a cycle of declarations finds what it
has begun. A failed attempt takes back what it staged. The draft is published when all of it has succeeded.

A failed attempt is remembered unless it ran into a staged binding, and it is not made again as long as the
resolution goes on, but where it is the last one.
-/

namespace InjectorTree

/-- A binding before it is published, with the injector and the key that it was made for. -/
structure Staged where
  owner : InjectorId
  key : Key
  binding : Binding
  owner_eq : binding.owner = owner
  key_eq : binding.key = key

/-- The bindings of one resolution, before they are published. -/
structure Draft where
  hierarchy : Hierarchy
  /-- What was staged, oldest first. -/
  pending : List Staged := []
  /-- Attempts that failed, and ran into no staged binding. -/
  failed : List (InjectorId × Key) := []
  /-- How often an attempt ran into a staged binding. -/
  conflicts : Nat := 0

namespace Draft

/-- The staged binding of a key on the path of an injector. -/
def lookup (d : Draft) (n : InjectorId) (key : Key) : Option Binding :=
  (d.hierarchy.path n).findSome? fun m =>
    (d.pending.find? fun staged => staged.owner = m && staged.key = key).map (·.binding)

/-- Where bindings of a key were staged below an injector. -/
def stagedBelow (d : Draft) (n : InjectorId) (key : Key) : List Source :=
  (d.pending.filter fun staged => staged.key = key && d.hierarchy.isBelow staged.owner n).map
    (·.binding.source)

/-- Publishes what was staged, oldest first: each key is claimed on the ancestors of the injector that it was staged
for, and belongs to that injector from then on. -/
def publish (d : Draft) : Hierarchy :=
  d.pending.foldl
    (fun h staged =>
      (h.claim staged.owner staged.key staged.binding.source).modify staged.owner fun injector =>
        { injector with created := injector.created.insertNew staged.key staged.binding })
    d.hierarchy

/-- The bindings that were staged, oldest first. -/
def staged (d : Draft) : List Binding :=
  d.pending.map (·.binding)

/-- A resolution starts with nothing staged. -/
theorem staged_start (h : Hierarchy) : staged { hierarchy := h } = [] :=
  rfl

theorem staged_snoc (d : Draft) (h : Hierarchy) (staged : Staged) :
    { d with hierarchy := h, pending := d.pending ++ [staged] }.staged = d.staged ++ [staged.binding] :=
  List.map_append

theorem staged_take (before after : Draft) (failed : List (InjectorId × Key)) :
    { after with pending := after.pending.take before.pending.length, failed }.staged =
      after.staged.take before.staged.length := by
  rw [staged, List.map_take, staged, staged, List.length_map]

/-- Staged bindings are found by their own owners and keys. -/
theorem lookup_eq (d : Draft) (n : InjectorId) (key : Key) :
    d.lookup n key =
      (d.hierarchy.path n).findSome? fun m =>
        d.staged.find? fun binding => binding.owner = m && binding.key = key := by
  rw [lookup, staged]
  congr 1
  funext m
  rw [List.find?_map]
  congr 2
  funext staged
  rw [Function.comp_apply, staged.owner_eq, staged.key_eq]

theorem stagedBelow_eq (d : Draft) (n : InjectorId) (key : Key) :
    d.stagedBelow n key =
      (d.staged.filter fun binding => binding.key = key && d.hierarchy.isBelow binding.owner n).map (·.source) := by
  rw [stagedBelow, staged, List.filter_map, List.map_map]
  congr 2
  funext staged
  rw [Function.comp_apply, staged.owner_eq, staged.key_eq]

end Draft

namespace Placement

/-! ## One attempt -/

/-- Fails if a live descendant binds the key, or a binding of it is staged below. -/
def checkUnclaimed (n : InjectorId) (key : Key) : Run Draft Unit := fun d =>
  let staged := d.stagedBelow n key
  let sources := d.hierarchy.claimants n key ++ staged
  let d := if staged.isEmpty then d else { d with conflicts := d.conflicts + 1 }
  if sources.isEmpty then some (.ok (), d)
  else some (.error (.of (.childBlocksParent key sources)), d)

/-- The nearest implicit declaration of a key. -/
def visibleDeclaration (n : InjectorId) (key : Key) : Run Draft Declaration := fun d =>
  match d.hierarchy.declaration? n key with
  | some declaration => some (.ok declaration, d)
  | none => some (.error (.of (.unresolvableDependency key)), d)

/-- The scope that a declaration names, searched from the injector that gets the binding. -/
def visibleScope (n : InjectorId) (declaration : Declaration) : Run Draft (Option (ScopeTag × Scope)) :=
  fun d =>
    match declaration.scope with
    | none => some (.ok none, d)
    | some tag =>
      match d.hierarchy.findScope n tag with
      | (some registration, h) => some (.ok (some (tag, registration.scope)), { d with hierarchy := h })
      | (none, h) => some (.error (.of (.unresolvedScope tag)), { d with hierarchy := h })

/-- Makes a binding and stages it. -/
def stage (n : InjectorId) (key : Key) (strategy : Strategy) (scope : Option (ScopeTag × Scope))
    (source : Source) (origin : Origin) : Run Draft Binding := fun d =>
  let made := d.hierarchy.makeBinding key strategy scope source origin n
  some (.ok made.1, { d with hierarchy := made.2, pending := d.pending ++ [⟨n, key, made.1, rfl, rfl⟩] })

/-- What a strategy may not be declared for is refused. -/
def checkObjection (key : Key) (declaration : Declaration) : Run Draft Unit :=
  match declaration.strategy.objection key declaration.scope with
  | some problem => .fail (.of problem)
  | none => pure ()

/-- Creates a binding of a key in an injector, with everything it depends on. `locate` finds the bindings of
the dependencies. -/
def createAt (locate : InjectorId → Key → Run Draft Binding) (n : InjectorId) (key : Key) :
    Run Draft Binding := do
  checkUnclaimed n key
  let declaration ← visibleDeclaration n key
  let scope ← Run.within (.at declaration.source) do
    checkObjection key declaration
    visibleScope n declaration
  -- staged before its dependencies, so that a cycle finds it
  let binding ← stage n key declaration.strategy scope declaration.source .justInTime
  let _ ← Run.forEach
    (fun dependency =>
      Run.within (.at declaration.source) (Run.within (.locating dependency) (locate n dependency)))
    declaration.strategy.dependencies
  return binding

/-- Tries to create a binding in an injector, and takes back everything it staged if it fails. -/
def attempt (locate : InjectorId → Key → Run Draft Binding) (n : InjectorId) (key : Key) :
    Run Draft Binding := fun d =>
  match createAt locate n key d with
  | none => none
  | some (.ok binding, d') => some (.ok binding, d')
  | some (.error report, d') =>
    -- an attempt that ran into a staged binding may succeed once that is taken back
    some (.error report,
      { d' with
        pending := d'.pending.take d.pending.length
        failed := if d'.conflicts = d.conflicts then (n, key) :: d'.failed else d'.failed })

/-! ## The choice of the injector -/

/-- Tries the candidates in order, but for those that are remembered to have failed, and the requesting injector
last. -/
def place (locate : InjectorId → Key → Run Draft Binding) (n : InjectorId) (key : Key) :
    List InjectorId → Run Draft Binding
  | [] => attempt locate n key
  | candidate :: candidates => fun d =>
    if (candidate, key) ∈ d.failed then place locate n key candidates d
    else
      match attempt locate candidate key d with
      | none => none
      | some (.ok binding, d) => some (.ok binding, d)
      | some (.error _, d) => place locate n key candidates d

/-! ## Conversions -/

/-- A text constant, and the converters that accept the key it would be converted for. -/
structure Conversion where
  text : String
  source : Source
  converters : List ConverterRegistration

/-- What there is to convert for a key: the nearest explicit binding of text under its qualifier is a
constant, and some converter on the path accepts the key. -/
def conversion? (h : Hierarchy) (n : InjectorId) (key : Key) : Option Conversion := do
  let _ ← key.qualifier
  let constant ← h.explicitBinding? n (key.withType .text)
  let text ←
    match constant.strategy with
    | .fixed value => value.text?
    | _ => none
  match (h.converters n).filter (·.converter.accepts key) with
  | [] => none
  | accepting => some ⟨text, constant.source, accepting⟩

/-- Runs a converter on a text constant. -/
def runConverter (registration : ConverterRegistration) (text : String) (key : Key) :
    Run Draft Instance := fun d =>
  let (outcome, user) := registration.converter.convert text key d.hierarchy.user
  let d := { d with hierarchy := { d.hierarchy with user } }
  match outcome with
  | .ok value => some (.ok value, d)
  | .error reason =>
    some (.error (Report.within (.of (.conversionFailed key text reason)) (.at registration.source)), d)

/-- Converts a text constant for a key, if there is exactly one converter for it. -/
def convert (conversion : Conversion) (n : InjectorId) (key : Key) : Run Draft Binding :=
  match conversion.converters with
  | [registration] => do
    let value ← runConverter registration conversion.text key
    checkUnclaimed n key
    stage n key (.fixed value) none conversion.source .converted
  | registrations => .fail (.of (.converterConflict key (registrations.map (·.source))))

/-! ## Resolution -/

/-- Creates or converts a binding for a key that has none. -/
def createOnDemand (locate : InjectorId → Key → Run Draft Binding) (n : InjectorId) (key : Key) :
    Run Draft Binding := fun d =>
  match conversion? d.hierarchy n key with
  | some conversion => convert conversion n key d
  | none =>
    if d.hierarchy.isExplicitOnly n then some (.error (.of (.jitDisabled key)), d)
    else place locate n key (d.hierarchy.lineage n).reverse d

/-- The binding of a key, published, staged or created on demand. The fuel bounds how deeply attempts are
nested. -/
def locate : Nat → InjectorId → Key → Run Draft Binding
  | 0, _, _ => Run.exhausted
  | fuel + 1, n, key => fun d =>
    match (d.hierarchy.lookup n key).or (d.lookup n key) with
    | some binding => some (.ok binding, d)
    | none => createOnDemand (locate fuel) n key d

/-- The keys that are implicitly declared on the path of an injector, each once. -/
def declaredKeys (h : Hierarchy) (n : InjectorId) : List Key :=
  (h.collect (h.path n) (·.implicit.keys)).eraseDups

/-- Fuel that is never spent: nested attempts are for distinct injectors of the path and keys declared on
it, but for the innermost one. -/
def depthBound (h : Hierarchy) (n : InjectorId) : Nat :=
  (h.path n).length * (declaredKeys h n).length + 1

end Placement

namespace Hierarchy

/-- Resolves a key to its binding, creating what is missing. A failed resolution publishes nothing. -/
def resolve (n : InjectorId) (key : Key) : Run Hierarchy Binding := fun h =>
  match h.lookup n key with
  | some binding => some (.ok binding, h)
  | none =>
    match Placement.locate (Placement.depthBound h n) n key { hierarchy := h } with
    | none => none
    | some (.ok binding, d) => some (.ok binding, d.publish)
    | some (.error report, d) => some (.error report, d.hierarchy)

end Hierarchy

end InjectorTree
