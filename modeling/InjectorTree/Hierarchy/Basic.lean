import InjectorTree.Program

/-!
# Injectors and their hierarchy

An injector holds what its modules declared and the bindings that were created in it on demand. Injectors
form trees: each one knows its lineage, from its parent to the root, and sees everything that is declared or
bound on its *path*, the injector itself and then its lineage. An ancestor sees nothing of its descendants,
but it keeps a list of *claims*: which live descendant binds which key.

`Hierarchy` is the state of all live injectors, with the instances that scopes keep and the state of user code.
-/

namespace InjectorTree

/-- How a binding came to exist. -/
inductive Origin
  | explicit
  | justInTime
  | converted
  | builtin
deriving DecidableEq, Repr

/-- The origin in words. -/
def Origin.text : Origin → String
  | .explicit => "explicit"
  | .justInTime => "just-in-time"
  | .converted => "converted"
  | .builtin => "built-in"

/-- The origin as descriptions show it. -/
def Origin.inspect : Origin → String
  | .explicit => "Explicit"
  | .justInTime => "JustInTime"
  | .converted => "Converted"
  | .builtin => "Builtin"

/-- Identifies a binding. -/
abbrev BindingId := Nat

/-- A key bound to a strategy in an injector, with the layers that its scope put on top of the strategy. -/
structure Binding where
  id : BindingId
  key : Key
  strategy : Strategy
  scope : Option ScopeTag
  source : Source
  origin : Origin
  owner : InjectorId
  layers : List Layer

/-- The description of a binding. Tags that are marker types have none, so neither has a binding in such a
scope. -/
def Binding.inspect? (binding : Binding) : Option String := do
  let scope ←
    match binding.scope with
    | none => some "None"
    | some tag => (tag.inspect?).map fun text => "Some(" ++ text ++ ")"
  return "Binding \x7b key: " ++ binding.key.inspect ++ ", spec: " ++ binding.strategy.inspect ++
    ", scope: " ++ scope ++ ", source: " ++ binding.source.inspect ++
    ", origin: " ++ binding.origin.inspect ++ ", .. \x7d"

/-- A live descendant binds a key: which one, and where the binding was declared. -/
structure Claim where
  claimant : InjectorId
  source : Source
deriving DecidableEq, Repr

/-- An injector. -/
structure Injector where
  /-- The ancestors, parent first. -/
  lineage : List InjectorId
  /-- Whether bindings may not be created on demand for requests at this injector. -/
  explicitOnly : Bool
  /-- The binding of the injector itself. -/
  itself : Binding
  /-- The bindings that its modules declared. -/
  explicit : Table Key Binding
  /-- The bindings that were created or converted in it on demand. -/
  created : Table Key Binding := ∅
  /-- The keys that live descendants bind, each with the claims in the order in which they were made. -/
  claims : Table Key (List Claim) := ∅
  /-- The scopes registered on it. -/
  scopes : Table ScopeTag ScopeRegistration
  /-- Scopes of ancestors that were found from here before. -/
  scopeCache : Table ScopeTag ScopeRegistration := ∅
  implicit : Table Key Declaration
  hooks : List Hook
  converters : List ConverterRegistration

/-- The binding that the injector itself owns for a key. -/
def Injector.binding? (injector : Injector) (key : Key) : Option Binding :=
  if key = .injector then some injector.itself
  else (injector.explicit.get? key).or (injector.created.get? key)

/-- All bindings that the injector itself owns. -/
def Injector.bindings (injector : Injector) : List Binding :=
  injector.itself :: (injector.explicit.values ++ injector.created.values)

/-- The live injectors, and what they share. -/
structure Hierarchy where
  injectors : Table InjectorId Injector := ∅
  /-- The injectors that are held from outside, once for every handle. -/
  holds : List InjectorId := []
  /-- The bindings that are held from outside. -/
  heldBindings : List BindingId := []
  nextInjector : InjectorId := 0
  nextBinding : BindingId := 0
  /-- The instances that layers keep: by binding, and by the number of layers below. -/
  kept : Table (BindingId × Nat) Instance := ∅
  user : UserState := {}

namespace Hierarchy

/-- A live injector. -/
def injector? (h : Hierarchy) (n : InjectorId) : Option Injector :=
  h.injectors.get? n

/-- Whether the injector is live. -/
def isLive (h : Hierarchy) (n : InjectorId) : Bool :=
  (h.injector? n).isSome

/-- The ancestors of an injector, parent first. -/
def lineage (h : Hierarchy) (n : InjectorId) : List InjectorId :=
  match h.injector? n with
  | some injector => injector.lineage
  | none => []

/-- An injector followed by its ancestors. -/
def path (h : Hierarchy) (n : InjectorId) : List InjectorId :=
  n :: h.lineage n

/-- The parent of an injector. -/
def parent? (h : Hierarchy) (n : InjectorId) : Option InjectorId :=
  (h.lineage n).head?

/-- The number of ancestors. -/
def depth (h : Hierarchy) (n : InjectorId) : Nat :=
  (h.lineage n).length

/-- Whether `m` is a strict descendant of `n`. -/
def isBelow (h : Hierarchy) (m n : InjectorId) : Bool :=
  decide (n ∈ h.lineage m)

/-- Changes one live injector. -/
def modify (h : Hierarchy) (n : InjectorId) (f : Injector → Injector) : Hierarchy :=
  { h with injectors := h.injectors.modify n f }

/-! ## What an injector sees on its path -/

/-- The first answer on the path of an injector, nearest injector first. -/
def nearest {α : Type} (h : Hierarchy) (n : InjectorId) (f : Injector → Option α) : Option α :=
  (h.path n).findSome? fun m => (h.injector? m).bind f

/-- All answers of the injectors, in order. -/
def collect {α : Type} (h : Hierarchy) (ns : List InjectorId) (f : Injector → List α) : List α :=
  ns.flatMap fun m => (h.injector? m).elim [] f

/-- The binding to which an injector resolves a key without creating one. -/
def lookup (h : Hierarchy) (n : InjectorId) (key : Key) : Option Binding :=
  h.nearest n (·.binding? key)

/-- The explicit binding of a key on the path. -/
def explicitBinding? (h : Hierarchy) (n : InjectorId) (key : Key) : Option Binding :=
  h.nearest n (·.explicit.get? key)

/-- The binding of a key that was created on the path on demand. -/
def createdBinding? (h : Hierarchy) (n : InjectorId) (key : Key) : Option Binding :=
  h.nearest n (·.created.get? key)

/-- The nearest implicit declaration of a key. -/
def declaration? (h : Hierarchy) (n : InjectorId) (key : Key) : Option Declaration :=
  h.nearest n (·.implicit.get? key)

/-- Whether requests at an injector may not create bindings. -/
def isExplicitOnly (h : Hierarchy) (n : InjectorId) : Bool :=
  (h.injector? n).elim false (·.explicitOnly)

/-- The hooks on the path, root-most injector first. -/
def hooks (h : Hierarchy) (n : InjectorId) : List Hook :=
  h.collect (h.path n).reverse (·.hooks)

/-- The converters on the path, nearest injector first. -/
def converters (h : Hierarchy) (n : InjectorId) : List ConverterRegistration :=
  h.collect (h.path n) (·.converters)

/-- The binding that an injector itself owns. -/
def binding? (h : Hierarchy) (n : InjectorId) (key : Key) : Option Binding :=
  (h.injector? n).bind (·.binding? key)

/-- All bindings that an injector itself owns. -/
def bindings (h : Hierarchy) (n : InjectorId) : List Binding :=
  (h.injector? n).elim [] (·.bindings)

/-! ## Making bindings -/

/-- Makes a binding. Its scope, if it has one, is applied to the key now. -/
def makeBinding (h : Hierarchy) (key : Key) (strategy : Strategy) (scope : Option (ScopeTag × Scope))
    (source : Source) (origin : Origin) (owner : InjectorId) : Binding × Hierarchy :=
  let wrapped := scope.elim ([], h.user) fun (_, scope) => scope.wrap key h.user
  ({ id := h.nextBinding, key, strategy, scope := scope.map Prod.fst, source, origin, owner,
     layers := wrapped.1 },
   { h with nextBinding := h.nextBinding + 1, user := wrapped.2 })

/-- Records on every ancestor of an injector that the injector binds a key, and where the binding was declared. -/
def claim (h : Hierarchy) (claimant : InjectorId) (key : Key) (source : Source) : Hierarchy :=
  (h.lineage claimant).foldl
    (fun h ancestor => h.modify ancestor fun injector =>
      { injector with claims := injector.claims.push key ⟨claimant, source⟩ })
    h

/-- Where the live descendants of an injector bind a key. The claims of those that are gone do not count. -/
def claimants (h : Hierarchy) (n : InjectorId) (key : Key) : List Source :=
  let claims := ((h.injector? n).bind (·.claims.get? key)).getD []
  (claims.filter fun claim => h.isLive claim.claimant).map Claim.source

end Hierarchy

end InjectorTree
