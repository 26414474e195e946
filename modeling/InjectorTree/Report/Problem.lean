import InjectorTree.Report.Source

/-!
# What can go wrong

Each problem is a cause with the keys, tags and sources it concerns. The first group arises when an
injector is created, the second when a request is resolved or provided; two of them arise in both.

* `Problem.text` words a problem in one sentence.
* `Problem.sources` lists the declarations the sentence is about.
-/

namespace InjectorTree

/-- The cause of a failure. -/
inductive Problem
  /-- A key was explicitly bound more than once on a path. The sources are outermost first. -/
  | duplicateBinding (key : Key) (sources : List Source)
  /-- A child binds a key for which an ancestor has already created a binding on demand. -/
  | parentBlocksChild (key : Key) (created declared : Source)
  /-- A binding cannot be created on demand because live descendants bind the key. -/
  | childBlocksParent (key : Key) (sources : List Source)
  /-- No scope is registered for a tag. -/
  | unresolvedScope (tag : ScopeTag)
  /-- A tag was registered more than once on one injector. -/
  | duplicateScope (tag : ScopeTag) (sources : List Source)
  /-- A single instance was given a scope. -/
  | scopedInstance (key : Key)
  /-- A key was bound to itself. -/
  | selfBinding (key : Key)
  /-- A module bound the key of injectors. -/
  | builtinKey (key : Key)
  /-- A key has no binding, and nothing says how to create one. -/
  | unresolvableDependency (key : Key)
  /-- The injector has explicit bindings only, and the key has none. -/
  | jitDisabled (key : Key)
  /-- Several converters accept a key. -/
  | converterConflict (key : Key) (sources : List Source)
  /-- A converter refused a text. -/
  | conversionFailed (key : Key) (value reason : String)
  /-- A key is requested while it is being provided. The path ends with the repeated key. -/
  | cycleDetected (key : Key) (path : List Key)
  /-- An instance is not of the type that was asked for. -/
  | invalidInstance (key : Key) (expected : ServiceType)
  /-- A constructor, provider or hook failed. -/
  | constructionFailed (key : Key) (inner : String)
deriving DecidableEq, Repr

namespace Problem

/-- The name of the cause. -/
def name : Problem → String
  | .duplicateBinding .. => "DuplicateBinding"
  | .parentBlocksChild .. => "ParentBlocksChild"
  | .childBlocksParent .. => "ChildBlocksParent"
  | .unresolvedScope .. => "UnresolvedScope"
  | .duplicateScope .. => "DuplicateScope"
  | .scopedInstance .. => "ScopedInstance"
  | .selfBinding .. => "SelfBinding"
  | .builtinKey .. => "BuiltinKey"
  | .unresolvableDependency .. => "UnresolvableDependency"
  | .jitDisabled .. => "JitDisabled"
  | .converterConflict .. => "ConverterConflict"
  | .conversionFailed .. => "ConversionFailed"
  | .cycleDetected .. => "CycleDetected"
  | .invalidInstance .. => "InvalidInstance"
  | .constructionFailed .. => "ConstructionFailed"

/-- The keys of a cycle, in the order of the requests. -/
def cycleText (path : List Key) : String :=
  " -> ".intercalate (path.map Key.text)

/-- The problem in one sentence. -/
def text : Problem → String
  | .duplicateBinding key _ => key.text ++ " was bound multiple times."
  | .parentBlocksChild key _ _ =>
    "A just-in-time binding to " ++ key.text ++ " was already configured on a parent injector."
  | .childBlocksParent key _ =>
    "Unable to create binding for " ++ key.text ++
      " because it was already configured on one or more child injectors."
  | .unresolvedScope tag => "No scope is bound to " ++ tag.text ++ "."
  | .duplicateScope tag _ => "Scope " ++ tag.text ++ " was bound multiple times."
  | .scopedInstance key =>
    "Setting the scope is not permitted when binding " ++ key.text ++ " to a single instance."
  | .selfBinding key => "Binding of " ++ key.text ++ " points to itself."
  | .builtinKey key => "Binding to the built-in key " ++ key.text ++ " is not allowed."
  | .unresolvableDependency key => "No implementation for " ++ key.text ++ " was bound."
  | .jitDisabled key =>
    "Explicit bindings are required and " ++ key.text ++ " is not explicitly bound."
  | .converterConflict key _ => "Multiple converters can convert " ++ key.text ++ "."
  | .conversionFailed key value reason =>
    "Error converting " ++ Text.quote value ++ " to " ++ key.text ++ ": " ++ reason
  | .cycleDetected key path =>
    "A cycle was detected while providing " ++ key.text ++ " [" ++ cycleText path ++ "]"
  | .invalidInstance key expected =>
    "The instance provided for " ++ key.text ++ " is not a " ++ expected.name ++ "."
  | .constructionFailed key inner =>
    "An error occurred while constructing " ++ key.text ++ ": " ++ inner

/-- The declarations that the problem lists. -/
def sources : Problem → List Source
  | .duplicateBinding _ sources => sources
  | .parentBlocksChild _ created declared => [created, declared]
  | .childBlocksParent _ sources => sources
  | .duplicateScope _ sources => sources
  | .converterConflict _ sources => sources
  | _ => []

/-- What user code said when it failed. -/
def cause? : Problem → Option String
  | .constructionFailed _ inner => some inner
  | _ => none

end Problem

end InjectorTree
