import InjectorTree.Admission
import InjectorTree.Placement

/-!
# Providing instances

A request names an injector and a key. The key is resolved to a binding, and the binding's owner provides
the instance: through the layers of its scope, by its strategy. Links and constructors make further requests
at the owner and carry the path of keys being provided with them, so that a key which comes up again is
refused. A program that makes a request starts a path of its own; one that a scope has put around a provider
says itself which path that provider is given.

What a request asks for in turn is a parameter of every step (`again`); `obtain` ties the knot, with fuel
that bounds how deeply requests are nested.
-/

namespace InjectorTree

/-- The injector on which a demand is made by user code that was given an injector: that one, or one above it. -/
def Hierarchy.reach (h : Hierarchy) (n m : InjectorId) : InjectorId :=
  if m ∈ h.path n then m else n

namespace Provision

/-- A request in turn: an injector, a key, and the path of keys being provided. -/
abbrev Again := InjectorId → Key → List Key → Run Hierarchy Instance

/-- A provider of instances, given an injector and the path of keys being provided. -/
abbrev Provider := InjectorId → List Key → Run Hierarchy Instance

/-- What demands on injectors come to. -/
abbrev Answers (role : Role) := InjectorId → (demand : Demand role) → Run Hierarchy demand.Reply

/-- Adds a key to the path of keys being provided, unless it is on it. -/
def extendPath (path : List Key) (key : Key) : Except Report (List Key) :=
  if key ∈ path then .error (.of (.cycleDetected key (path ++ [key])))
  else .ok (path ++ [key])

/-- What demands come to. Requests of user code start a path of their own. The binding behind a handle is the one that
its key resolves to, as long as the injector lives; but a handle does not say for which key it cannot receive an
instance. -/
def answer (again : Again) {role : Role} (below : role = .scope → Provider) : Answers role
  | n, .get key => again n key []
  | n, .getAs key interface => do
    let value ← again n key []
    Run.within (.locating key) (.ofExcept (interface.recover value))
  | n, .getHandle key => do
    let _ ← Run.within (.locating key) (Hierarchy.resolve n key)
    return ()
  | n, .getFrom key interface => do
    let value ← again n key []
    .ofExcept (interface.recover value)
  | n, .below path => below rfl n path

/-- What demands come to if there is nothing below. -/
def bodyAnswers (again : Again) : Answers .body :=
  answer again fun hRole => nomatch hRole

/-- What demands come to if there is a provider below. -/
def scopeAnswers (again : Again) (below : Provider) : Answers .scope :=
  answer again fun _ => below

/-- Runs a program with an injector. A temporary child is held while the program inside it runs. -/
def runProgram : {role : Role} → Answers role → Program role → InjectorId → Run Hierarchy Instance
  | _, _, .finish outcome, _ => .ofExcept outcome
  | _, answers, .act update next, n => fun h =>
    runProgram answers (next h.user) n { h with user := update h.user }
  | _, answers, .ask m demand next, n => fun h =>
    match answers (h.reach n m) demand h with
    | none => none
    | some (outcome, h) => runProgram answers (next outcome) n h
  | _, answers, .visit module explicitOnly inside keeps next, n => fun h =>
    match h.create (some n) module explicitOnly with
    | (.error reports, h) => runProgram answers (next (.error reports)) n h
    | (.ok child, h) =>
      match runProgram answers (inside child) child h with
      | none => none
      | some (outcome, h) =>
        runProgram answers (next (.ok outcome)) n (if keeps outcome then h else h.release child)

/-- Runs a program that makes an instance or looks at one. -/
def runBody (again : Again) : Program .body → InjectorId → Run Hierarchy Instance :=
  runProgram (bodyAnswers again)

/-- Passes a constructed instance through the hooks that apply to its key, in order. -/
def runHooks (again : Again) (n : InjectorId) (key : Key) : List Hook → Instance → Run Hierarchy Instance
  | [], value => pure value
  | hook :: hooks, value =>
    if hook.applies key then do
      let value ← runBody again (hook.intercept key value) n
      runHooks again n key hooks value
    else runHooks again n key hooks value

/-- Provides an instance by a strategy, from an injector. -/
def runStrategy (again : Again) (key : Key) (strategy : Strategy) (n : InjectorId) (path : List Key) :
    Run Hierarchy Instance :=
  match strategy with
  | .fixed value => pure value
  | .linked target => again n target path
  | .provided run => runBody again (run n path) n
  | .constructed constructor => do
    let arguments ← Run.forEach (fun dependency => again n dependency path) constructor.dependencies
    let value ← runBody again (constructor.build arguments) n
    runHooks again n key ((← Run.get).hooks n) value

/-- Provides an instance through layers, outermost first; `base` is what is below all of them. A layer that
keeps an instance does so under the given number and its height. -/
def runLayers (again : Again) (number : BindingId) (base : Provider) : List Layer → Provider
  | [], n, path => base n path
  | .around provide :: below, n, path =>
    runProgram (scopeAnswers again (runLayers again number base below)) (provide n path) n
  | .once :: below, n, path => fun h =>
    match h.kept.get? (number, below.length) with
    | some value => some (.ok value, h)
    | none =>
      match runLayers again number base below n path h with
      | none => none
      | some (.error report, h) => some (.error report, h)
      | some (.ok value, h) =>
        some (.ok value, { h with kept := h.kept.insert (number, below.length) value })

/-- Provides an instance of a binding, from its owner. -/
def runBinding (again : Again) (binding : Binding) (path : List Key) : Run Hierarchy Instance := fun h =>
  if h.isLive binding.owner then
    Run.within (.at binding.source)
      (runLayers again binding.id (runStrategy again binding.key binding.strategy) binding.layers binding.owner path) h
  else some (.error (.constructionFailed binding.key "the declaring injector was dropped"), h)

/-- One request: the key may not be on the path, is resolved, and is provided by its binding. -/
def request (again : Again) (n : InjectorId) (key : Key) (path : List Key) : Run Hierarchy Instance :=
  Run.within (.locating key) do
    let path ← .ofExcept (extendPath path key)
    let binding ← Hierarchy.resolve n key
    runBinding again binding path

/-- Requests nested at most as deeply as the fuel allows. -/
def obtain : Nat → Again
  | 0, _, _, _ => Run.exhausted
  | fuel + 1, n, key, path => request (obtain fuel) n key path

end Provision

/-- A binding to be provided later, resolved at an injector. -/
structure Handle where
  injector : InjectorId
  binding : Binding
  interface : Interface

/-- The description of a handle, if its binding has one. -/
def Handle.inspect? (handle : Handle) : Option String :=
  handle.binding.inspect?.map fun text => "ProviderHandle \x7b binding: " ++ text ++ ", .. \x7d"

namespace Hierarchy

open Provision

/-- An instance of a key. -/
def getInstance (fuel : Nat) (n : InjectorId) (key : Key) : Run Hierarchy Instance :=
  obtain fuel n key []

/-- An instance of a key, received through an interface. -/
def getAs (fuel : Nat) (n : InjectorId) (key : Key) (interface : Interface) : Run Hierarchy Instance := do
  let value ← getInstance fuel n key
  Run.within (.locating key) (.ofExcept (interface.recover value))

/-- A handle to the binding of a key. The binding is resolved now. -/
def getHandle (n : InjectorId) (key : Key) (interface : Interface) : Run Hierarchy Handle := do
  let binding ← Run.within (.locating key) (resolve n key)
  return { injector := n, binding, interface }

/-- An instance of the binding behind a handle, received through the handle's interface. -/
def getFrom (fuel : Nat) (handle : Handle) : Run Hierarchy Instance := do
  let key := handle.binding.key
  let path ← .ofExcept (extendPath [] key)
  let value ← Run.within (.locating key) (runBinding (obtain fuel) handle.binding path)
  .ofExcept (handle.interface.recover value)

end Hierarchy

end InjectorTree
