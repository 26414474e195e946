import InjectorTree.Instance
import InjectorTree.Numbering
import InjectorTree.Table

/-!
# Declarations and user code

A module is a collection of declarations: how keys are bound, how bindings may be created on demand, which
scopes, hooks and converters there are. Most declarations carry user code, and user code comes in two kinds.

* An *action* works on its own state only. Converters are actions, and so is what a scope does when it is applied to a
  binding: both run while a key is being resolved.
* A *program* may also make demands on the injector it was given and on those above it, and open a temporary child. It
  is kept as a tree of demands and continuations, so that it can be run and reasoned about. Constructors, hooks, the
  providers of bindings and the providers that scopes put around them are programs.

The state that user code works on is one value, `UserState`.
-/

namespace InjectorTree

/-! ## The state of user code -/

/-- What user code can see and change: the events it has logged, the serial numbers and identities given
out, how often each of its tallies was counted up, the numbers of the instances that came up, and the labels
of injectors. -/
structure UserState where
  events : List String := []
  serials : Nat := 0
  identities : Nat := 0
  tallies : List Nat := []
  instanceNumbers : Numbering := {}
  labels : Table InjectorId String := ∅

namespace UserState

/-- The label of an injector. -/
def label (user : UserState) (injector : InjectorId) : String :=
  (user.labels.get? injector).getD "(unnamed)"

/-- The number of an instance, by its identity. -/
def number (identity : Nat) (user : UserState) : Nat × UserState :=
  let (number, instanceNumbers) := user.instanceNumbers.number identity
  (number, { user with instanceNumbers })

/-- Logs an event. -/
def log (event : String) (user : UserState) : UserState :=
  { user with events := user.events ++ [event] }

end UserState

/-- User code that only works on its own state. -/
abbrev Action (α : Type) := UserState → α × UserState

/-- User code that only works on its own state, and may fail. -/
abbrev Attempt (α : Type) := Action (Except Report α)

/-! ## Demands -/

/-- The part that a program plays. -/
inductive Role
  /-- It makes an instance, or looks at one. -/
  | body
  /-- It stands around the provider of a binding, and may turn to that provider. -/
  | scope

/-- What a program can demand of an injector. -/
inductive Demand : Role → Type
  /-- An instance of a key. -/
  | get {role : Role} (key : Key) : Demand role
  /-- An instance of a key, received through an interface. -/
  | getAs {role : Role} (key : Key) (interface : Interface) : Demand role
  /-- A handle to the binding of a key. -/
  | getHandle {role : Role} (key : Key) : Demand role
  /-- An instance of the binding behind the handle that was got for a key, received through an interface. -/
  | getFrom {role : Role} (key : Key) (interface : Interface) : Demand role
  /-- An instance by the provider below, which is given a path of keys being provided. -/
  | below (path : List Key) : Demand .scope

/-- What the demand is answered with. A handle is for the program to keep and says nothing. -/
def Demand.Reply {role : Role} : Demand role → Type
  | .getHandle _ => Unit
  | .get _ => Instance
  | .getAs _ _ => Instance
  | .getFrom _ _ => Instance
  | .below _ => Instance

/-! ## Converters -/

/-- Makes services of other types from text constants. -/
structure Converter where
  accepts : Key → Bool
  convert : String → Key → Action (Except String Instance)

/-- A registered converter. -/
structure ConverterRegistration where
  converter : Converter
  source : Source

/-! ## Programs and modules -/

mutual

/-- User code that is given an injector. -/
inductive Program : Role → Type where
  /-- Ends with an instance or a failure. -/
  | finish {role : Role} (outcome : Except Report Instance) : Program role
  /-- Changes the state of user code; what follows may depend on the state before the change. -/
  | act {role : Role} (update : UserState → UserState) (next : UserState → Program role) : Program role
  /-- Makes a demand on an injector. -/
  | ask {role : Role} (injector : InjectorId) (demand : Demand role)
      (next : Except Report demand.Reply → Program role) : Program role
  /-- Opens a child of the injector, runs a program with it, and goes on. The child is given up, unless it is to be
  kept for the sake of what the program inside has come to. -/
  | visit {role : Role} (module : Module) (explicitOnly : Bool) (inside : InjectorId → Program role)
      (keeps : Except Report Instance → Bool)
      (next : Except (List Report) (Except Report Instance) → Program role) : Program role

/-- One step in which a scope changes how a binding provides its instances. -/
inductive Layer where
  /-- Keep the first instance that the layers below provide, and provide it ever after. -/
  | once
  /-- Run a program in place of the layers below, which it may turn to. It is given an injector and the path of keys
  being provided. -/
  | around (provide : InjectorId → List Key → Program .scope)

/-- A strategy for the instances of a binding. Applied to a key, it says which layers go on top of the
binding's own strategy, outermost first. -/
structure Scope where
  name : String
  wrap : Key → UserState → List Layer × UserState

/-- A scope registered for a tag. -/
structure ScopeRegistration where
  tag : ScopeTag
  scope : Scope
  source : Source

/-- Looks at each constructed instance of the keys it applies to, and may replace it. -/
structure Hook where
  applies : Key → Bool
  intercept : Key → Instance → Program .body

/-- Builds an instance from arguments, one for each key it depends on. -/
structure Constructor where
  dependencies : List Key
  build : List Instance → Program .body

/-- How the instances of a key come about. -/
inductive Strategy where
  /-- One predetermined instance. -/
  | fixed (value : Instance)
  /-- Whatever another key provides. -/
  | linked (target : Key)
  /-- A program, given the declaring injector and the path of keys being provided. -/
  | provided (run : InjectorId → List Key → Program .body)
  /-- A constructor, its arguments requested from the declaring injector. -/
  | constructed (constructor : Constructor)

/-- A key, the strategy it is bound to, the tag of its scope, and where it was declared. -/
structure Declaration where
  key : Key
  strategy : Strategy
  scope : Option ScopeTag
  source : Source

/-- Declarations that are added to an injector together. -/
structure Module where
  bindings : List Declaration
  implicit : List Declaration
  scopes : List ScopeRegistration
  hooks : List Hook
  converters : List ConverterRegistration

end

namespace Module

/-- The module without declarations. -/
def empty : Module := ⟨[], [], [], [], []⟩

/-- Adds the declarations of another module after those of this one. -/
def install (module other : Module) : Module where
  bindings := module.bindings ++ other.bindings
  implicit := module.implicit ++ other.implicit
  scopes := module.scopes ++ other.scopes
  hooks := module.hooks ++ other.hooks
  converters := module.converters ++ other.converters

instance : Append Module := ⟨install⟩

/-- All declarations of the modules, in order. -/
def flatten (modules : List Module) : Module :=
  modules.foldl install empty

end Module

namespace Program

variable {role : Role}

/-- Runs an action, and goes on with its result. -/
def perform {α : Type} (action : Action α) (next : α → Program role) : Program role :=
  .act (fun user => (action user).2) fun user => next (action user).1

/-- The program that runs one action, and ends as it does. -/
def attempt (user : Attempt Instance) : Program role :=
  perform user .finish

end Program

namespace Strategy

/-- The keys that must be resolvable for the strategy to succeed. What a program will ask for is not known
in advance. -/
def dependencies : Strategy → List Key
  | .linked target => [target]
  | .constructed constructor => constructor.dependencies
  | .fixed _ => []
  | .provided _ => []

/-- What is wrong with declaring the strategy for a key in a scope, if anything. -/
def objection (strategy : Strategy) (key : Key) (scope : Option ScopeTag) : Option Problem :=
  match strategy with
  | .fixed _ => if scope.isSome then some (.scopedInstance key) else none
  | .linked target => if target = key then some (.selfBinding key) else none
  | .provided _ => none
  | .constructed _ => none

/-- The strategy as descriptions show it. -/
def inspect : Strategy → String
  | .fixed _ => "Instance"
  | .linked target => "Implementation(" ++ target.inspect ++ ")"
  | .provided _ => "Provider"
  | .constructed constructor =>
    "Constructor([" ++ ", ".intercalate (constructor.dependencies.map Key.inspect) ++ "])"

end Strategy

/-! ## Ready-made user code -/

namespace Layer

/-- The layer that runs an effect, and leaves it to the layers below. -/
def tap (effect : InjectorId → UserState → UserState) : Layer :=
  .around fun n path => .act (effect n) fun _ => .ask n (.below path) .finish

/-- The layer that provides one instance, whatever is below. -/
def constant (value : Instance) : Layer :=
  .around fun _ _ => .finish (.ok value)

end Layer

/-- The scope that keeps one instance for each binding. -/
def Scope.singleton : Scope where
  name := "Singleton"
  wrap := fun _ user => ([.once], user)

namespace Constructor

/-- The arguments as the parameters ask for them, from left to right. `result` is the type that is built. -/
def receive (result : ServiceType) : List Interface → List Instance → Except Report (List Instance)
  | [], _ => .ok []
  | _ :: _, [] => .error (.constructionFailed (.of result) "missing constructor argument")
  | parameter :: parameters, argument :: arguments => do
    let received ← parameter.recover argument
    let others ← receive result parameters arguments
    return received :: others

/-- A constructor whose parameters are interfaces: it depends on their types, and receives every argument
through its interface before it makes a value. -/
def typed (result : ServiceType) (parameters : List Interface)
    (make : List Instance → Program .body) : Constructor where
  dependencies := parameters.map fun parameter => .of parameter.type
  build := fun arguments =>
    match receive result parameters arguments with
    | .error report => .finish (.error report)
    | .ok received => make received

end Constructor

namespace Strategy

/-- A program that fails in its own words: the failure is reported for the key being provided, or for the
type of the result if there is none. -/
def fallible (result : ServiceType)
    (run : InjectorId → (Except String Instance → Program .body) → Program .body) : Strategy :=
  .provided fun injector path =>
    run injector fun
      | .ok value => .finish (.ok value)
      | .error words =>
        .finish (.error (.constructionFailed (path.getLast?.getD (.of result)) words))

/-- Provides the injector that declares the binding. -/
def itself : Strategy :=
  .provided fun injector _ => .finish (.ok (.handle (some injector)))

end Strategy

end InjectorTree
