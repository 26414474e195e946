import InjectorTree.Session.Basic
import InjectorTree.Script.Declared

/-!
# The steps of a session

Steps create injectors, make requests, look at bindings, and drop what they have named. A step that names
something that does not exist does nothing.
-/

namespace InjectorTree.Session

/-! ## Steps -/

/-- What an injector is created from: modules, or the parts of a builder. -/
inductive Plan
  | modules (groups : List (List Script.Declared))
  | parts (list : List Script.Part)

/-- What is asked for by a plain request: an instance of a key, which may also be received as a type. -/
inductive Wanted
  | key (key : Key)
  | keyAs (key : Key) (type : ServiceType)
  | type (type : ServiceType)

/-- One step. Every name is that of an injector unless it says otherwise. -/
inductive Step
  | create (as : String) (parent : Option String) (plan : Plan)
  | get (injector : String) (wanted : Wanted)
  /-- Requests a handle and saves it under a name. -/
  | requestHandle (injector : String) (key : Option Key) (type : ServiceType) (save : String)
  | provide (handle : String)
  | describeHandle (handle : String)
  | dropHandle (handle : String)
  | binding (injector : String) (key : Key) (save : Option String) (described : Bool)
  | bindingAgain (binding : String)
  | bindings (injector : String)
  | dump
  | parent (injector : String)
  | scope (injector : String) (tag : ScopeTag)
  | clone (injector : String) (as : String)
  | equal (first second : String)
  | drop (injector : String)
  /-- Calls a provider that is not bound, with a path of keys being provided, through the scope of a tag. -/
  | provideDirect (injector : String) (form : Script.ProviderForm) (path : List Key) (times : Nat)
      (wrapping : Option (ScopeTag × Key))

/-- How deeply the requests of one step may be nested. -/
def nesting : Nat := 1000

/-! ## Taking steps -/

/-- What a step leaves: its outcome and the state after it. -/
abbrev Outcome := Answer × Session

/-- Goes on with a named injector. -/
def withInjector (session : Session) (name : String) (next : InjectorId → Outcome) : Outcome :=
  match session.names.get? name with
  | some n => next n
  | none => (.error (.noSuchName name), session)

/-- Goes on with a named handle. -/
def withHandle (session : Session) (name : String) (next : Handle → Outcome) : Outcome :=
  match session.handles.get? name with
  | some handle => next handle
  | none => (.error (.noSuchName name), session)

/-- Runs something on the hierarchy, and goes on with its value. -/
def running {α : Type} (session : Session) (run : Run Hierarchy α) (next : α → Session → Outcome) :
    Outcome :=
  match run session.hierarchy with
  | none => (.error .endless, session)
  | some (.error report, hierarchy) => (.error (.failed report), { session with hierarchy })
  | some (.ok value, hierarchy) => next value { session with hierarchy }

/-- Runs a request and shows the instance. -/
def providing (session : Session) (run : Run Hierarchy Instance) : Outcome :=
  session.running run fun value session =>
    let (shown, session) := session.perform (showInstance value)
    (.ok (.instance shown), session)

/-- The module of a plan, and whether it asks for explicit bindings only. -/
def Plan.evaluate : Plan → Action (Module × Bool)
  | .modules groups => fun user =>
    let (module, user) :=
      groups.foldl
        (fun (module, user) declarations =>
          let (other, user) := Script.evaluateAll declarations user
          (module ++ other, user))
        (Module.empty, user)
    ((module, false), user)
  | .parts list => fun user =>
    let (module, user) := Script.evaluateParts list user
    ((module, Script.explicitOnly list), user)

/-- Answers with an injector that was stored. -/
def storedAs (session : Session) (name : String) (n : InjectorId) : Outcome :=
  let session := session.store name n
  (.ok (.created (session.label n) (session.hierarchy.depth n)), session)

/-- Creates an injector and stores it. -/
def createAs (session : Session) (name : String) (parent : Option InjectorId) (plan : Plan) : Outcome :=
  let ((module, explicitOnly), session) := session.perform plan.evaluate
  match session.hierarchy.create parent module explicitOnly with
  | (.error reports, hierarchy) => (.error (.notCreated reports), { session with hierarchy })
  | (.ok n, hierarchy) => { session with hierarchy }.storedAs name n

/-- Drops a name. -/
def dropName (session : Session) (name : String) : Outcome :=
  match session.names.get? name with
  | none => (.ok (.truth false), session)
  | some n => (.ok (.truth true), { session with names := session.names.erase name }.release n)

/-- Drops a handle. -/
def dropHandle (session : Session) (name : String) : Outcome :=
  match session.handles.get? name with
  | none => (.ok (.truth false), session)
  | some handle =>
    (.ok (.truth true), { session with handles := session.handles.erase name }.release handle.injector)

/-- Shows the binding that an injector itself owns for a key, and saves it if that is asked for. -/
def inspectBinding (session : Session) (n : InjectorId) (key : Key) (save : Option String)
    (described : Bool) : Outcome :=
  match session.hierarchy.binding? n key with
  | none => (.ok .nothing, session)
  | some binding =>
    let session :=
      save.elim session fun name => { session with bindings := session.bindings.insert name binding }
    let (shown, session) := session.showBinding binding
    (.ok (.detail shown binding.strategy.dependencies (if described then binding.inspect? else none)),
     session)

/-- Shows a saved handle. -/
def inspectHandle (session : Session) (handle : Handle) : Outcome :=
  let (shown, session) := session.showBinding handle.binding
  (.ok (.handle (session.label handle.injector) shown handle.inspect?), session)

/-- Runs a request several times. -/
def repeatedly (run : Run Hierarchy Instance) : Nat → Session → List Answer × Session
  | 0, session => ([], session)
  | times + 1, session =>
    let (outcome, session) := session.providing run
    let (outcomes, session) := repeatedly run times session
    (outcome :: outcomes, session)

/-- Calls a provider that is not bound. -/
def provideDirectly (session : Session) (n : InjectorId) (form : Script.ProviderForm) (path : List Key)
    (times : Nat) (wrapping : Option (ScopeTag × Key)) : List Answer × Session :=
  let (strategy, session) := session.perform (Script.providing form)
  let (scope, hierarchy) :=
    match wrapping with
    | none => (none, session.hierarchy)
    | some (tag, _) =>
      let (found, hierarchy) := session.hierarchy.findScope n tag
      (found.map fun (registration : ScopeRegistration) => (tag, registration.scope), hierarchy)
  let key := wrapping.elim Key.injector Prod.snd
  let (binding, hierarchy) := hierarchy.makeBinding key strategy scope .builtin .builtin n
  repeatedly
    (Provision.runLayers (Provision.obtain nesting) binding.id
      (Provision.runStrategy (Provision.obtain nesting) key strategy) binding.layers n path)
    times { session with hierarchy }

/-- What a step does. -/
def outcome (session : Session) : Step → Outcome
  | .create name parent plan =>
    match parent with
    | none => session.createAs name none plan
    | some parent => session.withInjector parent fun n => session.createAs name (some n) plan
  | .get injector wanted =>
    session.withInjector injector fun n =>
      session.providing
        (match wanted with
        | .key key => Hierarchy.getInstance nesting n key
        | .keyAs key type => Hierarchy.getAs nesting n key (Catalogue.interface type)
        | .type type => Hierarchy.getAs nesting n (.of type) (Catalogue.interface type))
  | .requestHandle injector key type save =>
    session.withInjector injector fun n =>
      session.running (Hierarchy.getHandle n (key.getD (.of type)) (Catalogue.interface type))
        fun handle session =>
          let (shown, session) := (session.saveHandle save handle).showBinding handle.binding
          (.ok (.binding shown), session)
  | .provide handle =>
    session.withHandle handle fun handle => session.providing (Hierarchy.getFrom nesting handle)
  | .describeHandle handle => session.withHandle handle session.inspectHandle
  | .dropHandle handle => session.dropHandle handle
  | .binding injector key save described =>
    session.withInjector injector fun n => session.inspectBinding n key save described
  | .bindingAgain binding =>
    match session.bindings.get? binding with
    | none => (.error (.noSuchName binding), session)
    | some binding =>
      let (shown, session) := session.showBinding binding
      (.ok (.binding shown), session)
  | .bindings injector =>
    session.withInjector injector fun n =>
      let (shown, session) := session.showBindings (session.sortedBindings n)
      (.ok (.bindings shown), session)
  | .dump =>
    let (shown, session) :=
      session.showAll (session.names.entries.mergeSort fun first second => decide (¬ second.1 < first.1))
    (.ok (.dump shown), session)
  | .parent injector =>
    session.withInjector injector fun n =>
      (.ok ((session.hierarchy.parent? n).elim .nothing fun parent => .name (session.label parent)), session)
  | .scope injector tag =>
    session.withInjector injector fun n =>
      let (found, hierarchy) := session.hierarchy.findScope n tag
      (.ok (found.elim .nothing fun registration => .name registration.scope.name), { session with hierarchy })
  | .clone injector name =>
    session.withInjector injector fun n =>
      { session with hierarchy := session.hierarchy.hold n }.storedAs name n
  | .equal first second =>
    session.withInjector first fun n => session.withInjector second fun m => (.ok (.truth (n = m)), session)
  | .drop injector => session.dropName injector
  | .provideDirect injector form path times wrapping =>
    session.withInjector injector fun n =>
      let (outcomes, session) := session.provideDirectly n form path times wrapping
      (.ok (.several outcomes), session)

/-- Takes one step. The result is the answer, and the events that happened in the step. -/
def take (session : Session) (step : Step) : (Answer × List String) × Session :=
  let (_, session) := session.perform fun user => ((), { user with events := [] })
  let (answer, session) := session.outcome step
  ((answer, session.hierarchy.user.events), session)

/-- The answers to steps, from the first to the last. -/
def answers : List Step → Session → List (Answer × List String)
  | [], _ => []
  | step :: steps, session =>
    let (answer, session) := session.take step
    answer :: answers steps session

end InjectorTree.Session
