import InjectorTree.Script.Preset

/-!
# Scripted declarations

A script writes declarations as plain data. Evaluated in the state of user code, they become a module: the
instances they mention are made at once, and every piece of user code gets a tally of its calls.

A *recipe* is scripted user code that makes one value. It logs its call, fetches what it wants from the
injector it is given, fails if it is told to, and makes its value last.
-/

namespace InjectorTree.Script

/-! ## The written form -/

/-- What a hook does with an instance. -/
inductive HookAction
  | pass
  /-- Replaces an object by a copy with a longer label. -/
  | append (suffix : String)
  | replace (form : Form)
  /-- Refuses what cannot be received as the type. What can be is numbered. -/
  | require (type : ServiceType)
  | fail (message : String)
deriving Repr

/-- A hook, for the listed keys or for all keys. -/
structure HookForm where
  name : String
  action : HookAction
  keys : Option (List Key)
deriving Repr

/-- How a scope treats the bindings in it. -/
inductive ScopeForm
  /-- The scope of the library that keeps one instance for each binding. -/
  | singleton
  /-- Every request is logged. -/
  | logging
  /-- Requests are logged until an instance is kept. -/
  | cached
  /-- A constant text is provided. -/
  | constant
deriving DecidableEq, Repr

/-- A converter that reads primitive values, or one that makes a value of a type from any text. -/
inductive ConverterForm
  | reading (type : ServiceType)
  | making (name : String) (accepts : List ServiceType) (type : ServiceType) (failure : Option String)
deriving Repr

/-- Why a recipe fails: in words of its own, or with a report. -/
inductive Failure
  | words (text : String)
  | report (told : Report)

mutual

/-- User code that makes one value. -/
structure Recipe where
  name : String
  form : Form
  fetches : List Fetch
  /-- The words to fail with. -/
  words : Option String
  /-- The problem to fail with, if there are no words. -/
  problem : Option Problem
  /-- How many calls fail; all of them if it is not said. -/
  failingCalls : Option Nat
  /-- Whether the value remembers the path of keys being provided. -/
  keepsPath : Bool

/-- A key to be fetched, from the injector or from a temporary child of it that is built from parts. An optional
key may fail. -/
structure Fetch where
  key : Key
  optional : Bool
  child : Option (List Part)

/-- What provides an instance by itself. -/
inductive ProviderForm where
  | fixed (form : Form)
  /-- A program that sees the path of keys being provided. -/
  | provider (recipe : Recipe)
  /-- A program that sees the injector only. -/
  | function (recipe : Recipe)
  /-- A program that fails in its own words. -/
  | fallible (recipe : Recipe)

/-- A constructor: a recipe with what it depends on, or a constructor function. -/
inductive ConstructorForm where
  | raw (recipe : Recipe) (dependencies : List Key)
  | ready (constructor : Constructor)

/-- How the instances of a key come about. -/
inductive StrategyForm where
  | linked (target : Key)
  | provider (form : ProviderForm)
  | constructor (form : ConstructorForm)

/-- What a module and a builder take alike. -/
inductive Entry where
  | bind (site : Nat) (key : Key) (strategy : StrategyForm) (scope : Option ScopeTag)
  | bindScope (site : Nat) (tag : ScopeTag) (form : ScopeForm) (name : String)
  | group (declarations : List Declared)

/-- A declaration of a module. -/
inductive Declared where
  | entry (entry : Entry)
  | implicit (site : Nat) (key : Key) (strategy : StrategyForm) (scope : Option ScopeTag)
  | converter (site : Nat) (form : ConverterForm)
  | injectable (type : ServiceType) (scope : Option ScopeTag)
  | hook (form : HookForm)
  | preset (name : String)

/-- A part of a builder. A builder takes no implicit declaration, hook or converter, other than in a module. -/
inductive Part where
  | entry (entry : Entry)
  /-- Whether the injector may have explicit bindings only. -/
  | requireExplicit (required : Bool)

end

/-! ## Hooks, scopes and converters -/

/-- What the hook does to an instance. -/
def HookAction.apply (action : HookAction) (key : Key) (value : Instance) : Attempt Instance :=
  match action, value with
  | .pass, value => fun user => (.ok value, user)
  | .append suffix, .made _ type (.object record) => fun user =>
    let (copy, user) := share type (.object { record with label := record.label ++ suffix }) user
    (.ok copy, user)
  | .append _, value => fun user => (.ok value, user)
  | .replace form, _ => fun user =>
    let (value, user) := form.make [] none user
    (.ok value, user)
  | .require type, value => fun user =>
    let outcome := (Catalogue.interface type).recover value
    (outcome, outcome.toOption.elim user user.numbered)
  | .fail message, _ => fun user => (.error (.constructionFailed key message), user)

/-- The hook of a form. It logs every instance it looks at. -/
def HookForm.hook (form : HookForm) : Hook where
  applies := fun key => form.keys.elim true (key ∈ ·)
  intercept := fun key value =>
    .attempt fun user =>
      form.action.apply key value
        (user.log ("hook " ++ form.name ++ " " ++ key.text ++ " " ++ user.shortText value))

/-- The layer that logs requests for a key. -/
def loggingLayer (name : String) (key : Key) : Layer :=
  .tap fun injector user =>
    user.log ("scoped " ++ name ++ " " ++ key.text ++ " in " ++ user.label injector)

/-- The scope of a form. All but that of the library log the keys they are applied to. -/
def ScopeForm.scope (form : ScopeForm) (name : String) : Scope :=
  let logged (layers : Key → Action (List Layer)) : Scope :=
    { name, wrap := fun key user => layers key (user.log ("scope " ++ name ++ " " ++ key.text)) }
  match form with
  | .singleton => .singleton
  | .logging => logged fun key user => ([loggingLayer name key], user)
  | .cached => logged fun key user => ([.once, loggingLayer name key], user)
  | .constant => logged fun _ user =>
    let (value, user) := makePrimitive .text ("constant from " ++ name) user
    ([Layer.constant value], user)

/-- The converter of a form. -/
def ConverterForm.converter : ConverterForm → Converter
  | .reading type => readingConverter type
  | .making name accepts type failure =>
    { accepts := fun key => decide (key.type ∈ accepts)
      convert := fun text key user =>
        let user := user.log ("convert " ++ name ++ " " ++ Text.quote text ++ " " ++ key.text)
        match failure with
        | some reason => (.error reason, user)
        | none =>
          let (value, user) := (Form.mk type text).make [] none user
          (.ok value, user) }

/-! ## Recipes -/

namespace Failure

/-- The failure as a report; words are about constructing a key. -/
def reportFor (key : Key) : Failure → Report
  | .words text => .constructionFailed key text
  | .report told => told

/-- The failure in words; a report is told in full. -/
def inWords : Failure → String
  | .words text => text
  | .report told => told.requestText

end Failure

namespace Recipe

/-- The type of the value that the recipe makes. -/
def type (recipe : Recipe) : ServiceType := recipe.form.type

/-- How a call fails, by its number among the calls. -/
def failureAt (recipe : Recipe) (count : Nat) : Option Failure :=
  if recipe.failingCalls.elim true (count ≤ ·) then
    (recipe.words.map .words).or (recipe.problem.map fun problem => .report (.of problem))
  else none

/-- The end of a call: it fails, or makes the value. -/
def conclude (recipe : Recipe) (count : Nat) (arguments : List String) (path : Option (List String)) :
    Action (Except Failure Instance) := fun user =>
  match recipe.failureAt count with
  | some failure => (.error failure, user)
  | none =>
    let (value, user) := recipe.form.make arguments path user
    (.ok value, user)

/-- The constructor of a recipe. -/
def constructor (recipe : Recipe) (dependencies : List Key) (tally : Nat) : Constructor where
  dependencies
  build := fun arguments =>
    .attempt fun user =>
      let (count, user) := countUp tally user
      let user := user.log ("call " ++ recipe.name)
      let (outcome, user) := recipe.conclude count (arguments.map user.shortText) none user
      (outcome.mapError (Failure.reportFor (.of recipe.type)), user)

/-- The start of a program's call: it is counted and logged. -/
def announce (recipe : Recipe) (tally : Nat) (injector : InjectorId) : Action Nat := fun user =>
  let (count, user) := countUp tally user
  (count, user.log ("call " ++ recipe.name ++ " in " ++ user.label injector))

end Recipe

/-- The constructor of a form. -/
def ConstructorForm.constructor : ConstructorForm → Action Constructor
  | .raw recipe dependencies => fun user =>
    let (tally, user) := newTally user
    (recipe.constructor dependencies tally, user)
  | .ready constructor => fun user => (constructor, user)

/-- Whether the parts ask for explicit bindings only; the last word counts. -/
def explicitOnly (parts : List Part) : Bool :=
  parts.foldl
    (fun required part =>
      match part with
      | .requireExplicit required => required
      | .entry _ => required)
    false

/-! ## Evaluation -/

/-- Where the declaration of a site stands. -/
def siteSource (site : Nat) : Source := .code "sites.rs" site 39

mutual

/-- Fetches keys one by one from the injector, and goes on with what was fetched in short. -/
def fetchAll (injector : InjectorId) :
    List Fetch → List String → (Except Failure (List String) → Program .body) → Program .body
  | [], fetched, next => next (.ok fetched)
  | ⟨key, optional, child⟩ :: fetches, fetched, next =>
    let proceed : Except Report Instance → Program .body
      | .ok value =>
        Program.perform (fun user => (user.shortText value, user)) fun text =>
          fetchAll injector fetches (fetched ++ [text]) next
      | .error report =>
        if optional then fetchAll injector fetches (fetched ++ ["!" ++ report.problem.name]) next
        else next (.error (.report report))
    match child with
    | none => .ask injector (.get key) proceed
    | some parts =>
      Program.perform (evaluateParts parts) fun module =>
        .visit module (explicitOnly parts) (fun child => .ask child (.get key) .finish) (fun _ => false) fun
          | .error reports => next (.error (.words (Report.creationText reports)))
          | .ok outcome => proceed outcome

/-- One call of a recipe as a program. -/
def call : Recipe → Nat → InjectorId → Option (List String) → (Except Failure Instance → Program .body) → Program .body
  | ⟨name, form, fetches, words, problem, failingCalls, keepsPath⟩, tally, injector, path, next =>
    let recipe : Recipe := ⟨name, form, fetches, words, problem, failingCalls, keepsPath⟩
    Program.perform (recipe.announce tally injector) fun count =>
      fetchAll injector fetches [] fun
        | .error failure => next (.error failure)
        | .ok fetched => Program.perform (recipe.conclude count fetched path) next

/-- The strategy that a provider comes to. -/
def providing : ProviderForm → Action Strategy
  | .fixed form => fun user =>
    let (value, user) := form.make [] none user
    (.fixed value, user)
  | .provider recipe => fun user =>
    let (tally, user) := newTally user
    (.provided fun injector path =>
      call recipe tally injector (if recipe.keepsPath then some (path.map Key.text) else none) fun outcome =>
        .finish (outcome.mapError (Failure.reportFor (path.getLast?.getD (.of recipe.type)))), user)
  | .function recipe => fun user =>
    let (tally, user) := newTally user
    (.provided fun injector _ =>
      call recipe tally injector none fun outcome =>
        .finish (outcome.mapError (Failure.reportFor (.of recipe.type))), user)
  | .fallible recipe => fun user =>
    let (tally, user) := newTally user
    (.fallible recipe.type fun injector next =>
      call recipe tally injector none fun outcome => next (outcome.mapError Failure.inWords), user)

/-- The strategy of a form. -/
def strategy : StrategyForm → Action Strategy
  | .linked target => fun user => (.linked target, user)
  | .provider form => providing form
  | .constructor form => fun user =>
    let (constructor, user) := form.constructor user
    (.constructed constructor, user)

/-- The module of one entry. -/
def evaluateEntry : Entry → Action Module
  | .bind site key form scope => fun user =>
    let (strategy, user) := strategy form user
    ({ Module.empty with bindings := [⟨key, strategy, scope, siteSource site⟩] }, user)
  | .bindScope site tag form name => fun user =>
    ({ Module.empty with scopes := [⟨tag, form.scope name, siteSource site⟩] }, user)
  | .group declarations => evaluateAll declarations

/-- The module of one declaration. -/
def evaluate : Declared → Action Module
  | .entry entry => evaluateEntry entry
  | .implicit site key form scope => fun user =>
    let (strategy, user) := strategy form user
    ({ Module.empty with implicit := [⟨key, strategy, scope, siteSource site⟩] }, user)
  | .converter site form => fun user =>
    ({ Module.empty with converters := [⟨form.converter, siteSource site⟩] }, user)
  | .injectable type scope => fun user => (injectable type scope, user)
  | .hook form => fun user => ({ Module.empty with hooks := [form.hook] }, user)
  | .preset name => preset name

/-- The module of declarations, evaluated in order. -/
def evaluateAll : List Declared → Action Module
  | [] => fun user => (.empty, user)
  | declared :: rest => fun user =>
    let (first, user) := evaluate declared user
    let (others, user) := evaluateAll rest user
    (first ++ others, user)

/-- The module that a builder makes of its parts, evaluated in order. -/
def evaluateParts : List Part → Action Module
  | [] => fun user => (.empty, user)
  | .entry entry :: rest => fun user =>
    let (first, user) := evaluateEntry entry user
    let (others, user) := evaluateParts rest user
    (first ++ others, user)
  | .requireExplicit _ :: rest => evaluateParts rest

end

end InjectorTree.Script
