import InjectorTree.Proofs.Permanence
import InjectorTree.Proofs.Provision

/-!
# Requests within requests

To provide a binding, further requests may have to be made: a link asks for its target, a constructor for its
arguments, and user code for what it likes, from the injector that it was given, from one above it, or from a child that
it opens. Each of them is an *inquiry*: an injector, a key, the path of keys being provided, and the state in which it
is made.

* `Poses`: a program makes a demand; `Turns`: the layers of a binding turn to what is below them.
* `BindingPoses`: the user code of a binding makes a demand; `StrategyDepends`: a link or a constructor makes an inquiry.
* `BindingAsks`: what a binding asks for, in one way or the other.
* `Nested`: an inquiry is made in the course of another one, while some bindings are being provided.
* `BindingAsks.cases`: what a link or a constructor asks for is asked on the path that was handed to it; what user code
  asks for starts a path of its own.
* `BindingAsks.amid`: what a binding asks for is asked in the course of what its owner does.
* `Nested.invariant`: what holds of each inquiry in turn holds of the innermost one; `Nested.anchored`: each of them is
  made at an injector that is anchored.
-/

namespace InjectorTree

namespace Provision

open Hierarchy

/-- A request in turn, and the state in which it is made. -/
structure Inquiry where
  injector : InjectorId
  key : Key
  path : List Key
  state : Hierarchy

/-- What the request comes to, and the state after it. -/
def Inquiry.answer (again : Again) (c : Inquiry) : Option (Except Report Instance × Hierarchy) :=
  again c.injector c.key c.path c.state

-- ---------------------------------------------------------------------------
-- The demands of programs
-- ---------------------------------------------------------------------------

/-- A demand that is made on an injector, and the state in which it is made. -/
structure Posed (role : Role) where
  injector : InjectorId
  demand : Demand role
  state : Hierarchy

/-- A program that is run with an injector makes a demand. -/
inductive Poses {role : Role} (answers : Answers role) :
    Program role → InjectorId → Hierarchy → Posed role → Prop
  | act {update : UserState → UserState} {next : UserState → Program role} {n : InjectorId} {h : Hierarchy}
      {posed : Posed role} (hLater : Poses answers (next h.user) n { h with user := update h.user } posed) :
      Poses answers (.act update next) n h posed
  | now {m : InjectorId} {demand : Demand role} {next : Except Report demand.Reply → Program role} {n : InjectorId}
      {h : Hierarchy} : Poses answers (.ask m demand next) n h ⟨h.reach n m, demand, h⟩
  | later {m : InjectorId} {demand : Demand role} {next : Except Report demand.Reply → Program role} {n : InjectorId}
      {h h' : Hierarchy} {reply : Except Report demand.Reply} {posed : Posed role}
      (hAnswer : answers (h.reach n m) demand h = some (reply, h')) (hLater : Poses answers (next reply) n h' posed) :
      Poses answers (.ask m demand next) n h posed
  | refused {module : Module} {explicitOnly : Bool} {inside : InjectorId → Program role}
      {keeps : Except Report Instance → Bool} {next : Except (List Report) (Except Report Instance) → Program role}
      {n : InjectorId} {h h' : Hierarchy} {reports : List Report} {posed : Posed role}
      (hRefused : h.create (some n) module explicitOnly = (.error reports, h'))
      (hLater : Poses answers (next (.error reports)) n h' posed) :
      Poses answers (.visit module explicitOnly inside keeps next) n h posed
  | inside {module : Module} {explicitOnly : Bool} {inside : InjectorId → Program role}
      {keeps : Except Report Instance → Bool} {next : Except (List Report) (Except Report Instance) → Program role}
      {n child : InjectorId} {h h' : Hierarchy} {posed : Posed role}
      (hCreated : h.create (some n) module explicitOnly = (.ok child, h'))
      (hInside : Poses answers (inside child) child h' posed) :
      Poses answers (.visit module explicitOnly inside keeps next) n h posed
  | outside {module : Module} {explicitOnly : Bool} {inside : InjectorId → Program role}
      {keeps : Except Report Instance → Bool} {next : Except (List Report) (Except Report Instance) → Program role}
      {n child : InjectorId} {h h' h'' : Hierarchy} {outcome : Except Report Instance} {posed : Posed role}
      (hCreated : h.create (some n) module explicitOnly = (.ok child, h'))
      (hInside : runProgram answers (inside child) child h' = some (outcome, h''))
      (hLater : Poses answers (next (.ok outcome)) n (if keeps outcome then h'' else h''.release child) posed) :
      Poses answers (.visit module explicitOnly inside keeps next) n h posed

/-- Whenever the program fails, it is with a report of its own, or with one that a demand has come to. -/
def PassesOn (own : Report → Prop) {role : Role} (answers : Answers role) (program : Program role) (n : InjectorId) :
    Prop :=
  ∀ h h' report, runProgram answers program n h = some (.error report, h') →
    own report ∨ ∃ posed after, Poses answers program n h posed ∧
      answers posed.injector posed.demand posed.state = some (.error report, after)

/-- To meet the demand, a request is made, on a path of its own. -/
inductive Posed.Requests {role : Role} : Posed role → Inquiry → Prop
  | get {n : InjectorId} {key : Key} {h : Hierarchy} : Requests ⟨n, .get key, h⟩ ⟨n, key, [], h⟩
  | getAs {n : InjectorId} {key : Key} {interface : Interface} {h : Hierarchy} :
      Requests ⟨n, .getAs key interface, h⟩ ⟨n, key, [], h⟩
  | getFrom {n : InjectorId} {key : Key} {interface : Interface} {h : Hierarchy} :
      Requests ⟨n, .getFrom key interface, h⟩ ⟨n, key, [], h⟩

/-- The demand is on what is below the layer of a scope, which is to be given the path. -/
inductive Posed.TurnsTo : {role : Role} → Posed role → List Key → Prop
  | below {n : InjectorId} {path : List Key} {h : Hierarchy} : TurnsTo ⟨n, .below path, h⟩ path

-- ---------------------------------------------------------------------------
-- What is asked for
-- ---------------------------------------------------------------------------

/-- One of the hooks makes a demand, after those before it have had their way. -/
inductive HooksPose (again : Again) (n : InjectorId) (key : Key) :
    List Hook → Instance → Hierarchy → Posed .body → Prop
  | now {hook : Hook} {rest : List Hook} {value : Instance} {h : Hierarchy} {posed : Posed .body}
      (hApplies : hook.applies key) (hPoses : Poses (bodyAnswers again) (hook.intercept key value) n h posed) :
      HooksPose again n key (hook :: rest) value h posed
  | later {hook : Hook} {rest : List Hook} {value value' : Instance} {h h' : Hierarchy} {posed : Posed .body}
      (hApplies : hook.applies key) (hHook : runBody again (hook.intercept key value) n h = some (.ok value', h'))
      (hRest : HooksPose again n key rest value' h' posed) : HooksPose again n key (hook :: rest) value h posed
  | skipped {hook : Hook} {rest : List Hook} {value : Instance} {h : Hierarchy} {posed : Posed .body}
      (hNot : ¬hook.applies key) (hRest : HooksPose again n key rest value h posed) :
      HooksPose again n key (hook :: rest) value h posed

/-- The user code of a strategy makes a demand: the program that provides the instance, or the function of a constructor,
or a hook on what it has built. -/
inductive StrategyPoses (again : Again) (key : Key) (n : InjectorId) (path : List Key) (h : Hierarchy) :
    Strategy → Posed .body → Prop
  | provided {run : InjectorId → List Key → Program .body} {posed : Posed .body}
      (hPoses : Poses (bodyAnswers again) (run n path) n h posed) :
      StrategyPoses again key n path h (.provided run) posed
  | build {constructor : Constructor} {arguments : List Instance} {h' : Hierarchy} {posed : Posed .body}
      (hArguments : Run.forEach (fun key => again n key path) constructor.dependencies h = some (.ok arguments, h'))
      (hPoses : Poses (bodyAnswers again) (constructor.build arguments) n h' posed) :
      StrategyPoses again key n path h (.constructed constructor) posed
  | hook {constructor : Constructor} {arguments : List Instance} {value : Instance} {h' h'' : Hierarchy}
      {posed : Posed .body}
      (hArguments : Run.forEach (fun key => again n key path) constructor.dependencies h = some (.ok arguments, h'))
      (hBuild : runBody again (constructor.build arguments) n h' = some (.ok value, h''))
      (hPoses : HooksPose again n key (h''.hooks n) value h'' posed) :
      StrategyPoses again key n path h (.constructed constructor) posed

/-- A link asks for its target, and a constructor for one of its arguments, after those before it were provided. -/
inductive StrategyDepends (again : Again) (n : InjectorId) (path : List Key) (h : Hierarchy) : Strategy → Inquiry → Prop
  | linked {target : Key} : StrategyDepends again n path h (.linked target) ⟨n, target, path, h⟩
  | argument {constructor : Constructor} {before after : List Key} {dependency : Key} {arguments : List Instance}
      {h' : Hierarchy} (hKeys : constructor.dependencies = before ++ dependency :: after)
      (hBefore : Run.forEach (fun key => again n key path) before h = some (.ok arguments, h')) :
      StrategyDepends again n path h (.constructed constructor) ⟨n, dependency, path, h'⟩

/-- Layers that are given an injector and a path, and the state in which it is their turn. -/
structure Turn where
  layers : List Layer
  injector : InjectorId
  path : List Key
  state : Hierarchy

/-- The first layers turn to those below them, maybe over others. What is below all of them has no layers. -/
inductive Turns (again : Again) (number : BindingId) (base : Provider) : Turn → Turn → Prop
  | here {turn : Turn} : Turns again number base turn turn
  | once {below : List Layer} {n : InjectorId} {path : List Key} {h : Hierarchy} {turn : Turn}
      (hNone : h.kept.get? (number, below.length) = none) (hBelow : Turns again number base ⟨below, n, path, h⟩ turn) :
      Turns again number base ⟨.once :: below, n, path, h⟩ turn
  | around {provide : InjectorId → List Key → Program .scope} {below : List Layer} {n m : InjectorId}
      {path path' : List Key} {h h' : Hierarchy} {turn : Turn}
      (hPoses : Poses (scopeAnswers again (runLayers again number base below)) (provide n path) n h
        ⟨m, .below path', h'⟩) (hBelow : Turns again number base ⟨below, m, path', h'⟩ turn) :
      Turns again number base ⟨.around provide :: below, n, path, h⟩ turn

/-- When it is the turn of the layers, user code makes a demand: that of the strategy if nothing is left above it, and
else the program of the first layer. -/
inductive TurnPoses (again : Again) (binding : Binding) : Turn → {role : Role} → Posed role → Prop
  | strategy {n : InjectorId} {path : List Key} {h : Hierarchy} {posed : Posed .body}
      (hPoses : StrategyPoses again binding.key n path h binding.strategy posed) :
      TurnPoses again binding ⟨[], n, path, h⟩ posed
  | scope {provide : InjectorId → List Key → Program .scope} {below : List Layer} {n : InjectorId} {path : List Key}
      {h : Hierarchy} {posed : Posed .scope}
      (hPoses : Poses
        (scopeAnswers again (runLayers again binding.id (runStrategy again binding.key binding.strategy) below))
        (provide n path) n h posed) :
      TurnPoses again binding ⟨.around provide :: below, n, path, h⟩ posed

/-- When it is the turn of the layers, something is asked for. -/
inductive TurnAsks (again : Again) (binding : Binding) : Turn → Inquiry → Prop
  | depends {n : InjectorId} {path : List Key} {h : Hierarchy} {c : Inquiry}
      (hDepends : StrategyDepends again n path h binding.strategy c) : TurnAsks again binding ⟨[], n, path, h⟩ c
  | posed {turn : Turn} {role : Role} {posed : Posed role} {c : Inquiry} (hPoses : TurnPoses again binding turn posed)
      (hRequests : posed.Requests c) : TurnAsks again binding turn c

/-- While the binding is provided, it comes to the turn. -/
def BindingTurns (again : Again) (binding : Binding) (path : List Key) (h : Hierarchy) (turn : Turn) : Prop :=
  h.isLive binding.owner = true ∧ Turns again binding.id (runStrategy again binding.key binding.strategy)
    ⟨binding.layers, binding.owner, path, h⟩ turn

/-- When a binding is provided, its user code makes a demand. -/
def BindingPoses (again : Again) (binding : Binding) (path : List Key) (h : Hierarchy) {role : Role}
    (posed : Posed role) : Prop :=
  ∃ turn, BindingTurns again binding path h turn ∧ TurnPoses again binding turn posed

/-- When a binding is provided, something is asked for. -/
def BindingAsks (again : Again) (binding : Binding) (path : List Key) (h : Hierarchy) (c : Inquiry) : Prop :=
  ∃ turn, BindingTurns again binding path h turn ∧ TurnAsks again binding turn c

/-- The key is not refused, and resolves to the binding, which is provided next. -/
structure Inquiry.Opens (c : Inquiry) (binding : Binding) (h' : Hierarchy) : Prop where
  fresh : c.key ∉ c.path
  resolved : c.state.resolve c.injector c.key = some (.ok binding, h')

/-- The last inquiry is made in the course of the first one, while the bindings are being provided, outermost
first. -/
inductive Nested : Nat → Inquiry → List Binding → Inquiry → Prop
  | here {fuel : Nat} {c : Inquiry} : Nested fuel c [] c
  | deeper {fuel : Nat} {c c' c'' : Inquiry} {binding : Binding} {h' : Hierarchy} {bindings : List Binding}
      (hOpens : c.Opens binding h') (hAsks : BindingAsks (obtain fuel) binding (c.path ++ [c.key]) h' c')
      (hNested : Nested fuel c' bindings c'') : Nested (fuel + 1) c (binding :: bindings) c''

variable {h h' : Hierarchy} {n : InjectorId} {key : Key} {again : Again} {strategy : Strategy} {binding : Binding}
  {path : List Key} {c c' : Inquiry} {fuel : Nat} {role : Role} {answers : Answers role} {program : Program role}
  {posed : Posed role}

/-- A key that is on its path is refused, and nothing else happens. -/
theorem Inquiry.answer_of_mem (fuel : Nat) (hOnPath : c.key ∈ c.path) :
    c.answer (obtain (fuel + 1)) =
      some (.error ((Report.of (.cycleDetected c.key (c.path ++ [c.key]))).within (.locating c.key)), c.state) :=
  obtain_of_mem fuel hOnPath

-- ---------------------------------------------------------------------------
-- With which reports
-- ---------------------------------------------------------------------------

section PassingOn

variable {own : Report → Prop}

theorem passesOn_finish {outcome : Except Report Instance} (hOwn : ∀ report, outcome = .error report → own report) :
    PassesOn own answers (.finish outcome) n := by
  intro h h' report hRun
  cases hRun
  exact Or.inl (hOwn report rfl)

theorem passesOn_act {update : UserState → UserState} {next : UserState → Program role}
    (hNext : ∀ user, PassesOn own answers (next user) n) : PassesOn own answers (.act update next) n := by
  intro h h' report hRun
  refine (hNext h.user { h with user := update h.user } h' report hRun).imp_right ?_
  rintro ⟨posed, after, hPoses, hAnswer⟩
  exact ⟨posed, after, .act hPoses, hAnswer⟩

/-- A program that ends with whatever report its demand comes to has no report of its own there. -/
theorem passesOn_ask {m : InjectorId} {demand : Demand role} {next : Except Report demand.Reply → Program role}
    (hError : ∀ report, next (.error report) = .finish (.error report))
    (hOk : ∀ reply, PassesOn own answers (next (.ok reply)) n) : PassesOn own answers (.ask m demand next) n := by
  intro h h' report hRun
  obtain ⟨reply, h₁, hAnswer, hRest⟩ := exists_of_runProgram_ask hRun
  cases reply with
  | error told =>
    rw [hError] at hRest
    cases hRest
    exact Or.inr ⟨_, _, .now, hAnswer⟩
  | ok value =>
    refine (hOk value h₁ h' report hRest).imp_right ?_
    rintro ⟨posed, after, hPoses, hMet⟩
    exact ⟨posed, after, .later hAnswer hPoses, hMet⟩

end PassingOn

-- ---------------------------------------------------------------------------
-- On which path
-- ---------------------------------------------------------------------------

/-- User code starts a path of its own. -/
theorem Posed.Requests.path_eq (hRequests : posed.Requests c) : c.path = [] := by
  cases hRequests <;> rfl

/-- A link or a constructor asks for what it depends on, at the injector and on the path that it was given. -/
theorem StrategyDepends.same (hDepends : StrategyDepends again n path h strategy c) :
    c.injector = n ∧ c.key ∈ strategy.dependencies ∧ c.path = path := by
  cases hDepends with
  | linked => exact ⟨rfl, List.mem_singleton_self _, rfl⟩
  | argument hKeys hBefore =>
    refine ⟨rfl, ?_, rfl⟩
    rw [Strategy.dependencies, hKeys]
    exact List.mem_append_right _ List.mem_cons_self

/-- While the binding is provided, its layers hand on the injector and the path that they were given. -/
def HandsOn (again : Again) (binding : Binding) (path : List Key) (h : Hierarchy) : Prop :=
  ∀ turn, BindingTurns again binding path h turn → turn.injector = binding.owner ∧ turn.path = path

/-- Whenever the binding is provided, its layers hand on the injector and the path that they were given. -/
def Faithful (binding : Binding) : Prop :=
  ∀ fuel path h, HandsOn (obtain fuel) binding path h

/-- The layer is given an injector and a path. Whenever it turns to the layers below, it hands both of them on. -/
def Forwards : Layer → Prop
  | .once => True
  | .around provide => ∀ answers n path h posed path', Poses answers (provide n path) n h posed →
      posed.TurnsTo path' → posed.injector = n ∧ path' = path

theorem Turns.forwards {number : BindingId} {base : Provider} {first last : Turn}
    (hTurns : Turns again number base first last) (hLayers : ∀ layer ∈ first.layers, Forwards layer) :
    last.injector = first.injector ∧ last.path = first.path := by
  induction hTurns with
  | here => exact ⟨rfl, rfl⟩
  | once _ _ ih => exact ih (List.forall_mem_cons.mp hLayers).2
  | around hPoses _ ih =>
    obtain ⟨hFirst, hBelow⟩ := List.forall_mem_cons.mp hLayers
    obtain ⟨rfl, rfl⟩ := hFirst _ _ _ _ _ _ hPoses .below
    exact ih hBelow

/-- A binding hands on what it was given if each of its layers does. -/
theorem handsOn_of_layers (hLayers : ∀ layer ∈ binding.layers, Forwards layer) : HandsOn again binding path h :=
  fun _ hTurns => hTurns.2.forwards hLayers

/-- What is asked for is one of the dependencies of the binding, if it is not asked for by user code. If the layers hand
on what they were given, it is asked for at the owner, on the path that the binding was given. -/
theorem BindingAsks.cases (hAsks : BindingAsks again binding path h c) :
    c.key ∈ binding.strategy.dependencies ∧
        (HandsOn again binding path h → c.injector = binding.owner ∧ c.path = path) ∨
      c.path = [] := by
  obtain ⟨turn, hTurns, hAsks⟩ := hAsks
  cases hAsks with
  | depends hDepends =>
    obtain ⟨hInjector, hKey, hPath⟩ := hDepends.same
    refine Or.inl ⟨hKey, fun hHandsOn => ?_⟩
    obtain ⟨hOwner, hSame⟩ := hHandsOn _ hTurns
    exact ⟨hInjector.trans hOwner, hPath.trans hSame⟩
  | posed _ hRequests => exact Or.inr hRequests.path_eq

-- ---------------------------------------------------------------------------
-- In which states
-- ---------------------------------------------------------------------------

section Leading

variable {G : InjectorId → Hierarchy → Prop} {R : InjectorId → Hierarchy → Hierarchy → Prop}

/-- The demands of a program are made in its course. -/
theorem Poses.amid (hP : Passage G R) (hAnswers : ∀ n demand, Run.Leads (G n) (R n) (answers n demand))
    (hPoses : Poses answers program n h posed) (hG : G n h) : Amid G R n h posed.injector posed.state := by
  induction hPoses with
  | @act update _ n h _ _ ih =>
    have hFirst := hP.amid hG ((hP.course n).act h (update h.user))
    exact hFirst.trans (ih hFirst.kind)
  | now => exact hP.reach hG _
  | @later m _ _ _ _ _ _ _ hAnswer _ ih =>
    have hReach := hP.reach hG m
    have hFirst := hP.amid hG (hReach.back (hAnswers _ _ _ _ _ hReach.kind hAnswer))
    exact hFirst.trans (ih hFirst.kind)
  | refused hRefused _ ih =>
    have hFirst := hP.amid hG (hP.refused hG hRefused)
    exact hFirst.trans (ih hFirst.kind)
  | inside hCreated _ ih =>
    obtain ⟨hChild, hAfter⟩ := hP.opened hG hCreated
    exact Amid.trans ⟨hChild, fun hInside => (hAfter hInside).1⟩ (ih hChild)
  | @outside _ _ _ keeps _ n child h _ h'' outcome _ hCreated hInside _ ih =>
    obtain ⟨hChild, hAfter⟩ := hP.opened hG hCreated
    have hInner := hAfter (hP.leads_runProgram hAnswers _ _ _ _ _ hChild hInside)
    have hVisit : R n h (if keeps outcome then h'' else h''.release child) := by
      split
      · exact hInner.1
      · exact hInner.2
    have hFirst := hP.amid hG hVisit
    exact hFirst.trans (ih hFirst.kind)

theorem Posed.Requests.same (hRequests : posed.Requests c) : c.injector = posed.injector ∧ c.state = posed.state := by
  cases hRequests <;> exact ⟨rfl, rfl⟩

variable (hP : Passage G R) (hAgain : Throughout G R again)
include hP hAgain

theorem HooksPose.amid {hooks : List Hook} {value : Instance} {posed : Posed .body}
    (hPoses : HooksPose again n key hooks value h posed) (hG : G n h) : Amid G R n h posed.injector posed.state := by
  induction hPoses with
  | now _ hPoses => exact hPoses.amid hP (hP.leads_bodyAnswers hAgain) hG
  | later _ hHook _ ih =>
    have hFirst := hP.amid hG (hP.leads_runBody hAgain _ n _ _ _ hG hHook)
    exact hFirst.trans (ih hFirst.kind)
  | skipped _ _ ih => exact ih hG

/-- What comes after requests one after another comes in their course. -/
theorem amid_of_forEach {keys : List Key} {arguments : List Instance}
    (hRun : Run.forEach (fun key => again n key path) keys h = some (.ok arguments, h')) (hG : G n h) :
    Amid G R n h n h' :=
  hP.amid hG (Run.leads_forEach (hP.course n).toCourse (fun key => hAgain n key path) _ _ _ _ hG hRun)

theorem StrategyPoses.amid {posed : Posed .body} (hPoses : StrategyPoses again key n path h strategy posed)
    (hG : G n h) : Amid G R n h posed.injector posed.state := by
  have hBodies := hP.leads_bodyAnswers hAgain
  cases hPoses with
  | provided hPoses => exact hPoses.amid hP hBodies hG
  | build hArguments hPoses =>
    have hFirst := amid_of_forEach hP hAgain hArguments hG
    exact hFirst.trans (hPoses.amid hP hBodies hFirst.kind)
  | hook hArguments hBuild hPoses =>
    have hFirst := amid_of_forEach hP hAgain hArguments hG
    have hBuilt := hFirst.trans (hP.amid hFirst.kind (hP.leads_runBody hAgain _ n _ _ _ hFirst.kind hBuild))
    exact hBuilt.trans (hPoses.amid hP hAgain hBuilt.kind)

theorem StrategyDepends.amid (hDepends : StrategyDepends again n path h strategy c) (hG : G n h) :
    Amid G R n h c.injector c.state := by
  cases hDepends with
  | linked => exact ⟨hG, id⟩
  | argument _ hBefore => exact amid_of_forEach hP hAgain hBefore hG

/-- By induction on the turns: each program turns to what is below it in its course. -/
theorem Turns.amid {number : BindingId} {base : Provider} (hBase : ∀ n path, Run.Leads (G n) (R n) (base n path))
    {first last : Turn} (hTurns : Turns again number base first last) (hG : G first.injector first.state) :
    Amid G R first.injector first.state last.injector last.state := by
  induction hTurns with
  | here => exact ⟨hG, id⟩
  | once _ _ ih => exact ih hG
  | @around provide below _ _ _ _ _ _ _ hPoses _ ih =>
    have hBelow := hP.leads_runLayers hAgain number hBase below
    have hFirst := hPoses.amid hP (hP.leads_scopeAnswers hAgain hBelow) hG
    exact hFirst.trans (ih hFirst.kind)

theorem BindingTurns.amid {turn : Turn} (hTurns : BindingTurns again binding path h turn) (hG : G binding.owner h) :
    Amid G R binding.owner h turn.injector turn.state :=
  hTurns.2.amid hP hAgain (hP.leads_runStrategy hAgain binding.key binding.strategy) hG

theorem TurnPoses.amid {turn : Turn} (hPoses : TurnPoses again binding turn posed) (hG : G turn.injector turn.state) :
    Amid G R turn.injector turn.state posed.injector posed.state := by
  cases hPoses with
  | strategy hPoses => exact hPoses.amid hP hAgain hG
  | @scope _ below _ _ _ _ hPoses =>
    have hBase := hP.leads_runStrategy hAgain binding.key binding.strategy
    exact hPoses.amid hP (hP.leads_scopeAnswers hAgain (hP.leads_runLayers hAgain binding.id hBase below)) hG

/-- What is asked for while a binding is provided is asked in the course of what its owner does. -/
theorem BindingAsks.amid (hAsks : BindingAsks again binding path h c) (hG : G binding.owner h) :
    Amid G R binding.owner h c.injector c.state := by
  obtain ⟨turn, hTurns, hAsks⟩ := hAsks
  have hFirst := hTurns.amid hP hAgain hG
  cases hAsks with
  | depends hDepends => exact hFirst.trans (hDepends.amid hP hAgain hFirst.kind)
  | posed hPoses hRequests =>
    rw [hRequests.same.1, hRequests.same.2]
    exact hFirst.trans (hPoses.amid hP hAgain hFirst.kind)

end Leading

/-- Before a binding asks for something, nothing happens but an excursion, and the injector where it asks is anchored. -/
theorem BindingAsks.excursion (hAgain : ∀ n key path, Stepwise n (again n key path)) (hW : h.WellFormed)
    (hA : Anchored h binding.owner) (hAsks : BindingAsks again binding path h c) :
    Excursion h c.state ∧ Anchored c.state c.injector :=
  have hAmid := hAsks.amid passage_excursion hAgain ⟨hW, hA⟩
  ⟨passage_excursion.course_of_amid hAmid, hAmid.kind.2⟩

-- ---------------------------------------------------------------------------
-- One in the course of the other
-- ---------------------------------------------------------------------------

/-- What each inquiry in turn hands on to the next one, the innermost one has. -/
theorem Nested.invariant {P : List Binding → Inquiry → Prop}
    (hStep : ∀ {fuel outer c binding h' c'}, P outer c → c.Opens binding h' →
      BindingAsks (obtain fuel) binding (c.path ++ [c.key]) h' c' → P (outer ++ [binding]) c')
    {bindings : List Binding} (hNested : Nested fuel c bindings c') {outer : List Binding} (hP : P outer c) :
    P (outer ++ bindings) c' := by
  induction hNested generalizing outer with
  | here =>
    rw [List.append_nil]
    exact hP
  | deeper hOpens hAsks _ ih =>
    rw [List.append_cons]
    exact ih (hStep hP hOpens hAsks)

/-- The owner of a binding that is opened at an anchored injector is anchored too. -/
theorem Inquiry.Opens.owner (hW : c.state.WellFormed) (hA : Anchored c.state c.injector) (hOpens : c.Opens binding h') :
    Excursion c.state h' ∧ Anchored h' binding.owner :=
  have hResolved := excursion_resolve hW hA hOpens.resolved
  ⟨hResolved.1, hResolved.2 binding rfl⟩

/-- Whatever is asked for in the course of an inquiry is asked for at an injector that is anchored. -/
theorem Nested.anchored {bindings : List Binding} (hW : c.state.WellFormed) (hA : Anchored c.state c.injector)
    (hNested : Nested fuel c bindings c') : Excursion c.state c'.state ∧ Anchored c'.state c'.injector := by
  induction hNested with
  | here => exact ⟨.refl _, hA⟩
  | deeper hOpens hAsks _ ih =>
    obtain ⟨hE, hOwner⟩ := hOpens.owner hW hA
    obtain ⟨hE', hA'⟩ := hAsks.excursion (stepwise_obtain _) (hE.wellFormed hW) hOwner
    have hFirst := hE.trans hE'
    exact (ih (hFirst.wellFormed hW) hA').imp_left hFirst.trans

end Provision

end InjectorTree
