import InjectorTree.Proofs.Placement.Failures
import InjectorTree.Proofs.Requests.Cycles
import InjectorTree.Proofs.Requests.Quiet
import InjectorTree.Proofs.Requests.Termination

/-!
# Requests without programs

If all that is declared on the path of an injector are instances, links and constructors, and no constructor, hook or
scope calls an injector, whatever is requested there is provided from these alone. No injector comes or goes meanwhile,
so what holds of the injector goes on to hold, and each request is carried on to the owner of the binding that is being
provided.

* `Static`, `Calm`: there is nothing else on the path; requests from such an injector leave all injectors in place.
* `DependencyChain`: keys each of which is one on which the binding of the key before it depends.
* `cycle_of_obtain`: a cycle that is reported is closed by such a chain, unless user code made it up.
* `static_requests`: requests end, never provide a key for the sake of itself, and report cycles that exist.
-/

namespace InjectorTree

/-- The problem is a cycle. -/
def Problem.IsCycle (problem : Problem) : Prop :=
  ∃ key path, problem = .cycleDetected key path

/-- An instance, a link, or a constructor whose function returns without calling an injector. -/
def Strategy.Still : Strategy → Prop
  | .fixed _ => True
  | .linked _ => True
  | .provided _ => False
  | .constructed constructor => ∀ arguments, (constructor.build arguments).Inert

namespace Provision

open Hierarchy Run

variable {h h' h'' : Hierarchy} {n p : InjectorId} {key : Key} {binding : Binding} {path : List Key}
  {c c' : Inquiry} {fuel : Nat} {again : Again} {role : Role}

-- ---------------------------------------------------------------------------
-- No injector comes or goes
-- ---------------------------------------------------------------------------

/-- Some steps lead to the later state, and all injectors are still in place. -/
structure Calm (h h' : Hierarchy) : Prop where
  steps : Steps h h'
  shape : SameShape h' h

/-- The injector is live in a state that can be reached. All that is declared on its path are instances, links and
constructors, and neither constructors nor hooks call injectors. The scopes in which something is declared there leave
it at that: their layers keep instances, or turn to what is below. -/
structure Static (n : InjectorId) (h : Hierarchy) : Prop where
  reachable : Reachable h
  isLive : h.isLive n = true
  declared : ∀ strategy ∈ h.strategies n, strategy.Still
  hooks : ∀ hook ∈ h.hooks n, ∀ key value, (hook.intercept key value).Inert
  layers : AllLayers Layer.Quiet n h

/-- The program does not fail with a cycle of its own making. -/
def TellsNoCycle (program : Program role) : Prop :=
  ∀ answers n, PassesOn (fun report => ¬ report.problem.IsCycle) answers program n

/-- No hook on the path, no constructor that is declared on it, and no scope in which something is declared there fails
with a cycle of its own making. -/
structure Candid (n : InjectorId) (h : Hierarchy) : Prop where
  hooks : ∀ hook ∈ h.hooks n, ∀ key value, TellsNoCycle (hook.intercept key value)
  constructors : ∀ constructor, .constructed constructor ∈ h.strategies n → ∀ arguments,
    TellsNoCycle (constructor.build arguments)
  layers : AllLayers (fun layer => ∀ provide, layer = .around provide → ∀ n path, TellsNoCycle (provide n path)) n h

theorem Calm.refl (h : Hierarchy) : Calm h h :=
  ⟨.refl, SameShape.refl h⟩

theorem Calm.trans (hC : Calm h h') (hC' : Calm h' h'') : Calm h h'' :=
  ⟨Relation.ReflTransGen.trans hC.steps hC'.steps, hC'.shape.trans hC.shape⟩

theorem calm_act (h : Hierarchy) (user : UserState) : Calm h { h with user } :=
  ⟨.single (.act user), fun _ => rfl, rfl, rfl, rfl⟩

theorem Static.calm (hS : Static n h) (hC : Calm h h') : Static n h' where
  reachable := hS.reachable.steps hC.steps
  isLive := (hC.shape.isLive n).trans hS.isLive
  declared := by
    rw [hC.shape.on.strategies trivial]
    exact hS.declared
  hooks := by
    rw [hC.shape.hooks]
    exact hS.hooks
  layers := hC.shape.allLayers hS.layers

theorem Static.up (hS : Static n h) (hp : p ∈ h.path n) : Static p h where
  reachable := hS.reachable
  isLive := hS.reachable.wellFormed.rooted.isLive_of_mem_path hS.isLive hp
  declared strategy hMem := hS.declared strategy (strategies_subset hS.reachable.wellFormed.rooted hp hMem)
  hooks hook hMem := hS.hooks hook (hooks_subset hS.reachable.wellFormed.rooted hp hMem)
  layers := hS.layers.up hS.reachable.wellFormed.rooted hp

theorem Candid.calm (hK : Candid n h) (hC : Calm h h') : Candid n h' where
  hooks := by
    rw [hC.shape.hooks]
    exact hK.hooks
  constructors := by
    rw [hC.shape.on.strategies trivial]
    exact hK.constructors
  layers := hC.shape.allLayers hK.layers

theorem Candid.up (hK : Candid n h) (hR : h.Rooted) (hp : p ∈ h.path n) : Candid p h where
  hooks hook hMem := hK.hooks hook (hooks_subset hR hp hMem)
  constructors constructor hMem := hK.constructors constructor (strategies_subset hR hp hMem)
  layers := hK.layers.up hR hp

theorem openCourse_calm (n : InjectorId) : OpenCourse (Static n) Calm where
  refl := Calm.refl
  trans := Calm.trans
  stays := Static.calm
  act := calm_act
  keep _ _ hC := hC.trans ⟨.single (.keep _ _ _), fun _ => rfl, rfl, rfl, rfl⟩

-- ---------------------------------------------------------------------------
-- Requests leave injectors in place
-- ---------------------------------------------------------------------------

theorem Static.resolve {outcome : Except Report Binding} (hS : Static n h)
    (hRun : h.resolve n key = some (outcome, h')) : Calm h h' :=
  ⟨.single (.resolve hS.isLive hRun), (wellFormed_resolve hS.reachable.wellFormed hS.isLive hRun).2.1⟩

/-- What a key resolves to is owned on the path, under the key. -/
theorem Static.owned (hS : Static n h) (hRun : h.resolve n key = some (.ok binding, h')) :
    binding.key = key ∧ h'.Owned n key binding ∧ Static binding.owner h' := by
  have hOwned := owned_of_resolve hS.reachable.wellFormed hS.isLive hRun
  have hS' := hS.calm (hS.resolve hRun)
  obtain ⟨hKey, -, -⟩ := hS'.reachable.wellFormed.binding? hOwned.bound
  exact ⟨hKey, hOwned, hS'.up hOwned.onPath⟩

/-- No binding of the injector runs a program, but for the one that provides the injector. -/
theorem Static.strategy (hS : Static binding.owner h) (hb : h.binding? binding.owner key = some binding) :
    binding.strategy = .itself ∨ (∃ value, binding.strategy = .fixed value) ∨
      (∃ target, binding.strategy = .linked target) ∨
        ∃ constructor, binding.strategy = .constructed constructor ∧
          .constructed constructor ∈ h.strategies binding.owner := by
  rcases strategy_cases hS.reachable hb with hItself | hFixed | hDeclared
  · exact Or.inl hItself
  · exact Or.inr (Or.inl hFixed)
  · have hStill := hS.declared _ hDeclared
    cases hStrategy : binding.strategy with
    | fixed value => exact Or.inr (Or.inl ⟨value, rfl⟩)
    | linked target => exact Or.inr (Or.inr (Or.inl ⟨target, rfl⟩))
    | constructed constructor => exact Or.inr (Or.inr (Or.inr ⟨constructor, rfl, hStrategy ▸ hDeclared⟩))
    | provided run =>
      rw [hStrategy] at hStill
      exact hStill.elim

theorem Static.quiet (hS : Static binding.owner h) (hb : h.binding? binding.owner key = some binding) :
    ∀ layer ∈ binding.layers, layer.Quiet :=
  hS.layers.of_binding? hS.reachable self_mem_path hb

theorem leads_runStrategy_of_static (hAgain : ∀ key, Leads (Static binding.owner) Calm (again binding.owner key path))
    (hb : h.binding? binding.owner key = some binding) (hS : Static binding.owner h) :
    Leads (Static binding.owner) Calm (runStrategy again binding.key binding.strategy binding.owner path) := by
  have hC := openCourse_calm binding.owner
  rcases hS.strategy hb with hItself | ⟨value, hFixed⟩ | ⟨target, hLinked⟩ | ⟨constructor, hConstructed, hDeclared⟩
  · rw [hItself]
    exact leads_of_inert hC .finish binding.owner
  · rw [hFixed]
    exact leads_pure hC.toCourse value
  · rw [hLinked]
    exact hAgain target
  · rw [hConstructed]
    refine leads_constructed hC.toCourse hAgain (fun arguments => ?_) fun h hS hook hMem value => ?_
    · exact leads_of_inert hC (hS.declared _ hDeclared arguments) binding.owner
    · exact leads_of_inert hC (hS.hooks hook hMem binding.key value) binding.owner

theorem leads_runBinding_of_static (hAgain : ∀ key, Leads (Static binding.owner) Calm (again binding.owner key path))
    (hb : h.binding? binding.owner key = some binding) (hS : Static binding.owner h)
    {outcome : Except Report Instance} (hRun : runBinding again binding path h = some (outcome, h')) : Calm h h' := by
  simp only [runBinding] at hRun
  split at hRun
  · have hBase := leads_runStrategy_of_static hAgain hb hS
    exact Leads.within (leads_of_quiet (openCourse_calm binding.owner) hBase (hS.quiet hb)) _ h h' outcome hS hRun
  · cases hRun
    exact Calm.refl h

theorem leads_obtain (fuel : Nat) : ∀ n key path, Leads (Static n) Calm (obtain fuel n key path) := by
  induction fuel with
  | zero =>
    intro n key path h h' outcome _ hRun
    cases hRun
  | succ fuel ih =>
    intro n key path
    have hC := (openCourse_calm n).toCourse
    refine Leads.within (Leads.bind hC (leads_ofExcept hC _) fun path' => ?_) _
    intro h h' outcome hS hRun
    rcases bind_eq_some_iff.mp hRun with ⟨binding, h₁, hResolve, hRest⟩ | ⟨report, h₁, hResolve, hEq⟩
    · obtain ⟨-, hOwned, hOwner⟩ := hS.owned hResolve
      have hRest := leads_runBinding_of_static (fun key => ih binding.owner key path') hOwned.bound hOwner hRest
      exact (hS.resolve hResolve).trans hRest
    · cases hEq
      exact hS.resolve hResolve

-- ---------------------------------------------------------------------------
-- What is asked for in turn
-- ---------------------------------------------------------------------------

theorem not_hooksPose_of_inert {hooks : List Hook} {value : Instance} {posed : Posed .body}
    (hInert : ∀ hook ∈ hooks, ∀ key value, (hook.intercept key value).Inert) :
    ¬HooksPose again n key hooks value h posed := by
  intro hPoses
  induction hPoses with
  | now _ hPoses => exact not_poses_of_inert (hInert _ List.mem_cons_self _ _) hPoses
  | later _ _ _ ih => exact ih (List.forall_mem_cons.mp hInert).2
  | skipped _ _ ih => exact ih (List.forall_mem_cons.mp hInert).2

/-- The user code of a constructor makes no demands. -/
theorem not_strategyPoses_of_static (hAgain : ∀ key, Leads (Static n) Calm (again n key path)) {strategy : Strategy}
    (hS : Static n h) (hStrategy : strategy = .itself ∨ strategy.Still) {posed : Posed .body} :
    ¬StrategyPoses again key n path h strategy posed := by
  have hC := openCourse_calm n
  intro hPoses
  cases hPoses with
  | provided hPoses =>
    rcases hStrategy with hItself | hNo
    · cases hItself
      cases hPoses
    · exact hNo
  | build _ hPoses =>
    rcases hStrategy with hItself | hStill
    · cases hItself
    · exact not_poses_of_inert (hStill _) hPoses
  | hook hArguments hBuild hPoses =>
    rcases hStrategy with hItself | hStill
    · cases hItself
    · have hS₁ := hS.calm (leads_forEach hC.toCourse hAgain _ _ _ _ hS hArguments)
      have hS₂ := hS₁.calm (leads_of_inert hC (hStill _) n _ _ _ hS₁ hBuild)
      exact not_hooksPose_of_inert hS₂.hooks hPoses

theorem Static.still (hS : Static binding.owner h) (hb : h.binding? binding.owner key = some binding) :
    binding.strategy = .itself ∨ binding.strategy.Still := by
  rcases hS.strategy hb with hItself | ⟨value, hFixed⟩ | ⟨target, hLinked⟩ | ⟨constructor, hConstructed, hDeclared⟩
  · exact Or.inl hItself
  · exact Or.inr (hFixed ▸ trivial)
  · exact Or.inr (hLinked ▸ trivial)
  · exact Or.inr (hConstructed ▸ hS.declared _ hDeclared)

/-- What a strategy depends on is asked for in the course of requests at the injector. -/
theorem calm_of_depends (hAgain : ∀ key, Leads (Static n) Calm (again n key path)) {strategy : Strategy}
    (hS : Static n h) (hDepends : StrategyDepends again n path h strategy c) : Calm h c.state := by
  cases hDepends with
  | linked => exact Calm.refl h
  | argument _ hBefore => exact leads_forEach (openCourse_calm n).toCourse hAgain _ _ _ _ hS hBefore

/-- Whenever it is the turn of some layers, it is at the owner and on the path of the binding, and all that user code
demands is what is below. -/
theorem Static.turns (hS : Static c.injector c.state) (hOpens : c.Opens binding h') {turn : Turn}
    (hTurns : BindingTurns (obtain fuel) binding (c.path ++ [c.key]) h' turn) :
    turn.injector = binding.owner ∧ turn.path = c.path ++ [c.key] ∧ Calm h' turn.state ∧
      ∀ {role} {posed : Posed role}, TurnPoses (obtain fuel) binding turn posed → ∃ path, posed.TurnsTo path := by
  have hC := openCourse_calm binding.owner
  obtain ⟨-, hOwned, hOwner⟩ := hS.owned hOpens.resolved
  have hAgain : ∀ key path, Leads (Static binding.owner) Calm (obtain fuel binding.owner key path) :=
    leads_obtain fuel binding.owner
  obtain ⟨layers, m, path, state⟩ := turn
  obtain ⟨rfl, rfl, hCalm, hQuiet⟩ :=
    hTurns.2.of_quiet hC (leads_runStrategy_of_static (fun key => hAgain key _) hOwned.bound hOwner)
      (hOwner.quiet hOwned.bound) hOwner
  refine ⟨rfl, rfl, hCalm, fun hPoses => ?_⟩
  cases hPoses with
  | strategy hPoses =>
    refine absurd hPoses (not_strategyPoses_of_static (fun key => hAgain key _) (hOwner.calm hCalm) ?_)
    exact hOwner.still hOwned.bound
  | @scope _ _ _ _ _ posed hPoses =>
    obtain ⟨m, demand, state⟩ := posed
    obtain ⟨-, -, -, rfl⟩ := exists_of_asksOnly (hQuiet _ List.mem_cons_self binding.owner _) hPoses
    exact ⟨_, .below⟩

/-- Whatever is asked for in turn is carried on, to an injector on whose path nothing else is declared either. -/
theorem Static.asks (hS : Static c.injector c.state) (hOpens : c.Opens binding h')
    (hAsks : BindingAsks (obtain fuel) binding (c.path ++ [c.key]) h' c') :
    binding.key = c.key ∧ CarriesOn c binding c' ∧ Calm h' c'.state ∧ Static c'.injector c'.state := by
  obtain ⟨hKey, -, hOwner⟩ := hS.owned hOpens.resolved
  obtain ⟨turn, hTurns, hAsks⟩ := hAsks
  obtain ⟨hInjector, hPath, hCalm, hDemands⟩ := hS.turns hOpens hTurns
  cases hAsks with
  | @depends m path state _ hDepends =>
    obtain ⟨hSame, hDependency, hSamePath⟩ := hDepends.same
    have hTurn : Static m state := (show m = _ from hInjector) ▸ hOwner.calm hCalm
    have hReached := hCalm.trans (calm_of_depends (fun key => leads_obtain fuel m key path) hTurn hDepends)
    have hCarries : CarriesOn c binding c' := ⟨hSame.trans hInjector, hDependency, hSamePath.trans hPath⟩
    exact ⟨hKey, hCarries, hReached, hCarries.injector ▸ hOwner.calm hReached⟩
  | posed hPoses hRequests =>
    -- no request is made to turn to what is below
    obtain ⟨below, hBelow⟩ := hDemands hPoses
    cases hBelow
    cases hRequests

/-- Without programs, every request ends. -/
theorem ends_of_static (hS : Static c.injector c.state) : Ends c := by
  refine ends_of_room (P := fun c => Static c.injector c.state) (fun c hS hFewer => ?_) hS
  refine ends_of_supplied hS.reachable.wellFormed fun fuel binding h' turn hOpens hTurns => ⟨?_, fun role posed hPoses => ?_⟩
  · rintro m path state rfl c' hDepends
    obtain ⟨-, hCarries, hCalm, hS'⟩ := hS.asks hOpens ⟨_, hTurns, .depends hDepends⟩
    refine hFewer c' hS' (hCarries.room_lt hS.reachable hS.isLive hOpens hCalm.steps ?_)
    exact hCarries.injector ▸ hS'.isLive
  · exact Or.inr ((hS.turns hOpens hTurns).2.2.2 hPoses)

/-- The path is that of the bindings that are being provided, and no key is on it twice. -/
structure Straight (bindings : List Binding) (c : Inquiry) : Prop where
  isStatic : Static c.injector c.state
  path : c.path = bindings.map (·.key)
  distinct : c.path.Nodup

theorem Nested.straight {bindings : List Binding} (hNested : Nested fuel c bindings c') {outer : List Binding}
    (hS : Straight outer c) : Straight (outer ++ bindings) c' := by
  refine hNested.invariant (P := Straight) ?_ hS
  intro fuel outer c binding h' c' hS hOpens hAsks
  obtain ⟨hKey, hCarries, -, hS'⟩ := hS.isStatic.asks hOpens hAsks
  refine ⟨hS', ?_, ?_⟩
  · rw [hCarries.path, hS.path, List.map_append, List.map_singleton, hKey]
  · rw [hCarries.path]
    exact hS.distinct.append (List.nodup_singleton _) (List.disjoint_singleton.mpr hOpens.fresh)

-- ---------------------------------------------------------------------------
-- Where cycles are reported
-- ---------------------------------------------------------------------------

theorem not_cycle_of_runHooks {hooks : List Hook} (hInert : ∀ hook ∈ hooks, ∀ key value, (hook.intercept key value).Inert)
    (hCandid : ∀ hook ∈ hooks, ∀ key value, TellsNoCycle (hook.intercept key value)) {value : Instance} {report : Report}
    (hRun : runHooks again n key hooks value h = some (.error report, h')) : ¬ report.problem.IsCycle := by
  induction hooks generalizing value h with
  | nil => cases hRun
  | cons hook rest ih =>
    obtain ⟨hStill, hStillRest⟩ := List.forall_mem_cons.mp hInert
    obtain ⟨hHook, hRest⟩ := List.forall_mem_cons.mp hCandid
    unfold runHooks at hRun
    split at hRun
    · rcases bind_eq_error_iff.mp hRun with hFailed | ⟨value', h₁, -, hOthers⟩
      · exact own_of_inert (hStill key value) (hHook key value _ n) hFailed
      · exact ih hStillRest hRest hOthers
    · exact ih hStillRest hRest hRun

/-- A cycle that is reported for a constructor is reported by one of its arguments. -/
theorem cycle_of_constructed (hAgain : ∀ key, Leads (Static n) Calm (again n key path)) {constructor : Constructor}
    (hDeclared : .constructed constructor ∈ h.strategies n) (hS : Static n h) (hK : Candid n h) {report : Report}
    (hRun : runStrategy again key (.constructed constructor) n path h = some (.error report, h'))
    (hCycle : report.problem.IsCycle) :
    ∃ dependency ∈ constructor.dependencies, ∃ h₁, Calm h h₁ ∧
      again n dependency path h₁ = some (.error report, h') := by
  have hC := openCourse_calm n
  have hStill := hS.declared _ hDeclared
  rcases bind_eq_error_iff.mp hRun with hArguments | ⟨arguments, h₁, hArguments, hRest⟩
  · have hKeeps : ∀ key h₁ value h₂, Calm h h₁ → again n key path h₁ = some (.ok value, h₂) → Calm h h₂ :=
      fun key h₁ value h₂ hCalm hValue => hCalm.trans (hAgain key _ _ _ (hS.calm hCalm) hValue)
    exact exists_mem_of_forEach_error hKeeps (Calm.refl h) hArguments
  · -- the arguments are there, so the constructor or a hook fails
    exfalso
    have hCalm := leads_forEach hC.toCourse hAgain _ _ _ _ hS hArguments
    rcases bind_eq_error_iff.mp hRest with hBuild | ⟨value, h₂, hBuild, hRest⟩
    · exact own_of_inert (hStill arguments) (hK.constructors constructor hDeclared arguments _ n) hBuild hCycle
    · have hCalm := hCalm.trans (leads_of_inert hC (hStill arguments) n _ _ _ (hS.calm hCalm) hBuild)
      rcases bind_eq_error_iff.mp hRest with hGet | ⟨h₃, h₄, hGet, hHooks⟩
      · cases hGet
      · cases hGet
        exact not_cycle_of_runHooks (hS.calm hCalm).hooks (hK.calm hCalm).hooks hHooks hCycle

/-- A cycle that is reported while a binding is provided is reported by something that it asks for. -/
theorem cycle_of_runBinding (hAgain : ∀ key, Leads (Static binding.owner) Calm (again binding.owner key path))
    (hb : h.binding? binding.owner key = some binding) (hS : Static binding.owner h) (hK : Candid binding.owner h)
    {report : Report} (hRun : runBinding again binding path h = some (.error report, h'))
    (hCycle : report.problem.IsCycle) :
    ∃ dependency ∈ binding.strategy.dependencies, ∃ h₁ h₂ inner, Calm h h₁ ∧
      again binding.owner dependency path h₁ = some (.error inner, h₂) ∧ Calm h₂ h' ∧
        inner.problem = report.problem := by
  have hC := openCourse_calm binding.owner
  simp only [runBinding] at hRun
  split at hRun
  case isFalse =>
    cases hRun
    obtain ⟨_, _, hCycle⟩ := hCycle
    cases hCycle
  obtain ⟨inner, hLayers, rfl⟩ := within_eq_error_iff.mp hRun
  have hTells := hK.layers.of_binding? hS.reachable self_mem_path hb
  have hOrigin := exists_of_quiet_error hC (leads_runStrategy_of_static hAgain hb hS) (hS.quiet hb)
    (fun provide hMem answers n path => hTells _ hMem provide rfl n path answers n) hS hLayers
  rcases hOrigin with hOwn | ⟨h₁, h₂, hBefore, hBase, hAfter⟩
  · exact absurd hCycle hOwn
  rcases hS.strategy hb with hItself | ⟨value, hFixed⟩ | ⟨target, hLinked⟩ | ⟨constructor, hConstructed, hDeclared⟩
  · rw [hItself] at hBase
    cases hBase
  · rw [hFixed] at hBase
    cases hBase
  · rw [hLinked] at hBase ⊢
    exact ⟨target, List.mem_singleton_self target, h₁, h₂, inner, hBefore, hBase, hAfter, rfl⟩
  · rw [hConstructed] at hBase ⊢
    rw [← hBefore.shape.on.strategies trivial] at hDeclared
    obtain ⟨dependency, hMem, h₃, hCalm, hFailed⟩ :=
      cycle_of_constructed hAgain hDeclared (hS.calm hBefore) (hK.calm hBefore) hBase hCycle
    exact ⟨dependency, hMem, h₃, h₂, inner, hBefore.trans hCalm, hFailed, hAfter, rfl⟩

-- ---------------------------------------------------------------------------
-- Dependency chains
-- ---------------------------------------------------------------------------

/-- The first key is asked for at the injector, and each further one at the owner of the binding to which the key
before it resolves, since the binding depends on it. -/
inductive DependencyChain (h : Hierarchy) : InjectorId → List Key → Prop
  | last {n : InjectorId} {key : Key} : DependencyChain h n [key]
  | next {n : InjectorId} {key dependency : Key} {rest : List Key} {binding : Binding}
      (hResolve : h.resolve n key = some (.ok binding, h)) (hDependency : dependency ∈ binding.strategy.dependencies)
      (hRest : DependencyChain h binding.owner (dependency :: rest)) : DependencyChain h n (key :: dependency :: rest)

/-- The cycle begins with the path, goes on along a dependency chain from the key, and ends with the only key that it
repeats. -/
structure Closes (path : List Key) (n : InjectorId) (key : Key) (h : Hierarchy) (repeated : Key) (cycle : List Key) :
    Prop where
  chain : ∃ rest, cycle = path ++ key :: rest ∧ DependencyChain h n (key :: rest)
  closed : ∃ before, cycle = before ++ [repeated] ∧ before.Nodup ∧ repeated ∈ before

/-- What an injector owns under a key on which something is found to depend stays what the key resolves to. -/
theorem Static.resolve_later (hS : Static n h) (hOwned : h.Owned n key binding) (hCalm : Calm h h') {dependency : Key}
    (hDependency : dependency ∈ binding.strategy.dependencies) : h'.resolve n key = some (.ok binding, h') := by
  have hW := hS.reachable.wellFormed
  have hKey : key ≠ .injector := by
    rintro rfl
    rw [hW.strategy_itself hOwned.bound] at hDependency
    cases hDependency
  have hS' := hS.calm hCalm
  exact (hOwned.steps hW hS.isLive hCalm.steps hS'.isLive).resolve_eq hS'.reachable.wellFormed hKey

/-- What is a chain stays one. -/
theorem DependencyChain.calm {keys : List Key} (hChain : DependencyChain h n keys) (hS : Static n h)
    (hCalm : Calm h h') : DependencyChain h' n keys := by
  induction hChain with
  | last => exact .last
  | next hResolve hDependency _ ih =>
    obtain ⟨-, hOwned, hOwner⟩ := hS.owned hResolve
    exact .next (hS.resolve_later hOwned hCalm hDependency) hDependency (ih hOwner)

/-- A cycle that a request reports is closed by a dependency chain of its key. -/
theorem cycle_of_obtain (fuel : Nat) {report : Report} {repeated : Key} {cycle : List Key} (hS : Static n h)
    (hK : Candid n h) (hPath : path.Nodup) (hRun : obtain fuel n key path h = some (.error report, h'))
    (hCycle : report.problem = .cycleDetected repeated cycle) : Closes path n key h' repeated cycle := by
  induction fuel generalizing n key path h h' report with
  | zero => cases hRun
  | succ fuel ih =>
    by_cases hOnPath : key ∈ path
    · cases (obtain_of_mem fuel hOnPath).symm.trans hRun
      cases hCycle
      exact ⟨⟨[], rfl, .last⟩, ⟨path, rfl, hPath, hOnPath⟩⟩
    · rw [obtain_eq fuel hOnPath] at hRun
      obtain ⟨inner, hInner, rfl⟩ := within_eq_error_iff.mp hRun
      rcases bind_eq_error_iff.mp hInner with hResolve | ⟨binding, h₁, hResolve, hProvide⟩
      · -- to resolve a key never fails with a cycle
        have hProblem := failsWith_resolve n key _ _ _ hResolve
        rw [show inner.problem = _ from hCycle] at hProblem
        cases hProblem
      · obtain ⟨-, hOwned, hOwner⟩ := hS.owned hResolve
        have hCalm := hS.resolve hResolve
        have hS' := hS.calm hCalm
        have hK' := (hK.calm hCalm).up hS'.reachable.wellFormed.rooted hOwned.onPath
        obtain ⟨dependency, hMem, h₂, h₃, below, hBefore, hFailed, hRest, hSame⟩ := cycle_of_runBinding
          (fun key => leads_obtain fuel binding.owner key _) hOwned.bound hOwner hK' hProvide ⟨repeated, cycle, hCycle⟩
        have hDistinct : (path ++ [key]).Nodup :=
          hPath.append (List.nodup_singleton _) (List.disjoint_singleton.mpr hOnPath)
        have hThere := hOwner.calm hBefore
        obtain ⟨⟨rest, hPassed, hChain⟩, hClosed⟩ := ih hThere (hK'.calm hBefore) hDistinct hFailed (hSame.trans hCycle)
        have hAfter := leads_obtain fuel _ _ _ _ _ _ hThere hFailed
        have hLater := hS'.resolve_later hOwned (hBefore.trans (hAfter.trans hRest)) hMem
        refine ⟨⟨dependency :: rest, ?_, .next hLater hMem (hChain.calm (hThere.calm hAfter) hRest)⟩, hClosed⟩
        rw [hPassed, List.append_assoc, List.singleton_append]

-- ---------------------------------------------------------------------------
-- Calls
-- ---------------------------------------------------------------------------

/-- Let all that is declared on the path of a live injector be instances, links and constructors, unscoped or in scopes
that keep instances or leave them as they are, and let neither constructors nor hooks call injectors. Then every call for
an instance ends there, with enough fuel, and always in the same way. In the course of it the path has the keys of all
bindings that are being provided, each once, and a key that is on it is refused. Unless user code makes one up, a cycle is
reported only if some dependency chain of the key repeats a key, and then such a chain is reported. -/
theorem static_requests (hS : Static n h) (key : Key) :
    (∃ fuel r, ∀ more ≥ fuel, getInstance more n key h = some r) ∧
      (∀ fuel bindings c, Nested fuel ⟨n, key, [], h⟩ bindings c →
        c.path = bindings.map (·.key) ∧ c.path.Nodup ∧
          (c.key ∈ c.path → ∀ fuel, c.answer (obtain (fuel + 1)) =
            some (.error ((Report.of (.cycleDetected c.key (c.path ++ [c.key]))).within (.locating c.key)), c.state))) ∧
      (Candid n h → ∀ fuel report h', getInstance fuel n key h = some (.error report, h') →
        ((∀ rest, DependencyChain h' n (key :: rest) → (key :: rest).Nodup) → ¬ report.problem.IsCycle) ∧
          ∀ repeated cycle, report.problem = .cycleDetected repeated cycle → Closes [] n key h' repeated cycle) := by
  refine ⟨?_, ?_, ?_⟩
  · obtain ⟨fuel, r, hRun⟩ := ends_of_static (c := ⟨n, key, [], h⟩) hS
    exact ⟨fuel, r, fun more hMore => obtain_mono hMore n key [] h r hRun⟩
  · intro fuel bindings c hNested
    have hStart : Straight [] ⟨n, key, [], h⟩ := ⟨hS, rfl, List.nodup_nil⟩
    have hStraight := hNested.straight hStart
    exact ⟨hStraight.path, hStraight.distinct, fun hOnPath fuel => Inquiry.answer_of_mem fuel hOnPath⟩
  · intro hK fuel report h' hRun
    have hCloses : ∀ repeated cycle, report.problem = .cycleDetected repeated cycle →
        Closes [] n key h' repeated cycle :=
      fun repeated cycle => cycle_of_obtain fuel hS hK List.nodup_nil hRun
    refine ⟨?_, hCloses⟩
    rintro hNever ⟨repeated, cycle, hCycle⟩
    obtain ⟨⟨rest, hEq, hChain⟩, before, hBefore, -, hMem⟩ := hCloses repeated cycle hCycle
    have hDistinct := hNever rest hChain
    rw [← List.nil_append (key :: rest), ← hEq, hBefore] at hDistinct
    exact (List.nodup_append.mp hDistinct).2.2 repeated hMem repeated (List.mem_singleton_self _) rfl

/-- A layer that runs an effect does no more than turn to what is below. -/
theorem quiet_tap (effect : InjectorId → UserState → UserState) : (Layer.tap effect).Quiet :=
  fun _ _ => .act fun _ => .ask ⟨rfl, rfl⟩ fun _ => .finish

/-- The only layers in the loop are those that run an effect, which is none. -/
theorem allLayers_loop {Q : Layer → Prop} (hTap : Q (.tap fun _ user => user)) :
    AllLayers Q 0 (loop (.of .text) (.of .singleton)) := by
  intro tag hTag m hm registration hNearest key user
  obtain rfl := List.mem_singleton.mp (show tag ∈ [.named "tapped"] from hTag)
  obtain rfl := List.mem_singleton.mp (show m ∈ [0] from hm)
  cases hNearest
  exact List.forall_mem_singleton.mpr hTap

theorem static_loop : Static 0 (loop (.of .text) (.of .singleton)) where
  reachable := reachable_loop _ _
  isLive := rfl
  declared strategy hMem := by
    rcases List.mem_pair.mp (show strategy ∈ [.linked _, .linked _] from hMem) with rfl | rfl <;> trivial
  hooks hook hMem := nomatch (show hook ∈ [] from hMem)
  layers := allLayers_loop (quiet_tap _)

theorem candid_loop : Candid 0 (loop (.of .text) (.of .singleton)) where
  hooks hook hMem := nomatch (show hook ∈ [] from hMem)
  constructors constructor hMem := by
    rcases List.mem_pair.mp (show Strategy.constructed constructor ∈ [.linked _, .linked _] from hMem) with hEq | hEq <;> cases hEq
  layers := allLayers_loop (by
    rintro provide ⟨⟩ n path answers m
    exact passesOn_act fun _ => passesOn_ask (fun _ => rfl) fun _ => passesOn_finish fun _ hEq => nomatch hEq)

/-- In a loop of two links, the call ends, and reports the loop. -/
theorem static_requests_in_loop :
    let first := Key.of .text
    let second := Key.of .singleton
    let h := loop first second
    Static 0 h ∧ Candid 0 h ∧ (∃ fuel r, ∀ more ≥ fuel, getInstance more 0 first h = some r) ∧
      Closes [] 0 first ((getInstance 3 0 first).after h) first [first, second, first] := by
  intro first second h
  obtain ⟨hEnds, -, hCycles⟩ := static_requests static_loop first
  obtain ⟨report, hRun⟩ := Run.exists_error_after (x := getInstance 3 0 first) (s := h) (by decide +kernel)
  have hTold : (getInstance 3 0 first h).map (fun result => result.1.map fun _ => ()) = some (.error
      ⟨.cycleDetected first [first, second, first],
        [.locating first, .at .builtin, .locating second, .at .builtin, .locating first]⟩) := by
    decide +kernel
  rw [hRun, Option.map_some, Option.some.injEq, Except.map, Except.error.injEq] at hTold
  refine ⟨static_loop, candid_loop, hEnds, (hCycles candid_loop 3 report _ hRun).2 first _ ?_⟩
  rw [hTold]

/-- A root whose only binding has a constructor that depends on nothing, and fails with a cycle. -/
def forger : Hierarchy :=
  (Hierarchy.create none
    ⟨[⟨.of .text, .constructed ⟨[], fun _ =>
      .finish (.error (.of (.cycleDetected (.of .singleton) [.of .singleton])))⟩, none, .builtin⟩], [], [], [], []⟩
    false {}).2

theorem static_forger : Static 0 forger where
  reachable := .single (.create fun _ hp => nomatch hp)
  isLive := rfl
  declared := List.forall_mem_singleton.mpr fun _ => .finish
  hooks hook hMem := nomatch (show hook ∈ [] from hMem)
  layers tag hMem := nomatch (show tag ∈ [] from hMem)

/-- The call reports a cycle, although no dependency chain repeats a key, and the cycle is not one of the key. -/
theorem cycle_made_up :
    let key := Key.of .text
    let other := Key.of .singleton
    Static 0 forger ∧ (∀ rest, DependencyChain forger 0 (key :: rest) → (key :: rest).Nodup) ∧
      ∃ report, getInstance 1 0 key forger = some (.error report, forger) ∧
        report.problem = .cycleDetected other [other] ∧ ¬ Closes [] 0 key forger other [other] := by
  intro key other
  refine ⟨static_forger, ?_, _, rfl, rfl, ?_⟩
  · intro rest hChain
    cases hChain with
    | last => exact List.nodup_singleton _
    | next hResolve hDependency _ =>
      cases hResolve
      cases hDependency
  · rintro ⟨⟨rest, hEq, -⟩, -⟩
    exact absurd (List.cons.inj hEq).1 (by decide)

end Provision

end InjectorTree
