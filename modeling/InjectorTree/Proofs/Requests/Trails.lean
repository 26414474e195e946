import InjectorTree.Proofs.Placement.Causes
import InjectorTree.Proofs.Requests.Nesting

/-!
# What a trail tells

A request that fails may fail for the sake of another one, which was made while the key was being provided, and that
one in turn. The last of these requests is refused, or its key cannot be resolved, or the user code that provides it
fails by itself, or it is told that a handle cannot be had, or that an instance cannot be received. The trail names them
all: from the outside inwards, each key with the binding that asked for the next one, and then, if the last key cannot
be resolved, the declarations that lead on from it.

User code hands on what it was told by a demand of its own. What else it fails with could have any trail, so it is
assumed to have none. That is asked only of what is provided in the course of the request. User code that is told of a
failure and fails in its own words instead is not told of by the trail any further than that; nor is user code to which
a handle refuses an instance, since a handle does not say for which key.

* `Frank`, `FrankBinding`: user code puts no frames on a trail itself.
* `Led`: one request fails for the sake of another one; `Breaks`: how the last one fails.
* `traced_obtain`: every request that fails is traced.
* `trail_is_request_chain`: what the trail of a failure looks like, whatever was asked for.
* `trail_without_request`: the trail does not name a request if user code fails in its own words.
-/

namespace InjectorTree

namespace Provision

open Hierarchy

/-- The program fails with reports of its own that have no trail, or with what a demand has come to. -/
def Frank {role : Role} (program : Program role) : Prop :=
  ∀ answers n, PassesOn (fun report => report.trail = []) answers program n

/-- No user code puts frames on a trail when the binding is provided. -/
structure FrankBinding (binding : Binding) (path : List Key) (h : Hierarchy) : Prop where
  layers : ∀ provide, .around provide ∈ binding.layers → ∀ n path, Frank (provide n path)
  provided : ∀ run, binding.strategy = .provided run → ∀ n path, Frank (run n path)
  built : ∀ constructor, binding.strategy = .constructed constructor → ∀ arguments, Frank (constructor.build arguments)
  hooked : ∀ fuel turn, BindingTurns (obtain fuel) binding path h turn →
    ∀ hook ∈ turn.state.hooks turn.injector, ∀ value, Frank (hook.intercept binding.key value)

variable {h h' : Hierarchy} {n : InjectorId} {key : Key} {again : Again} {binding : Binding} {path : List Key}
  {c c' last : Inquiry} {report told : Report} {links declared : List Link} {place : Option Source} {fuel : Nat}
  {role : Role} {posed : Posed role}

-- ---------------------------------------------------------------------------
-- Whose failure it is
-- ---------------------------------------------------------------------------

/-- What is demanded cannot be had, although no request has failed: there is no binding to have a handle to, or the
instance is not what it should be. -/
inductive Posed.Misses (again : Again) : {role : Role} → Posed role → Report → Prop
  | handle {role : Role} {n : InjectorId} {key : Key} {h after : Hierarchy} {report : Report}
      (hRun : h.resolve n key = some (.error report, after)) :
      Misses again (⟨n, .getHandle key, h⟩ : Posed role) (report.within (.locating key))
  | misfit {role : Role} {n : InjectorId} {key : Key} {interface : Interface} {h after : Hierarchy} {value : Instance}
      (hValue : again n key [] h = some (.ok value, after)) (hRefused : interface.admits value = false) :
      Misses again (⟨n, .getAs key interface, h⟩ : Posed role)
        ⟨.invalidInstance (.of interface.type) interface.type, [.locating key]⟩

/-- The demand is not met, for the sake of a request that it takes, or by itself. -/
def Posed.Fails (again : Again) (posed : Posed role) (report : Report) : Prop :=
  (∃ c after, posed.Requests c ∧ c.answer again = some (.error report, after)) ∨ posed.Misses again report

/-- What a demand comes to if it is not met: a report without a trail, or one that tells of a request or of a key, or
what comes from below. -/
theorem answer_error {below : role = .scope → Provider} {demand : Demand role}
    (hAnswer : answer again below n demand h = some (.error report, h')) :
    report.trail = [] ∨ Posed.Fails again ⟨n, demand, h⟩ report ∨ ∃ hRole path, Posed.TurnsTo ⟨n, demand, h⟩ path ∧
      below hRole n path h = some (.error report, h') := by
  cases demand with
  | get key => exact Or.inr (Or.inl (Or.inl ⟨_, h', .get, hAnswer⟩))
  | getAs key interface =>
    refine Or.inr (Or.inl ?_)
    rcases Run.bind_eq_error_iff.mp hAnswer with hFailed | ⟨value, h₁, hValue, hRecover⟩
    · exact Or.inl ⟨_, h', .getAs, hFailed⟩
    · obtain ⟨inner, hInner, rfl⟩ := Run.within_eq_error_iff.mp hRecover
      obtain ⟨hRefused, rfl⟩ := Interface.recover_eq_error (congrArg Prod.fst (Option.some.inj hInner))
      exact Or.inr (.misfit hValue hRefused)
  | getHandle key =>
    refine Or.inr (Or.inl (Or.inr ?_))
    rcases Run.bind_eq_error_iff.mp hAnswer with hFailed | ⟨value, h₁, -, hPure⟩
    · obtain ⟨inner, hResolve, rfl⟩ := Run.within_eq_error_iff.mp hFailed
      exact .handle hResolve
    · cases hPure
  | getFrom key interface =>
    rcases Run.bind_eq_error_iff.mp hAnswer with hFailed | ⟨value, h₁, -, hRecover⟩
    · exact Or.inr (Or.inl (Or.inl ⟨_, h', .getFrom, hFailed⟩))
    · obtain ⟨-, rfl⟩ := Interface.recover_eq_error (congrArg Prod.fst (Option.some.inj hRecover))
      exact Or.inl rfl
  | below path => exact Or.inr (Or.inr ⟨rfl, path, .below, hAnswer⟩)

/-- A frank program that makes an instance or looks at one fails by itself, or for the sake of a demand. -/
theorem exists_of_runBody_error {program : Program .body} (hFrank : Frank program)
    (hRun : runBody again program n h = some (.error report, h')) :
    report.trail = [] ∨ ∃ posed, Poses (bodyAnswers again) program n h posed ∧ posed.Fails again report := by
  rcases hFrank _ n h h' report hRun with hOwn | ⟨posed, after, hPoses, hAnswer⟩
  · exact Or.inl hOwn
  · rcases answer_error hAnswer with hOwn | hFails | ⟨⟨⟩, -⟩
    · exact Or.inl hOwn
    · exact Or.inr ⟨posed, hPoses, hFails⟩

theorem exists_of_runHooks_error {hooks : List Hook} {value : Instance}
    (hFrank : ∀ hook ∈ hooks, ∀ value, Frank (hook.intercept key value))
    (hRun : runHooks again n key hooks value h = some (.error report, h')) :
    report.trail = [] ∨ ∃ posed, HooksPose again n key hooks value h posed ∧ posed.Fails again report := by
  induction hooks generalizing value h with
  | nil => cases hRun
  | cons hook rest ih =>
    obtain ⟨hFirst, hRest⟩ := List.forall_mem_cons.mp hFrank
    unfold runHooks at hRun
    split at hRun
    · next hApplies =>
      rcases Run.bind_eq_error_iff.mp hRun with hFailed | ⟨value', h₁, hHook, hOthers⟩
      · refine (exists_of_runBody_error (hFirst value) hFailed).imp_right ?_
        rintro ⟨posed, hPoses, hFails⟩
        exact ⟨posed, .now hApplies hPoses, hFails⟩
      · refine (ih hRest hOthers).imp_right ?_
        rintro ⟨posed, hPoses, hFails⟩
        exact ⟨posed, .later hApplies hHook hPoses, hFails⟩
    · next hNot =>
      refine (ih hRest hRun).imp_right ?_
      rintro ⟨posed, hPoses, hFails⟩
      exact ⟨posed, .skipped hNot hPoses, hFails⟩

/-- When it is the turn of the layers, the failure is without a trail, or it is that of a request or of a demand. -/
def TurnFails (again : Again) (binding : Binding) (turn : Turn) (report : Report) : Prop :=
  report.trail = [] ∨ (∃ c after, TurnAsks again binding turn c ∧ c.answer again = some (.error report, after)) ∨
    ∃ role, ∃ posed : Posed role, TurnPoses again binding turn posed ∧ posed.Misses again report

theorem TurnPoses.turnFails {turn : Turn} (hPoses : TurnPoses again binding turn posed)
    (hFails : posed.Fails again report) : TurnFails again binding turn report := by
  rcases hFails with ⟨c, after, hRequests, hAnswer⟩ | hMisses
  · exact Or.inr (Or.inl ⟨c, after, .posed hPoses hRequests, hAnswer⟩)
  · exact Or.inr (Or.inr ⟨role, posed, hPoses, hMisses⟩)

/-- A constructor fails for the sake of an argument, or by itself, or for the sake of what its user code demands. -/
theorem exists_of_constructed_error {constructor : Constructor} (hAgain : ∀ n key path, Stepwise n (again n key path))
    (hW : h.WellFormed) (hA : Anchored h n) (hBuilt : ∀ arguments, Frank (constructor.build arguments))
    (hHooked : ∀ hook ∈ h.hooks n, ∀ value, Frank (hook.intercept key value))
    (hRun : runStrategy again key (.constructed constructor) n path h = some (.error report, h')) :
    (∃ c after, StrategyDepends again n path h (.constructed constructor) c ∧
        c.answer again = some (.error report, after)) ∨
      report.trail = [] ∨
      ∃ posed, StrategyPoses again key n path h (.constructed constructor) posed ∧ posed.Fails again report := by
  rcases Run.bind_eq_error_iff.mp hRun with hArguments | ⟨arguments, h₁, hArguments, hRest⟩
  · obtain ⟨before, dependency, after, values, h₁, hKeys, hBefore, hFailed⟩ :=
      Run.exists_of_forEach_error hArguments
    exact Or.inl ⟨_, h', .argument hKeys hBefore, hFailed⟩
  refine Or.inr ?_
  rcases Run.bind_eq_error_iff.mp hRest with hBuild | ⟨value, h₂, hBuild, hHooks⟩
  · refine (exists_of_runBody_error (hBuilt arguments) hBuild).imp_right ?_
    rintro ⟨posed, hPoses, hFails⟩
    exact ⟨posed, .build hArguments hPoses, hFails⟩
  · -- the hooks are read only now, but they are those that were there in the beginning
    have hE := (stepwise_forEach (fun dependency => hAgain n dependency path) _).excursion hW hA hArguments
    have hE' := (stepwise_runBody hAgain _ n).excursion (hE.wellFormed hW) (hE.anchored hW hA) hBuild
    rcases Run.bind_eq_error_iff.mp hHooks with hGet | ⟨_, h₃, hGet, hHooks⟩
    · cases hGet
    · cases hGet
      rw [← hooks_of_excursion hW hA (hE.trans hE')] at hHooked
      refine (exists_of_runHooks_error hHooked hHooks).imp_right ?_
      rintro ⟨posed, hPoses, hFails⟩
      exact ⟨posed, .hook hArguments hBuild hPoses, hFails⟩

/-- A strategy fails by itself, or for the sake of what it depends on, or of what its user code demands. -/
theorem turnFails_of_runStrategy (hAgain : ∀ n key path, Stepwise n (again n key path)) (hW : h.WellFormed)
    (hA : Anchored h n) (hProvided : ∀ run, binding.strategy = .provided run → ∀ n path, Frank (run n path))
    (hBuilt : ∀ constructor, binding.strategy = .constructed constructor → ∀ arguments,
      Frank (constructor.build arguments))
    (hHooked : ∀ hook ∈ h.hooks n, ∀ value, Frank (hook.intercept binding.key value))
    (hRun : runStrategy again binding.key binding.strategy n path h = some (.error report, h')) :
    TurnFails again binding ⟨[], n, path, h⟩ report := by
  have hOfCode : (report.trail = [] ∨
      ∃ posed, StrategyPoses again binding.key n path h binding.strategy posed ∧ posed.Fails again report) →
        TurnFails again binding ⟨[], n, path, h⟩ report := by
    rintro (hOwn | ⟨posed, hPoses, hFails⟩)
    · exact Or.inl hOwn
    · exact TurnPoses.turnFails (.strategy hPoses) hFails
  have hOfDependency : ∀ c after, StrategyDepends again n path h binding.strategy c →
      c.answer again = some (.error report, after) → TurnFails again binding ⟨[], n, path, h⟩ report :=
    fun c after hDepends hAnswer => Or.inr (Or.inl ⟨c, after, .depends hDepends, hAnswer⟩)
  cases hStrategy : binding.strategy with
  | fixed value =>
    rw [hStrategy] at hRun
    cases hRun
  | linked target =>
    rw [hStrategy] at hRun hOfDependency
    exact hOfDependency _ h' .linked hRun
  | provided run =>
    rw [hStrategy] at hRun hOfCode
    refine hOfCode ((exists_of_runBody_error (hProvided run hStrategy n path) hRun).imp_right ?_)
    rintro ⟨posed, hPoses, hFails⟩
    exact ⟨posed, .provided hPoses, hFails⟩
  | constructed constructor =>
    rw [hStrategy] at hRun hOfCode hOfDependency
    rcases exists_of_constructed_error hAgain hW hA (hBuilt constructor hStrategy) hHooked hRun with
      ⟨c, after, hDepends, hAnswer⟩ | hCode
    · exact hOfDependency c after hDepends hAnswer
    · exact hOfCode hCode

/-- Layers fail when it is the turn of some of them, or of what is below all of them. -/
theorem exists_of_runLayers_error {layers : List Layer}
    (hFrank : ∀ provide, .around provide ∈ layers → ∀ n path, Frank (provide n path))
    (hRun : runLayers again binding.id (runStrategy again binding.key binding.strategy) layers n path h =
      some (.error report, h')) :
    ∃ turn, Turns again binding.id (runStrategy again binding.key binding.strategy) ⟨layers, n, path, h⟩ turn ∧
      (TurnFails again binding turn report ∨ ∃ m path state after, turn = ⟨[], m, path, state⟩ ∧
        runStrategy again binding.key binding.strategy m path state = some (.error report, after)) := by
  induction layers generalizing n path h h' with
  | nil => exact ⟨_, .here, Or.inr ⟨n, path, h, h', rfl, hRun⟩⟩
  | cons layer below ih =>
    replace ih := fun {m path s s'} => @ih m path s s' fun provide hMem => hFrank provide (List.mem_cons_of_mem _ hMem)
    cases layer with
    | once =>
      simp only [runLayers] at hRun
      split at hRun
      · cases hRun
      · next hNone =>
        split at hRun
        · cases hRun
        · next hInner =>
          cases hRun
          obtain ⟨turn, hTurns, hFails⟩ := ih hInner
          exact ⟨turn, .once hNone hTurns, hFails⟩
        · cases hRun
    | around provide =>
      have hOrigin := hFrank provide List.mem_cons_self n path _ n h h' report hRun
      rcases hOrigin with hOwn | ⟨⟨m, demand, s⟩, after, hPoses, hAnswer⟩
      · exact ⟨_, .here, Or.inl (Or.inl hOwn)⟩
      · rcases answer_error hAnswer with hOwn | hFails | ⟨-, path', ⟨⟩, hBelow⟩
        · exact ⟨_, .here, Or.inl (Or.inl hOwn)⟩
        · exact ⟨_, .here, Or.inl (TurnPoses.turnFails (.scope hPoses) hFails)⟩
        · obtain ⟨turn, hTurns, hFails⟩ := ih hBelow
          exact ⟨turn, .around hPoses hTurns, hFails⟩

/-- A binding that is provided fails at its place: by itself, or for the sake of a request, or of a demand. -/
theorem exists_of_runBinding_error (hW : h.WellFormed) (hA : Anchored h binding.owner)
    (hFrank : FrankBinding binding path h)
    (hRun : runBinding (obtain fuel) binding path h = some (.error report, h')) :
    ∃ inner turn, report = inner.within (.at binding.source) ∧ BindingTurns (obtain fuel) binding path h turn ∧
      TurnFails (obtain fuel) binding turn inner := by
  have hLive := hA.isLive hW
  have hAgain := stepwise_obtain fuel
  simp only [runBinding, hLive, if_true] at hRun
  obtain ⟨inner, hLayers, rfl⟩ := Run.within_eq_error_iff.mp hRun
  obtain ⟨turn, hTurns, hFails⟩ := exists_of_runLayers_error hFrank.layers hLayers
  have hReached : BindingTurns (obtain fuel) binding path h turn := ⟨hLive, hTurns⟩
  refine ⟨inner, turn, rfl, hReached, ?_⟩
  rcases hFails with hFails | ⟨m, path, state, after, rfl, hStrategy⟩
  · exact hFails
  · have hReady := (hReached.amid passage_excursion hAgain ⟨hW, hA⟩).kind
    exact turnFails_of_runStrategy hAgain hReady.1 hReady.2 hFrank.provided hFrank.built
      (hFrank.hooked fuel _ hReached) hStrategy

-- ---------------------------------------------------------------------------
-- The requests that led to a failure
-- ---------------------------------------------------------------------------

/-- The inquiry fails with the report for the sake of the last one, which fails with the other report. Each link is the
place of the binding that was being provided, and the key for which it asked. -/
inductive Led : Nat → Inquiry → Report → List Link → Inquiry → Report → Prop
  | here {fuel : Nat} {c : Inquiry} {report : Report} : Led fuel c report [] c report
  | deeper {fuel : Nat} {c c' last : Inquiry} {binding : Binding} {h' after : Hierarchy} {report told : Report}
      {links : List Link} (hOpens : c.Opens binding h')
      (hAsks : BindingAsks (obtain fuel) binding (c.path ++ [c.key]) h' c')
      (hAnswer : c'.answer (obtain fuel) = some (.error report, after)) (hRest : Led fuel c' report links last told) :
      Led (fuel + 1) c ((report.within (.at binding.source)).within (.locating c.key))
        (⟨binding.source, c'.key⟩ :: links) last told

/-- How an inquiry fails by itself, the place that is named for it, and the declarations that led on from its key. -/
inductive Breaks : Inquiry → Report → Option Source → List Link → Prop
  /-- The key is being provided already. -/
  | refused {c : Inquiry} (hOnPath : c.key ∈ c.path) :
      Breaks c ⟨.cycleDetected c.key (c.path ++ [c.key]), [.locating c.key]⟩ none []
  /-- The key cannot be resolved. -/
  | unresolved {c : Inquiry} {after : Hierarchy} {report : Report} {links : List Link} {missing : Key}
      {place : Option Source} (hFresh : c.key ∉ c.path)
      (hRun : c.state.resolve c.injector c.key = some (.error report, after))
      (hExplains : c.state.Explains c.injector c.key links missing place report after.user) :
      Breaks c (report.within (.locating c.key)) place links
  /-- The user code fails that provides the binding, and not for the sake of a request. -/
  | failed {fuel : Nat} {c : Inquiry} {binding : Binding} {h' after : Hierarchy} {report : Report}
      (hOpens : c.Opens binding h') (hOwn : report.trail = [])
      (hRun : runBinding (obtain fuel) binding (c.path ++ [c.key]) h' =
        some (.error (report.within (.at binding.source)), after)) :
      Breaks c ((report.within (.at binding.source)).within (.locating c.key)) (some binding.source) []
  /-- The user code that provides the binding is told that it cannot have a handle. -/
  | unhandled {fuel : Nat} {c : Inquiry} {binding : Binding} {h' after : Hierarchy} {role : Role} {posed : Posed role}
      {n : InjectorId} {key : Key} {report : Report} {links : List Link} {missing : Key} {place : Option Source}
      (hOpens : c.Opens binding h') (hPoses : BindingPoses (obtain fuel) binding (c.path ++ [c.key]) h' posed)
      (hDemand : posed.injector = n ∧ posed.demand = .getHandle key)
      (hRun : posed.state.resolve n key = some (.error report, after))
      (hExplains : posed.state.Explains n key links missing place report after.user) :
      Breaks c (((report.within (.locating key)).within (.at binding.source)).within (.locating c.key)) place
        (⟨binding.source, key⟩ :: links)
  /-- The user code that provides the binding is told that it cannot receive an instance. -/
  | unfit {fuel : Nat} {c : Inquiry} {binding : Binding} {h' after : Hierarchy} {role : Role} {posed : Posed role}
      {n : InjectorId} {key : Key} {interface : Interface} {value : Instance}
      (hOpens : c.Opens binding h') (hPoses : BindingPoses (obtain fuel) binding (c.path ++ [c.key]) h' posed)
      (hDemand : posed.injector = n ∧ posed.demand = .getAs key interface)
      (hValue : obtain fuel n key [] posed.state = some (.ok value, after))
      (hRefused : interface.admits value = false) :
      Breaks c ⟨.invalidInstance (.of interface.type) interface.type,
        [.locating key, .at binding.source, .locating c.key]⟩ none [⟨binding.source, key⟩]

/-- The requests that led to a failure, how the last of them fails, and the trail that tells of them. -/
def Traced (fuel : Nat) (c : Inquiry) (report : Report) : Prop :=
  ∃ requests last told place declared, Led fuel c report requests last told ∧ Breaks last told place declared ∧
    report.trail = place.toList.map Frame.at ++ Link.frames (requests ++ declared) ++ [.locating c.key]

/-- The request at which a failure ends has its key at the end of its trail. -/
theorem Breaks.trail (hBreaks : Breaks c report place declared) :
    report.trail = place.toList.map Frame.at ++ Link.frames declared ++ [.locating c.key] := by
  cases hBreaks with
  | refused => rfl
  | unresolved hFresh hRun hExplains => rw [Report.within_trail, hExplains.trail]
  | failed hOpens hOwn hRun =>
    rw [Report.within_trail, Report.within_trail, hOwn]
    rfl
  | unhandled hOpens hPoses hDemand hRun hExplains =>
    simp only [Report.within_trail, hExplains.trail, Link.frames, List.append_assoc]
    rfl
  | unfit => rfl

/-- Each request on the way adds the place that asked and its own key. -/
theorem Led.trail {frames : List Frame} (hLed : Led fuel c report links last told)
    (hTold : told.trail = frames ++ [.locating last.key]) :
    report.trail = frames ++ Link.frames links ++ [.locating c.key] := by
  induction hLed with
  | here => rw [hTold, Link.frames, List.append_nil]
  | deeper hOpens hAsks hAnswer hRest ih =>
    simp only [Report.within_trail, ih hTold, Link.frames, List.append_assoc]
    rfl

theorem Led.traced (hLed : Led fuel c report links last told) (hBreaks : Breaks last told place declared) :
    Traced fuel c report := by
  refine ⟨links, last, told, place, declared, hLed, hBreaks, ?_⟩
  rw [hLed.trail hBreaks.trail, Link.frames_append, List.append_assoc (place.toList.map Frame.at)]

-- ---------------------------------------------------------------------------
-- Tracing requests
-- ---------------------------------------------------------------------------

/-- All that is provided in the course of the inquiry is frank. -/
def AllFrank (fuel : Nat) (c : Inquiry) : Prop :=
  ∀ bindings c' binding h', Nested fuel c bindings c' → c'.Opens binding h' →
    FrankBinding binding (c'.path ++ [c'.key]) h'

/-- A request that fails is traced, by induction on how deeply requests are nested in it. -/
theorem traced_obtain (hW : c.state.WellFormed) (hA : Anchored c.state c.injector) (hFrank : AllFrank fuel c)
    (hRun : c.answer (obtain fuel) = some (.error report, h')) : Traced fuel c report := by
  induction fuel generalizing c report h' with
  | zero => cases hRun
  | succ fuel ih =>
    by_cases hOnPath : c.key ∈ c.path
    · rw [Inquiry.answer_of_mem fuel hOnPath] at hRun
      cases hRun
      exact Led.here.traced (.refused hOnPath)
    rw [Inquiry.answer, obtain_eq fuel hOnPath] at hRun
    obtain ⟨inner, hInner, rfl⟩ := Run.within_eq_error_iff.mp hRun
    rcases Run.bind_eq_error_iff.mp hInner with hResolve | ⟨binding, h₁, hResolve, hBinding⟩
    · obtain ⟨links, missing, place, hExplains⟩ := explained_resolve hW (hA.isLive hW) hResolve
      exact Led.here.traced (.unresolved hOnPath hResolve hExplains)
    have hOpens : c.Opens binding h₁ := ⟨hOnPath, hResolve⟩
    obtain ⟨hE, hOwner⟩ := hOpens.owner hW hA
    have hW₁ := hE.wellFormed hW
    obtain ⟨own, turn, rfl, hTurns, hReason⟩ := exists_of_runBinding_error hW₁ hOwner
      (hFrank [] c binding h₁ .here hOpens) hBinding
    rcases hReason with hOwn | ⟨c', after, hAsks, hAnswer⟩ | ⟨role, posed, hPoses, hMisses⟩
    · exact Led.here.traced (.failed hOpens hOwn hBinding)
    · have hAsked : BindingAsks (obtain fuel) binding (c.path ++ [c.key]) h₁ c' := ⟨turn, hTurns, hAsks⟩
      obtain ⟨hE', hA'⟩ := hAsked.excursion (stepwise_obtain fuel) hW₁ hOwner
      have hFrank' : AllFrank fuel c' := fun bindings c'' other h'' hNested =>
        hFrank (binding :: bindings) c'' other h'' (.deeper hOpens hAsked hNested)
      obtain ⟨requests, last, told, place, declared, hLed, hBreaks, -⟩ := ih (hE'.wellFormed hW₁) hA' hFrank' hAnswer
      exact (Led.deeper hOpens hAsked hAnswer hLed).traced hBreaks
    · have hTurn := (hTurns.amid passage_excursion (stepwise_obtain fuel) ⟨hW₁, hOwner⟩).kind
      have hReady := (hPoses.amid passage_excursion (stepwise_obtain fuel) hTurn).kind
      have hPosed : BindingPoses (obtain fuel) binding (c.path ++ [c.key]) h₁ posed := ⟨turn, hTurns, hPoses⟩
      cases hMisses with
      | handle hMissing =>
        obtain ⟨links, missing, place, hExplains⟩ := explained_resolve hReady.1 (hReady.2.isLive hReady.1) hMissing
        exact Led.here.traced (.unhandled hOpens hPosed ⟨rfl, rfl⟩ hMissing hExplains)
      | misfit hValue hRefused =>
        exact Led.here.traced (.unfit hOpens hPosed ⟨rfl, rfl⟩ hValue hRefused)

/-- In every reachable state, let user code put no frames on a trail itself, as far as it runs for a request at an
injector that is live for the sake of one that is held.

* If an instance cannot be had, the trail ends with the key that was asked for. From the outside inwards it names the
  keys that were requested in turn, each for the sake of the one before, and between two of them nothing but the place
  of the binding that asked. If the last of them cannot be resolved, the keys follow in the same way that are declared
  one for the sake of the other, down to the one that is missing. One place more may be named, for the problem itself.
* If an instance is not what it is asked to be, the trail is the key alone.
* If there is no handle to be had, the trail tells in the same way why the key cannot be resolved. -/
theorem trail_is_request_chain (hReach : Reachable h) (hAnchored : Anchored h n)
    (hFrank : AllFrank fuel ⟨n, key, [], h⟩) :
    (∀ report h', getInstance fuel n key h = some (.error report, h') → Traced fuel ⟨n, key, [], h⟩ report) ∧
    (∀ interface report h', getAs fuel n key interface h = some (.error report, h') →
      Traced fuel ⟨n, key, [], h⟩ report ∨
        ∃ value, getInstance fuel n key h = some (.ok value, h') ∧ interface.admits value = false ∧
          report = ⟨.invalidInstance (.of interface.type) interface.type, [.locating key]⟩) ∧
    ∀ interface report h', getHandle n key interface h = some (.error report, h') →
      ∃ place declared, Breaks ⟨n, key, [], h⟩ report place declared ∧
        report.trail = place.toList.map Frame.at ++ Link.frames declared ++ [.locating key] := by
  have hW := hReach.wellFormed
  have hInstance : ∀ report h', getInstance fuel n key h = some (.error report, h') →
      Traced fuel ⟨n, key, [], h⟩ report := fun report h' hRun =>
    traced_obtain (c := ⟨n, key, [], h⟩) hW hAnchored hFrank hRun
  refine ⟨hInstance, fun interface report h' hRun => ?_, fun interface report h' hRun => ?_⟩
  · rcases Run.bind_eq_error_iff.mp hRun with hNone | ⟨value, h₁, hValue, hRecover⟩
    · exact Or.inl (hInstance report h' hNone)
    · obtain ⟨inner, hInner, rfl⟩ := Run.within_eq_error_iff.mp hRecover
      obtain ⟨hEq, rfl⟩ := Prod.mk.inj (Option.some.inj hInner)
      obtain ⟨hRefused, rfl⟩ := Interface.recover_eq_error hEq
      exact Or.inr ⟨value, hValue, hRefused, rfl⟩
  · rcases Run.bind_eq_error_iff.mp hRun with hWithin | ⟨binding, h₁, -, hPure⟩
    · obtain ⟨inner, hResolve, rfl⟩ := Run.within_eq_error_iff.mp hWithin
      obtain ⟨links, missing, place, hExplains⟩ := explained_resolve hW (hAnchored.isLive hW) hResolve
      have hBreaks : Breaks ⟨n, key, [], h⟩ (inner.within (.locating key)) place links :=
        .unresolved List.not_mem_nil hResolve hExplains
      exact ⟨place, links, hBreaks, hBreaks.trail⟩
    · cases hPure

/-- A root that provides `A` by asking for `B`, and declares that `B` is linked to `C`. -/
def errand : Hierarchy :=
  let a := Key.of ⟨10, "A"⟩
  let b := Key.of ⟨11, "B"⟩
  let c := Key.of ⟨12, "C"⟩
  (Hierarchy.create none
    ⟨[⟨a, .provided fun n _ => .ask n (.get b) .finish, none, .type "A"⟩], [⟨b, .linked c, none, .type "B"⟩], [], [], []⟩
    false {}).2

theorem reachable_errand : Reachable errand :=
  .single (.create fun _ hp => nomatch hp)

/-- All that is ever provided for `A` is `A` itself, and what it fails with is what it was told. -/
theorem allFrank_errand : AllFrank 2 ⟨0, .of ⟨10, "A"⟩, [], errand⟩ := by
  let asking : InjectorId → List Key → Program .body := fun n _ => .ask n (.get (.of ⟨11, "B"⟩)) .finish
  have hProvided : ∀ binding h', Inquiry.Opens ⟨0, .of ⟨10, "A"⟩, [], errand⟩ binding h' →
      binding = ⟨0, .of ⟨10, "A"⟩, .provided asking, none, .type "A", .explicit, 0, []⟩ ∧ h' = errand := by
    intro binding h' hOpens
    have hResolved := hOpens.resolved
    rw [resolve_of_lookup rfl] at hResolved
    cases hResolved
    exact ⟨rfl, rfl⟩
  have hMissing : ∀ binding h', ¬Inquiry.Opens ⟨0, .of ⟨11, "B"⟩, [], errand⟩ binding h' := by
    intro binding h' hOpens
    have hNone : (errand.resolve 0 (.of ⟨11, "B"⟩)).map (·.1.toBool) = some false := by decide +kernel
    rw [hOpens.resolved] at hNone
    cases hNone
  intro bindings c' binding h' hNested hOpens
  cases hNested with
  | here =>
    obtain ⟨rfl, rfl⟩ := hProvided binding h' hOpens
    refine ⟨by rintro _ ⟨⟩, ?_, by rintro _ ⟨⟩, ?_⟩
    · rintro _ ⟨⟩ n path answers m
      exact passesOn_ask (fun _ => rfl) fun _ => passesOn_finish fun _ hNo => nomatch hNo
    · rintro fuel turn ⟨-, hTurns⟩
      cases hTurns
      rintro _ ⟨⟩
  | deeper hFirst hAsks hNested =>
    obtain ⟨rfl, rfl⟩ := hProvided _ _ hFirst
    obtain ⟨turn, ⟨-, hTurns⟩, hAsks⟩ := hAsks
    cases hTurns
    rcases hAsks with hDepends | ⟨hPoses, hRequests⟩
    · cases hDepends
    rcases hPoses with ⟨⟨hPoses⟩⟩ | _
    cases hPoses with
    | now =>
      cases hRequests
      cases hNested with
      | here => exact absurd hOpens (hMissing binding h')
      | deeper hSecond => exact absurd hSecond (hMissing _ _)
    | later _ hLater => cases hLater

/-- The program asked for `B`, and `B` would have needed `C`. -/
theorem trail_is_request_chain_in_errand :
    let a := Key.of ⟨10, "A"⟩
    let b := Key.of ⟨11, "B"⟩
    let c := Key.of ⟨12, "C"⟩
    Reachable errand ∧ Anchored errand 0 ∧ AllFrank 2 ⟨0, a, [], errand⟩ ∧
      ∃ report h', getInstance 2 0 a errand = some (.error report, h') ∧
        report = ⟨.unresolvableDependency c,
          [.locating c, .at (.type "B"), .locating b, .at (.type "A"), .locating a]⟩ ∧
        Traced 2 ⟨0, a, [], errand⟩ report := by
  intro a b c
  have hAnchored : Anchored errand 0 := anchored_of_mem_holds (by decide)
  obtain ⟨report, hRun⟩ := Run.exists_error_after (x := getInstance 2 0 a) (s := errand) (by decide +kernel)
  have hTold : (getInstance 2 0 a errand).map (fun result => result.1.map fun _ => ()) = some (.error
      ⟨.unresolvableDependency c,
        [.locating c, .at (.type "B"), .locating b, .at (.type "A"), .locating a]⟩) := by
    decide +kernel
  rw [hRun, Option.map_some, Option.some.injEq, Except.map, Except.error.injEq] at hTold
  exact ⟨reachable_errand, hAnchored, allFrank_errand, report, _, hRun, hTold,
    (trail_is_request_chain reachable_errand hAnchored allFrank_errand).1 report _ hRun⟩

/-- Provides `A` by asking for `B`, and fails in its own words if it is told that there is none. -/
def evading : Strategy :=
  .fallible ⟨10, "A"⟩ fun n done =>
    .ask n (.get (.of ⟨11, "B"⟩)) fun
      | .ok value => done (.ok value)
      | .error report => done (.error report.requestText)

/-- A root that provides `A` in this way, and knows nothing of `B`. -/
def evasion : Hierarchy :=
  (Hierarchy.create none ⟨[⟨.of ⟨10, "A"⟩, evading, none, .type "A"⟩], [], [], [], []⟩ false {}).2

/-- The program fails since `B` was requested and could not be had, but the trail names `A` only. -/
theorem trail_without_request :
    let a := Key.of ⟨10, "A"⟩
    let b := Key.of ⟨11, "B"⟩
    Reachable evasion ∧ Anchored evasion 0 ∧
      ∃ binding c told after report h', Inquiry.Opens ⟨0, a, [], evasion⟩ binding evasion ∧
        BindingAsks (obtain 1) binding [a] evasion c ∧ c.key = b ∧ c.answer (obtain 1) = some (.error told, after) ∧
        getInstance 2 0 a evasion = some (.error report, h') ∧
        report = ⟨.constructionFailed a told.requestText, [.at (.type "A"), .locating a]⟩ := by
  intro a b
  obtain ⟨told, hTold⟩ := Run.exists_error_after (x := obtain 1 0 b []) (s := evasion) (by decide +kernel)
  obtain ⟨report, hReport⟩ := Run.exists_error_after (x := getInstance 2 0 a) (s := evasion) (by decide +kernel)
  have hWords : (obtain 1 0 b [] evasion).map (fun result => result.1.map fun _ => ()) = some (.error
      ⟨.unresolvableDependency b, [.locating b]⟩) := by
    decide +kernel
  have hOutcome : (getInstance 2 0 a evasion).map (fun result => result.1.map fun _ => ()) = some (.error
      ⟨.constructionFailed a (Report.requestText ⟨.unresolvableDependency b, [.locating b]⟩),
        [.at (.type "A"), .locating a]⟩) := by
    decide +kernel
  rw [hTold, Option.map_some, Option.some.injEq, Except.map, Except.error.injEq] at hWords
  rw [hReport, Option.map_some, Option.some.injEq, Except.map, Except.error.injEq] at hOutcome
  have hOpens : Inquiry.Opens ⟨0, a, [], evasion⟩ ⟨0, a, evading, none, .type "A", .explicit, 0, []⟩ evasion :=
    ⟨List.not_mem_nil, resolve_of_lookup rfl⟩
  refine ⟨.single (.create fun _ hp => nomatch hp), anchored_of_mem_holds (by decide), _, ⟨0, b, [], evasion⟩, told, _,
    report, _, hOpens, ?_, rfl, hTold, hReport, hWords ▸ hOutcome⟩
  exact ⟨⟨[], 0, [a], evasion⟩, ⟨by decide, .here⟩, .posed (.strategy (.provided .now)) .get⟩

end Provision

end InjectorTree
