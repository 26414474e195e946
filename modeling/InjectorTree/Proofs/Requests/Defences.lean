import InjectorTree.Proofs.Handles
import InjectorTree.Proofs.Requests.Nesting
import InjectorTree.Proofs.Sessions

/-!
# Defences

Two things are checked in the course of a request that cannot be otherwise: that the injector which owns a binding is
still there when an instance is to be provided, and that a constructor is given an argument for each of its parameters.
What is reported if they are not is a defence. User code can report the same words by itself, so the words tell nothing;
but whatever stood in the place of a defence, all requests would come to the same.

* `Defence`: what is done in these two cases; `Defence.own`: what is done in fact.
* `getInstanceWith`, `getAsWith`, `getFromWith`: requests with other defences.
* `Agrees`: two runs do the same wherever an injector is anchored.
* `build_of_typed`: a constructor with interfaces for parameters misses none of its arguments.
* `agrees_in_sessions`, `defences_idle`: the defences of requests are never turned to.
-/

namespace InjectorTree

open Provision Hierarchy

-- ---------------------------------------------------------------------------
-- Requests with other defences
-- ---------------------------------------------------------------------------

/-- What to do about a binding whose owner is gone, and about a constructor and arguments that do not fit it. -/
structure Defence where
  dropped : Binding → Run Hierarchy Instance
  miscounted : Again → InjectorId → Constructor → List Instance → Run Hierarchy Instance

/-- What is done in fact: a failure is reported, or the constructor is called as it is. -/
def Defence.own : Defence where
  dropped := fun binding => .fail (.constructionFailed binding.key "the declaring injector was dropped")
  miscounted := fun again n constructor arguments => runBody again (constructor.build arguments) n

namespace Provision

/-- Provides an instance by a strategy, from an injector. A constructor is called if it has its number of arguments. -/
def runStrategyWith (d : Defence) (again : Again) (key : Key) (strategy : Strategy) (n : InjectorId) (path : List Key) :
    Run Hierarchy Instance :=
  match strategy with
  | .constructed constructor => do
    let arguments ← Run.forEach (fun dependency => again n dependency path) constructor.dependencies
    let value ←
      if arguments.length = constructor.dependencies.length then runBody again (constructor.build arguments) n
      else d.miscounted again n constructor arguments
    runHooks again n key ((← Run.get).hooks n) value
  | strategy => runStrategy again key strategy n path

/-- Provides an instance of a binding, from its owner, if that is live. -/
def runBindingWith (d : Defence) (again : Again) (binding : Binding) (path : List Key) : Run Hierarchy Instance :=
  fun h =>
    if h.isLive binding.owner then
      Run.within (.at binding.source)
        (runLayers again binding.id (runStrategyWith d again binding.key binding.strategy) binding.layers binding.owner
          path) h
    else d.dropped binding h

/-- One request. -/
def requestWith (d : Defence) (again : Again) (n : InjectorId) (key : Key) (path : List Key) : Run Hierarchy Instance :=
  Run.within (.locating key) do
    let path ← .ofExcept (extendPath path key)
    let binding ← Hierarchy.resolve n key
    runBindingWith d again binding path

/-- Requests nested at most as deeply as the fuel allows. -/
def obtainWith (d : Defence) : Nat → Again
  | 0, _, _, _ => Run.exhausted
  | fuel + 1, n, key, path => requestWith d (obtainWith d fuel) n key path

end Provision

namespace Hierarchy

/-- An instance of a key. -/
def getInstanceWith (d : Defence) (fuel : Nat) (n : InjectorId) (key : Key) : Run Hierarchy Instance :=
  obtainWith d fuel n key []

/-- An instance of a key, received through an interface. -/
def getAsWith (d : Defence) (fuel : Nat) (n : InjectorId) (key : Key) (interface : Interface) :
    Run Hierarchy Instance := do
  let value ← getInstanceWith d fuel n key
  Run.within (.locating key) (.ofExcept (interface.recover value))

/-- An instance of the binding behind a handle, received through the handle's interface. -/
def getFromWith (d : Defence) (fuel : Nat) (handle : Handle) : Run Hierarchy Instance := do
  let key := handle.binding.key
  let path ← .ofExcept (extendPath [] key)
  let value ← Run.within (.locating key) (runBindingWith d (obtainWith d fuel) handle.binding path)
  .ofExcept (handle.interface.recover value)

end Hierarchy

namespace Provision

variable {α β : Type} {h h' : Hierarchy} {n : InjectorId} {key : Key} {again again' : Again} {d : Defence}

theorem runStrategyWith_own (again : Again) (key : Key) (strategy : Strategy) :
    runStrategyWith .own again key strategy = runStrategy again key strategy := by
  funext n path
  cases strategy with
  | constructed constructor => simp only [runStrategyWith, runStrategy, Defence.own, ite_self]
  | fixed => rfl
  | linked => rfl
  | provided => rfl

theorem runBindingWith_own (again : Again) (binding : Binding) (path : List Key) :
    runBindingWith .own again binding path = runBinding again binding path := by
  funext h
  simp only [runBindingWith, runBinding, runStrategyWith_own]
  rfl

theorem obtainWith_own (fuel : Nat) : obtainWith .own fuel = obtain fuel := by
  induction fuel with
  | zero => rfl
  | succ fuel ih =>
    funext n key path
    simp only [obtainWith, obtain, requestWith, request, ih, runBindingWith_own]

/-- With the defences that there are in fact, requests are what they are. -/
theorem requests_own :
    getInstanceWith .own = getInstance ∧ getAsWith .own = getAs ∧ getFromWith .own = getFrom := by
  have hInstance : getInstanceWith .own = getInstance := by
    funext fuel n key
    rw [getInstanceWith, obtainWith_own, getInstance]
  refine ⟨hInstance, ?_, ?_⟩
  · funext fuel n key interface
    rw [getAsWith, hInstance, getAs]
  · funext fuel handle
    simp only [getFromWith, getFrom, obtainWith_own, runBindingWith_own]

-- ---------------------------------------------------------------------------
-- Runs that do the same
-- ---------------------------------------------------------------------------

/-- The runs do the same wherever the injector is anchored. -/
structure Agrees (n : InjectorId) (x y : Run Hierarchy α) : Prop where
  eq : ∀ {h : Hierarchy}, h.WellFormed → Anchored h n → x h = y h

theorem Agrees.refl (x : Run Hierarchy α) : Agrees n x x :=
  ⟨fun _ _ => rfl⟩

theorem Agrees.within {x y : Run Hierarchy α} (hxy : Agrees n x y) (frame : Frame) :
    Agrees n (.within frame x) (.within frame y) :=
  ⟨fun hW hA => by simp only [Run.within, hxy.eq hW hA]⟩

/-- What follows has to do the same only for what the second run can come to. -/
theorem Agrees.bind_of_ok {x y : Run Hierarchy α} {f g : α → Run Hierarchy β} (hxy : Agrees n x y) (hy : Stepwise n y)
    (hfg : ∀ {a h h'}, y h = some (.ok a, h') → Agrees n (f a) (g a)) : Agrees n (x >>= f) (y >>= g) := by
  refine ⟨fun {h} hW hA => ?_⟩
  rw [Run.bind_apply, Run.bind_apply, hxy.eq hW hA]
  rcases hEnd : y h with _ | ⟨report | a, h'⟩
  · rfl
  · rfl
  · have hE := hy.excursion hW hA hEnd
    exact (hfg hEnd).eq (hE.wellFormed hW) (hE.anchored hW hA)

theorem Agrees.bind {x y : Run Hierarchy α} {f g : α → Run Hierarchy β} (hxy : Agrees n x y) (hy : Stepwise n y)
    (hfg : ∀ a, Agrees n (f a) (g a)) : Agrees n (x >>= f) (y >>= g) :=
  hxy.bind_of_ok hy fun {a _ _} _ => hfg a

theorem agrees_forEach {f g : α → Run Hierarchy β} (hfg : ∀ a, Agrees n (f a) (g a)) (hg : ∀ a, Stepwise n (g a))
    (list : List α) : Agrees n (Run.forEach f list) (Run.forEach g list) := by
  induction list with
  | nil => exact .refl _
  | cons a rest ih => exact (hfg a).bind (hg a) fun b => ih.bind (stepwise_forEach hg rest) fun _ => .refl _

-- ---------------------------------------------------------------------------
-- The defences are idle
-- ---------------------------------------------------------------------------

/-- Programs do the same if their demands come to the same. -/
theorem agrees_runProgram : ∀ {role : Role} {answers answers' : Answers role},
    (∀ n demand, Agrees n (answers' n demand) (answers n demand)) → (∀ n demand, Stepwise n (answers n demand)) →
      ∀ (program : Program role) (n : InjectorId),
        Agrees n (runProgram answers' program n) (runProgram answers program n)
  | _, _, _, _, _, .finish outcome, n => .refl _
  | _, _, _, hAnswers, hSteps, .act update next, n => by
    refine ⟨fun {h} hW hA => ?_⟩
    have hAct := Excursion.act h (update h.user)
    exact (agrees_runProgram hAnswers hSteps (next h.user) n).eq (hAct.wellFormed hW) (hAct.anchored hW hA)
  | _, _, _, hAnswers, hSteps, .ask m demand next, n => by
    refine ⟨fun {h} hW hA => ?_⟩
    have hReach := passage_excursion.reach ⟨hW, hA⟩ m
    simp only [runProgram, (hAnswers (h.reach n m) demand).eq hW hReach.kind.2]
    split
    · rfl
    · next answer h₁ hAnswer =>
      have hE := hReach.back ((hSteps _ demand).excursion hW hReach.kind.2 hAnswer)
      exact (agrees_runProgram hAnswers hSteps (next answer) n).eq (hE.wellFormed hW) (hE.anchored hW hA)
  | _, _, _, hAnswers, hSteps, .visit module explicitOnly inside keeps next, n => by
    refine ⟨fun {h} hW hA => ?_⟩
    have hLive := hA.isLive_parent hW
    simp only [runProgram]
    rcases hCreate : h.create (some n) module explicitOnly with ⟨reports | child, h₁⟩
    · have hE := excursion_refused hW hLive hCreate
      exact (agrees_runProgram hAnswers hSteps _ n).eq (hE.wellFormed hW) (hE.anchored hW hA)
    · have hW₁ := wellFormed_created hW hLive hCreate
      have hA₁ := anchored_created hW hLive hCreate
      simp only [(agrees_runProgram hAnswers hSteps (inside child) child).eq hW₁ hA₁]
      split
      · rfl
      · next answer h₂ hInside =>
        have hInner := (stepwise_runProgram hSteps (inside child) child).excursion hW₁ hA₁ hInside
        have hE : Excursion h (if keeps answer then h₂ else h₂.release child) := by
          split
          · exact excursion_opened hW hLive hCreate hInner
          · exact excursion_visit hW hLive hCreate hInner
        exact (agrees_runProgram hAnswers hSteps _ n).eq (hE.wellFormed hW) (hE.anchored hW hA)

section Requests

variable (hAgain : ∀ n key path, Agrees n (again' n key path) (again n key path))
  (hSteps : ∀ n key path, Stepwise n (again n key path))
include hAgain hSteps

/-- What is demanded is asked for, or left to what is below. -/
theorem agrees_answer {role : Role} {below below' : role = .scope → Provider}
    (hBelow : ∀ hRole n path, Agrees n (below' hRole n path) (below hRole n path)) (n : InjectorId)
    (demand : Demand role) : Agrees n (answer again' below' n demand) (answer again below n demand) := by
  cases demand with
  | get key => exact hAgain n key []
  | getAs key interface => exact (hAgain n key []).bind (hSteps n key []) fun _ => .refl _
  | getHandle key => exact .refl _
  | getFrom key interface => exact (hAgain n key []).bind (hSteps n key []) fun _ => .refl _
  | below path => exact hBelow rfl n path

theorem agrees_runBody (program : Program .body) (n : InjectorId) :
    Agrees n (runBody again' program n) (runBody again program n) :=
  agrees_runProgram (agrees_answer hAgain hSteps (by rintro ⟨⟩)) (stepwise_answer hSteps (by rintro ⟨⟩)) program n

theorem agrees_runHooks (n : InjectorId) (key : Key) (hooks : List Hook) (value : Instance) :
    Agrees n (runHooks again' n key hooks value) (runHooks again n key hooks value) := by
  induction hooks generalizing value with
  | nil => exact .refl _
  | cons hook rest ih =>
    unfold runHooks
    split
    · exact (agrees_runBody hAgain hSteps _ n).bind (stepwise_runBody hSteps _ n) ih
    · exact ih value

/-- A constructor has one argument for each of its dependencies. -/
theorem agrees_runStrategyWith (d : Defence) (key : Key) (strategy : Strategy) (n : InjectorId) (path : List Key) :
    Agrees n (runStrategyWith d again' key strategy n path) (runStrategy again key strategy n path) := by
  cases strategy with
  | fixed value => exact .refl _
  | linked target => exact hAgain n target path
  | provided run => exact agrees_runBody hAgain hSteps (run n path) n
  | constructed constructor =>
    have hArguments := agrees_forEach (fun dependency => hAgain n dependency path)
      (fun dependency => hSteps n dependency path) constructor.dependencies
    refine hArguments.bind_of_ok (stepwise_forEach (fun dependency => hSteps n dependency path) _) ?_
    intro arguments h h' hSupplied
    have hCount : arguments.length = constructor.dependencies.length := Run.length_of_forEach hSupplied
    rw [if_pos hCount]
    refine (agrees_runBody hAgain hSteps _ n).bind (stepwise_runBody hSteps _ n) fun value => ⟨fun {h} hW hA => ?_⟩
    exact (agrees_runHooks hAgain hSteps n key (h.hooks n) value).eq hW hA

/-- Layers do the same if what is below all of them does. -/
theorem agrees_runLayers {number : BindingId} {base base' : Provider}
    (hBase : ∀ n path, Agrees n (base' n path) (base n path)) (hBaseSteps : ∀ n path, Stepwise n (base n path))
    (layers : List Layer) (n : InjectorId) (path : List Key) :
    Agrees n (runLayers again' number base' layers n path) (runLayers again number base layers n path) := by
  induction layers generalizing n path with
  | nil => exact hBase n path
  | cons layer below ih =>
    cases layer with
    | around provide =>
      have hBelow := stepwise_runLayers hSteps number hBaseSteps below
      exact agrees_runProgram (agrees_answer hAgain hSteps fun _ => ih) (stepwise_answer hSteps fun _ => hBelow)
        (provide n path) n
    | once => exact ⟨fun hW hA => by simp only [runLayers, (ih n path).eq hW hA]⟩

/-- The owner of a binding is there. -/
theorem agrees_runBindingWith (d : Defence) (binding : Binding) (path : List Key) :
    Agrees binding.owner (runBindingWith d again' binding path) (runBinding again binding path) := by
  refine ⟨fun {h} hW hA => ?_⟩
  simp only [runBindingWith, runBinding, hA.isLive hW, if_true]
  have hStrategy := agrees_runStrategyWith hAgain hSteps d binding.key binding.strategy
  have hStrategySteps := stepwise_runStrategy hSteps binding.key binding.strategy
  exact ((agrees_runLayers hAgain hSteps hStrategy hStrategySteps binding.layers _ path).within _).eq hW hA

theorem agrees_requestWith (d : Defence) (n : InjectorId) (key : Key) (path : List Key) :
    Agrees n (requestWith d again' n key path) (request again n key path) := by
  refine Agrees.within ((Agrees.refl _).bind (stepwise_ofExcept n _) fun path' => ⟨fun {h} hW hA => ?_⟩) _
  rw [Run.bind_apply, Run.bind_apply]
  rcases hResolve : Hierarchy.resolve n key h with _ | ⟨report | binding, h₁⟩
  · rfl
  · rfl
  · obtain ⟨hE, hOwner⟩ := excursion_resolve hW hA hResolve
    exact (agrees_runBindingWith hAgain hSteps d binding path').eq (hE.wellFormed hW) (hOwner binding rfl)

end Requests

/-- By induction on how deeply requests are nested. -/
theorem agrees_obtainWith (d : Defence) (fuel : Nat) :
    ∀ n key path, Agrees n (obtainWith d fuel n key path) (obtain fuel n key path) := by
  induction fuel with
  | zero => exact fun n key path => .refl _
  | succ fuel ih => exact agrees_requestWith ih (stepwise_obtain fuel) d

theorem agrees_getAsWith (d : Defence) (fuel : Nat) (n : InjectorId) (key : Key) (interface : Interface) :
    Agrees n (getAsWith d fuel n key interface) (getAs fuel n key interface) :=
  (agrees_obtainWith d fuel n key []).bind (stepwise_getInstance fuel n key) fun _ => .refl _

theorem agrees_getFromWith (d : Defence) (fuel : Nat) (handle : Handle) :
    Agrees handle.binding.owner (getFromWith d fuel handle) (getFrom fuel handle) := by
  have hBinding := agrees_runBindingWith (agrees_obtainWith d fuel) (stepwise_obtain fuel) d handle.binding
  have hSteps := stepwise_runBinding (stepwise_obtain fuel) handle.binding
  exact (Agrees.refl _).bind (stepwise_ofExcept _ _) fun path =>
    ((hBinding path).within _).bind ((hSteps path).within _) fun _ => .refl _

/-- In a session, none of the named injectors and none of the saved handles ever turns to a defence. -/
theorem agrees_in_sessions (d : Defence) (fuel : Nat) (steps : List Session.Step) :
    let session := ({} : Session).after steps
    (∀ name n key, session.names.get? name = some n →
      getInstanceWith d fuel n key session.hierarchy = getInstance fuel n key session.hierarchy) ∧
    ∀ name handle, session.handles.get? name = some handle →
      getFromWith d fuel handle session.hierarchy = getFrom fuel handle session.hierarchy := by
  intro session
  have hBacked : session.Backed := Session.backed_from_start steps
  have hW := hBacked.wellFormed
  refine ⟨fun name n key hName => ?_, fun name handle hHandle => ?_⟩
  · exact (agrees_obtainWith d fuel n key []).eq hW (anchored_of_mem_holds (hBacked.held_of_name hName))
  · have hMem := Table.mem_values_of_get? hHandle
    have hHeld := anchored_of_mem_holds (hBacked.held_of_handle hMem)
    exact (agrees_getFromWith d fuel handle).eq hW (hHeld.up hW (hBacked.owners handle hMem))

-- ---------------------------------------------------------------------------
-- Arguments
-- ---------------------------------------------------------------------------

/-- Where there are enough arguments, one of them cannot be received if there is a failure. -/
theorem error_of_receive {result : ServiceType} {parameters : List Interface} {arguments : List Instance}
    {report : Report} (hCount : arguments.length = parameters.length)
    (hError : Constructor.receive result parameters arguments = .error report) :
    ∃ parameter ∈ parameters, report = .of (.invalidInstance (.of parameter.type) parameter.type) := by
  induction parameters generalizing arguments with
  | nil => cases hError
  | cons parameter parameters ih =>
    cases arguments with
    | nil => cases hCount
    | cons argument arguments =>
      cases hAdmits : parameter.admits argument with
      | false =>
        rw [Constructor.receive, Interface.recover_of_not_admits hAdmits] at hError
        cases hError
        exact ⟨parameter, List.mem_cons_self, rfl⟩
      | true =>
        rw [Constructor.receive, Interface.recover_of_admits hAdmits] at hError
        cases hOthers : Constructor.receive result parameters arguments with
        | ok others =>
          rw [hOthers] at hError
          cases hError
        | error told =>
          rw [hOthers] at hError
          cases hError
          obtain ⟨other, hMem, hReport⟩ := ih (Nat.succ.inj hCount) hOthers
          exact ⟨other, List.mem_cons_of_mem parameter hMem, hReport⟩

/-- A constructor that receives its arguments through interfaces makes an instance of them, or fails for one of them that
is not what it is asked to be. -/
theorem build_of_typed {result : ServiceType} {parameters : List Interface} {make : List Instance → Program .body}
    {arguments : List Instance}
    (hCount : arguments.length = (Constructor.typed result parameters make).dependencies.length) :
    (∃ received, Constructor.receive result parameters arguments = .ok received ∧
        (Constructor.typed result parameters make).build arguments = make received) ∨
      ∃ parameter ∈ parameters, (Constructor.typed result parameters make).build arguments =
        .finish (.error (.of (.invalidInstance (.of parameter.type) parameter.type))) := by
  rw [Constructor.typed, List.length_map] at hCount
  simp only [Constructor.typed]
  split
  · next report hReceive =>
    obtain ⟨parameter, hMem, rfl⟩ := error_of_receive hCount hReceive
    exact Or.inr ⟨parameter, hMem, rfl⟩
  · next received hReceive => exact Or.inl ⟨received, hReceive, rfl⟩

-- ---------------------------------------------------------------------------
-- Requests
-- ---------------------------------------------------------------------------

/-- Whatever stood in the place of the defences, the requests of the injector would come to the same: for an instance,
as it is, or received through an interface, and with a handle that was requested before. -/
structure Idle (d : Defence) (n : InjectorId) (h : Hierarchy) : Prop where
  getInstance : ∀ fuel key, getInstanceWith d fuel n key h = getInstance fuel n key h
  getAs : ∀ fuel key interface, getAsWith d fuel n key interface h = getAs fuel n key interface h
  getFrom : ∀ fuel handle, Issued n handle h → getFromWith d fuel handle h = getFrom fuel handle h

/-- The defences are idle.

In every reachable state, take an injector that is live for the sake of one that is held.

* Whenever one of its requests comes to a binding, or another request does that is made in the course of it, the owner
  of the binding is live. So is the owner of the binding of each handle that was requested from the injector.
* Whatever stood in the place of the two defences, its requests would come to what they come to, which is the same
  outcome and the same state, or no end. What stands there in fact is a failure because the declaring injector was
  dropped, and a call of the constructor in spite of the number of its arguments.
* With the number of its arguments, a constructor that receives them through interfaces does not miss one. It makes an
  instance of them, unless one of them is not what it is asked to be.

`agrees_in_sessions` says so of the injectors and handles of every session. -/
theorem defences_idle (hReach : Reachable h) (hA : Anchored h n) :
    (∀ fuel key bindings c binding h', Nested fuel ⟨n, key, [], h⟩ bindings c → c.Opens binding h' →
      h'.isLive binding.owner = true) ∧
    (∀ handle, Issued n handle h → h.isLive handle.binding.owner = true) ∧
    (∀ d, Idle d n h) ∧
    (getInstanceWith .own = getInstance ∧ getAsWith .own = getAs ∧ getFromWith .own = getFrom) ∧
    ∀ result parameters make arguments,
      let constructor := Constructor.typed result parameters make
      arguments.length = constructor.dependencies.length →
        (∃ received, Constructor.receive result parameters arguments = .ok received ∧
            constructor.build arguments = make received) ∨
          ∃ parameter ∈ parameters, constructor.build arguments =
            .finish (.error (.of (.invalidInstance (.of parameter.type) parameter.type))) := by
  have hW := hReach.wellFormed
  have hOwner : ∀ handle, Issued n handle h → Anchored h handle.binding.owner := fun handle hIssued =>
    hA.up hW (hIssued.owner_mem_path hW (hA.isLive hW))
  refine ⟨fun fuel key bindings c binding h' hNested hOpens => ?_, fun handle hIssued => ?_, fun d => ⟨?_, ?_, ?_⟩,
    requests_own, fun result parameters make arguments => build_of_typed⟩
  · obtain ⟨hE, hAsker⟩ := hNested.anchored hW hA
    obtain ⟨hResolved, hOwned⟩ := hOpens.owner (hE.wellFormed hW) hAsker
    exact hOwned.isLive ((hE.trans hResolved).wellFormed hW)
  · exact (hOwner handle hIssued).isLive hW
  · exact fun fuel key => (agrees_obtainWith d fuel n key []).eq hW hA
  · exact fun fuel key interface => (agrees_getAsWith d fuel n key interface).eq hW hA
  · exact fun fuel handle hIssued => (agrees_getFromWith d fuel handle).eq hW (hOwner handle hIssued)

/-- A constructor of a `B` from an `A`. -/
def maker : Constructor :=
  .typed ⟨11, "B"⟩ [.concrete ⟨10, "A"⟩] fun _ =>
    .finish (.ok (.made 1 ⟨11, "B"⟩ (.primitive "b")))

/-- A root that makes a `B` from its `A` has two children. -/
def parental : Hierarchy :=
  let root := (create none
    ⟨[⟨.of ⟨10, "A"⟩, .fixed (.made 0 ⟨10, "A"⟩ (.primitive "a")), none, .builtin⟩,
        ⟨.of ⟨11, "B"⟩, .constructed maker, none, .builtin⟩], [], [], [], []⟩ false {}).2
  ((root.create (some 0) .empty false).2.create (some 0) .empty false).2

theorem reachable_parental : Reachable parental := by
  refine .tail (.tail (.single (.create ?_)) (.create ?_)) (.create ?_)
  · exact nofun
  · rintro p ⟨⟩
    rfl
  · rintro p ⟨⟩
    rfl

/-- The first child gets a handle to `B`. Then nobody holds the root any more, nor the second child, which is gone. For
the handle, the root is still there, and the constructor has its argument. Given another one, it refuses that. -/
theorem defences_idle_in_parental :
    let b := Key.of ⟨11, "B"⟩
    let h := (parental.release 0).release 2
    let idle : Defence := ⟨fun _ => .exhausted, fun _ _ _ _ => .exhausted⟩
    let wrong : List Instance := [.made 0 .text (.primitive "a")]
    Reachable h ∧ Anchored h 1 ∧ 0 ∉ h.holds ∧ h.isLive 0 = true ∧ h.isLive 2 = false ∧
      ∃ handle, Issued 1 handle h ∧ handle.binding.key = b ∧ handle.binding.owner = 0 ∧
        getFromWith idle 2 handle h = getFrom 2 handle h ∧ (getFrom 2 handle h).map (·.1.toBool) = some true ∧
        wrong.length = maker.dependencies.length ∧
        maker.build wrong = .finish (.error (.of (.invalidInstance (.of ⟨10, "A"⟩) ⟨10, "A"⟩))) := by
  intro b h idle wrong
  have hSteps : Steps parental h := .tail (.single (.release 0)) (.release 2)
  have hReach : Reachable h := reachable_parental.steps hSteps
  have hA : Anchored h 1 := anchored_of_mem_holds (by decide)
  obtain ⟨binding, hFound, hOwner, hKey⟩ : ∃ binding, parental.lookup 1 b = some binding ∧ binding.owner = 0 ∧
      binding.key = b := ⟨_, rfl, rfl, rfl⟩
  have hHandle : getHandle 1 b (.concrete b.type) parental = some (.ok ⟨1, binding, .concrete b.type⟩, parental) :=
    getHandle_eq_ok_iff.mpr ⟨binding, resolve_of_lookup hFound, rfl⟩
  have hIssued : Issued 1 ⟨1, binding, .concrete b.type⟩ h := .intro reachable_parental (by decide) hHandle hSteps
  obtain ⟨-, -, hIdle, -, hTyped⟩ := defences_idle hReach hA
  have hBuild : maker.build wrong = .finish (.error (.of (.invalidInstance (.of ⟨10, "A"⟩) ⟨10, "A"⟩))) := by
    rcases hTyped ⟨11, "B"⟩ [.concrete ⟨10, "A"⟩] _ wrong rfl with ⟨received, hReceive, -⟩ | ⟨parameter, hMem, hBuild⟩
    · cases hReceive
    · obtain rfl := List.mem_singleton.mp hMem
      exact hBuild
  have hSame := (hIdle idle).getFrom 2 _ hIssued
  refine ⟨hReach, hA, by decide, by decide, by decide, _, hIssued, hKey, hOwner, hSame, ?_, rfl, hBuild⟩
  rw [getFrom_of_resolve 2 (hIssued.resolve_eq (by decide))]
  simp only [hKey]
  decide +kernel

end Provision

end InjectorTree
