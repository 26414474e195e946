import InjectorTree.Proofs.Journal.Making
import InjectorTree.Proofs.Provision

/-!
# Requests with notes

A request goes down from layer to layer, from binding to binding, and into user code and back. Its notes tell which
bindings it came to and what these provided, whose strategies were turned to, and what user code was called on the way.

* `Provision.obtainNoted`, and what it is put together from: requests with notes.
* `Provision.tells_obtainNoted`, `Hierarchy.tells_getFromNoted` and the like: requests with notes are the requests.
-/

namespace InjectorTree

open Run

namespace Provision

-- ---------------------------------------------------------------------------
-- Requests with notes
-- ---------------------------------------------------------------------------

/-- A request in turn, with notes. -/
abbrev AgainNoted := InjectorId → Key → List Key → Run (Hierarchy × Journal) Instance

/-- A provider of instances, with notes. -/
abbrev ProviderNoted := InjectorId → List Key → Run (Hierarchy × Journal) Instance

/-- What demands on injectors come to, with notes. -/
abbrev AnswersNoted (role : Role) := InjectorId → (demand : Demand role) → Run (Hierarchy × Journal) demand.Reply

/-- A request of user code. -/
def askNoted (again : AgainNoted) (n : InjectorId) (key : Key) : Run (Hierarchy × Journal) Instance := do
  note (.asked key)
  again n key []

/-- `answer` with notes of what is asked for. -/
def answerNoted (again : AgainNoted) {role : Role} (below : role = .scope → ProviderNoted) : AnswersNoted role
  | n, .get key => askNoted again n key
  | n, .getAs key interface => do
    let value ← askNoted again n key
    within (.locating key) (.ofExcept (interface.recover value))
  | n, .getHandle key => do
    let _ ← within (.locating key) (Hierarchy.resolveNoted n key)
    return ()
  | n, .getFrom key interface => do
    let value ← askNoted again n key
    .ofExcept (interface.recover value)
  | n, .below path => below rfl n path

/-- `bodyAnswers` with notes. -/
def bodyAnswersNoted (again : AgainNoted) : AnswersNoted .body :=
  answerNoted again fun hRole => nomatch hRole

/-- `scopeAnswers` with notes, for a program that was given the path. -/
def scopeAnswersNoted (again : AgainNoted) (below : ProviderNoted) (path : List Key) : AnswersNoted .scope :=
  answerNoted again fun _ n path' =>
    if path' = path then below n path' else do
      note (.strayed path')
      below n path'

/-- `runProgram` with notes of what is made. -/
def runProgramNoted : {role : Role} → AnswersNoted role → Program role → InjectorId → Run (Hierarchy × Journal) Instance
  | _, _, .finish outcome, _ => .ofExcept outcome
  | _, answers, .act update next, n => fun s =>
    runProgramNoted answers (next s.1.user) n ({ s.1 with user := update s.1.user }, s.2)
  | _, answers, .ask m demand next, n => fun s =>
    match answers (s.1.reach n m) demand s with
    | none => none
    | some (outcome, s) => runProgramNoted answers (next outcome) n s
  | _, answers, .visit module explicitOnly inside keeps next, n => fun s =>
    match Hierarchy.createNoted (some n) module explicitOnly s with
    | (.error reports, s) => runProgramNoted answers (next (.error reports)) n s
    | (.ok child, s) =>
      match runProgramNoted answers (inside child) child s with
      | none => none
      | some (outcome, s) =>
        runProgramNoted answers (next (.ok outcome)) n (if keeps outcome then s else (s.1.release child, s.2))

/-- `runBody` with notes. -/
def runBodyNoted (again : AgainNoted) : Program .body → InjectorId → Run (Hierarchy × Journal) Instance :=
  runProgramNoted (bodyAnswersNoted again)

/-- `runHooks` with notes of the hooks that are called, for the binding. -/
def runHooksNoted (again : AgainNoted) (binding : Binding) (n : InjectorId) :
    List Hook → Instance → Run (Hierarchy × Journal) Instance
  | [], value => pure value
  | hook :: hooks, value =>
    if hook.applies binding.key then do
      let value ← noting (fun outcome => .did (.hooked binding hook value outcome))
        (runBodyNoted again (hook.intercept binding.key value) n)
      runHooksNoted again binding n hooks value
    else runHooksNoted again binding n hooks value

/-- `runStrategy` with notes of the arguments that are asked for, and of the constructor that is called, for the
binding. -/
def runStrategyNoted (again : AgainNoted) (binding : Binding) : ProviderNoted := fun n path =>
  match binding.strategy with
  | .fixed value => pure value
  | .linked target => again n target path
  | .provided run => runBodyNoted again (run n path) n
  | .constructed constructor => do
    let arguments ← forEach
      (fun dependency =>
        noting (fun outcome => .did (.supplied binding dependency outcome)) (again n dependency path))
      constructor.dependencies
    let value ← noting (fun outcome => .did (.built binding arguments outcome))
      (runBodyNoted again (constructor.build arguments) n)
    let h ← quietly Run.get
    runHooksNoted again binding n (h.hooks n) value

/-- `runLayers` with the notes that are made below the layers. -/
def runLayersNoted (again : AgainNoted) (number : BindingId) (base : ProviderNoted) : List Layer → ProviderNoted
  | [], n, path => base n path
  | .around provide :: below, n, path =>
    runProgramNoted (scopeAnswersNoted again (runLayersNoted again number base below) path) (provide n path) n
  | .once :: below, n, path => fun s =>
    match s.1.kept.get? (number, below.length) with
    | some value => some (.ok value, s)
    | none =>
      match runLayersNoted again number base below n path s with
      | none => none
      | some (.error report, s) => some (.error report, s)
      | some (.ok value, h, journal) =>
        some (.ok value, { h with kept := h.kept.insert (number, below.length) value }, journal)

/-- What is below all layers of a binding, with notes of when it is at work. -/
def runBaseNoted (again : AgainNoted) (binding : Binding) : ProviderNoted := fun n path => do
  note (.began binding.id)
  noting (.ended binding.id) (runStrategyNoted again binding n path)

/-- `runBinding` with notes of what it provides. -/
def runBindingNoted (again : AgainNoted) (binding : Binding) (path : List Key) :
    Run (Hierarchy × Journal) Instance := do
  note (.reached binding.id)
  noting (.answered binding.id) fun s =>
    if s.1.isLive binding.owner then
      within (.at binding.source)
        (runLayersNoted again binding.id (runBaseNoted again binding) binding.layers binding.owner path) s
    else some (.error (.constructionFailed binding.key "the declaring injector was dropped"), s)

/-- `request` with notes. -/
def requestNoted (again : AgainNoted) (n : InjectorId) (key : Key) (path : List Key) :
    Run (Hierarchy × Journal) Instance :=
  within (.locating key) do
    let path ← .ofExcept (extendPath path key)
    let binding ← Hierarchy.resolveNoted n key
    runBindingNoted again binding path

/-- `obtain` with notes. -/
def obtainNoted : Nat → AgainNoted
  | 0, _, _, _ => exhausted
  | fuel + 1, n, key, path => requestNoted (obtainNoted fuel) n key path

-- ---------------------------------------------------------------------------
-- How programs go on
-- ---------------------------------------------------------------------------

section Programs

variable {role : Role} {answers : AnswersNoted role} {n m child : InjectorId} {s s₁ : Hierarchy × Journal}
  {module : Module} {explicitOnly : Bool} {inside : InjectorId → Program role} {keeps : Except Report Instance → Bool}
  {next : Except (List Report) (Except Report Instance) → Program role}
  {r : Except Report Instance × Hierarchy × Journal}

/-- `exists_of_runProgram_ask` with notes. -/
theorem exists_of_runProgramNoted_ask {demand : Demand role} {next : Except Report demand.Reply → Program role}
    (hRun : runProgramNoted answers (.ask m demand next) n s = some r) :
    ∃ reply s₁, answers (s.1.reach n m) demand s = some (reply, s₁) ∧
      runProgramNoted answers (next reply) n s₁ = some r := by
  simp only [runProgramNoted] at hRun
  split at hRun
  · cases hRun
  · next reply s₁ hAnswer => exact ⟨reply, s₁, hAnswer, hRun⟩

/-- `runProgram_refused` with notes. -/
theorem runProgramNoted_refused {reports : List Report}
    (hRefused : Hierarchy.createNoted (some n) module explicitOnly s = (.error reports, s₁)) :
    runProgramNoted answers (.visit module explicitOnly inside keeps next) n s =
      runProgramNoted answers (next (.error reports)) n s₁ := by
  simp only [runProgramNoted, hRefused]

/-- `exists_of_runProgram_opened` with notes. -/
theorem exists_of_runProgramNoted_opened
    (hCreated : Hierarchy.createNoted (some n) module explicitOnly s = (.ok child, s₁))
    (hRun : runProgramNoted answers (.visit module explicitOnly inside keeps next) n s = some r) :
    ∃ outcome s₂, runProgramNoted answers (inside child) child s₁ = some (outcome, s₂) ∧
      runProgramNoted answers (next (.ok outcome)) n (if keeps outcome then s₂ else (s₂.1.release child, s₂.2)) =
        some r := by
  simp only [runProgramNoted, hCreated] at hRun
  split at hRun
  · cases hRun
  · next outcome s₂ hInside => exact ⟨outcome, s₂, hInside, hRun⟩

end Programs

-- ---------------------------------------------------------------------------
-- They are the requests
-- ---------------------------------------------------------------------------

section Telling

/-- Programs, by recursion on the tree that each of them is. -/
theorem tells_runProgramNoted : ∀ {role : Role} {answers : Answers role} {answersNoted : AnswersNoted role},
    (∀ n demand, Tells (answersNoted n demand) (answers n demand)) →
      ∀ (program : Program role) (n : InjectorId),
        Tells (runProgramNoted answersNoted program n) (runProgram answers program n)
  | _, _, _, _, .finish outcome, _ => tells_ofExcept outcome
  | _, _, _, hAnswers, .act update next, n => fun h journal =>
    tells_runProgramNoted hAnswers (next h.user) n { h with user := update h.user } journal
  | _, _, _, hAnswers, .ask m demand next, n => by
    intro h journal
    simp only [runProgram, runProgramNoted]
    rcases (hAnswers (h.reach n m) demand).cases (h, journal) with ⟨hPlain, hNoted⟩ | ⟨outcome, s, hPlain, hNoted⟩
    · simp only [hPlain, hNoted]
      exact .endless
    · simp only [hPlain, hNoted]
      exact tells_runProgramNoted hAnswers (next outcome) n s.1 s.2
  | _, _, _, hAnswers, .visit module explicitOnly inside keeps next, n => by
    intro h journal
    simp only [runProgram, runProgramNoted]
    rcases hNoted : Hierarchy.createNoted (some n) module explicitOnly (h, journal) with ⟨reports | child, s₁⟩
    · simp only [Hierarchy.create_of_noted hNoted]
      exact tells_runProgramNoted hAnswers (next (.error reports)) n s₁.1 s₁.2
    · simp only [Hierarchy.create_of_noted hNoted]
      rcases (tells_runProgramNoted hAnswers (inside child) child).cases s₁ with
        ⟨hPlain, hInside⟩ | ⟨outcome, s₂, hPlain, hInside⟩
      · simp only [hPlain, hInside]
        exact .endless
      · simp only [hPlain, hInside]
        split
        · exact tells_runProgramNoted hAnswers (next (.ok outcome)) n s₂.1 s₂.2
        · exact tells_runProgramNoted hAnswers (next (.ok outcome)) n (s₂.1.release child) s₂.2

variable {again : Again} {againNoted : AgainNoted}
  (hAgain : ∀ n key path, Tells (againNoted n key path) (again n key path))
include hAgain

theorem tells_answerNoted {role : Role} {below : role = .scope → Provider} {belowNoted : role = .scope → ProviderNoted}
    (hBelow : ∀ hRole n path, Tells (belowNoted hRole n path) (below hRole n path)) (n : InjectorId)
    (demand : Demand role) : Tells (answerNoted againNoted belowNoted n demand) (answer again below n demand) := by
  have hAsk : ∀ key, Tells (askNoted againNoted n key) (again n key []) := fun key => (hAgain n key []).noted _
  cases demand with
  | get key => exact hAsk key
  | getAs key interface => exact (hAsk key).bind fun value => (tells_ofExcept _).within _
  | getHandle key => exact ((Hierarchy.tells_resolveNoted n key).within _).bind fun _ => tells_pure ()
  | getFrom key interface => exact (hAsk key).bind fun value => tells_ofExcept _
  | below path => exact hBelow rfl n path

theorem tells_runBodyNoted (program : Program .body) (n : InjectorId) :
    Tells (runBodyNoted againNoted program n) (runBody again program n) :=
  tells_runProgramNoted (tells_answerNoted hAgain (by rintro ⟨⟩)) program n

/-- Whoever hands on another path is told of. -/
theorem tells_scopeAnswersNoted {below : Provider} {belowNoted : ProviderNoted}
    (hBelow : ∀ n path, Tells (belowNoted n path) (below n path)) (path : List Key) (n : InjectorId)
    (demand : Demand .scope) :
    Tells (scopeAnswersNoted againNoted belowNoted path n demand) (scopeAnswers again below n demand) := by
  refine tells_answerNoted hAgain (fun _ m path' => ?_) n demand
  split
  · exact hBelow m path'
  · exact (hBelow m path').noted _

theorem tells_runHooksNoted (binding : Binding) (n : InjectorId) (hooks : List Hook) (value : Instance) :
    Tells (runHooksNoted againNoted binding n hooks value) (runHooks again n binding.key hooks value) := by
  induction hooks generalizing value with
  | nil => exact tells_pure value
  | cons hook rest ih =>
    unfold runHooks runHooksNoted
    split
    · exact ((tells_runBodyNoted hAgain _ n).noting _).bind fun value => ih value
    · exact ih value

theorem tells_runStrategyNoted (binding : Binding) (n : InjectorId) (path : List Key) :
    Tells (runStrategyNoted againNoted binding n path) (runStrategy again binding.key binding.strategy n path) := by
  unfold runStrategyNoted runStrategy
  cases binding.strategy with
  | fixed value => exact tells_pure value
  | linked target => exact hAgain n target path
  | provided run => exact tells_runBodyNoted hAgain (run n path) n
  | constructed constructor =>
    refine (tells_forEach (fun dependency => (hAgain n dependency path).noting _) _).bind fun arguments => ?_
    refine ((tells_runBodyNoted hAgain _ n).noting _).bind fun value => ?_
    exact (tells_quietly Run.get).bind fun h => tells_runHooksNoted hAgain binding n (h.hooks n) value

theorem tells_runLayersNoted (number : BindingId) {base : Provider} {baseNoted : ProviderNoted}
    (hBase : ∀ n path, Tells (baseNoted n path) (base n path)) (layers : List Layer) (n : InjectorId) (path : List Key) :
    Tells (runLayersNoted againNoted number baseNoted layers n path) (runLayers again number base layers n path) := by
  induction layers generalizing n path with
  | nil => exact hBase n path
  | cons layer below ih =>
    cases layer with
    | around provide => exact tells_runProgramNoted (tells_scopeAnswersNoted hAgain ih path) (provide n path) n
    | once =>
      intro h journal
      simp only [runLayers, runLayersNoted]
      cases h.kept.get? (number, below.length) with
      | some value => exact .ok rfl rfl
      | none =>
        rcases (ih n path).cases (h, journal) with ⟨hPlain, hNoted⟩ | ⟨report | value, s, hPlain, hNoted⟩
        · simp only [hPlain, hNoted]
          exact .endless
        · simp only [hPlain, hNoted]
          exact .error rfl
        · simp only [hPlain, hNoted]
          exact .ok rfl rfl

theorem tells_runBindingNoted (binding : Binding) (path : List Key) :
    Tells (runBindingNoted againNoted binding path) (runBinding again binding path) := by
  refine Tells.noted (Tells.noting ?_ _) _
  intro h journal
  unfold runBinding
  dsimp only
  split
  · have hBase : ∀ n path, Tells (runBaseNoted againNoted binding n path)
        (runStrategy again binding.key binding.strategy n path) :=
      fun n path => ((tells_runStrategyNoted hAgain binding n path).noting _).noted _
    exact ((tells_runLayersNoted hAgain binding.id hBase binding.layers binding.owner path).within _) h journal
  · exact .error rfl

theorem tells_requestNoted (n : InjectorId) (key : Key) (path : List Key) :
    Tells (requestNoted againNoted n key path) (request again n key path) := by
  refine ((tells_ofExcept _).bind fun path => ?_).within _
  exact (Hierarchy.tells_resolveNoted n key).bind fun binding => tells_runBindingNoted hAgain binding path

end Telling

/-- A request with notes is the request. -/
theorem tells_obtainNoted (fuel : Nat) (n : InjectorId) (key : Key) (path : List Key) :
    Tells (obtainNoted fuel n key path) (obtain fuel n key path) := by
  induction fuel generalizing n key path with
  | zero => exact fun _ _ => .endless
  | succ fuel ih => exact tells_requestNoted ih n key path

end Provision

namespace Hierarchy

open Provision

/-- `getInstance` with notes. -/
def getInstanceNoted (fuel : Nat) (n : InjectorId) (key : Key) : Run (Hierarchy × Journal) Instance :=
  obtainNoted fuel n key []

/-- `getAs` with notes. -/
def getAsNoted (fuel : Nat) (n : InjectorId) (key : Key) (interface : Interface) :
    Run (Hierarchy × Journal) Instance := do
  let value ← getInstanceNoted fuel n key
  within (.locating key) (.ofExcept (interface.recover value))

/-- `getHandle` with notes. -/
def getHandleNoted (n : InjectorId) (key : Key) (interface : Interface) : Run (Hierarchy × Journal) Handle := do
  let binding ← within (.locating key) (resolveNoted n key)
  return { injector := n, binding, interface }

/-- `getFrom` with notes. -/
def getFromNoted (fuel : Nat) (handle : Handle) : Run (Hierarchy × Journal) Instance := do
  let key := handle.binding.key
  let path ← .ofExcept (extendPath [] key)
  let value ← within (.locating key) (runBindingNoted (obtainNoted fuel) handle.binding path)
  .ofExcept (handle.interface.recover value)

theorem tells_getInstanceNoted (fuel : Nat) (n : InjectorId) (key : Key) :
    Tells (getInstanceNoted fuel n key) (getInstance fuel n key) :=
  tells_obtainNoted fuel n key []

theorem tells_getAsNoted (fuel : Nat) (n : InjectorId) (key : Key) (interface : Interface) :
    Tells (getAsNoted fuel n key interface) (getAs fuel n key interface) :=
  (tells_getInstanceNoted fuel n key).bind fun value => (tells_ofExcept (interface.recover value)).within _

theorem tells_getHandleNoted (n : InjectorId) (key : Key) (interface : Interface) :
    Tells (getHandleNoted n key interface) (getHandle n key interface) :=
  ((tells_resolveNoted n key).within _).bind fun binding => tells_pure (⟨n, binding, interface⟩ : Handle)

theorem getHandleNoted_eq_ok_iff {n : InjectorId} {key : Key} {interface : Interface} {handle : Handle}
    {s s' : Hierarchy × Journal} :
    getHandleNoted n key interface s = some (.ok handle, s') ↔
      ∃ binding, resolveNoted n key s = some (.ok binding, s') ∧ handle = ⟨n, binding, interface⟩ := by
  unfold getHandleNoted
  rw [Run.bind_eq_ok_iff]
  constructor
  · rintro ⟨binding, s₁, hResolve, hPure⟩
    cases hPure
    exact ⟨binding, Run.within_eq_ok_iff.mp hResolve, rfl⟩
  · rintro ⟨binding, hResolve, rfl⟩
    exact ⟨binding, s', Run.within_eq_ok_iff.mpr hResolve, rfl⟩

theorem tells_getFromNoted (fuel : Nat) (handle : Handle) :
    Tells (getFromNoted fuel handle) (getFrom fuel handle) :=
  (tells_ofExcept _).bind fun path =>
    ((tells_runBindingNoted (tells_obtainNoted fuel) handle.binding path).within _).bind fun value =>
      tells_ofExcept (handle.interface.recover value)

end Hierarchy

end InjectorTree
