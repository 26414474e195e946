import InjectorTree.Proofs.Requests.Nesting

/-!
# Fuel

Requests are nested as deeply as the fuel allows. More fuel never changes how a request ends, and a request that ends
has asked for nothing that does not end with less.

* `Run.Below`: one run ends wherever another one does, in the same way.
* `obtain_mono`: so does a request with more fuel.
* `BindingAsks.mono`, `Nested.mono`: whatever comes up comes up with more fuel too.
* `BindingAsks.ends_of_run`: what a binding asks for ends where the binding is provided.
* `Nested.length_lt`: a request that ends is nested less deeply than its fuel allows.
-/

namespace InjectorTree

namespace Run

variable {σ α β : Type}

/-- Wherever the first run ends, the second one ends in the same way. -/
def Below (x y : Run σ α) : Prop :=
  ∀ s r, x s = some r → y s = some r

theorem Below.refl (x : Run σ α) : Below x x :=
  fun _ _ hRun => hRun

theorem Below.bind {x y : Run σ α} {f g : α → Run σ β} (hx : Below x y) (hf : ∀ a, Below (f a) (g a)) :
    Below (x >>= f) (y >>= g) := by
  intro s r hRun
  rcases bind_eq_some_iff.mp hRun with ⟨a, s', hFirst, hRest⟩ | ⟨report, s', hFirst, rfl⟩
  · exact bind_eq_some_iff.mpr (Or.inl ⟨a, s', hx s _ hFirst, hf a s' r hRest⟩)
  · exact bind_eq_some_iff.mpr (Or.inr ⟨report, s', hx s _ hFirst, rfl⟩)

theorem Below.within {x y : Run σ α} (hx : Below x y) (frame : Frame) : Below (within frame x) (within frame y) := by
  intro s r hRun
  rcases within_eq_some_iff.mp hRun with ⟨a, s', hInner, rfl⟩ | ⟨report, s', hInner, rfl⟩
  · exact within_eq_some_iff.mpr (Or.inl ⟨a, s', hx s _ hInner, rfl⟩)
  · exact within_eq_some_iff.mpr (Or.inr ⟨report, s', hx s _ hInner, rfl⟩)

theorem below_forEach {f g : α → Run σ β} (hf : ∀ a, Below (f a) (g a)) (list : List α) :
    Below (forEach f list) (forEach g list) := by
  induction list with
  | nil => exact Below.refl _
  | cons a rest ih => exact (hf a).bind fun b => ih.bind fun bs => Below.refl _

end Run

namespace Provision

open Hierarchy Run

variable {h h' : Hierarchy} {n : InjectorId} {key : Key} {again again' : Again} {binding : Binding} {path : List Key}
  {c c' : Inquiry} {fuel fuel' : Nat}

-- ---------------------------------------------------------------------------
-- More fuel
-- ---------------------------------------------------------------------------

/-- Whatever requests in turn end, end in the same way. -/
def Extends (again again' : Again) : Prop :=
  ∀ n key path, Below (again n key path) (again' n key path)

/-- Wherever the providers end, they end in the same way. -/
def ExtendsBelow (below below' : Provider) : Prop :=
  ∀ n path, Below (below n path) (below' n path)

/-- Whatever demands are met, are met in the same way. -/
def ExtendsAnswers {role : Role} (answers answers' : Answers role) : Prop :=
  ∀ n demand, Below (answers n demand) (answers' n demand)

/-- A program ends where its demands end, by recursion on the tree that it is. -/
theorem below_runProgram : ∀ {role : Role} {answers answers' : Answers role}, ExtendsAnswers answers answers' →
    ∀ (program : Program role) (n : InjectorId), Below (runProgram answers program n) (runProgram answers' program n)
  | _, _, _, _, .finish _, _ => Below.refl _
  | _, _, _, hAnswers, .act update next, n => fun h r hRun =>
    below_runProgram hAnswers (next h.user) n { h with user := update h.user } r hRun
  | _, answers, _, hAnswers, .ask m demand next, n => by
    intro h r hRun
    obtain ⟨reply, h₁, hAnswer, hRest⟩ := exists_of_runProgram_ask hRun
    simp only [runProgram, hAnswers _ demand h _ hAnswer]
    exact below_runProgram hAnswers (next reply) n h₁ r hRest
  | _, answers, _, hAnswers, .visit module explicitOnly inside keeps next, n => by
    intro h r hRun
    rcases hCreated : h.create (some n) module explicitOnly with ⟨reports | child, h₁⟩
    · rw [runProgram_refused hCreated] at hRun ⊢
      exact below_runProgram hAnswers _ n h₁ r hRun
    · obtain ⟨outcome, h₂, hInside, hRest⟩ := exists_of_runProgram_opened hCreated hRun
      simp only [runProgram, hCreated, below_runProgram hAnswers (inside child) child h₁ _ hInside]
      exact below_runProgram hAnswers _ n _ r hRest

section Extending

variable (hAgain : Extends again again')
include hAgain

theorem extends_answer {role : Role} {below below' : role = .scope → Provider}
    (hBelow : ∀ hRole, ExtendsBelow (below hRole) (below' hRole)) :
    ExtendsAnswers (answer again below) (answer again' below') := by
  intro n demand
  cases demand with
  | get key => exact hAgain n key []
  | getAs key interface => exact (hAgain n key []).bind fun value => Below.refl _
  | getHandle key => exact Below.refl _
  | getFrom key interface => exact (hAgain n key []).bind fun value => Below.refl _
  | below path => exact hBelow rfl n path

theorem extends_bodyAnswers : ExtendsAnswers (bodyAnswers again) (bodyAnswers again') :=
  extends_answer hAgain (by rintro ⟨⟩)

theorem extends_scopeAnswers {below below' : Provider} (hBelow : ExtendsBelow below below') :
    ExtendsAnswers (scopeAnswers again below) (scopeAnswers again' below') :=
  extends_answer hAgain fun _ => hBelow

theorem below_runBody (program : Program .body) (n : InjectorId) :
    Below (runBody again program n) (runBody again' program n) :=
  below_runProgram (extends_bodyAnswers hAgain) program n

theorem below_runHooks (n : InjectorId) (key : Key) (hooks : List Hook) (value : Instance) :
    Below (runHooks again n key hooks value) (runHooks again' n key hooks value) := by
  induction hooks generalizing value with
  | nil => exact Below.refl _
  | cons hook rest ih =>
    unfold runHooks
    split
    · exact (below_runBody hAgain _ n).bind fun value => ih value
    · exact ih value

theorem extends_runStrategy (key : Key) (strategy : Strategy) :
    ExtendsBelow (runStrategy again key strategy) (runStrategy again' key strategy) := by
  intro n path
  cases strategy with
  | fixed value => exact Below.refl _
  | linked target => exact hAgain n target path
  | provided run => exact below_runBody hAgain (run n path) n
  | constructed constructor =>
    refine (below_forEach (fun dependency => hAgain n dependency path) _).bind fun arguments => ?_
    refine (below_runBody hAgain _ n).bind fun value => ?_
    exact (Below.refl _).bind fun h => below_runHooks hAgain n key _ value

/-- By induction on the layers: each of them may turn to those below. -/
theorem extends_runLayers {number : BindingId} {base base' : Provider} (hBase : ExtendsBelow base base')
    (layers : List Layer) : ExtendsBelow (runLayers again number base layers) (runLayers again' number base' layers) := by
  induction layers with
  | nil => exact hBase
  | cons layer below ih =>
    intro n path
    cases layer with
    | around provide => exact below_runProgram (extends_scopeAnswers hAgain ih) (provide n path) n
    | once =>
      intro h r hRun
      simp only [runLayers] at hRun ⊢
      split at hRun
      · exact hRun
      · cases hInner : runLayers again number base below n path h with
        | none =>
          rw [hInner] at hRun
          cases hRun
        | some answer =>
          rw [hInner] at hRun
          rw [ih n path h answer hInner]
          exact hRun

/-- Below all of its layers, the strategy of a binding is turned to. -/
theorem extends_bindingLayers (binding : Binding) (layers : List Layer) :
    ExtendsBelow (runLayers again binding.id (runStrategy again binding.key binding.strategy) layers)
      (runLayers again' binding.id (runStrategy again' binding.key binding.strategy) layers) :=
  extends_runLayers hAgain (extends_runStrategy hAgain binding.key binding.strategy) layers

theorem below_runBinding (binding : Binding) (path : List Key) :
    Below (runBinding again binding path) (runBinding again' binding path) := by
  intro h r hRun
  simp only [runBinding] at hRun ⊢
  split at hRun
  · next hLive =>
    rw [if_pos hLive]
    exact (extends_bindingLayers hAgain binding binding.layers binding.owner path).within _ h r hRun
  · next hGone =>
    rw [if_neg hGone]
    exact hRun

end Extending

theorem below_request (hAgain : Extends again again') (n : InjectorId) (key : Key) (path : List Key) :
    Below (request again n key path) (request again' n key path) :=
  (Below.bind (Below.refl _) fun path =>
    Below.bind (Below.refl _) fun binding => below_runBinding hAgain binding path).within _

theorem obtain_succ (fuel : Nat) : Extends (obtain fuel) (obtain (fuel + 1)) := by
  induction fuel with
  | zero =>
    intro n key path h r hRun
    cases hRun
  | succ fuel ih => exact below_request ih

theorem obtain_mono (hLe : fuel ≤ fuel') : Extends (obtain fuel) (obtain fuel') := by
  induction hLe with
  | refl => exact fun n key path => Below.refl _
  | step _ ih => exact fun n key path h r hRun => obtain_succ _ n key path h r (ih n key path h r hRun)

-- ---------------------------------------------------------------------------
-- What is asked for with more fuel
-- ---------------------------------------------------------------------------

theorem Poses.mono {role : Role} {answers answers' : Answers role} (hAnswers : ExtendsAnswers answers answers')
    {program : Program role} {posed : Posed role} (hPoses : Poses answers program n h posed) :
    Poses answers' program n h posed := by
  induction hPoses with
  | act _ ih => exact .act ih
  | now => exact .now
  | later hAnswer _ ih => exact .later (hAnswers _ _ _ _ hAnswer) ih
  | refused hRefused _ ih => exact .refused hRefused ih
  | inside hCreated _ ih => exact .inside hCreated ih
  | outside hCreated hInside _ ih => exact .outside hCreated (below_runProgram hAnswers _ _ _ _ hInside) ih

section Extending

variable (hAgain : Extends again again')
include hAgain

theorem HooksPose.mono {hooks : List Hook} {value : Instance} {posed : Posed .body}
    (hPoses : HooksPose again n key hooks value h posed) : HooksPose again' n key hooks value h posed := by
  induction hPoses with
  | now hApplies hPoses => exact .now hApplies (hPoses.mono (extends_bodyAnswers hAgain))
  | later hApplies hHook _ ih => exact .later hApplies (below_runBody hAgain _ _ _ _ hHook) ih
  | skipped hNot _ ih => exact .skipped hNot ih

theorem StrategyPoses.mono {strategy : Strategy} {posed : Posed .body}
    (hPoses : StrategyPoses again key n path h strategy posed) : StrategyPoses again' key n path h strategy posed := by
  have hRequests := below_forEach (fun key => hAgain n key path)
  have hBodies := extends_bodyAnswers hAgain
  cases hPoses with
  | provided hPoses => exact .provided (hPoses.mono hBodies)
  | build hArguments hPoses => exact .build (hRequests _ _ _ hArguments) (hPoses.mono hBodies)
  | hook hArguments hBuild hPoses =>
    exact .hook (hRequests _ _ _ hArguments) (below_runBody hAgain _ _ _ _ hBuild) (hPoses.mono hAgain)

theorem StrategyDepends.mono {strategy : Strategy} (hDepends : StrategyDepends again n path h strategy c) :
    StrategyDepends again' n path h strategy c := by
  cases hDepends with
  | linked => exact .linked
  | argument hKeys hBefore => exact .argument hKeys (below_forEach (fun key => hAgain n key path) _ _ _ hBefore)

theorem Turns.mono {number : BindingId} {base base' : Provider} (hBase : ExtendsBelow base base') {first last : Turn}
    (hTurns : Turns again number base first last) : Turns again' number base' first last := by
  induction hTurns with
  | here => exact .here
  | once hNone _ ih => exact .once hNone ih
  | @around _ below _ _ _ _ _ _ _ hPoses _ ih =>
    exact .around (hPoses.mono (extends_scopeAnswers hAgain (extends_runLayers hAgain hBase below))) ih

theorem BindingTurns.mono {turn : Turn} (hTurns : BindingTurns again binding path h turn) :
    BindingTurns again' binding path h turn :=
  ⟨hTurns.1, hTurns.2.mono hAgain (extends_runStrategy hAgain binding.key binding.strategy)⟩

theorem TurnPoses.mono {turn : Turn} {role : Role} {posed : Posed role} (hPoses : TurnPoses again binding turn posed) :
    TurnPoses again' binding turn posed := by
  cases hPoses with
  | strategy hPoses => exact .strategy (hPoses.mono hAgain)
  | @scope _ below _ _ _ _ hPoses =>
    exact .scope (hPoses.mono (extends_scopeAnswers hAgain (extends_bindingLayers hAgain binding below)))

theorem TurnAsks.mono {turn : Turn} (hAsks : TurnAsks again binding turn c) : TurnAsks again' binding turn c := by
  cases hAsks with
  | depends hDepends => exact .depends (hDepends.mono hAgain)
  | posed hPoses hRequests => exact .posed (hPoses.mono hAgain) hRequests

theorem BindingAsks.mono (hAsks : BindingAsks again binding path h c) : BindingAsks again' binding path h c := by
  obtain ⟨turn, hTurns, hAsks⟩ := hAsks
  exact ⟨turn, hTurns.mono hAgain, hAsks.mono hAgain⟩

end Extending

/-- What comes up in the course of an inquiry comes up with more fuel too. -/
theorem Nested.mono {bindings : List Binding} (hNested : Nested fuel c bindings c') (hLe : fuel ≤ fuel') :
    Nested fuel' c bindings c' := by
  induction hNested generalizing fuel' with
  | here => exact .here
  | @deeper fuel c c' c'' binding h' bindings hOpens hAsks _ ih =>
    obtain ⟨fuel', rfl⟩ := Nat.exists_eq_add_of_le' (Nat.one_le_of_lt hLe)
    have hLe := Nat.le_of_succ_le_succ hLe
    exact .deeper hOpens (hAsks.mono (obtain_mono hLe)) (ih hLe)

-- ---------------------------------------------------------------------------
-- A request that ends is not nested deeper than its fuel
-- ---------------------------------------------------------------------------

/-- The demands of a program are met where the program ends. -/
theorem Poses.ends_of_run {role : Role} {answers answers' : Answers role} (hAnswers : ExtendsAnswers answers answers')
    {program : Program role} {posed : Posed role} (hPoses : Poses answers' program n h posed)
    {r : Except Report Instance × Hierarchy} (hRun : runProgram answers program n h = some r) :
    ∃ r', answers posed.injector posed.demand posed.state = some r' := by
  induction hPoses generalizing r with
  | act _ ih => exact ih hRun
  | now =>
    obtain ⟨reply, h₁, hAnswer, -⟩ := exists_of_runProgram_ask hRun
    exact ⟨_, hAnswer⟩
  | @later m demand next n h h' reply posed hAnswer' _ ih =>
    obtain ⟨reply', h₁, hAnswer, hRest⟩ := exists_of_runProgram_ask hRun
    -- what meets the demand is what has met it before
    have hSame := hAnswers _ demand h _ hAnswer
    rw [hAnswer', Option.some.injEq] at hSame
    cases hSame
    exact ih hRest
  | refused hRefused _ ih =>
    rw [runProgram_refused hRefused] at hRun
    exact ih hRun
  | inside hCreated _ ih =>
    obtain ⟨outcome, h₂, hInside, -⟩ := exists_of_runProgram_opened hCreated hRun
    exact ih hInside
  | @outside module explicitOnly inside keeps next n child h h' h'' outcome posed hCreated hInside' _ ih =>
    obtain ⟨outcome', h₂, hInside, hRest⟩ := exists_of_runProgram_opened hCreated hRun
    have hSame := below_runProgram hAnswers (inside child) child h' _ hInside
    rw [hInside', Option.some.injEq] at hSame
    cases hSame
    exact ih hRest

/-- The first of two runs ends where both of them together do. -/
theorem ends_of_bind {α β : Type} {x : Run Hierarchy α} {f : α → Run Hierarchy β} {r : Except Report β × Hierarchy}
    (hRun : (x >>= f) h = some r) : ∃ r', x h = some r' := by
  rcases bind_eq_some_iff.mp hRun with ⟨a, h', hFirst, -⟩ | ⟨report, h', hFirst, -⟩
  · exact ⟨_, hFirst⟩
  · exact ⟨_, hFirst⟩

/-- The request is answered where the demand is met. -/
theorem Posed.Requests.ends_of_run {role : Role} {below : role = .scope → Provider} {posed : Posed role}
    (hRequests : posed.Requests c) {r : Except Report posed.demand.Reply × Hierarchy}
    (hRun : answer again below posed.injector posed.demand posed.state = some r) : ∃ r', c.answer again = some r' := by
  cases hRequests with
  | get => exact ⟨r, hRun⟩
  | getAs => exact ends_of_bind hRun
  | getFrom => exact ends_of_bind hRun

/-- The demands of hooks are met where the hooks end. -/
theorem HooksPose.ends_of_run (hAgain : Extends again again') {hooks : List Hook} {value : Instance}
    {posed : Posed .body} (hPoses : HooksPose again' n key hooks value h posed)
    {r : Except Report Instance × Hierarchy} (hRun : runHooks again n key hooks value h = some r) :
    ∃ r', bodyAnswers again posed.injector posed.demand posed.state = some r' := by
  induction hPoses generalizing r with
  | now hApplies hPoses =>
    rw [runHooks, if_pos hApplies] at hRun
    obtain ⟨r', hHook⟩ := ends_of_bind hRun
    exact hPoses.ends_of_run (extends_bodyAnswers hAgain) hHook
  | later hApplies hHook' _ ih =>
    rw [runHooks, if_pos hApplies] at hRun
    rcases bind_eq_some_iff.mp hRun with ⟨value, h₁, hHook, hRest⟩ | ⟨report, h₁, hHook, -⟩
    · cases hHook'.symm.trans (below_runBody hAgain _ _ _ _ hHook)
      exact ih hRest
    · cases hHook'.symm.trans (below_runBody hAgain _ _ _ _ hHook)
  | skipped hNot _ ih =>
    rw [runHooks, if_neg hNot] at hRun
    exact ih hRun

/-- What is asked for after others have succeeded ends where all of them together do. -/
theorem ends_of_forEach {again again' : Key → Run Hierarchy Instance} (hAgain : ∀ key, Below (again key) (again' key))
    {before after : List Key} {dependency : Key} {arguments : List Instance}
    (hBefore : forEach again' before h = some (.ok arguments, h')) {r : Except Report (List Instance) × Hierarchy}
    (hRun : forEach again (before ++ dependency :: after) h = some r) : ∃ r', again dependency h' = some r' := by
  induction before generalizing h arguments r with
  | nil =>
    cases hBefore
    rcases bind_eq_some_iff.mp hRun with ⟨value, h₁, hFirst, -⟩ | ⟨report, h₁, hFirst, -⟩
    · exact ⟨_, hFirst⟩
    · exact ⟨_, hFirst⟩
  | cons key rest ih =>
    obtain ⟨value', h₁', hFirst', hRest'⟩ := bind_eq_ok_iff.mp hBefore
    obtain ⟨others, h₂, hOthers, hPure⟩ := bind_eq_ok_iff.mp hRest'
    cases hPure
    rcases bind_eq_some_iff.mp hRun with ⟨value, h₁, hFirst, hRest⟩ | ⟨report, h₁, hFirst, -⟩
    · cases hFirst'.symm.trans (hAgain key h _ hFirst)
      rcases bind_eq_some_iff.mp hRest with ⟨values, h₃, hValues, -⟩ | ⟨report, h₃, hValues, -⟩
      · exact ih hOthers hValues
      · exact ih hOthers hValues
    · cases hFirst'.symm.trans (hAgain key h _ hFirst)

/-- The demands of the user code of a strategy are met where the strategy ends. -/
theorem StrategyPoses.ends_of_run (hAgain : Extends again again') {strategy : Strategy} {posed : Posed .body}
    (hPoses : StrategyPoses again' key n path h strategy posed) {r : Except Report Instance × Hierarchy}
    (hRun : runStrategy again key strategy n path h = some r) :
    ∃ r', bodyAnswers again posed.injector posed.demand posed.state = some r' := by
  have hRequests := below_forEach (fun key => hAgain n key path)
  have hBodies := extends_bodyAnswers hAgain
  cases hPoses with
  | provided hPoses => exact hPoses.ends_of_run hBodies hRun
  | build hArguments' hPoses =>
    rcases bind_eq_some_iff.mp hRun with ⟨arguments, h₁, hArguments, hRest⟩ | ⟨report, h₁, hArguments, -⟩
    · cases hArguments'.symm.trans (hRequests _ _ _ hArguments)
      obtain ⟨r', hBuild⟩ := ends_of_bind hRest
      exact hPoses.ends_of_run hBodies hBuild
    · cases hArguments'.symm.trans (hRequests _ _ _ hArguments)
  | hook hArguments' hBuild' hPoses =>
    rcases bind_eq_some_iff.mp hRun with ⟨arguments, h₁, hArguments, hRest⟩ | ⟨report, h₁, hArguments, -⟩
    · cases hArguments'.symm.trans (hRequests _ _ _ hArguments)
      rcases bind_eq_some_iff.mp hRest with ⟨value, h₂, hBuild, hHooks⟩ | ⟨report, h₂, hBuild, -⟩
      · cases hBuild'.symm.trans (below_runBody hAgain _ _ _ _ hBuild)
        exact hPoses.ends_of_run hAgain hHooks
      · cases hBuild'.symm.trans (below_runBody hAgain _ _ _ _ hBuild)
    · cases hArguments'.symm.trans (hRequests _ _ _ hArguments)

/-- What a strategy depends on ends where the strategy does. -/
theorem StrategyDepends.ends_of_run (hAgain : Extends again again') {strategy : Strategy}
    (hDepends : StrategyDepends again' n path h strategy c) {r : Except Report Instance × Hierarchy}
    (hRun : runStrategy again key strategy n path h = some r) : ∃ r', c.answer again = some r' := by
  cases hDepends with
  | linked => exact ⟨r, hRun⟩
  | argument hKeys hBefore =>
    rw [runStrategy, hKeys] at hRun
    obtain ⟨r', hArguments⟩ := ends_of_bind hRun
    exact ends_of_forEach (fun key => hAgain n key path) hBefore hArguments

/-- Whenever it is the turn of some layers, they end if the layers do that led there. -/
theorem Turns.ends_of_run (hAgain : Extends again again') {number : BindingId} {base base' : Provider}
    (hBase : ExtendsBelow base base') {first last : Turn} (hTurns : Turns again' number base' first last)
    {r : Except Report Instance × Hierarchy}
    (hRun : runLayers again number base first.layers first.injector first.path first.state = some r) :
    ∃ r', runLayers again number base last.layers last.injector last.path last.state = some r' := by
  induction hTurns generalizing r with
  | here => exact ⟨r, hRun⟩
  | @once below n path h _ hNone _ ih =>
    simp only [runLayers, hNone] at hRun
    cases hInner : runLayers again number base below n path h with
    | none =>
      rw [hInner] at hRun
      cases hRun
    | some answer => exact ih hInner
  | @around _ below _ _ _ _ _ _ _ hPoses _ ih =>
    obtain ⟨r', hMet⟩ := hPoses.ends_of_run (extends_scopeAnswers hAgain (extends_runLayers hAgain hBase below)) hRun
    exact ih hMet

/-- What a binding asks for ends where the binding is provided. -/
theorem BindingAsks.ends_of_run (hAgain : Extends again again') (hAsks : BindingAsks again' binding path h c)
    {r : Except Report Instance × Hierarchy} (hRun : runBinding again binding path h = some r) :
    ∃ r', c.answer again = some r' := by
  obtain ⟨turn, ⟨hLive, hTurns⟩, hAsks⟩ := hAsks
  obtain ⟨outcome, h'⟩ := r
  simp only [runBinding, hLive, if_true] at hRun
  obtain ⟨inner, hInner, -⟩ := within_eq_iff.mp hRun
  obtain ⟨r', hTurn⟩ := hTurns.ends_of_run hAgain (extends_runStrategy hAgain binding.key binding.strategy) hInner
  cases hAsks with
  | depends hDepends => exact hDepends.ends_of_run hAgain hTurn
  | posed hPoses hRequests =>
    cases hPoses with
    | strategy hPoses =>
      obtain ⟨r'', hMet⟩ := hPoses.ends_of_run hAgain hTurn
      exact hRequests.ends_of_run hMet
    | @scope _ below _ _ _ _ hPoses =>
      obtain ⟨r'', hMet⟩ :=
        hPoses.ends_of_run (extends_scopeAnswers hAgain (extends_bindingLayers hAgain binding below)) hTurn
      exact hRequests.ends_of_run hMet

/-- The binding that a request opens is provided with less fuel. -/
theorem Inquiry.Opens.run (hOpens : c.Opens binding h') {r : Except Report Instance × Hierarchy}
    (hRun : c.answer (obtain (fuel + 1)) = some r) :
    ∃ r', runBinding (obtain fuel) binding (c.path ++ [c.key]) h' = some r' := by
  have hAnswer : c.answer (obtain (fuel + 1)) =
      within (.locating c.key) (runBinding (obtain fuel) binding (c.path ++ [c.key])) h' :=
    obtain_of_resolve hOpens.resolved fuel hOpens.fresh
  obtain ⟨outcome, h''⟩ := r
  rw [hAnswer] at hRun
  obtain ⟨inner, hInner, -⟩ := within_eq_iff.mp hRun
  exact ⟨_, hInner⟩

/-- A request that ends is nested less deeply than its fuel allows. -/
theorem Nested.length_lt {bindings : List Binding} (hNested : Nested fuel' c bindings c')
    {r : Except Report Instance × Hierarchy} (hRun : c.answer (obtain fuel) = some r) : bindings.length < fuel := by
  induction hNested generalizing fuel r with
  | here =>
    cases fuel with
    | zero => cases hRun
    | succ fuel => exact Nat.succ_pos fuel
  | @deeper fuel' c c' c'' binding h' bindings hOpens hAsks _ ih =>
    cases fuel with
    | zero => cases hRun
    | succ fuel =>
      obtain ⟨r₁, hBinding⟩ := hOpens.run hRun
      -- the answer with the greater fuel is the answer with the smaller one
      have hAsks' := hAsks.mono (obtain_mono (le_max_left fuel' fuel))
      obtain ⟨r₂, hAnswer⟩ := hAsks'.ends_of_run (obtain_mono (le_max_right fuel' fuel)) hBinding
      exact Nat.succ_lt_succ (ih hAnswer)

end Provision

end InjectorTree
