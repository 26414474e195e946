import InjectorTree.Proofs.Permanence
import InjectorTree.Proofs.Provision
import InjectorTree.Proofs.Twins.Admitting
import InjectorTree.Proofs.Twins.Placing

/-!
# Requests in twins

A request runs user code, and user code makes further requests and opens temporary children. All of this sees the
state of user code, instances and injectors, but no numbers of bindings. So requests provide the same in twins,
however deeply they are nested.

* `InStep` says so of two runs; `InStep.bind` puts such runs together.
* `inStep_runProgram`, `inStep_runLayers`, `inStep_runBinding`: user code, layers and bindings.
* `inStep_obtain`: requests.
-/

namespace InjectorTree

/-- The handle to the binding with another number. -/
def Handle.renumber (ρ : BindingId → BindingId) (handle : Handle) : Handle :=
  { handle with binding := handle.binding.renumber ρ }

namespace Provision

open Hierarchy Run

variable {α α' β β' : Type} {ρ : BindingId → BindingId} {made : Nat} {h h' h₁ h₁' : Hierarchy} {n m : InjectorId}
  {key : Key} {again : Again} {V : α → α' → Prop} {W : β → β' → Prop}

/-- Twins in which the injector is anchored, and so many bindings were made. -/
structure Alike (ρ : BindingId → BindingId) (made : Nat) (n : InjectorId) (h h' : Hierarchy) : Prop where
  twin : Twin ρ h h'
  anchored : Anchored h n
  made : made ≤ h.nextBinding

/-- In twins in which the injector is anchored, and so many bindings were made, the runs end in the same way and leave
twins behind. -/
def InStep (ρ : BindingId → BindingId) (made : Nat) (n : InjectorId) (V : α → α' → Prop) (x : Run Hierarchy α)
    (x' : Run Hierarchy α') : Prop :=
  ∀ ⦃h h' : Hierarchy⦄, Alike ρ made n h h' → Match V (Twin ρ) (x h) (x' h')

/-- An excursion leaves the injector anchored and makes more bindings at most. -/
theorem Alike.excursion (hL : Alike ρ made n h h') (hE : Excursion h h₁) (hT : Twin ρ h₁ h₁') : Alike ρ made n h₁ h₁' :=
  have hW := hL.twin.wellFormed
  ⟨hT, hE.anchored hW hL.anchored, hL.made.trans (hE.steps.continues hW).nextBinding⟩

theorem Alike.above (hL : Alike ρ made n h h') (hAmid : Amid (fun n h => h.WellFormed ∧ Anchored h n)
    (fun _ => Excursion) n h m h) : Alike ρ made m h h' :=
  ⟨hL.twin, hAmid.kind.2, hL.made⟩

theorem inStep_ofExcept (n : InjectorId) (outcome : Except Report α) :
    InStep ρ made n Eq (.ofExcept outcome) (.ofExcept outcome) := by
  intro h h' hL
  cases outcome with
  | error report => exact .error hL.twin
  | ok a => exact .ok rfl hL.twin

theorem inStep_pure (n : InjectorId) (a : α) : InStep ρ made n Eq (pure a) (pure a) :=
  inStep_ofExcept n (.ok a)

/-- The injector stays anchored, since the first run gives up no hold that it has not taken. -/
theorem Stepwise.match_alike {x : Run Hierarchy α} {x' : Run Hierarchy α'} (hStep : Stepwise n x)
    (hx : InStep ρ made n V x x') (hL : Alike ρ made n h h') : Match V (Alike ρ made n) (x h) (x' h') := by
  have hEnds := (hx hL).and fun _ _ hRun => hStep.excursion hL.twin.wellFormed hL.anchored hRun
  exact hEnds.mono (fun _ _ hValue => hValue) fun _ _ hAfter => hL.excursion hAfter.2 hAfter.1

theorem InStep.bind {x : Run Hierarchy α} {x' : Run Hierarchy α'} {f : α → Run Hierarchy β}
    {f' : α' → Run Hierarchy β'} (hx : InStep ρ made n V x x') (hStep : Stepwise n x)
    (hf : ∀ a a', V a a' → InStep ρ made n W (f a) (f' a')) : InStep ρ made n W (x >>= f) (x' >>= f') :=
  fun _ _ hL => Match.bind (hStep.match_alike hx hL) (fun _ _ hAfter => hAfter.twin)
    fun a a' _ _ hValue hAfter => hf a a' hValue hAfter

/-- What comes to the same value goes on in the same way. -/
theorem InStep.bind_eq {x x' : Run Hierarchy α} {f : α → Run Hierarchy β} {f' : α → Run Hierarchy β'}
    (hx : InStep ρ made n Eq x x') (hStep : Stepwise n x) (hf : ∀ a, InStep ρ made n W (f a) (f' a)) :
    InStep ρ made n W (x >>= f) (x' >>= f') :=
  hx.bind hStep fun a _ hSame => hSame ▸ hf a

theorem InStep.within {x : Run Hierarchy α} {x' : Run Hierarchy α'} (hx : InStep ρ made n V x x') (frame : Frame) :
    InStep ρ made n V (.within frame x) (.within frame x') :=
  fun _ _ hL => (hx hL).within frame

theorem inStep_forEach {γ : Type} {f : γ → Run Hierarchy α} {f' : γ → Run Hierarchy α'}
    (hf : ∀ c, InStep ρ made n V (f c) (f' c)) (hStep : ∀ c, Stepwise n (f c)) (list : List γ) :
    InStep ρ made n (List.Forall₂ V) (Run.forEach f list) (Run.forEach f' list) := by
  intro h h' hL
  refine Match.mono (Match.forEach (R := Alike ρ made n) list hL fun c _ s s' hs => (hStep c).match_alike (hf c) hs)
    (fun _ _ hValues => hValues) fun _ _ hAfter => hAfter.twin

-- ---------------------------------------------------------------------------
-- User code
-- ---------------------------------------------------------------------------

/-- User code cannot tell twins apart if what it demands cannot. -/
theorem inStep_runProgram : ∀ {role : Role} {answers answers' : Answers role},
    (∀ n demand, InStep ρ made n Eq (answers n demand) (answers' n demand)) →
      (∀ n demand, Stepwise n (answers n demand)) → ∀ (program : Program role) (n : InjectorId),
        InStep ρ made n Eq (runProgram answers program n) (runProgram answers' program n)
  | _, _, _, _, _, .finish outcome, n => inStep_ofExcept n outcome
  | _, _, _, hAnswers, hStep, .act update next, n => by
    intro h h' hL
    simp only [runProgram, hL.twin.user]
    exact inStep_runProgram hAnswers hStep (next h.user) n (hL.excursion (.act h _) (hL.twin.withUser _))
  | _, _, _, hAnswers, hStep, .ask m demand next, n => by
    intro h h' hL
    have hReach := passage_excursion.reach ⟨hL.twin.wellFormed, hL.anchored⟩ m
    have hSame : h'.reach n m = h.reach n m := by simp only [Hierarchy.reach, hL.twin.path]
    have hAsked := (hAnswers _ demand (hL.above hReach)).and fun _ _ hRun =>
      hReach.back ((hStep _ demand).excursion hReach.kind.1 hReach.kind.2 hRun)
    simp only [runProgram, hSame]
    rcases hAsked.cases with ⟨hEnd, hEnd'⟩ | ⟨answer, h₁, h₁', hEnd, hEnd', hT, hE⟩
    · rw [hEnd, hEnd']
      exact .endless
    · rw [hEnd, hEnd']
      exact inStep_runProgram hAnswers hStep (next answer) n (hL.excursion hE hT)
  | _, _, _, hAnswers, hStep, .visit module explicitOnly inside keeps next, n => by
    intro h h' hL
    have hW := hL.twin.wellFormed
    have hLive := hL.anchored.isLive_parent hW
    obtain ⟨hOutcome, hAfter⟩ := hL.twin.create module explicitOnly hLive
    simp only [runProgram]
    rcases hMade : h.create (some n) module explicitOnly with ⟨outcome, h₁⟩
    rcases hMade' : h'.create (some n) module explicitOnly with ⟨outcome', h₁'⟩
    rw [hMade, hMade'] at hOutcome hAfter
    obtain rfl : outcome' = outcome := hOutcome
    cases outcome' with
    | error reports =>
      exact inStep_runProgram hAnswers hStep _ n (hL.excursion (excursion_refused hW hLive hMade) hAfter)
    | ok child =>
      have hW₁ := wellFormed_created hW hLive hMade
      have hA₁ := anchored_created hW hLive hMade
      have hMore := (hL.excursion (excursion_opened hW hLive hMade (.refl h₁)) hAfter).made
      have hInside := (inStep_runProgram hAnswers hStep (inside child) child ⟨hAfter, hA₁, hMore⟩).and
        fun _ _ hRun => (stepwise_runProgram hStep (inside child) child).excursion hW₁ hA₁ hRun
      simp only
      rcases hInside.cases with ⟨hEnd, hEnd'⟩ | ⟨answer, h₂, h₂', hEnd, hEnd', hT, hE⟩
      · rw [hEnd, hEnd']
        exact .endless
      · rw [hEnd, hEnd']
        -- whether the child is kept or given up, the injector is still anchored then
        have hNext : Alike ρ made n (if keeps answer then h₂ else h₂.release child)
            (if keeps answer then h₂' else h₂'.release child) := by
          split
          · exact hL.excursion (excursion_opened hW hLive hMade hE) hT
          · exact hL.excursion (excursion_visit hW hLive hMade hE) (hT.release child)
        exact inStep_runProgram hAnswers hStep (next (.ok answer)) n hNext

section Requests

variable (hAgain : ∀ n key path, InStep ρ made n Eq (again n key path) (again n key path))
  (hStep : ∀ n key path, Stepwise n (again n key path))
include hAgain hStep

/-- What is demanded is asked for, or left to what is below. -/
theorem inStep_answer {role : Role} {below below' : role = .scope → Provider}
    (hBelow : ∀ hRole n path, InStep ρ made n Eq (below hRole n path) (below' hRole n path)) (n : InjectorId)
    (demand : Demand role) : InStep ρ made n Eq (answer again below n demand) (answer again below' n demand) := by
  cases demand with
  | get key => exact hAgain n key []
  | getAs key interface => exact (hAgain n key []).bind_eq (hStep n key []) fun value => (inStep_ofExcept n _).within _
  | getHandle key =>
    intro h h' hL
    have hResolved := hL.twin.resolve (hL.anchored.isLive hL.twin.wellFormed) key
    refine Match.bind (hResolved.within _) (fun _ _ hT => hT) ?_
    exact fun _ _ _ _ _ hT => .ok rfl hT
  | getFrom key interface => exact (hAgain n key []).bind_eq (hStep n key []) fun value => inStep_ofExcept n _
  | below path => exact hBelow rfl n path

theorem inStep_runBody (program : Program .body) (n : InjectorId) :
    InStep ρ made n Eq (runBody again program n) (runBody again program n) :=
  inStep_runProgram (inStep_answer hAgain hStep (by rintro ⟨⟩)) (stepwise_answer hStep (by rintro ⟨⟩)) program n

theorem inStep_runHooks (n : InjectorId) (key : Key) (hooks : List Hook) (value : Instance) :
    InStep ρ made n Eq (runHooks again n key hooks value) (runHooks again n key hooks value) := by
  induction hooks generalizing value with
  | nil => exact inStep_pure n value
  | cons hook rest ih =>
    unfold runHooks
    split
    · exact (inStep_runBody hAgain hStep _ n).bind_eq (stepwise_runBody hStep _ n) ih
    · exact ih value

-- ---------------------------------------------------------------------------
-- Requests
-- ---------------------------------------------------------------------------

theorem inStep_runStrategy (key : Key) (strategy : Strategy) (n : InjectorId) (path : List Key) :
    InStep ρ made n Eq (runStrategy again key strategy n path) (runStrategy again key strategy n path) := by
  cases strategy with
  | fixed value => exact inStep_pure n value
  | linked target => exact hAgain n target path
  | provided run => exact inStep_runBody hAgain hStep (run n path) n
  | constructed constructor =>
    refine (inStep_forEach (fun dependency => hAgain n dependency path) (fun dependency => hStep n dependency path)
      constructor.dependencies).bind (stepwise_forEach (fun dependency => hStep n dependency path) _) ?_
    intro arguments arguments' hArguments
    obtain rfl := List.forall₂_eq_eq_eq ▸ hArguments
    refine (inStep_runBody hAgain hStep _ n).bind_eq (stepwise_runBody hStep _ n) fun value => ?_
    intro h h' hL
    -- the hooks are those of the injector in the state that has been reached
    rw [bind_apply, bind_apply]
    simp only [get_apply, hL.twin.hooks]
    exact inStep_runHooks hAgain hStep n key _ value hL

/-- Layers keep instances under the number that the binding has, in each of the twins. -/
theorem inStep_runLayers {number : BindingId} (hMade : number < made) {base : Provider}
    (hBase : ∀ n path, InStep ρ made n Eq (base n path) (base n path)) (hBaseSteps : ∀ n path, Stepwise n (base n path))
    (layers : List Layer) (n : InjectorId) (path : List Key) :
    InStep ρ made n Eq (runLayers again number base layers n path) (runLayers again (ρ number) base layers n path) := by
  induction layers generalizing n path with
  | nil => exact hBase n path
  | cons layer below ih =>
    have hBelow := stepwise_runLayers hStep number hBaseSteps below
    cases layer with
    | around provide =>
      exact inStep_runProgram (inStep_answer hAgain hStep fun _ => ih) (stepwise_answer hStep fun _ => hBelow)
        (provide n path) n
    | once =>
      intro h h' hL
      simp only [runLayers, hL.twin.get?_kept]
      split
      · exact .ok rfl hL.twin
      · rcases ((hBelow n path).match_alike (ih n path) hL).cases with
          ⟨hEnd, hEnd'⟩ | ⟨report | value, h₁, h₁', hEnd, hEnd', hAfter⟩
        · rw [hEnd, hEnd']
          exact .endless
        · rw [hEnd, hEnd']
          exact .error hAfter.twin
        · rw [hEnd, hEnd']
          exact .ok rfl (hAfter.twin.keep (Nat.lt_of_lt_of_le hMade hAfter.made) _ _)

theorem inStep_runBinding {binding : Binding} (hMade : binding.id < made) (path : List Key) :
    InStep ρ made binding.owner Eq (runBinding again binding path) (runBinding again (binding.renumber ρ) path) := by
  intro h h' hL
  have hLive : h'.isLive (binding.renumber ρ).owner = h.isLive binding.owner := hL.twin.isLive binding.owner
  simp only [runBinding, hLive]
  split
  · have hStrategy := inStep_runStrategy hAgain hStep binding.key binding.strategy
    have hSteps := stepwise_runStrategy hStep binding.key binding.strategy
    exact (inStep_runLayers hAgain hStep hMade hStrategy hSteps binding.layers _ path hL).within _
  · exact .error hL.twin

end Requests

/-- What a key resolves to has a number that was given out, and its owner is anchored. -/
theorem inStep_request (hAgain : ∀ made n key path, InStep ρ made n Eq (again n key path) (again n key path))
    (hStep : ∀ n key path, Stepwise n (again n key path)) (n : InjectorId) (key : Key) (path : List Key) :
    InStep ρ made n Eq (request again n key path) (request again n key path) := by
  refine InStep.within (InStep.bind_eq (inStep_ofExcept n _) (stepwise_ofExcept n _) fun path' => ?_) _
  intro h h' hL
  have hW := hL.twin.wellFormed
  have hLive := hL.anchored.isLive hW
  refine Match.bind_of_ok (hL.twin.resolve hLive key) (fun _ _ hT => hT) ?_
  rintro binding _ h₁ h₁' hRun rfl hT
  have hOwner := (excursion_resolve hW hL.anchored hRun).2 binding rfl
  have hNumbered := hT.wellFormed.numbered (owned_of_resolve hW hLive hRun).bound
  exact inStep_runBinding (hAgain (binding.id + 1)) hStep (Nat.lt_succ_self _) path' ⟨hT, hOwner, hNumbered⟩

/-- A request provides the same in twins, by induction on how deeply requests are nested in it. -/
theorem inStep_obtain (fuel : Nat) :
    ∀ made n key path, InStep ρ made n Eq (obtain fuel n key path) (obtain fuel n key path) := by
  induction fuel with
  | zero => exact fun made n key path h h' hL => .endless
  | succ fuel ih => exact fun made => inStep_request ih (stepwise_obtain fuel)

theorem inStep_getInstance (fuel : Nat) (n : InjectorId) (key : Key) :
    InStep ρ made n Eq (getInstance fuel n key) (getInstance fuel n key) :=
  inStep_obtain fuel made n key []

theorem inStep_getAs (fuel : Nat) (n : InjectorId) (key : Key) (interface : Interface) :
    InStep ρ made n Eq (getAs fuel n key interface) (getAs fuel n key interface) :=
  (inStep_getInstance fuel n key).bind_eq (stepwise_getInstance fuel n key) fun value =>
    (inStep_ofExcept n (interface.recover value)).within _

/-- A handle to the same binding, up to its number. -/
theorem inStep_getHandle (n : InjectorId) (key : Key) (interface : Interface) :
    InStep ρ made n (fun handle handle' => handle' = handle.renumber ρ) (getHandle n key interface)
      (getHandle n key interface) := by
  intro h h' hL
  have hResolved := hL.twin.resolve (hL.anchored.isLive hL.twin.wellFormed) key
  refine Match.bind (hResolved.within _) (fun _ _ hT => hT) ?_
  rintro binding _ h h' rfl hT
  exact .ok rfl hT

theorem inStep_getFrom (fuel : Nat) {handle : Handle} (hMade : handle.binding.id < made) :
    InStep ρ made handle.binding.owner Eq (getFrom fuel handle) (getFrom fuel (handle.renumber ρ)) := by
  rw [getFrom_eq, getFrom_eq]
  have hProvided : InStep ρ made handle.binding.owner Eq _ _ :=
    inStep_runBinding (inStep_obtain fuel made) (stepwise_obtain fuel) hMade [handle.binding.key]
  have hSteps := stepwise_runBinding (stepwise_obtain fuel) handle.binding [handle.binding.key]
  exact (hProvided.within _).bind_eq (hSteps.within _) fun value => inStep_ofExcept _ _

end Provision

end InjectorTree
