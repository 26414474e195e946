import Mathlib.Data.Finset.Card
import InjectorTree.Proofs.Derived
import InjectorTree.Proofs.Requests.Fuel

/-!
# Whether requests end

A request ends, with some fuel, if whatever it asks for in turn ends. Requests that are carried from binding to binding
cannot go on for ever: there are only so many keys on which anything depends that is declared on the path, and none of
them comes up twice.

* `runProgram_ends`, `runBinding_ends`, `ends_of_asks`: user code ends if its demands are met, and a binding and a
  request end if what they ask for does.
* `CarriesOn.room_lt`, `ends_of_room`: a request that is carried on leaves fewer keys to ask for, so it ends.
-/

namespace InjectorTree.Provision

open Hierarchy Run

variable {h h' : Hierarchy} {n : InjectorId} {binding : Binding} {path : List Key} {c c' : Inquiry}

-- ---------------------------------------------------------------------------
-- A request ends if what it asks for does
-- ---------------------------------------------------------------------------

/-- The request ends, with fuel that is enough. -/
def Ends (c : Inquiry) : Prop :=
  ∃ fuel r, c.answer (obtain fuel) = some r

/-- The demand is met, with fuel that is enough, whatever is below. -/
def Met {role : Role} (posed : Posed role) : Prop :=
  ∃ fuel r, ∀ below, answer (obtain fuel) below posed.injector posed.demand posed.state = some r

/-- A demand is met if the request ends that it takes, unless it is on what is below. -/
theorem met_of_requests {role : Role} {posed : Posed role} (hW : posed.state.WellFormed)
    (hRequests : ∀ c, posed.Requests c → Ends c) : Met posed ∨ ∃ path, posed.TurnsTo path := by
  obtain ⟨n, demand, h⟩ := posed
  cases demand with
  | get key =>
    obtain ⟨fuel, r, hRun⟩ := hRequests _ .get
    exact Or.inl ⟨fuel, r, fun _ => hRun⟩
  | getAs key interface =>
    obtain ⟨fuel, ⟨outcome, h'⟩, hRun⟩ := hRequests _ .getAs
    refine Or.inl ⟨fuel, ?_⟩
    simp only [answer, Run.bind_apply, show obtain fuel n key [] h = _ from hRun]
    cases outcome with
    | error report => exact ⟨_, fun _ => rfl⟩
    | ok value =>
      have hReceived : ∃ r, within (.locating key) (.ofExcept (interface.recover value)) h' = some r :=
        within_ends ⟨_, rfl⟩
      obtain ⟨r, hMet⟩ := hReceived
      exact ⟨r, fun _ => hMet⟩
  | getHandle key =>
    obtain ⟨⟨outcome, h'⟩, hRun⟩ : ∃ r, within (.locating key) (Hierarchy.resolve n key) h = some r :=
      within_ends (resolve_ends hW n key)
    refine Or.inl ⟨0, ?_⟩
    simp only [answer, Run.bind_apply, hRun]
    cases outcome with
    | error report => exact ⟨_, fun _ => rfl⟩
    | ok binding => exact ⟨_, fun _ => rfl⟩
  | getFrom key interface =>
    obtain ⟨fuel, ⟨outcome, h'⟩, hRun⟩ := hRequests _ .getFrom
    refine Or.inl ⟨fuel, ?_⟩
    simp only [answer, Run.bind_apply, show obtain fuel n key [] h = _ from hRun]
    cases outcome with
    | error report => exact ⟨_, fun _ => rfl⟩
    | ok value => exact ⟨_, fun _ => rfl⟩
  | below path => exact Or.inr ⟨path, .below⟩

/-- With enough fuel for each of its demands, a program ends. -/
theorem runProgram_ends : ∀ {role : Role} {answers : Nat → Answers role},
    (∀ {fuel fuel'}, fuel ≤ fuel' → ExtendsAnswers (answers fuel) (answers fuel')) →
      ∀ (program : Program role) (n : InjectorId) (h : Hierarchy),
        (∀ fuel posed, Poses (answers fuel) program n h posed →
          ∃ fuel r, answers fuel posed.injector posed.demand posed.state = some r) →
        ∃ fuel r, runProgram (answers fuel) program n h = some r
  | _, _, _, .finish outcome, _, h, _ => ⟨0, (outcome, h), rfl⟩
  | _, _, hMono, .act update next, n, h, hAll => by
    obtain ⟨fuel, r, hRun⟩ := runProgram_ends hMono (next h.user) n { h with user := update h.user }
      fun fuel posed hPoses => hAll fuel posed (.act hPoses)
    exact ⟨fuel, r, hRun⟩
  | _, answers, hMono, .ask m demand next, n, h, hAll => by
    obtain ⟨first, ⟨reply, h₁⟩, hAnswer⟩ := hAll 0 _ .now
    have hAnswer' : ∀ fuel, answers (max first fuel) (h.reach n m) demand h = some (reply, h₁) := fun fuel =>
      hMono (le_max_left first fuel) _ demand h _ hAnswer
    obtain ⟨second, r, hRest⟩ := runProgram_ends hMono (next reply) n h₁ fun fuel posed hPoses =>
      hAll (max first fuel) posed (.later (hAnswer' fuel) (hPoses.mono (hMono (le_max_right first fuel))))
    refine ⟨max first second, r, ?_⟩
    simp only [runProgram, hAnswer']
    exact below_runProgram (hMono (le_max_right first second)) _ _ _ _ hRest
  | _, answers, hMono, .visit module explicitOnly inside keeps next, n, h, hAll => by
    rcases hCreated : h.create (some n) module explicitOnly with ⟨reports | child, h₁⟩
    · obtain ⟨fuel, r, hRest⟩ := runProgram_ends hMono (next (.error reports)) n h₁ fun fuel posed hPoses =>
        hAll fuel posed (.refused hCreated hPoses)
      exact ⟨fuel, r, (runProgram_refused hCreated).trans hRest⟩
    · obtain ⟨first, ⟨outcome, h₂⟩, hInside⟩ := runProgram_ends hMono (inside child) child h₁ fun fuel posed hPoses =>
        hAll fuel posed (.inside hCreated hPoses)
      have hInside' : ∀ fuel, runProgram (answers (max first fuel)) (inside child) child h₁ = some (outcome, h₂) :=
        fun fuel => below_runProgram (hMono (le_max_left first fuel)) _ _ _ _ hInside
      obtain ⟨second, r, hRest⟩ := runProgram_ends hMono (next (.ok outcome)) n _ fun fuel posed hPoses =>
        hAll (max first fuel) posed
          (.outside hCreated (hInside' fuel) (hPoses.mono (hMono (le_max_right first fuel))))
      refine ⟨max first second, r, ?_⟩
      simp only [runProgram, hCreated, hInside']
      exact below_runProgram (hMono (le_max_right first second)) _ _ _ _ hRest

/-- A program that makes an instance, or looks at one, ends if its demands are met. -/
theorem runBody_ends {program : Program .body}
    (hMet : ∀ fuel posed, Poses (bodyAnswers (obtain fuel)) program n h posed → Met posed) :
    ∃ fuel r, runBody (obtain fuel) program n h = some r := by
  let answers (fuel : Nat) : Answers .body := bodyAnswers (obtain fuel)
  have hMono : ∀ {fuel fuel'}, fuel ≤ fuel' → ExtendsAnswers (answers fuel) (answers fuel') := fun hLe =>
    extends_bodyAnswers (obtain_mono hLe)
  refine runProgram_ends hMono program n h fun fuel posed hPoses => ?_
  obtain ⟨fuel', r, hAnswer⟩ := hMet fuel posed hPoses
  exact ⟨fuel', r, hAnswer _⟩

theorem runHooks_ends {key : Key} {hooks : List Hook} {value : Instance}
    (hMet : ∀ fuel posed, HooksPose (obtain fuel) n key hooks value h posed → Met posed) :
    ∃ fuel r, runHooks (obtain fuel) n key hooks value h = some r := by
  induction hooks generalizing value h with
  | nil => exact ⟨0, _, rfl⟩
  | cons hook rest ih =>
    by_cases hApplies : hook.applies key
    · obtain ⟨first, ⟨outcome, h₁⟩, hHook⟩ := runBody_ends fun fuel posed hPoses =>
        hMet fuel posed (.now hApplies hPoses)
      have hHook' : ∀ fuel, runBody (obtain (max first fuel)) (hook.intercept key value) n h = some (outcome, h₁) :=
        fun fuel => below_runBody (obtain_mono (le_max_left first fuel)) _ _ _ _ hHook
      simp only [runHooks, hApplies, if_true]
      cases outcome with
      | error report => exact ⟨first, _, bind_eq_some_iff.mpr (Or.inr ⟨report, h₁, hHook, rfl⟩)⟩
      | ok value' =>
        obtain ⟨second, r, hRest⟩ := ih fun fuel posed hPoses => hMet (max first fuel) posed
          (.later hApplies (hHook' fuel) (hPoses.mono (obtain_mono (le_max_right first fuel))))
        refine ⟨max first second, r, bind_eq_some_iff.mpr (Or.inl ⟨value', h₁, hHook' second, ?_⟩)⟩
        exact below_runHooks (obtain_mono (le_max_right first second)) n key rest value' _ _ hRest
    · obtain ⟨fuel, r, hRest⟩ := ih fun fuel posed hPoses => hMet fuel posed (.skipped hApplies hPoses)
      refine ⟨fuel, r, ?_⟩
      rw [runHooks, if_neg hApplies, hRest]

/-- With enough fuel for each of the requests, requests one after another end. -/
theorem requests_end {keys : List Key} (hAll : ∀ fuel before dependency after arguments h',
      keys = before ++ dependency :: after →
      forEach (fun key => obtain fuel n key path) before h = some (.ok arguments, h') →
        Ends ⟨n, dependency, path, h'⟩) :
    ∃ fuel r, forEach (fun key => obtain fuel n key path) keys h = some r := by
  induction keys generalizing h with
  | nil => exact ⟨0, _, rfl⟩
  | cons key rest ih =>
    obtain ⟨first, ⟨outcome, h₁⟩, hFirst⟩ := hAll 0 [] key rest [] h rfl rfl
    replace hFirst : obtain first n key path h = some (outcome, h₁) := hFirst
    cases outcome with
    | error report => exact ⟨first, _, bind_eq_some_iff.mpr (Or.inr ⟨report, h₁, hFirst, rfl⟩)⟩
    | ok value =>
      have hFirst' : ∀ fuel, obtain (max first fuel) n key path h = some (.ok value, h₁) := fun fuel =>
        obtain_mono (le_max_left first fuel) n key path h _ hFirst
      obtain ⟨second, r, hRest⟩ := ih (h := h₁) fun fuel before dependency after arguments h' hKeys hBefore => by
        refine hAll (max first fuel) (key :: before) dependency after (value :: arguments) h' (by rw [hKeys]; rfl) ?_
        refine bind_eq_ok_iff.mpr ⟨value, h₁, hFirst' fuel, bind_eq_ok_iff.mpr ⟨arguments, h', ?_, rfl⟩⟩
        exact below_forEach (fun key => obtain_mono (le_max_right first fuel) n key path) _ _ _ hBefore
      refine ⟨max first second, ?_⟩
      refine bind_ends ⟨_, hFirst' second⟩ fun value' h₁' hAgain => ?_
      cases (hFirst' second).symm.trans hAgain
      refine bind_ends ⟨r, ?_⟩ fun _ _ _ => ⟨_, rfl⟩
      exact below_forEach (fun key => obtain_mono (le_max_right first second) n key path) _ _ _ hRest

/-- What has been constructed so far has been constructed with more fuel, too. -/
theorem constructed_ends {constructor : Constructor} {key : Key}
    (hDepends : ∀ fuel c, StrategyDepends (obtain fuel) n path h (.constructed constructor) c → Ends c)
    (hMet : ∀ fuel posed, StrategyPoses (obtain fuel) key n path h (.constructed constructor) posed → Met posed) :
    ∃ fuel r, runStrategy (obtain fuel) key (.constructed constructor) n path h = some r := by
  obtain ⟨first, ⟨supplied, h₁⟩, hArguments⟩ :
      ∃ fuel r, forEach (fun key => obtain fuel n key path) constructor.dependencies h = some r :=
    requests_end fun fuel before dependency after arguments h' hKeys hBefore =>
      hDepends fuel _ (.argument hKeys hBefore)
  cases supplied with
  | error report => exact ⟨first, _, bind_eq_some_iff.mpr (Or.inr ⟨report, h₁, hArguments, rfl⟩)⟩
  | ok arguments =>
    have hSupplied : ∀ {fuel}, first ≤ fuel →
        forEach (fun key => obtain fuel n key path) constructor.dependencies h = some (.ok arguments, h₁) := fun hLe =>
      below_forEach (fun key => obtain_mono hLe n key path) _ _ _ hArguments
    obtain ⟨second, ⟨built, h₂⟩, hBuild⟩ := runBody_ends fun fuel posed hPoses =>
      hMet (max first fuel) posed (.build (hSupplied (le_max_left first fuel))
        (hPoses.mono (extends_bodyAnswers (obtain_mono (le_max_right first fuel)))))
    have hBuilt : ∀ {fuel}, second ≤ fuel →
        runBody (obtain fuel) (constructor.build arguments) n h₁ = some (built, h₂) := fun hLe =>
      below_runBody (obtain_mono hLe) _ _ _ _ hBuild
    have hLeft := le_max_left first second
    have hRight := le_max_right first second
    cases built with
    | error report =>
      refine ⟨max first second, (.error report, h₂), ?_⟩
      refine bind_eq_some_iff.mpr (Or.inl ⟨arguments, h₁, hSupplied hLeft, ?_⟩)
      exact bind_eq_some_iff.mpr (Or.inr ⟨report, h₂, hBuilt hRight, rfl⟩)
    | ok value =>
      obtain ⟨third, r, hHooks⟩ := runHooks_ends fun fuel posed hPoses => hMet (max (max first second) fuel) posed
        (.hook (hSupplied (hLeft.trans (le_max_left _ fuel))) (hBuilt (hRight.trans (le_max_left _ fuel)))
          (hPoses.mono (obtain_mono (le_max_right _ fuel))))
      have hBefore := le_max_left (max first second) third
      refine ⟨max (max first second) third, r,
        bind_eq_some_iff.mpr (Or.inl ⟨arguments, h₁, hSupplied (hLeft.trans hBefore), ?_⟩)⟩
      refine bind_eq_some_iff.mpr (Or.inl ⟨value, h₂, hBuilt (hRight.trans hBefore), ?_⟩)
      exact below_runHooks (obtain_mono (le_max_right _ third)) n key _ value _ _ hHooks

theorem runStrategy_ends {strategy : Strategy} {key : Key}
    (hDepends : ∀ fuel c, StrategyDepends (obtain fuel) n path h strategy c → Ends c)
    (hMet : ∀ fuel posed, StrategyPoses (obtain fuel) key n path h strategy posed → Met posed) :
    ∃ fuel r, runStrategy (obtain fuel) key strategy n path h = some r := by
  cases strategy with
  | fixed value => exact ⟨0, _, rfl⟩
  | linked target => exact hDepends 0 _ .linked
  | provided run => exact runBody_ends fun fuel posed hPoses => hMet fuel posed (.provided hPoses)
  | constructed constructor => exact constructed_ends hDepends hMet

/-- When it is the turn of the layers, what is depended on ends, and demands are met that are not on what is below. -/
def Attended (fuel : Nat) (binding : Binding) (turn : Turn) : Prop :=
  (∀ m path state, turn = ⟨[], m, path, state⟩ → ∀ c,
    StrategyDepends (obtain fuel) m path state binding.strategy c → Ends c) ∧
  ∀ role (posed : Posed role), TurnPoses (obtain fuel) binding turn posed → Met posed ∨ ∃ path, posed.TurnsTo path

/-- By induction on the layers: each of them ends if the layers to which it turns do. -/
theorem runLayers_ends {layers : List Layer}
    (hAll : ∀ fuel turn, Turns (obtain fuel) binding.id (runStrategy (obtain fuel) binding.key binding.strategy)
      ⟨layers, n, path, h⟩ turn → Attended fuel binding turn) :
    ∃ fuel r, runLayers (obtain fuel) binding.id (runStrategy (obtain fuel) binding.key binding.strategy) layers n path h
      = some r := by
  induction layers generalizing n path h with
  | nil =>
    refine runStrategy_ends (fun fuel c => (hAll fuel _ .here).1 n path h rfl c) fun fuel posed hPoses => ?_
    rcases (hAll fuel _ .here).2 .body posed (.strategy hPoses) with hMet | ⟨_, ⟨⟩⟩
    exact hMet
  | cons layer below ih =>
    cases layer with
    | once =>
      cases hKept : h.kept.get? (binding.id, below.length) with
      | some value => exact ⟨0, (.ok value, h), by simp only [runLayers, hKept]⟩
      | none =>
        obtain ⟨fuel, ⟨outcome, h'⟩, hRun⟩ := ih fun fuel turn hTurns => hAll fuel turn (.once hKept hTurns)
        refine ⟨fuel, ?_⟩
        simp only [runLayers, hKept, hRun]
        cases outcome with
        | error report => exact ⟨_, rfl⟩
        | ok value => exact ⟨_, rfl⟩
    | around provide =>
      let answers (fuel : Nat) : Answers .scope := scopeAnswers (obtain fuel)
        (runLayers (obtain fuel) binding.id (runStrategy (obtain fuel) binding.key binding.strategy) below)
      have hMono : ∀ {fuel fuel'}, fuel ≤ fuel' → ExtendsAnswers (answers fuel) (answers fuel') := fun hLe =>
        extends_scopeAnswers (obtain_mono hLe) (extends_bindingLayers (obtain_mono hLe) binding below)
      refine runProgram_ends hMono (provide n path) n h fun fuel posed hPoses => ?_
      rcases (hAll fuel _ .here).2 .scope posed (.scope hPoses) with ⟨fuel', r, hAnswer⟩ | ⟨path', ⟨⟩⟩
      · exact ⟨fuel', r, hAnswer _⟩
      · refine ih fun fuel' turn hTurns => ?_
        have hMore := obtain_mono (le_max_right fuel fuel')
        have hSupplied := hAll (max fuel fuel') turn (.around (hPoses.mono (hMono (le_max_left fuel fuel')))
          (hTurns.mono hMore (extends_runStrategy hMore binding.key binding.strategy)))
        refine ⟨fun m path state hBare c hDepends => ?_, fun role posed hPoses => ?_⟩
        · exact hSupplied.1 m path state hBare c (hDepends.mono hMore)
        · exact hSupplied.2 role posed (hPoses.mono hMore)

theorem runBinding_ends
    (hAll : ∀ fuel turn, BindingTurns (obtain fuel) binding path h turn → Attended fuel binding turn) :
    ∃ fuel r, runBinding (obtain fuel) binding path h = some r := by
  by_cases hLive : h.isLive binding.owner = true
  · obtain ⟨fuel, r, hRun⟩ := runLayers_ends fun fuel turn hTurns => hAll fuel turn ⟨hLive, hTurns⟩
    refine ⟨fuel, ?_⟩
    simp only [runBinding, hLive, if_true]
    exact within_ends ⟨r, hRun⟩
  · simp only [runBinding, hLive, if_false, Bool.false_eq_true]
    exact ⟨0, _, rfl⟩

/-- A request ends if whatever the binding takes that it opens. -/
theorem ends_of_supplied (hW : c.state.WellFormed) (hAll : ∀ fuel binding h' turn, c.Opens binding h' →
      BindingTurns (obtain fuel) binding (c.path ++ [c.key]) h' turn → Attended fuel binding turn) : Ends c := by
  by_cases hOnPath : c.key ∈ c.path
  · exact ⟨1, _, Inquiry.answer_of_mem 0 hOnPath⟩
  · obtain ⟨⟨outcome, h'⟩, hResolve⟩ := resolve_ends hW c.injector c.key
    cases outcome with
    | error report => exact ⟨1, _, obtain_error hResolve 0 hOnPath⟩
    | ok binding =>
      obtain ⟨fuel, r, hRun⟩ := runBinding_ends fun fuel turn => hAll fuel binding h' turn ⟨hOnPath, hResolve⟩
      have hAnswer : c.answer (obtain (fuel + 1)) =
          within (.locating c.key) (runBinding (obtain fuel) binding (c.path ++ [c.key])) h' :=
        obtain_of_resolve hResolve fuel hOnPath
      exact ⟨fuel + 1, hAnswer ▸ within_ends ⟨r, hRun⟩⟩

/-- A request at an anchored injector ends if whatever it asks for in turn ends. -/
theorem ends_of_asks (hW : c.state.WellFormed) (hA : Anchored c.state c.injector)
    (hAll : ∀ fuel binding h' c', c.Opens binding h' →
      BindingAsks (obtain fuel) binding (c.path ++ [c.key]) h' c' → Ends c') : Ends c := by
  refine ends_of_supplied hW fun fuel binding h' turn hOpens hTurns => ⟨?_, fun role posed hPoses => ?_⟩
  · rintro m path state rfl c' hDepends
    exact hAll fuel binding h' c' hOpens ⟨_, hTurns, .depends hDepends⟩
  · obtain ⟨hE, hOwner⟩ := hOpens.owner hW hA
    have hTurn := hTurns.amid passage_excursion (stepwise_obtain fuel) ⟨hE.wellFormed hW, hOwner⟩
    have hReady := (hPoses.amid passage_excursion (stepwise_obtain fuel) hTurn.kind).kind
    exact met_of_requests hReady.1 fun c' hRequests =>
      hAll fuel binding h' c' hOpens ⟨turn, hTurns, .posed hPoses hRequests⟩

-- ---------------------------------------------------------------------------
-- Requests that are carried on
-- ---------------------------------------------------------------------------

/-- The keys that may still come up on the path of a request: its own key, and those on which anything depends that is
declared on the path of its injector, but for those that have come up. -/
def room (c : Inquiry) : Finset Key :=
  insert c.key (c.state.dependencyKeys c.injector).toFinset \ c.path.toFinset

/-- For an inquiry that is answered by the binding, another one carries it on: it is for a key on which the binding
depends, at the owner, and on a path that goes on from the first one. -/
structure CarriesOn (c : Inquiry) (binding : Binding) (c' : Inquiry) : Prop where
  injector : c'.injector = binding.owner
  key : c'.key ∈ binding.strategy.dependencies
  path : c'.path = c.path ++ [c.key]

/-- A request that is carried on leaves fewer keys. -/
theorem CarriesOn.room_lt (hCarries : CarriesOn c binding c') (hReach : Reachable c.state)
    (hn : c.state.isLive c.injector = true) (hOpens : c.Opens binding h') (hSteps : Steps h' c'.state)
    (hLive : c'.state.isLive binding.owner = true) : (room c').card < (room c).card := by
  obtain ⟨hInjector, hKey, hPath⟩ := hCarries
  have hW := hReach.wellFormed
  have hStep : Step c.state h' := .resolve hn hOpens.resolved
  have hReach' := hReach.steps (.single hStep)
  have hW' := hReach'.wellFormed
  have hOwned := owned_of_resolve hW hn hOpens.resolved
  -- the declarations on the path of the owner are among those on the path of the one who asked
  have hn' : h'.isLive c.injector = true := ((wellFormed_resolve hW hn hOpens.resolved).2.1.isLive _).trans hn
  have hLater : c'.state.dependencyKeys binding.owner = h'.dependencyKeys binding.owner :=
    (hSteps.continues hW').dependencyKeys hW'.rooted (hReach'.steps hSteps).wellFormed.rooted
      (isLive_of_binding? hOwned.bound) hLive
  have hSame : h'.dependencyKeys c.injector = c.state.dependencyKeys c.injector :=
    (hStep.continues hW).dependencyKeys hW.rooted hW'.rooted hn hn'
  have hSubset : h'.dependencyKeys binding.owner ⊆ c.state.dependencyKeys c.injector :=
    hSame ▸ dependencyKeys_subset hW'.rooted hOwned.onPath
  have hNext : c'.key ∈ c.state.dependencyKeys c.injector :=
    hSubset (mem_dependencyKeys hReach' self_mem_path hOwned.bound hKey)
  refine Finset.card_lt_card (Finset.ssubset_iff_of_subset ?_ |>.mpr ⟨c.key, ?_, ?_⟩)
  · intro key hMem
    simp only [room, Finset.mem_sdiff, Finset.mem_insert, List.mem_toFinset, hPath, hInjector, hLater,
      List.mem_append, not_or] at hMem ⊢
    refine ⟨Or.inr ?_, hMem.2.1⟩
    rcases hMem.1 with rfl | hDeclared
    · exact hNext
    · exact hSubset hDeclared
  · rw [room, Finset.mem_sdiff, List.mem_toFinset]
    exact ⟨Finset.mem_insert_self _ _, hOpens.fresh⟩
  · simp only [room, Finset.mem_sdiff, List.mem_toFinset, hPath, List.mem_append, List.mem_singleton, or_true,
      not_true, and_false, not_false_eq_true]

/-- Requests of a kind end if each of them does, provided that those do to which fewer keys are left. -/
theorem ends_of_room {P : Inquiry → Prop}
    (hStep : ∀ c, P c → (∀ c', P c' → (room c').card < (room c).card → Ends c') → Ends c) (hc : P c) : Ends c := by
  induction hRoom : (room c).card using Nat.strong_induction_on generalizing c with
  | _ size ih =>
    subst hRoom
    exact hStep c hc fun c' hc' hLess => ih _ hLess hc' rfl

end InjectorTree.Provision
