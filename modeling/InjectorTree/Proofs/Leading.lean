import InjectorTree.Provision

/-!
# Where runs lead

What a run does to the state is often best said as a relation between the state in which it begins and the state
that it leaves behind. If the relation can be followed step after step, what the parts of a run follow, all of it
follows.

* `Run.Leads`: from states of a kind, a run leads along a relation; `Leads.bind`, `Leads.within` and `leads_forEach`
  put such runs together.
* `Provision.exists_of_runProgram_ask`, `Provision.runProgram_refused`, `Provision.exists_of_runProgram_opened`: how a
  program that ends goes on.
* `Provision.Passage`: what has to be shown of a relation, so that requests lead along it;
  `Passage.leads_runProgram`, `Passage.leads_runLayers` and `Passage.leads_obtain` say that this is enough, for
  programs, for layers and for requests.
-/

namespace InjectorTree

namespace Run

variable {σ α β : Type} {G : σ → Prop} {R : σ → σ → Prop}

/-- The relation can be followed step after step, and does not lead out of the states of the kind. -/
structure Course (G : σ → Prop) (R : σ → σ → Prop) : Prop where
  refl : ∀ s, R s s
  trans : ∀ {s s' s'' : σ}, R s s' → R s' s'' → R s s''
  stays : ∀ {s s' : σ}, G s → R s s' → G s'

/-- If the run begins in a state of the kind, the relation leads to the state that it leaves behind. -/
def Leads (G : σ → Prop) (R : σ → σ → Prop) (x : Run σ α) : Prop :=
  ∀ s s' outcome, G s → x s = some (outcome, s') → R s s'

theorem Leads.mono {G' : σ → Prop} {x : Run σ α} (hx : Leads G R x) (hG : ∀ {s}, G' s → G s) : Leads G' R x :=
  fun s s' outcome hs hRun => hx s s' outcome (hG hs) hRun

theorem leads_ofExcept (hC : Course G R) (outcome : Except Report α) : Leads G R (ofExcept outcome) := by
  intro s s' outcome' _ hRun
  cases hRun
  exact hC.refl s

theorem leads_pure (hC : Course G R) (a : α) : Leads G R (pure a) :=
  leads_ofExcept hC (.ok a)

theorem Leads.bind (hC : Course G R) {x : Run σ α} {f : α → Run σ β} (hx : Leads G R x)
    (hf : ∀ a, Leads G R (f a)) : Leads G R (x >>= f) := by
  intro s s' outcome hs hRun
  rcases bind_eq_some_iff.mp hRun with ⟨a, s₁, hFirst, hRest⟩ | ⟨report, s₁, hFirst, hEq⟩
  · have hR := hx s s₁ _ hs hFirst
    exact hC.trans hR (hf a s₁ s' _ (hC.stays hs hR) hRest)
  · cases hEq
    exact hx s s' _ hs hFirst

theorem Leads.within {x : Run σ α} (hx : Leads G R x) (frame : Frame) : Leads G R (.within frame x) := by
  intro s s' outcome hs hRun
  rcases within_eq_some_iff.mp hRun with ⟨a, s₁, hInner, hEq⟩ | ⟨report, s₁, hInner, hEq⟩
  · cases hEq
    exact hx s s' _ hs hInner
  · cases hEq
    exact hx s s' _ hs hInner

theorem leads_forEach (hC : Course G R) {f : α → Run σ β} (hf : ∀ a, Leads G R (f a)) (list : List α) :
    Leads G R (forEach f list) := by
  induction list with
  | nil => exact leads_pure hC []
  | cons a rest ih => exact (hf a).bind hC fun b => ih.bind hC fun bs => leads_pure hC (b :: bs)

end Run

namespace Provision

open Run

variable {G : Hierarchy → Prop} {R : Hierarchy → Hierarchy → Prop}

/-- User code may change its state on the way, and layers may keep instances where none were kept in the beginning. -/
structure OpenCourse (G : Hierarchy → Prop) (R : Hierarchy → Hierarchy → Prop) : Prop extends Course G R where
  act : ∀ (h : Hierarchy) (user : UserState), R h { h with user }
  keep : ∀ {h h' : Hierarchy} {number : BindingId} {height : Nat} (value : Instance),
    h.kept.get? (number, height) = none → R h h' → R h { h' with kept := h'.kept.insert (number, height) value }

/-- A request changes nothing for the sake of the hooks it looks up, and goes on with them. -/
theorem leads_get_bind {α : Type} {f : Hierarchy → Run Hierarchy α} (hf : ∀ h, G h → Leads G R (f h)) :
    Leads G R (Run.get >>= f) :=
  fun h h' outcome hG hRun => hf h hG h h' outcome hG hRun

variable {again : Again} {n : InjectorId} {path : List Key} {key : Key}

theorem leads_runHooks (hC : Course G R) {hooks : List Hook}
    (hHooks : ∀ hook ∈ hooks, ∀ value, Leads G R (runBody again (hook.intercept key value) n)) (value : Instance) :
    Leads G R (runHooks again n key hooks value) := by
  induction hooks generalizing value with
  | nil => exact leads_pure hC value
  | cons hook rest ih =>
    obtain ⟨hHook, hRest⟩ := List.forall_mem_cons.mp hHooks
    unfold runHooks
    split
    · exact (hHook value).bind hC fun value => ih hRest value
    · exact ih hRest value

/-- A constructor that gets its arguments leads wherever these lead, and its own function and the hooks. -/
theorem leads_constructed (hC : Course G R) (hAgain : ∀ key, Leads G R (again n key path)) {constructor : Constructor}
    (hBuild : ∀ arguments, Leads G R (runBody again (constructor.build arguments) n))
    (hHooks : ∀ h, G h → ∀ hook ∈ h.hooks n, ∀ value, Leads G R (runBody again (hook.intercept key value) n)) :
    Leads G R (runStrategy again key (.constructed constructor) n path) := by
  refine (leads_forEach hC hAgain _).bind hC fun arguments => (hBuild arguments).bind hC fun value => ?_
  exact leads_get_bind fun h hG => leads_runHooks hC (hHooks h hG) value

/-- A layer that keeps an instance leads wherever those below lead. -/
theorem leads_once (hC : OpenCourse G R) {number : BindingId} {base : Provider} {below : List Layer}
    (hBelow : Leads G R (runLayers again number base below n path)) :
    Leads G R (runLayers again number base (.once :: below) n path) := by
  intro h h' outcome hG hRun
  simp only [runLayers] at hRun
  split at hRun
  · cases hRun
    exact hC.refl h
  · next hNone =>
    split at hRun
    · cases hRun
    · next report h₁ hInner =>
      cases hRun
      exact hBelow h h' _ hG hInner
    · next value h₁ hInner =>
      cases hRun
      exact hC.keep value hNone (hBelow h h₁ _ hG hInner)

-- ---------------------------------------------------------------------------
-- How programs go on
-- ---------------------------------------------------------------------------

section Programs

variable {role : Role} {answers : Answers role} {m child : InjectorId} {h h₁ : Hierarchy} {module : Module}
  {explicitOnly : Bool} {inside : InjectorId → Program role} {keeps : Except Report Instance → Bool}
  {next : Except (List Report) (Except Report Instance) → Program role} {r : Except Report Instance × Hierarchy}

/-- A demand is met, and the program goes on with the reply. -/
theorem exists_of_runProgram_ask {demand : Demand role} {next : Except Report demand.Reply → Program role}
    (hRun : runProgram answers (.ask m demand next) n h = some r) :
    ∃ reply h₁, answers (h.reach n m) demand h = some (reply, h₁) ∧ runProgram answers (next reply) n h₁ = some r := by
  simp only [runProgram] at hRun
  split at hRun
  · cases hRun
  · next reply h₁ hAnswer => exact ⟨reply, h₁, hAnswer, hRun⟩

/-- No child can be opened, and the program is told why. -/
theorem runProgram_refused {reports : List Report}
    (hRefused : h.create (some n) module explicitOnly = (.error reports, h₁)) :
    runProgram answers (.visit module explicitOnly inside keeps next) n h =
      runProgram answers (next (.error reports)) n h₁ := by
  simp only [runProgram, hRefused]

/-- The program inside ends in the child that is opened, and what it comes to decides what becomes of the child. -/
theorem exists_of_runProgram_opened (hCreated : h.create (some n) module explicitOnly = (.ok child, h₁))
    (hRun : runProgram answers (.visit module explicitOnly inside keeps next) n h = some r) :
    ∃ outcome h₂, runProgram answers (inside child) child h₁ = some (outcome, h₂) ∧
      runProgram answers (next (.ok outcome)) n (if keeps outcome then h₂ else h₂.release child) = some r := by
  simp only [runProgram, hCreated] at hRun
  split at hRun
  · cases hRun
  · next outcome h₂ hInside => exact ⟨outcome, h₂, hInside, hRun⟩

end Programs

-- ---------------------------------------------------------------------------
-- Requests
-- ---------------------------------------------------------------------------

/-- Something happens in the course of what the first injector does from the first state on: what the second injector
does, from the second state on. -/
structure Amid (G : InjectorId → Hierarchy → Prop) (R : InjectorId → Hierarchy → Hierarchy → Prop) (n : InjectorId)
    (h : Hierarchy) (m : InjectorId) (h' : Hierarchy) : Prop where
  kind : G m h'
  back : ∀ {h''}, R m h' h'' → R n h h''

/-- What has to be shown of kinds of states and of relations, one of each for every injector, so that the requests of an
injector lead along its relation. What an injector above it does, it can do as well; and so does what happens in a child
that it opens, whether the child is given up afterwards or not. -/
structure Passage (G : InjectorId → Hierarchy → Prop) (R : InjectorId → Hierarchy → Hierarchy → Prop) : Prop where
  course : ∀ n, OpenCourse (G n) (R n)
  above : ∀ {n p : InjectorId} {h : Hierarchy}, G n h → p ∈ h.path n → Amid G R n h p h
  resolved : ∀ {n : InjectorId} {key : Key} {outcome : Except Report Binding} {h h' : Hierarchy}, G n h →
    h.resolve n key = some (outcome, h') → R n h h' ∧ ∀ binding, outcome = .ok binding → binding.owner ∈ h'.path n
  refused : ∀ {n : InjectorId} {module : Module} {explicitOnly : Bool} {reports : List Report} {h h' : Hierarchy}, G n h →
    h.create (some n) module explicitOnly = (.error reports, h') → R n h h'
  opened : ∀ {n child : InjectorId} {module : Module} {explicitOnly : Bool} {h h₁ : Hierarchy}, G n h →
    h.create (some n) module explicitOnly = (.ok child, h₁) →
      G child h₁ ∧ ∀ {h₂}, R child h₁ h₂ → R n h h₂ ∧ R n h (h₂.release child)

/-- All the runs lead along the relations of their injectors. -/
def Throughout (G : InjectorId → Hierarchy → Prop) (R : InjectorId → Hierarchy → Hierarchy → Prop) (again : Again) :
    Prop :=
  ∀ n key path, Leads (G n) (R n) (again n key path)

theorem Amid.trans {G : InjectorId → Hierarchy → Prop} {R : InjectorId → Hierarchy → Hierarchy → Prop}
    {n m p : InjectorId} {h h' h'' : Hierarchy} (hFirst : Amid G R n h m h') (hLater : Amid G R m h' p h'') :
    Amid G R n h p h'' :=
  ⟨hLater.kind, fun hR => hFirst.back (hLater.back hR)⟩

namespace Passage

variable {G : InjectorId → Hierarchy → Prop} {R : InjectorId → Hierarchy → Hierarchy → Prop}

/-- What comes next comes in the course of it. -/
theorem amid (hP : Passage G R) {n : InjectorId} {h h' : Hierarchy} (hG : G n h) (hFirst : R n h h') : Amid G R n h n h' :=
  ⟨(hP.course n).stays hG hFirst, (hP.course n).trans hFirst⟩

theorem course_of_amid (hP : Passage G R) {n m : InjectorId} {h h' : Hierarchy} (hAmid : Amid G R n h m h') : R n h h' :=
  hAmid.back ((hP.course m).refl h')

theorem reach (hP : Passage G R) {n : InjectorId} {h : Hierarchy} (hG : G n h) (m : InjectorId) :
    Amid G R n h (h.reach n m) h := by
  unfold Hierarchy.reach
  split
  · next hAbove => exact hP.above hG hAbove
  · exact ⟨hG, id⟩

theorem leads_answer (hP : Passage G R) (hAgain : Throughout G R again) {role : Role}
    {below : role = .scope → Provider} (hBelow : ∀ hRole n path, Leads (G n) (R n) (below hRole n path))
    (n : InjectorId) (demand : Demand role) : Leads (G n) (R n) (answer again below n demand) := by
  have hC := (hP.course n).toCourse
  cases demand with
  | get key => exact hAgain n key []
  | getAs key interface => exact (hAgain n key []).bind hC fun value => (leads_ofExcept hC _).within _
  | getHandle key =>
    have hResolve : Leads (G n) (R n) (Hierarchy.resolve n key) := fun h h' outcome hG hRun => (hP.resolved hG hRun).1
    exact (hResolve.within _).bind hC fun _ => leads_pure hC ()
  | getFrom key interface => exact (hAgain n key []).bind hC fun value => leads_ofExcept hC _
  | below path => exact hBelow rfl n path

theorem leads_bodyAnswers (hP : Passage G R) (hAgain : Throughout G R again) (n : InjectorId) (demand : Demand .body) :
    Leads (G n) (R n) (bodyAnswers again n demand) :=
  hP.leads_answer hAgain (by rintro ⟨⟩) n demand

theorem leads_scopeAnswers (hP : Passage G R) (hAgain : Throughout G R again) {below : Provider}
    (hBelow : ∀ n path, Leads (G n) (R n) (below n path)) (n : InjectorId) (demand : Demand .scope) :
    Leads (G n) (R n) (scopeAnswers again below n demand) :=
  hP.leads_answer hAgain (fun _ => hBelow) n demand

/-- A program leads where its demands lead, by recursion on the tree that it is. -/
theorem leads_runProgram (hP : Passage G R) : ∀ {role : Role} {answers : Answers role},
    (∀ n demand, Leads (G n) (R n) (answers n demand)) →
      ∀ (program : Program role) (n : InjectorId), Leads (G n) (R n) (runProgram answers program n)
  | _, _, _, .finish outcome, n => leads_ofExcept (hP.course n).toCourse outcome
  | _, _, hAnswers, .act update next, n => by
    intro h h' outcome hG hRun
    have hC := hP.course n
    have hAct := hC.act h (update h.user)
    exact hC.trans hAct (leads_runProgram hP hAnswers (next h.user) n _ h' outcome (hC.stays hG hAct) hRun)
  | _, _, hAnswers, .ask m demand next, n => by
    intro h h' outcome hG hRun
    obtain ⟨reply, h₁, hAsk, hRest⟩ := exists_of_runProgram_ask hRun
    have hC := hP.course n
    have hReach := hP.reach hG m
    have hAsked := hReach.back (hAnswers _ demand h h₁ reply hReach.kind hAsk)
    exact hC.trans hAsked (leads_runProgram hP hAnswers (next reply) n h₁ h' outcome (hC.stays hG hAsked) hRest)
  | _, _, hAnswers, .visit module explicitOnly inside keeps next, n => by
    intro h h' outcome hG hRun
    have hC := hP.course n
    rcases hCreated : h.create (some n) module explicitOnly with ⟨reports | child, h₁⟩
    · rw [runProgram_refused hCreated] at hRun
      have hFirst := hP.refused hG hCreated
      exact hC.trans hFirst (leads_runProgram hP hAnswers _ n h₁ h' outcome (hC.stays hG hFirst) hRun)
    · obtain ⟨inner, h₂, hInside, hRest⟩ := exists_of_runProgram_opened hCreated hRun
      obtain ⟨hChild, hAfter⟩ := hP.opened hG hCreated
      have hInner := hAfter (leads_runProgram hP hAnswers (inside child) child h₁ h₂ inner hChild hInside)
      have hFirst : R n h (if keeps inner then h₂ else h₂.release child) := by
        split
        · exact hInner.1
        · exact hInner.2
      exact hC.trans hFirst (leads_runProgram hP hAnswers _ n _ h' outcome (hC.stays hG hFirst) hRest)

section

variable (hP : Passage G R) (hAgain : Throughout G R again)
include hP hAgain

theorem leads_runBody (program : Program .body) (n : InjectorId) : Leads (G n) (R n) (runBody again program n) :=
  hP.leads_runProgram (hP.leads_bodyAnswers hAgain) program n

theorem leads_runStrategy (key : Key) (strategy : Strategy) (n : InjectorId) (path : List Key) :
    Leads (G n) (R n) (runStrategy again key strategy n path) := by
  have hC := (hP.course n).toCourse
  cases strategy with
  | fixed value => exact leads_pure hC value
  | linked target => exact hAgain n target path
  | provided run => exact hP.leads_runBody hAgain (run n path) n
  | constructed constructor =>
    exact leads_constructed hC (fun key => hAgain n key path) (fun _ => hP.leads_runBody hAgain _ n)
      fun _ _ _ _ _ => hP.leads_runBody hAgain _ n

/-- By induction on the layers: each of them may turn to those below. -/
theorem leads_runLayers (number : BindingId) {base : Provider} (hBase : ∀ n path, Leads (G n) (R n) (base n path))
    (layers : List Layer) (n : InjectorId) (path : List Key) :
    Leads (G n) (R n) (runLayers again number base layers n path) := by
  induction layers generalizing n path with
  | nil => exact hBase n path
  | cons layer below ih =>
    cases layer with
    | once => exact leads_once (hP.course n) (ih n path)
    | around provide => exact hP.leads_runProgram (hP.leads_scopeAnswers hAgain ih) (provide n path) n

theorem leads_runBinding (binding : Binding) (path : List Key) :
    Leads (G binding.owner) (R binding.owner) (runBinding again binding path) := by
  intro h h' outcome hG hRun
  simp only [runBinding] at hRun
  split at hRun
  · have hLayers := hP.leads_runLayers hAgain binding.id (hP.leads_runStrategy hAgain binding.key binding.strategy)
      binding.layers binding.owner path
    exact hLayers.within _ h h' outcome hG hRun
  · cases hRun
    exact (hP.course binding.owner).refl h

theorem leads_request (n : InjectorId) (key : Key) (path : List Key) :
    Leads (G n) (R n) (request again n key path) := by
  have hC := (hP.course n).toCourse
  refine Leads.within ((leads_ofExcept hC _).bind hC fun path' => ?_) _
  intro h h' outcome hG hRun
  rcases bind_eq_some_iff.mp hRun with ⟨binding, h₁, hResolve, hRest⟩ | ⟨report, h₁, hResolve, hEq⟩
  · obtain ⟨hFirst, hOwner⟩ := hP.resolved hG hResolve
    obtain ⟨hG₁, hUp⟩ := hP.above (hC.stays hG hFirst) (hOwner binding rfl)
    exact hC.trans hFirst (hUp (hP.leads_runBinding hAgain binding path' h₁ h' outcome hG₁ hRest))
  · cases hEq
    exact (hP.resolved hG hResolve).1

end

/-- Requests lead along the relation, by induction on how deeply they are nested. -/
theorem leads_obtain (hP : Passage G R) (fuel : Nat) : Throughout G R (obtain fuel) := by
  induction fuel with
  | zero =>
    intro n key path h h' outcome _ hRun
    cases hRun
  | succ fuel ih => exact hP.leads_request ih

theorem leads_getAs (hP : Passage G R) (fuel : Nat) (n : InjectorId) (key : Key) (interface : Interface) :
    Leads (G n) (R n) (Hierarchy.getAs fuel n key interface) :=
  have hC := (hP.course n).toCourse
  Leads.bind hC (hP.leads_obtain fuel n key []) fun value => (leads_ofExcept hC (interface.recover value)).within _

theorem leads_getHandle (hP : Passage G R) (n : InjectorId) (key : Key) (interface : Interface) :
    Leads (G n) (R n) (Hierarchy.getHandle n key interface) := by
  have hC := (hP.course n).toCourse
  have hResolve : Leads (G n) (R n) (Hierarchy.resolve n key) := fun h h' outcome hG hRun => (hP.resolved hG hRun).1
  exact Leads.bind hC (hResolve.within _) fun binding => leads_pure hC (⟨n, binding, interface⟩ : Handle)

/-- A handle is used at the owner of its binding. -/
theorem leads_getFrom (hP : Passage G R) (fuel : Nat) (handle : Handle) :
    Leads (G handle.binding.owner) (R handle.binding.owner) (Hierarchy.getFrom fuel handle) := by
  have hC := (hP.course handle.binding.owner).toCourse
  refine Leads.bind hC (leads_ofExcept hC (extendPath [] handle.binding.key)) fun path => ?_
  exact Leads.bind hC ((hP.leads_runBinding (hP.leads_obtain fuel) handle.binding path).within _) fun value =>
    leads_ofExcept hC (handle.interface.recover value)

end Passage

end Provision

end InjectorTree
