import InjectorTree.Proofs.Leading
import InjectorTree.Proofs.Reachability

/-!
# Requests are steps

A request runs user code, and user code makes further requests and opens temporary children. However deeply all
this is nested, what happens to the hierarchy is a sequence of steps. The injectors that take part are live all
along, since they are on the path of one that the caller holds: steps of a request give up no hold but those
that they have taken.

* `Excursion`: steps that give up no hold with which they began; `passage_excursion` says that requests are such steps.
* `Stepwise` says so of a run; `stepwise_runProgram` and `stepwise_obtain` of user code and of requests.
* `Operation` is what a caller can do, with what it holds; `Operation.steps` takes it apart into steps.
-/

namespace InjectorTree

namespace Hierarchy

/-- The injector is on the path of one that is held. -/
def Anchored (h : Hierarchy) (n : InjectorId) : Prop :=
  ∃ m ∈ h.holds, n ∈ h.path m

/-- Steps that give up no hold with which they began. -/
structure Excursion (h h' : Hierarchy) : Prop where
  steps : Steps h h'
  holds : h.holds <:+ h'.holds

variable {h h' h'' : Hierarchy} {n p : InjectorId} {key : Key}

theorem Anchored.isLive (hW : h.WellFormed) (hA : Anchored h n) : h.isLive n = true := by
  obtain ⟨m, hm, hn⟩ := hA
  exact hW.rooted.isLive_of_mem_path (hW.rooted.held hm) hn

theorem Anchored.isLive_parent (hW : h.WellFormed) (hA : Anchored h n) : ∀ p, some n = some p → h.isLive p = true := by
  rintro p ⟨⟩
  exact hA.isLive hW

theorem anchored_of_mem_holds (hn : n ∈ h.holds) : Anchored h n :=
  ⟨n, hn, self_mem_path⟩

theorem Anchored.up (hW : h.WellFormed) (hA : Anchored h n) (hp : p ∈ h.path n) : Anchored h p := by
  obtain ⟨m, hm, hn⟩ := hA
  exact ⟨m, hm, hW.rooted.mem_path_trans hn hp⟩

namespace Excursion

protected theorem refl (h : Hierarchy) : Excursion h h :=
  ⟨.refl, List.suffix_refl _⟩

protected theorem trans (hE : Excursion h h') (hE' : Excursion h' h'') : Excursion h h'' :=
  ⟨Relation.ReflTransGen.trans hE.steps hE'.steps, hE.holds.trans hE'.holds⟩

protected theorem single (hStep : Step h h') (hHolds : h'.holds = h.holds) : Excursion h h' :=
  ⟨.single hStep, hHolds ▸ List.suffix_refl _⟩

theorem wellFormed (hW : h.WellFormed) (hE : Excursion h h') : h'.WellFormed :=
  hE.steps.wellFormed hW

/-- User code changes its own state only. -/
protected theorem act (h : Hierarchy) (user : UserState) : Excursion h { h with user } :=
  Excursion.single (.act user) rfl

/-- The injectors above those that are held stay where they are. -/
theorem anchored (hW : h.WellFormed) (hE : Excursion h h') (hA : Anchored h n) : Anchored h' n := by
  obtain ⟨m, hm, hn⟩ := hA
  have hm' : m ∈ h'.holds := hE.holds.subset hm
  have hPath := (hE.steps.continues hW).path_of_held hW.rooted (hE.wellFormed hW).rooted hm hm'
  exact ⟨m, hm', hPath ▸ hn⟩

end Excursion

end Hierarchy

namespace Provision

open Hierarchy

variable {α β : Type} {h h' : Hierarchy} {n : InjectorId} {key : Key} {again : Again}

/-- The run is a sequence of steps that gives up no hold, as long as the injector is anchored. -/
def Stepwise (n : InjectorId) (x : Run Hierarchy α) : Prop :=
  Run.Leads (fun h => h.WellFormed ∧ Anchored h n) Excursion x

theorem Stepwise.excursion {x : Run Hierarchy α} {outcome : Except Report α} (hx : Stepwise n x) (hW : h.WellFormed)
    (hA : Anchored h n) (hRun : x h = some (outcome, h')) : Excursion h h' :=
  hx _ _ _ ⟨hW, hA⟩ hRun

theorem openCourse_excursion (n : InjectorId) :
    OpenCourse (fun h => h.WellFormed ∧ Anchored h n) Excursion where
  refl := Excursion.refl
  trans := Excursion.trans
  stays hStart hE := ⟨hE.wellFormed hStart.1, hE.anchored hStart.1 hStart.2⟩
  act := Excursion.act
  keep _ _ hE := hE.trans (Excursion.single (.keep _ _ _) rfl)

theorem stepwise_ofExcept (n : InjectorId) (outcome : Except Report α) : Stepwise n (.ofExcept outcome) :=
  Run.leads_ofExcept (openCourse_excursion n).toCourse outcome

theorem Stepwise.bind {x : Run Hierarchy α} {f : α → Run Hierarchy β} (hx : Stepwise n x)
    (hf : ∀ a, Stepwise n (f a)) : Stepwise n (x >>= f) :=
  Run.Leads.bind (openCourse_excursion n).toCourse hx hf

theorem Stepwise.within {x : Run Hierarchy α} (hx : Stepwise n x) (frame : Frame) :
    Stepwise n (.within frame x) :=
  Run.Leads.within hx frame

theorem stepwise_forEach {f : α → Run Hierarchy β} (hf : ∀ a, Stepwise n (f a)) (list : List α) :
    Stepwise n (Run.forEach f list) :=
  Run.leads_forEach (openCourse_excursion n).toCourse hf list

/-- The hooks that apply at an injector stay, as long as it lives. -/
theorem hooks_of_steps (hW : h.WellFormed) (hn : h.isLive n = true) (hSteps : Steps h h') (hn' : h'.isLive n = true) :
    h'.hooks n = h.hooks n := by
  have hShape := (hSteps.continues hW).sameShapeOn hW.rooted (hSteps.wellFormed hW).rooted hn hn'
  rw [Hierarchy.hooks, Hierarchy.hooks, hShape.path self_mem_path]
  exact hShape.collect (fun _ => rfl) fun p hp => List.mem_reverse.mp hp

theorem hooks_of_excursion (hW : h.WellFormed) (hA : Anchored h n) (hE : Excursion h h') : h'.hooks n = h.hooks n :=
  hooks_of_steps hW (hA.isLive hW) hE.steps ((hE.anchored hW hA).isLive (hE.wellFormed hW))

-- ---------------------------------------------------------------------------
-- Temporary children
-- ---------------------------------------------------------------------------

/-- A creation that succeeds takes one hold, on the new injector. -/
theorem holds_create {parent : Option InjectorId} {module : Module} {explicitOnly : Bool} {child : InjectorId}
    (hW : h.WellFormed) (hLive : ∀ p, parent = some p → h.isLive p = true)
    (hRun : h.create parent module explicitOnly = (.ok child, h')) : h'.holds = child :: h.holds := by
  obtain ⟨made, injector, bindings, hMarked, -, -, rfl, rfl⟩ := create_ok hW hLive hRun
  have hHolds := (sameShape_foldl_announce bindings (made.planted injector)).holds
  rw [← hMarked.core.holds]
  exact congrArg (made.nextInjector :: ·) hHolds

section Creations

variable {parent : Option InjectorId} {module : Module} {explicitOnly : Bool} {child : InjectorId} {h₁ h₂ : Hierarchy}

theorem excursion_refused {reports : List Report} (hW : h.WellFormed)
    (hLive : ∀ p, parent = some p → h.isLive p = true)
    (hRun : h.create parent module explicitOnly = (.error reports, h')) : Excursion h h' :=
  Excursion.single (step_of_create hLive hRun) (create_error hW hRun).core.holds

theorem wellFormed_created (hW : h.WellFormed) (hLive : ∀ p, parent = some p → h.isLive p = true)
    (hRun : h.create parent module explicitOnly = (.ok child, h₁)) : h₁.WellFormed :=
  (step_of_create hLive hRun).wellFormed hW

/-- Whoever creates an injector holds it. -/
theorem anchored_created (hW : h.WellFormed) (hLive : ∀ p, parent = some p → h.isLive p = true)
    (hRun : h.create parent module explicitOnly = (.ok child, h₁)) : Anchored h₁ child :=
  anchored_of_mem_holds (holds_create hW hLive hRun ▸ List.mem_cons_self)

/-- A child is opened, and something happens inside. -/
theorem excursion_opened (hW : h.WellFormed) (hLive : ∀ p, parent = some p → h.isLive p = true)
    (hRun : h.create parent module explicitOnly = (.ok child, h₁)) (hInside : Excursion h₁ h₂) : Excursion h h₂ := by
  refine ⟨.head (step_of_create hLive hRun) hInside.steps, .trans ?_ hInside.holds⟩
  rw [holds_create hW hLive hRun]
  exact List.suffix_cons child h.holds

/-- When the child is given up again, the hold that is given up is the one that was taken. -/
theorem excursion_visit (hW : h.WellFormed) (hLive : ∀ p, parent = some p → h.isLive p = true)
    (hRun : h.create parent module explicitOnly = (.ok child, h₁)) (hInside : Excursion h₁ h₂) :
    Excursion h (h₂.release child) := by
  have hW₂ := hInside.wellFormed (wellFormed_created hW hLive hRun)
  refine ⟨.tail (excursion_opened hW hLive hRun hInside).steps (.release child), ?_⟩
  have hErased : (h₂.release child).holds = h₂.holds.erase child := holds_release hW₂ child
  obtain ⟨extra, hHolds⟩ := holds_create hW hLive hRun ▸ hInside.holds
  rw [hErased, ← hHolds]
  by_cases hAmong : child ∈ extra
  · rw [List.erase_append_left _ hAmong]
    exact (List.suffix_cons child h.holds).trans (List.suffix_append _ _)
  · rw [List.erase_append_right _ hAmong, List.erase_cons_head]
    exact List.suffix_append _ _

end Creations

-- ---------------------------------------------------------------------------
-- Requests
-- ---------------------------------------------------------------------------

/-- What a key resolves to is owned on the path, so the owner is anchored too. -/
theorem excursion_resolve {outcome : Except Report Binding} (hW : h.WellFormed) (hA : Anchored h n)
    (hRun : h.resolve n key = some (outcome, h')) :
    Excursion h h' ∧ ∀ binding, outcome = .ok binding → Anchored h' binding.owner := by
  have hLive := hA.isLive hW
  have hE : Excursion h h' :=
    Excursion.single (.resolve hLive hRun) (wellFormed_resolve hW hLive hRun).2.1.holds
  refine ⟨hE, ?_⟩
  rintro binding rfl
  exact hE.anchored hW (hA.up hW (owner_mem_path_of_resolve hW hRun))

/-- Requests are excursions: what resolutions place is owned on the path, and children that are given up are those that
were opened. -/
theorem passage_excursion : Passage (fun n h => h.WellFormed ∧ Anchored h n) fun _ => Excursion where
  course := openCourse_excursion
  above hReady hAbove := ⟨⟨hReady.1, hReady.2.up hReady.1 hAbove⟩, id⟩
  resolved hReady hRun := by
    refine ⟨(excursion_resolve hReady.1 hReady.2 hRun).1, ?_⟩
    rintro binding rfl
    have hPath := (wellFormed_resolve hReady.1 (hReady.2.isLive hReady.1) hRun).2.1.path
    exact hPath _ ▸ owner_mem_path_of_resolve hReady.1 hRun
  refused hReady hRefused := excursion_refused hReady.1 (Anchored.isLive_parent hReady.1 hReady.2) hRefused
  opened hReady hCreated := by
    have hLive := Anchored.isLive_parent hReady.1 hReady.2
    refine ⟨⟨wellFormed_created hReady.1 hLive hCreated, anchored_created hReady.1 hLive hCreated⟩, fun hInside => ?_⟩
    exact ⟨excursion_opened hReady.1 hLive hCreated hInside, excursion_visit hReady.1 hLive hCreated hInside⟩

/-- A program steps if what it demands does. -/
theorem stepwise_runProgram {role : Role} {answers : Answers role} (hAnswers : ∀ n demand, Stepwise n (answers n demand))
    (program : Program role) (n : InjectorId) : Stepwise n (runProgram answers program n) :=
  passage_excursion.leads_runProgram hAnswers program n

section Requests

variable (hAgain : ∀ n key path, Stepwise n (again n key path))
include hAgain

theorem stepwise_answer {role : Role} {below : role = .scope → Provider}
    (hBelow : ∀ hRole n path, Stepwise n (below hRole n path)) (n : InjectorId) (demand : Demand role) :
    Stepwise n (answer again below n demand) :=
  passage_excursion.leads_answer hAgain hBelow n demand

theorem stepwise_runBody (program : Program .body) (n : InjectorId) : Stepwise n (runBody again program n) :=
  passage_excursion.leads_runBody hAgain program n

theorem stepwise_runStrategy (key : Key) (strategy : Strategy) (n : InjectorId) (path : List Key) :
    Stepwise n (runStrategy again key strategy n path) :=
  passage_excursion.leads_runStrategy hAgain key strategy n path

theorem stepwise_runLayers (number : BindingId) {base : Provider} (hBase : ∀ n path, Stepwise n (base n path))
    (layers : List Layer) (n : InjectorId) (path : List Key) :
    Stepwise n (runLayers again number base layers n path) :=
  passage_excursion.leads_runLayers hAgain number hBase layers n path

theorem stepwise_runBinding (binding : Binding) (path : List Key) :
    Stepwise binding.owner (runBinding again binding path) :=
  passage_excursion.leads_runBinding hAgain binding path

end Requests

/-- A request is a sequence of steps, however deeply requests are nested in it. -/
theorem stepwise_obtain (fuel : Nat) : ∀ n key path, Stepwise n (obtain fuel n key path) :=
  passage_excursion.leads_obtain fuel

theorem stepwise_getInstance (fuel : Nat) (n : InjectorId) (key : Key) : Stepwise n (getInstance fuel n key) :=
  stepwise_obtain fuel n key []

theorem stepwise_getAs (fuel : Nat) (n : InjectorId) (key : Key) (interface : Interface) :
    Stepwise n (getAs fuel n key interface) :=
  passage_excursion.leads_getAs fuel n key interface

/-- A handle is to what its key resolves to. -/
theorem getHandle_eq_ok_iff {interface : Interface} {handle : Handle} :
    getHandle n key interface h = some (.ok handle, h') ↔
      ∃ binding, h.resolve n key = some (.ok binding, h') ∧ handle = ⟨n, binding, interface⟩ := by
  unfold getHandle
  rw [Run.bind_eq_ok_iff]
  constructor
  · rintro ⟨binding, h₁, hResolve, hPure⟩
    cases hPure
    exact ⟨binding, Run.within_eq_ok_iff.mp hResolve, rfl⟩
  · rintro ⟨binding, hResolve, rfl⟩
    exact ⟨binding, h', Run.within_eq_ok_iff.mpr hResolve, rfl⟩

/-- Whoever asks for a handle is told why the key cannot be resolved. -/
theorem getHandle_error {interface : Interface} {report : Report}
    (hRun : h.resolve n key = some (.error report, h')) :
    getHandle n key interface h = some (.error (report.within (.locating key)), h') :=
  Run.bind_eq_error_iff.mpr (Or.inl (Run.within_eq_error_iff.mpr ⟨report, hRun, rfl⟩))

/-- A key that is on its path is refused, and nothing else happens. -/
theorem obtain_of_mem (fuel : Nat) {path : List Key} (hPath : key ∈ path) :
    obtain (fuel + 1) n key path h =
      some (.error ((Report.of (.cycleDetected key (path ++ [key]))).within (.locating key)), h) := by
  refine Run.within_eq_error_iff.mpr ⟨_, Run.bind_eq_error_iff.mpr (Or.inl ?_), rfl⟩
  rw [extendPath, if_pos hPath, Run.ofExcept_apply]

/-- A request for a key that is not on its path turns to the binding that the key resolves to. -/
theorem obtain_eq (fuel : Nat) {path : List Key} (hPath : key ∉ path) :
    obtain (fuel + 1) n key path =
      Run.within (.locating key)
        (resolve n key >>= fun binding => runBinding (obtain fuel) binding (path ++ [key])) := by
  have hExtended : extendPath path key = .ok (path ++ [key]) := if_neg hPath
  simp only [obtain, request, hExtended]
  rfl

theorem obtain_of_resolve (hRun : h.resolve n key = some (.ok binding, h')) (fuel : Nat) {path : List Key}
    (hPath : key ∉ path) :
    obtain (fuel + 1) n key path h =
      Run.within (.locating key) (runBinding (obtain fuel) binding (path ++ [key])) h' := by
  rw [obtain_eq fuel hPath]
  unfold Run.within
  rw [Run.bind_apply, hRun]

/-- Whoever asks for an instance is told why the key cannot be resolved, too. -/
theorem obtain_error {report : Report} (hRun : h.resolve n key = some (.error report, h')) (fuel : Nat)
    {path : List Key} (hPath : key ∉ path) :
    obtain (fuel + 1) n key path h = some (.error (report.within (.locating key)), h') := by
  rw [obtain_eq fuel hPath]
  exact Run.within_eq_error_iff.mpr ⟨report, Run.bind_eq_error_iff.mpr (Or.inl hRun), rfl⟩

theorem getInstance_error (fuel : Nat) {report : Report} (hRun : h.resolve n key = some (.error report, h')) :
    getInstance (fuel + 1) n key h = some (.error (report.within (.locating key)), h') :=
  obtain_error hRun fuel List.not_mem_nil

theorem stepwise_getHandle (n : InjectorId) (key : Key) (interface : Interface) :
    Stepwise n (getHandle n key interface) :=
  passage_excursion.leads_getHandle n key interface

/-- The path of a handle's request begins with the key of its binding. -/
theorem getFrom_eq (fuel : Nat) (handle : Handle) :
    getFrom fuel handle =
      (Run.within (.locating handle.binding.key) (runBinding (obtain fuel) handle.binding [handle.binding.key]) >>=
        fun value => .ofExcept (handle.interface.recover value)) := by
  have hPath : extendPath [] handle.binding.key = .ok [handle.binding.key] := if_neg List.not_mem_nil
  unfold getFrom
  simp only [hPath]
  rfl

theorem stepwise_getFrom (fuel : Nat) (handle : Handle) : Stepwise handle.binding.owner (getFrom fuel handle) :=
  passage_excursion.leads_getFrom fuel handle

end Provision

namespace Hierarchy

open Provision

-- ---------------------------------------------------------------------------
-- What callers do
-- ---------------------------------------------------------------------------

/-- What can be done by a caller who holds injectors, and handles to the bindings that were resolved from
them. -/
inductive Operation : Hierarchy → Hierarchy → Prop
  | create {h : Hierarchy} {parent : Option InjectorId} {module : Module} {explicitOnly : Bool}
      (hHeld : ∀ p, parent = some p → p ∈ h.holds) : Operation h (h.create parent module explicitOnly).2
  | getInstance {h h' : Hierarchy} {fuel : Nat} {n : InjectorId} {key : Key}
      {outcome : Except Report Instance} (hHeld : n ∈ h.holds)
      (hRun : getInstance fuel n key h = some (outcome, h')) : Operation h h'
  | getAs {h h' : Hierarchy} {fuel : Nat} {n : InjectorId} {key : Key} {interface : Interface}
      {outcome : Except Report Instance} (hHeld : n ∈ h.holds)
      (hRun : getAs fuel n key interface h = some (outcome, h')) : Operation h h'
  | getHandle {h h' : Hierarchy} {n : InjectorId} {key : Key} {interface : Interface}
      {outcome : Except Report Handle} (hHeld : n ∈ h.holds)
      (hRun : getHandle n key interface h = some (outcome, h')) : Operation h h'
  | getFrom {h h' : Hierarchy} {fuel : Nat} {handle : Handle} {outcome : Except Report Instance}
      (hHeld : handle.injector ∈ h.holds) (hOwner : handle.binding.owner ∈ h.path handle.injector)
      (hRun : getFrom fuel handle h = some (outcome, h')) : Operation h h'
  | findScope {h : Hierarchy} (n : InjectorId) (tag : ScopeTag) : Operation h (h.findScope n tag).2
  | clone {h : Hierarchy} {n : InjectorId} (hHeld : n ∈ h.holds) : Operation h (h.hold n)
  | drop {h : Hierarchy} (n : InjectorId) : Operation h (h.release n)

variable {h h' : Hierarchy}

/-- An operation of a caller is a sequence of steps. -/
theorem Operation.steps (hW : h.WellFormed) (hO : Operation h h') : Steps h h' := by
  cases hO with
  | create hHeld => exact .single (.create fun p hp => hW.rooted.held (hHeld p hp))
  | getInstance hHeld hRun =>
    exact ((stepwise_getInstance _ _ _).excursion hW (anchored_of_mem_holds hHeld) hRun).steps
  | getAs hHeld hRun => exact ((stepwise_getAs _ _ _ _).excursion hW (anchored_of_mem_holds hHeld) hRun).steps
  | getHandle hHeld hRun =>
    exact ((stepwise_getHandle _ _ _).excursion hW (anchored_of_mem_holds hHeld) hRun).steps
  | getFrom hHeld hOwner hRun =>
    exact ((stepwise_getFrom _ _).excursion hW ((anchored_of_mem_holds hHeld).up hW hOwner) hRun).steps
  | findScope n tag => exact .single (.findScope n tag)
  | clone hHeld => exact .single (.hold (hW.rooted.held hHeld))
  | drop n => exact .single (.release n)

/-- So callers get to reachable states only. -/
theorem Reachable.operation (hReach : Reachable h) (hO : Operation h h') : Reachable h' :=
  hReach.steps (hO.steps hReach.wellFormed)

end Hierarchy

end InjectorTree
