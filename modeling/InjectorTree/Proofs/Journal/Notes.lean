import InjectorTree.Hierarchy.Basic
import InjectorTree.Proofs.Runs

/-!
# Journals

Much of what happens in a run leaves no mark in the state after it: that a scope was applied, that a constructor was
run, that a request came to a binding. A journal tells of it, in the order in which it happened. A run with notes is the
run itself, on a state that has a journal beside it.

* `Deed`: what is done to construct an instance; `Entry`: what journals tell of.
* `quietly`, `note`, `noting`: runs with notes.
* `Tells`: the run with notes is the run without them, if the journal is forgotten.
-/

namespace InjectorTree

/-- What is done to construct an instance of a binding, and what has come of it. -/
inductive Deed
  /-- An argument was asked for, under a key on which the constructor depends. -/
  | supplied (binding : Binding) (dependency : Key) (outcome : Except Report Instance)
  /-- The constructor was called with arguments. -/
  | built (binding : Binding) (arguments : List Instance) (outcome : Except Report Instance)
  /-- A hook was called to look at an instance. -/
  | hooked (binding : Binding) (hook : Hook) (value : Instance) (outcome : Except Report Instance)

/-- The binding for which it is done. -/
def Deed.binding : Deed → Binding
  | .supplied binding _ _ => binding
  | .built binding _ _ => binding
  | .hooked binding _ _ _ => binding

/-- What has come of it. -/
def Deed.outcome : Deed → Except Report Instance
  | .supplied _ _ outcome => outcome
  | .built _ _ outcome => outcome
  | .hooked _ _ _ outcome => outcome

/-- What a journal tells of. -/
inductive Entry
  /-- A binding was made. If it is in a scope, the scope was applied to its key then. -/
  | made (binding : Binding)
  /-- A binding came to belong to its owner. -/
  | owned (binding : Binding)
  /-- A program asked for an instance. -/
  | asked (key : Key)
  /-- A program that a scope has put around a provider turned to that provider, with another path than it was given. -/
  | strayed (path : List Key)
  /-- A request came to a binding, or a handle to it was used. -/
  | reached (number : BindingId)
  /-- The strategy of a binding was turned to, below all of its layers. -/
  | began (number : BindingId)
  /-- Something was done to construct an instance of a binding. -/
  | did (deed : Deed)
  /-- The strategy of a binding came to an end. -/
  | ended (number : BindingId) (outcome : Except Report Instance)
  /-- A binding has provided an instance, or has failed to. -/
  | answered (number : BindingId) (outcome : Except Report Instance)

/-- Entries, oldest first. -/
abbrev Journal := List Entry

/-- The binding that was made. -/
def Entry.made? : Entry → Option Binding
  | .made binding => some binding
  | _ => none

/-- The binding that came to belong to its owner. -/
def Entry.owned? : Entry → Option Binding
  | .owned binding => some binding
  | _ => none

/-- The binding to whose instances the entry refers. -/
def Entry.number? : Entry → Option BindingId
  | .made _ => none
  | .owned _ => none
  | .asked _ => none
  | .strayed _ => none
  | .reached number => some number
  | .began number => some number
  | .did deed => some deed.binding.id
  | .ended number _ => some number
  | .answered number _ => some number

/-- What was done to construct an instance. -/
def Entry.deed? : Entry → Option Deed
  | .did deed => some deed
  | _ => none

namespace Journal

/-- The bindings that were made, oldest first. -/
def made (journal : Journal) : List Binding := journal.filterMap Entry.made?

/-- The bindings that came to belong to their owners. -/
def owned (journal : Journal) : List Binding := journal.filterMap Entry.owned?

/-- What was done to construct instances, in the order in which it was done. -/
def deeds (journal : Journal) : List Deed := journal.filterMap Entry.deed?

/-- The bindings for which scopes were applied, in the order in which that was done. -/
def wrapped (journal : Journal) : List Binding := journal.made.filter (·.scope.isSome)

variable (journal later : Journal) (bindings : List Binding)

@[simp] theorem made_append : made (journal ++ later) = made journal ++ made later := List.filterMap_append

@[simp] theorem owned_append : owned (journal ++ later) = owned journal ++ owned later := List.filterMap_append

@[simp] theorem deeds_append : deeds (journal ++ later) = deeds journal ++ deeds later := List.filterMap_append

@[simp] theorem made_map_made : made (bindings.map .made) = bindings := by
  rw [made, List.filterMap_map]
  exact List.filterMap_some

@[simp] theorem owned_map_owned : owned (bindings.map .owned) = bindings := by
  rw [owned, List.filterMap_map]
  exact List.filterMap_some

@[simp] theorem made_map_owned : made (bindings.map .owned) = [] :=
  List.filterMap_eq_nil_iff.mpr fun _ hMem => by
    obtain ⟨binding, -, rfl⟩ := List.mem_map.mp hMem
    rfl

@[simp] theorem owned_map_made : owned (bindings.map .made) = [] :=
  List.filterMap_eq_nil_iff.mpr fun _ hMem => by
    obtain ⟨binding, -, rfl⟩ := List.mem_map.mp hMem
    rfl

end Journal

-- ---------------------------------------------------------------------------
-- Runs with notes
-- ---------------------------------------------------------------------------

namespace Run

variable {σ α β : Type}

/-- The run, of which nothing is noted. -/
def quietly (x : Run σ α) : Run (σ × Journal) α := fun s =>
  match x s.1 with
  | none => none
  | some (outcome, s') => some (outcome, s', s.2)

/-- Makes an entry. -/
def note (entry : Entry) : Run (σ × Journal) Unit := fun s => some (.ok (), s.1, s.2 ++ [entry])

/-- The run, and an entry about how it has ended. -/
def noting (entry : Except Report α → Entry) (x : Run (σ × Journal) α) : Run (σ × Journal) α := fun s =>
  match x s with
  | none => none
  | some (outcome, s', journal) => some (outcome, s', journal ++ [entry outcome])

theorem note_bind (entry : Entry) (x : Unit → Run (σ × Journal) α) (s : σ × Journal) :
    (note entry >>= x) s = x () (s.1, s.2 ++ [entry]) := rfl

theorem quietly_eq_some_iff {x : Run σ α} {s : σ × Journal} {outcome : Except Report α} {s' : σ × Journal} :
    quietly x s = some (outcome, s') ↔ x s.1 = some (outcome, s'.1) ∧ s'.2 = s.2 := by
  unfold quietly
  rcases x s.1 with _ | ⟨outcome', s₁⟩
  · simp
  · obtain ⟨s', journal⟩ := s'
    simp only [Option.some.injEq, Prod.mk.injEq]
    constructor
    · rintro ⟨rfl, rfl, rfl⟩
      exact ⟨⟨rfl, rfl⟩, rfl⟩
    · rintro ⟨⟨rfl, rfl⟩, rfl⟩
      exact ⟨rfl, rfl, rfl⟩

theorem noting_eq_some_iff {entry : Except Report α → Entry} {x : Run (σ × Journal) α} {s : σ × Journal}
    {outcome : Except Report α} {s' : σ × Journal} :
    noting entry x s = some (outcome, s') ↔
      ∃ journal, x s = some (outcome, s'.1, journal) ∧ s'.2 = journal ++ [entry outcome] := by
  unfold noting
  rcases x s with _ | ⟨outcome', s₁, journal⟩
  · simp
  · obtain ⟨s', journal'⟩ := s'
    simp only [Option.some.injEq, Prod.mk.injEq]
    constructor
    · rintro ⟨rfl, rfl, rfl⟩
      exact ⟨journal, ⟨rfl, rfl, rfl⟩, rfl⟩
    · rintro ⟨_, ⟨rfl, rfl, rfl⟩, rfl⟩
      exact ⟨rfl, rfl, rfl⟩

/-- The run with notes does what the run does. -/
def Tells (x' : Run (σ × Journal) α) (x : Run σ α) : Prop :=
  ∀ s journal, Match Eq (fun s s' => s'.1 = s) (x s) (x' (s, journal))

variable {x : Run σ α} {x' : Run (σ × Journal) α}

theorem tells_quietly (x : Run σ α) : Tells (quietly x) x := by
  intro s journal
  unfold quietly
  rcases x s with _ | ⟨report | a, s'⟩
  · exact .endless
  · exact .error rfl
  · exact .ok rfl rfl

theorem tells_ofExcept (outcome : Except Report α) : Tells (ofExcept outcome) (ofExcept outcome : Run σ α) := by
  intro s journal
  cases outcome with
  | error report => exact .error rfl
  | ok a => exact .ok rfl rfl

theorem tells_pure (a : α) : Tells (pure a) (pure a : Run σ α) :=
  tells_ofExcept (.ok a)

theorem Tells.bind {f : α → Run σ β} {f' : α → Run (σ × Journal) β} (hx : Tells x' x)
    (hf : ∀ a, Tells (f' a) (f a)) : Tells (x' >>= f') (x >>= f) := by
  intro s journal
  refine Match.bind (hx s journal) (fun _ _ hSame => hSame) ?_
  rintro a _ _ ⟨s', journal'⟩ rfl rfl
  exact hf a s' journal'

theorem Tells.within (hx : Tells x' x) (frame : Frame) : Tells (within frame x') (within frame x) :=
  fun s journal => (hx s journal).within frame

theorem tells_forEach {f : β → Run σ α} {f' : β → Run (σ × Journal) α} (hf : ∀ b, Tells (f' b) (f b))
    (list : List β) : Tells (forEach f' list) (forEach f list) := by
  induction list with
  | nil => exact tells_pure []
  | cons b rest ih => exact (hf b).bind fun a => ih.bind fun as => tells_pure (a :: as)

/-- Entries change nothing. -/
theorem Tells.noted (hx : Tells x' x) (entry : Entry) : Tells (note entry >>= fun _ => x') x :=
  fun s journal => hx s (journal ++ [entry])

theorem Tells.noting (hx : Tells x' x) (entry : Except Report α → Entry) : Tells (noting entry x') x := by
  intro s journal
  have hMatch := hx s journal
  unfold Run.noting
  generalize x s = ends at hMatch ⊢
  generalize x' (s, journal) = ends' at hMatch ⊢
  cases hMatch with
  | endless => exact .endless
  | error hSame => exact .error hSame
  | ok hValue hSame => exact .ok hValue hSame

/-- Either both runs have no end, or they end alike. -/
theorem Tells.cases (hx : Tells x' x) (s : σ × Journal) :
    (x s.1 = none ∧ x' s = none) ∨ ∃ outcome s', x s.1 = some (outcome, s'.1) ∧ x' s = some (outcome, s') := by
  rcases (hx s.1 s.2).cases with hEndless | ⟨outcome, _, s', hPlain, hNoted, rfl⟩
  · exact Or.inl hEndless
  · exact Or.inr ⟨outcome, s', hPlain, hNoted⟩

/-- How the run with notes ends, the run ends too. -/
theorem Tells.run (hx : Tells x' x) {s s' : σ × Journal} {outcome : Except Report α}
    (hRun : x' s = some (outcome, s')) : x s.1 = some (outcome, s'.1) := by
  rcases hx.cases s with ⟨-, hNone⟩ | ⟨_, _, hPlain, hNoted⟩
  · rw [hRun] at hNone
    cases hNone
  · rw [hRun] at hNoted
    cases hNoted
    exact hPlain

/-- However the run ends, the run with notes ends so too. -/
theorem Tells.exists_run (hx : Tells x' x) {s s' : σ} {outcome : Except Report α} (hRun : x s = some (outcome, s'))
    (journal : Journal) : ∃ journal', x' (s, journal) = some (outcome, s', journal') := by
  rcases hx.cases (s, journal) with ⟨hNone, -⟩ | ⟨_, ⟨_, journal'⟩, hPlain, hNoted⟩
  · rw [hRun] at hNone
    cases hNone
  · rw [hRun] at hPlain
    cases hPlain
    exact ⟨journal', hNoted⟩

end Run

end InjectorTree
