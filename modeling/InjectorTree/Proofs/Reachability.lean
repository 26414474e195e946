import Mathlib.Logic.Relation
import InjectorTree.Proofs.Continuity

/-!
# Reachable states

Whatever callers and their code do with a hierarchy comes down to a few kinds of steps: injectors are created,
keys are resolved, injectors are held and given up, and in between user code runs, layers keep instances and
scopes are looked up. A state is reachable if such steps lead to it from the hierarchy without injectors, in
any order and whether or not they succeed. The states in which user code finds the hierarchy in the middle of a
request are reachable too.

* `Step.wellFormed`, `Reachable.wellFormed`: every step keeps the hierarchy well-formed, so every reachable state
  is well-formed.
* `Steps.continues`: what steps lead to comes later than what they began with.
-/

namespace InjectorTree.Hierarchy

/-- One step. -/
inductive Step : Hierarchy → Hierarchy → Prop
  /-- A root or a child of a live injector is created, or refused. -/
  | create {h : Hierarchy} {parent : Option InjectorId} {module : Module} {explicitOnly : Bool}
      (hLive : ∀ p, parent = some p → h.isLive p = true) : Step h (h.create parent module explicitOnly).2
  /-- A key is resolved at a live injector, or cannot be. -/
  | resolve {h h' : Hierarchy} {n : InjectorId} {key : Key} {outcome : Except Report Binding}
      (hLive : h.isLive n = true) (hRun : h.resolve n key = some (outcome, h')) : Step h h'
  /-- User code changes its state. -/
  | act {h : Hierarchy} (user : UserState) : Step h { h with user }
  /-- A layer keeps an instance. -/
  | keep {h : Hierarchy} (number : BindingId) (height : Nat) (value : Instance) :
      Step h { h with kept := h.kept.insert (number, height) value }
  /-- A scope is looked up. -/
  | findScope {h : Hierarchy} (n : InjectorId) (tag : ScopeTag) : Step h (h.findScope n tag).2
  /-- A binding is made that nobody owns. -/
  | make {h : Hierarchy} (key : Key) (strategy : Strategy) (scope : Option (ScopeTag × Scope))
      (source : Source) (origin : Origin) (n : InjectorId) :
      Step h (h.makeBinding key strategy scope source origin n).2
  /-- A live injector is held once more. -/
  | hold {h : Hierarchy} {n : InjectorId} (hLive : h.isLive n = true) : Step h (h.hold n)
  /-- A hold is given up, and with it whatever nothing else refers to. -/
  | release {h : Hierarchy} (n : InjectorId) : Step h (h.release n)
  /-- A binding is held. -/
  | holdBinding {h : Hierarchy} (number : BindingId) : Step h (h.holdBinding number)

/-- Any number of steps. -/
def Steps : Hierarchy → Hierarchy → Prop :=
  Relation.ReflTransGen Step

/-- Some steps lead to the state from the hierarchy without injectors. Callers get to no other states, as
`Reachable.operation` says of each of their calls, and `Session.reachable_after` of sessions. -/
def Reachable (h : Hierarchy) : Prop :=
  Steps {} h

variable {h h' : Hierarchy}

/-- Whatever comes of it, a creation is a step. -/
theorem step_of_create {parent : Option InjectorId} {module : Module} {explicitOnly : Bool}
    {outcome : Except (List Report) InjectorId} (hLive : ∀ p, parent = some p → h.isLive p = true)
    (hRun : h.create parent module explicitOnly = (outcome, h')) : Step h h' := by
  have hStep : Step h (h.create parent module explicitOnly).2 := .create hLive
  rwa [hRun] at hStep

-- ---------------------------------------------------------------------------
-- What every step keeps
-- ---------------------------------------------------------------------------

theorem marked_keep (hW : h.WellFormed) (kept : Table (BindingId × Nat) Instance) :
    Marked { h with kept } h :=
  ⟨sameCore_of_injectors rfl rfl rfl, hW.of_injectors rfl rfl rfl (Nat.le_refl _), Nat.le_refl _⟩

theorem marked_holdBinding (hW : h.WellFormed) (number : BindingId) : Marked (h.holdBinding number) h :=
  ⟨sameCore_of_injectors rfl rfl rfl, hW.of_injectors rfl rfl rfl (Nat.le_refl _), Nat.le_refl _⟩

theorem continues_hold (h : Hierarchy) (n : InjectorId) : Continues h (h.hold n) :=
  ⟨Nat.le_refl _, Nat.le_refl _, fun _ _ => rfl, fun _ hb => hb, fun hb => Or.inl hb⟩

theorem Step.wellFormed (hW : h.WellFormed) (hStep : Step h h') : h'.WellFormed := by
  cases hStep with
  | create hLive => exact wellFormed_create hW hLive
  | resolve hLive hRun => exact (wellFormed_resolve hW hLive hRun).1
  | act user => exact (marked_user hW user).wellFormed
  | keep number height value => exact (marked_keep hW _).wellFormed
  | findScope n tag => exact wellFormed_findScope hW n tag
  | make key strategy scope source origin n => exact wellFormed_makeBinding hW key strategy scope source origin n
  | hold hLive => exact wellFormed_hold hW hLive
  | release n => exact wellFormed_release hW n
  | holdBinding number => exact (marked_holdBinding hW number).wellFormed

theorem Step.continues (hW : h.WellFormed) (hStep : Step h h') : Continues h h' := by
  cases hStep with
  | create hLive => exact continues_create hW hLive
  | resolve hLive hRun => exact continues_resolve hW hLive hRun
  | act user => exact (marked_user hW user).continues
  | keep number height value => exact (marked_keep hW _).continues
  | findScope n tag => exact (marked_findScope hW n tag).continues
  | make key strategy scope source origin n =>
    exact (marked_makeBinding hW key strategy scope source origin n).continues
  | hold hLive => exact continues_hold h _
  | release n => exact continues_release hW n
  | holdBinding number => exact (marked_holdBinding hW number).continues

-- ---------------------------------------------------------------------------
-- What any number of steps keeps
-- ---------------------------------------------------------------------------

theorem Steps.wellFormed (hW : h.WellFormed) (hSteps : Steps h h') : h'.WellFormed := by
  induction hSteps with
  | refl => exact hW
  | tail _ hStep ih => exact hStep.wellFormed ih

theorem Steps.continues (hW : h.WellFormed) (hSteps : Steps h h') : Continues h h' := by
  induction hSteps with
  | refl => exact Continues.refl h
  | tail hBefore hStep ih => exact ih.trans hW.rooted (hStep.continues (Steps.wellFormed hW hBefore))

/-- There is nothing in a hierarchy without injectors that could be wrong. -/
theorem wellFormed_empty : WellFormed {} where
  rooted := ⟨List.nodup_nil, fun hLive => (nomatch hLive), fun hn => (nomatch hn), fun hn => (nomatch hn)⟩
  coherent hn := nomatch hn
  line _ ha := nomatch ha
  claims _ _ := ⟨[], rfl, List.Pairwise.nil, fun _ => ⟨fun hMem => (nomatch hMem), fun ⟨_, ha, _⟩ => (nomatch ha)⟩⟩
  numbered hb := nomatch hb
  caches := ⟨fun hn => nomatch hn⟩

theorem Reachable.wellFormed (hReach : Reachable h) : h.WellFormed :=
  Steps.wellFormed wellFormed_empty hReach

theorem Reachable.steps (hReach : Reachable h) (hSteps : Steps h h') : Reachable h' :=
  Relation.ReflTransGen.trans hReach hSteps

end InjectorTree.Hierarchy
