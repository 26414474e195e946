import InjectorTree.Proofs.Journal.Courses

/-!
# Histories

A caller makes requests, with handles too, and in between does other things: creates injectors, holds them and gives
them up. All that has been done so far, from the hierarchy without injectors on, is a history, and the journal tells of
it.

* `Request`, `Errand`: what a caller can do next, with what it holds.
* `History`: what leads to a hierarchy and a journal; `History.orderly` says what holds of both.
* `Request.leads`: requests of callers lead along every relation that requests lead along.
-/

namespace InjectorTree

open Hierarchy Provision Run

/-- A request of a caller who holds injectors and has handles. It can get the caller a handle. -/
inductive Request (handles : List Handle) : Hierarchy × Journal → Option Handle → Hierarchy × Journal → Prop
  | getInstance {s s' : Hierarchy × Journal} {fuel : Nat} {n : InjectorId} {key : Key}
      {outcome : Except Report Instance} (hHeld : n ∈ s.1.holds)
      (hRun : getInstanceNoted fuel n key s = some (outcome, s')) : Request handles s none s'
  | getAs {s s' : Hierarchy × Journal} {fuel : Nat} {n : InjectorId} {key : Key} {interface : Interface}
      {outcome : Except Report Instance} (hHeld : n ∈ s.1.holds)
      (hRun : getAsNoted fuel n key interface s = some (outcome, s')) : Request handles s none s'
  | getHandle {s s' : Hierarchy × Journal} {n : InjectorId} {key : Key} {interface : Interface}
      {outcome : Except Report Handle} (hHeld : n ∈ s.1.holds)
      (hRun : getHandleNoted n key interface s = some (outcome, s')) : Request handles s outcome.toOption s'
  | getFrom {s s' : Hierarchy × Journal} {fuel : Nat} {handle : Handle} {outcome : Except Report Instance}
      (hHandle : handle ∈ handles) (hHeld : handle.injector ∈ s.1.holds)
      (hRun : getFromNoted fuel handle s = some (outcome, s')) : Request handles s none s'

/-- Something else that a caller does, or that happens. -/
inductive Errand : Hierarchy × Journal → Hierarchy × Journal → Prop
  | create {s : Hierarchy × Journal} {parent : Option InjectorId} {module : Module} {explicitOnly : Bool}
      (hHeld : ∀ p, parent = some p → p ∈ s.1.holds) : Errand s (createNoted parent module explicitOnly s).2
  | findScope {s : Hierarchy × Journal} (n : InjectorId) (tag : ScopeTag) : Errand s ((s.1.findScope n tag).2, s.2)
  | hold {s : Hierarchy × Journal} {n : InjectorId} (hLive : s.1.isLive n = true) : Errand s (s.1.hold n, s.2)
  | release {s : Hierarchy × Journal} (n : InjectorId) : Errand s (s.1.release n, s.2)
  | holdBinding {s : Hierarchy × Journal} (number : BindingId) : Errand s (s.1.holdBinding number, s.2)
  | act {s : Hierarchy × Journal} (user : UserState) : Errand s ({ s.1 with user }, s.2)

/-- The handles that a caller was given so far, and the hierarchy and the journal that it was led to. -/
inductive History : List Handle → Hierarchy × Journal → Prop
  | nothing : History [] ({}, [])
  | request {handles : List Handle} {s s' : Hierarchy × Journal} {gained : Option Handle} (hBefore : History handles s)
      (hRequest : Request handles s gained s') : History (gained.toList ++ handles) s'
  | errand {handles : List Handle} {s s' : Hierarchy × Journal} (hBefore : History handles s) (hErrand : Errand s s') :
      History handles s'

/-- The binding of the handle was made, and is owned on the path of the injector from which it was requested, as long
as that lives. -/
structure Handle.Usable (s : Hierarchy × Journal) (handle : Handle) : Prop where
  made : handle.binding ∈ s.2.made
  fresh : handle.injector < s.1.nextInjector
  onPath : s.1.isLive handle.injector = true → handle.binding.owner ∈ s.1.path handle.injector

/-- What holds of every history. -/
structure Orderly (handles : List Handle) (s : Hierarchy × Journal) : Prop where
  reachable : Reachable s.1
  booked : Booked s
  usable : ∀ handle ∈ handles, handle.Usable s

variable {handles : List Handle} {handle : Handle} {gained : Option Handle}
variable {s s' : Hierarchy × Journal} {n : InjectorId}

theorem Orderly.wellFormed (hS : Orderly handles s) : s.1.WellFormed :=
  hS.reachable.wellFormed

/-- Whoever is held can be asked. -/
theorem Orderly.askable (hS : Orderly handles s) (hHeld : n ∈ s.1.holds) : Askable n s :=
  ⟨hS.wellFormed, anchored_of_mem_holds hHeld⟩

/-- Whoever has a handle, and holds its injector, can use it. -/
theorem Orderly.provided_handle (hS : Orderly handles s) (hHandle : handle ∈ handles)
    (hHeld : handle.injector ∈ s.1.holds) : Provided handle.binding s :=
  have hUsable := hS.usable handle hHandle
  have hAnchored := anchored_of_mem_holds hHeld
  ⟨⟨hS.wellFormed, hAnchored.up hS.wellFormed (hUsable.onPath (hAnchored.isLive hS.wellFormed))⟩, fun _ => hUsable.made⟩

theorem Handle.Usable.later (hU : handle.Usable s) (hW : s.1.WellFormed) (hSteps : Steps s.1 s'.1)
    (hEntries : s.2 <+: s'.2) : handle.Usable s' := by
  have hC := hSteps.continues hW
  refine ⟨?_, Nat.lt_of_lt_of_le hU.fresh hC.nextInjector, fun hLive => ?_⟩
  · obtain ⟨later, hLater⟩ := hEntries
    rw [← hLater, Journal.made_append]
    exact List.mem_append_left _ hU.made
  · rw [hC.path hU.fresh hLive]
    exact hU.onPath (hC.isLive hU.fresh hLive)

-- ---------------------------------------------------------------------------
-- Requests
-- ---------------------------------------------------------------------------

/-- Requests of callers begin with an empty path. -/
theorem Request.leads {R : List Key → Hierarchy × Journal → Hierarchy × Journal → Prop} (hR : Charts R)
    (hS : Orderly handles s) (hRequest : Request handles s gained s') : R [] s s' := by
  cases hRequest with
  | getInstance hHeld hRun => exact hR.leads_getInstanceNoted _ _ _ s s' _ (hS.askable hHeld) hRun
  | getAs hHeld hRun => exact hR.leads_getAsNoted _ _ _ _ s s' _ (hS.askable hHeld) hRun
  | getHandle hHeld hRun => exact hR.leads_getHandleNoted _ _ _ s s' _ (hS.askable hHeld) hRun
  | getFrom hHandle hHeld hRun => exact hR.leads_getFromNoted _ _ s s' _ (hS.provided_handle hHandle hHeld) hRun

/-- A handle that is gained can be used. -/
theorem Request.usable (hS : Orderly handles s) (hRequest : Request handles s gained s')
    (hGained : gained = some handle) : handle.Usable s' := by
  cases hRequest with
  | getInstance => cases hGained
  | getAs => cases hGained
  | getFrom => cases hGained
  | @getHandle _ n key interface outcome hHeld hRun =>
    cases outcome with
    | error report => cases hGained
    | ok other =>
      cases hGained
      obtain ⟨binding, hResolved, rfl⟩ := getHandleNoted_eq_ok_iff.mp hRun
      have hAskable := hS.askable hHeld
      have hW := hAskable.wellFormed
      have hPlain := (tells_resolveNoted n key).run hResolved
      have hW' := (wellFormed_resolve hW hAskable.isLive hPlain).1
      have hOwned := owned_of_resolve hW hAskable.isLive hPlain
      have hAdvances := advances_resolved hAskable hResolved
      refine ⟨(provided_resolved hAskable hResolved).1.made (hAdvances.booked hS.booked), hW'.rooted.fresh ?_, fun _ => hOwned.onPath⟩
      exact (hAdvances.askable hAskable).isLive

-- ---------------------------------------------------------------------------
-- Errands
-- ---------------------------------------------------------------------------

/-- An errand is a step. -/
theorem Errand.steps (hS : Orderly handles s) (hErrand : Errand s s') : Steps s.1 s'.1 := by
  cases hErrand with
  | @create parent module explicitOnly hHeld =>
    have hStep : Step s.1 (s.1.create parent module explicitOnly).2 :=
      .create fun p hp => hS.wellFormed.rooted.held (hHeld p hp)
    rcases hRun : createNoted parent module explicitOnly s with ⟨outcome, s'⟩
    rw [create_of_noted hRun] at hStep
    exact .single hStep
  | findScope n tag => exact .single (.findScope n tag)
  | hold hLive => exact .single (.hold hLive)
  | release n => exact .single (.release n)
  | holdBinding number => exact .single (.holdBinding number)
  | act user => exact .single (.act user)

/-- What is noted of an errand is which bindings it makes. -/
theorem Errand.entries (hErrand : Errand s s') (hS : Orderly handles s) :
    ∃ made : List Binding, s'.2 = s.2 ++ made.map .made ++ made.map .owned := by
  have hNothing : ∃ made : List Binding, s.2 = s.2 ++ made.map .made ++ made.map .owned := ⟨[], by simp⟩
  cases hErrand with
  | create hHeld => exact entries_create hS.wellFormed (fun p hp => hS.wellFormed.rooted.held (hHeld p hp)) _ _
  | findScope => exact hNothing
  | hold => exact hNothing
  | release => exact hNothing
  | holdBinding => exact hNothing
  | act => exact hNothing

theorem Errand.booked (hS : Orderly handles s) (hErrand : Errand s s') : Booked s' := by
  have hB := hS.booked
  have hW := hS.wellFormed
  cases hErrand with
  | create hHeld => exact booked_create hB hW (fun p hp => hW.rooted.held (hHeld p hp)) _ _
  | findScope n tag =>
    have hMarked := marked_findScope hW n tag
    exact hB.ofQuiet hMarked.nextBinding rfl rfl fun hb => by
      rw [hMarked.core.binding?] at hb
      exact hb
  | hold => exact hB.ofQuiet (Nat.le_refl _) rfl rfl id
  | release n => exact booked_release hB hW n
  | holdBinding => exact hB.ofQuiet (Nat.le_refl _) rfl rfl id
  | act => exact hB.ofQuiet (Nat.le_refl _) rfl rfl id

-- ---------------------------------------------------------------------------
-- Histories
-- ---------------------------------------------------------------------------

theorem Orderly.later (hS : Orderly handles s) (hSteps : Steps s.1 s'.1) (hEntries : s.2 <+: s'.2) (hB : Booked s') :
    Orderly handles s' :=
  ⟨Relation.ReflTransGen.trans hS.reachable hSteps, hB,
    fun handle hHandle => (hS.usable handle hHandle).later hS.wellFormed hSteps hEntries⟩

theorem orderly_nothing : Orderly [] ({}, []) where
  reachable := .refl
  booked :=
    { order := .nil
      numbered := fun _ hMem => absurd hMem List.not_mem_nil
      sublist := .refl _
      takenBack := fun _ hMem => absurd hMem List.not_mem_nil
      owned := fun hb => nomatch hb }
  usable _ hHandle := absurd hHandle List.not_mem_nil

/-- Every history leads to a reachable hierarchy, and to a journal that knows of every binding. -/
theorem History.orderly (hHistory : History handles s) : Orderly handles s := by
  induction hHistory with
  | nothing => exact orderly_nothing
  | request hBefore hRequest ih =>
    have hAdvances := hRequest.leads charts_advances ih
    have hLater := ih.later hAdvances.excursion.steps hAdvances.entries (hAdvances.booked ih.booked)
    refine ⟨hLater.reachable, hLater.booked, fun handle hHandle => ?_⟩
    rcases List.mem_append.mp hHandle with hGained | hOld
    · exact hRequest.usable ih (Option.mem_toList.mp hGained)
    · exact hLater.usable handle hOld
  | errand hBefore hErrand ih =>
    obtain ⟨made, hEntries⟩ := hErrand.entries ih
    refine ih.later (hErrand.steps ih) ?_ (hErrand.booked ih)
    rw [hEntries, List.append_assoc]
    exact List.prefix_append _ _

end InjectorTree
