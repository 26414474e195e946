import Mathlib.Data.List.Perm.Subperm
import InjectorTree.Session.Step
import InjectorTree.Proofs.Provision

/-!
# Sessions are runs

Whatever a session does to its hierarchy is a sequence of steps, so every hierarchy that a session gets to is
reachable. What carries this through a session is that each name and each saved handle has a hold of its own on
the injector it stands for: what is named is live, and giving up a name gives up no hold of another one.

* `Backed`: the invariant.
* `Aside`: what leaves names and saved handles alone.
* `backed_outcome`: a step of a session keeps the invariant.
* `reachable_after`: every hierarchy that a session gets to is reachable.
-/

namespace InjectorTree.Session

open Hierarchy Provision

variable {session session' session'' : Session} {n : InjectorId} {key : Key}

/-- The injectors that names and saved handles stand for, each as often as something stands for it. -/
def holders (session : Session) : List InjectorId :=
  session.names.values ++ session.handles.values.map (·.injector)

/-- Each name and each saved handle has a hold of its own, in a hierarchy that is reachable. -/
structure Backed (session : Session) : Prop where
  reachable : Reachable session.hierarchy
  names : session.names.keys.Nodup
  handles : session.handles.keys.Nodup
  held : session.holders.Subperm session.hierarchy.holds
  owners : ∀ handle ∈ session.handles.values,
    handle.binding.owner ∈ session.hierarchy.path handle.injector

namespace Backed

theorem wellFormed (hB : Backed session) : session.hierarchy.WellFormed :=
  hB.reachable.wellFormed

theorem held_of_name (hB : Backed session) {name : String} (hName : session.names.get? name = some n) :
    n ∈ session.hierarchy.holds :=
  hB.held.subset (List.mem_append_left _ (Table.mem_values_of_get? hName))

theorem held_of_handle (hB : Backed session) {handle : Handle} (hHandle : handle ∈ session.handles.values) :
    handle.injector ∈ session.hierarchy.holds :=
  hB.held.subset (List.mem_append_right _ (List.mem_map_of_mem hHandle))

/-- Steps, with other names and handles: those that have come in are backed too. -/
theorem change (hB : Backed session) (hSteps : Steps session.hierarchy session'.hierarchy)
    (hNames : session'.names.keys.Nodup) (hHandles : session'.handles.keys.Nodup)
    (hHeld : session'.holders.Subperm session'.hierarchy.holds)
    (hOwners : ∀ handle ∈ session'.handles.values, handle ∈ session.handles.values ∨
      handle.binding.owner ∈ session'.hierarchy.path handle.injector) : Backed session' where
  reachable := hB.reachable.steps hSteps
  names := hNames
  handles := hHandles
  held := hHeld
  owners handle hMem := by
    rcases hOwners handle hMem with hOld | hNew
    · -- its injector was held all along, so it has the path that it had
      have hW' := hSteps.wellFormed hB.wellFormed
      have hAfter : handle.injector ∈ session'.hierarchy.holds :=
        hHeld.subset (List.mem_append_right _ (List.mem_map_of_mem hMem))
      rw [(hSteps.continues hB.wellFormed).path_of_held hB.wellFormed.rooted hW'.rooted
        (hB.held_of_handle hOld) hAfter]
      exact hB.owners handle hOld
    · exact hNew

/-- Steps that give up no hold of a name or a handle. -/
theorem of_steps (hB : Backed session) (hSteps : Steps session.hierarchy session'.hierarchy)
    (hHeld : session.holders.Subperm session'.hierarchy.holds) (hNames : session'.names = session.names)
    (hHandles : session'.handles = session.handles) : Backed session' := by
  have hHolders : session'.holders = session.holders := by rw [holders, holders, hNames, hHandles]
  refine hB.change hSteps (hNames ▸ hB.names) (hHandles ▸ hB.handles) (hHolders ▸ hHeld) ?_
  intro handle hMem
  rw [hHandles] at hMem
  exact Or.inl hMem

/-- A hold that nothing stands for can be given up. -/
theorem release (hB : Backed session) (hSpare : (n :: session.holders).Subperm session.hierarchy.holds) :
    Backed (session.release n) := by
  refine hB.of_steps (.single (.release n)) ?_ rfl rfl
  have hErased := hSpare.erase n
  rw [List.erase_cons_head] at hErased
  exact (holds_release hB.wellFormed n).symm ▸ hErased

/-- The hold of what was replaced is given up, if anything was. -/
theorem replaced {α : Type} (injector : α → InjectorId) (previous : Option α) (hB : Backed session)
    (hSpare : (previous.toList.map injector ++ session.holders).Subperm session.hierarchy.holds) :
    Backed (previous.elim session fun x => session.release (injector x)) := by
  cases previous with
  | none => exact hB
  | some x => exact hB.release hSpare

end Backed

-- ---------------------------------------------------------------------------
-- What leaves names alone
-- ---------------------------------------------------------------------------

/-- The hierarchy went on, and gave up none of its holds; names and saved handles are what they were. -/
structure Aside (session session' : Session) : Prop where
  excursion : Excursion session.hierarchy session'.hierarchy
  names : session'.names = session.names
  handles : session'.handles = session.handles

namespace Aside

protected theorem refl (session : Session) : Aside session session :=
  ⟨Excursion.refl _, rfl, rfl⟩

protected theorem trans (hA : Aside session session') (hA' : Aside session' session'') :
    Aside session session'' :=
  ⟨hA.excursion.trans hA'.excursion, hA'.names.trans hA.names, hA'.handles.trans hA.handles⟩

theorem backed (hA : Aside session session') (hB : Backed session) : Backed session' :=
  hB.of_steps hA.excursion.steps (hB.held.trans hA.excursion.holds.sublist.subperm) hA.names hA.handles

theorem held (hA : Aside session session') (hn : n ∈ session.hierarchy.holds) :
    n ∈ session'.hierarchy.holds :=
  hA.excursion.holds.subset hn

end Aside

theorem aside_perform {α : Type} (session : Session) (action : Action α) :
    Aside session (session.perform action).2 :=
  ⟨Excursion.act _ _, rfl, rfl⟩

theorem aside_showBinding (session : Session) (binding : Binding) :
    Aside session (session.showBinding binding).2 :=
  ⟨Excursion.single (.holdBinding _) rfl, rfl, rfl⟩

theorem aside_showBindings (bindings : List Binding) (session : Session) :
    Aside session (session.showBindings bindings).2 := by
  induction bindings generalizing session with
  | nil => exact Aside.refl session
  | cons binding rest ih => exact (aside_showBinding session binding).trans (ih _)

theorem aside_showAll (entries : List (String × InjectorId)) (session : Session) :
    Aside session (session.showAll entries).2 := by
  induction entries generalizing session with
  | nil => exact Aside.refl session
  | cons entry rest ih => exact (aside_showBindings _ session).trans (ih _)

/-- A run that gives up no holds, and whatever is done with its value. -/
theorem aside_running {α : Type} {run : Run Hierarchy α} {next : α → Session → Outcome}
    (hRun : ∀ outcome h', run session.hierarchy = some (outcome, h') → Excursion session.hierarchy h')
    (hNext : ∀ value session', Aside session session' → Aside session' (next value session').2) :
    Aside session (session.running run next).2 := by
  unfold running
  split
  · exact Aside.refl session
  · next report h' hEnd => exact ⟨hRun _ h' hEnd, rfl, rfl⟩
  · next value h' hEnd =>
    have hA : Aside session { session with hierarchy := h' } := ⟨hRun _ h' hEnd, rfl, rfl⟩
    exact hA.trans (hNext value _ hA)

theorem aside_providing {run : Run Hierarchy Instance}
    (hRun : ∀ outcome h', run session.hierarchy = some (outcome, h') → Excursion session.hierarchy h') :
    Aside session (session.providing run).2 :=
  aside_running hRun fun value session' _ => aside_perform session' (showInstance value)

theorem aside_repeatedly {run : Run Hierarchy Instance} (hRun : Stepwise n run) (times : Nat)
    (hB : Backed session) (hn : n ∈ session.hierarchy.holds) :
    Aside session (repeatedly run times session).2 := by
  induction times generalizing session with
  | zero => exact Aside.refl session
  | succ times ih =>
    have hFirst : Aside session (session.providing run).2 :=
      aside_providing fun _ _ hEnd => hRun.excursion hB.wellFormed (anchored_of_mem_holds hn) hEnd
    exact hFirst.trans (ih (hFirst.backed hB) (hFirst.held hn))

theorem aside_findScope (session : Session) (n : InjectorId) (tag : ScopeTag) :
    Aside session { session with hierarchy := (session.hierarchy.findScope n tag).2 } :=
  ⟨Excursion.single (.findScope n tag) (sameCore_findScope session.hierarchy n tag).holds, rfl, rfl⟩

/-- A binding that nobody owns is made, and provided several times. -/
theorem aside_provideMade (hB : Backed session) (hn : n ∈ session.hierarchy.holds) (key : Key)
    (strategy : Strategy) (scope : Option (ScopeTag × Scope)) (path : List Key) (times : Nat) :
    Aside session
      (repeatedly
        (runLayers (obtain nesting) (session.hierarchy.makeBinding key strategy scope .builtin .builtin n).1.id
          (runStrategy (obtain nesting) key strategy)
          (session.hierarchy.makeBinding key strategy scope .builtin .builtin n).1.layers n path)
        times
        { session with
          hierarchy := (session.hierarchy.makeBinding key strategy scope .builtin .builtin n).2 }).2 := by
  have hMade : Aside session
      { session with hierarchy := (session.hierarchy.makeBinding key strategy scope .builtin .builtin n).2 } :=
    ⟨Excursion.single (.make key strategy scope .builtin .builtin n) rfl, rfl, rfl⟩
  have hRun := stepwise_runLayers (stepwise_obtain nesting)
    (session.hierarchy.makeBinding key strategy scope .builtin .builtin n).1.id
    (stepwise_runStrategy (stepwise_obtain nesting) key strategy)
    (session.hierarchy.makeBinding key strategy scope .builtin .builtin n).1.layers n path
  exact hMade.trans (aside_repeatedly hRun times (hMade.backed hB) (hMade.held hn))

theorem aside_provideDirectly (hB : Backed session) (hn : n ∈ session.hierarchy.holds)
    (form : Script.ProviderForm) (path : List Key) (times : Nat) (wrapping : Option (ScopeTag × Key)) :
    Aside session (session.provideDirectly n form path times wrapping).2 := by
  have hForm := aside_perform session (Script.providing form)
  cases wrapping with
  | none => exact hForm.trans (aside_provideMade (hForm.backed hB) (hForm.held hn) _ _ _ path times)
  | some wrapping =>
    have hFound := hForm.trans (aside_findScope _ n wrapping.1)
    exact hFound.trans (aside_provideMade (hFound.backed hB) (hFound.held hn) _ _ _ path times)

theorem aside_inspectBinding (session : Session) (n : InjectorId) (key : Key) (save : Option String)
    (described : Bool) : Aside session (session.inspectBinding n key save described).2 := by
  unfold inspectBinding
  cases session.hierarchy.binding? n key with
  | none => exact Aside.refl session
  | some binding =>
    cases save with
    | none => exact aside_showBinding session binding
    | some name =>
      -- saving a binding holds no injector
      exact ⟨Excursion.single (.holdBinding _) rfl, rfl, rfl⟩

-- ---------------------------------------------------------------------------
-- What gives names and takes them
-- ---------------------------------------------------------------------------

/-- A name for an injector that is held once more than the names and handles have it. -/
theorem backed_store (hB : Backed session) (hSpare : (n :: session.holders).Subperm session.hierarchy.holds)
    (name : String) : Backed (session.store name n) := by
  have hValues := Table.perm_values_insert session.names name n
  -- with what had the name before, the holders are those of before and the new one
  have hHolders : ((session.names.get? name).toList.map id ++
      ((session.names.insert name n).values ++ session.handles.values.map (·.injector))).Subperm
        session.hierarchy.holds := by
    rw [List.map_id, ← List.append_assoc]
    exact (hValues.append_right _).subperm.trans hSpare
  refine Backed.replaced id (session.names.get? name) ?_ hHolders
  refine hB.change (.single (.act _)) (Table.nodup_keys_insert _ _ _ hB.names) hB.handles ?_ ?_
  · exact (List.sublist_append_right _ _).subperm.trans hHolders
  · exact fun handle hMem => Or.inl hMem

/-- A handle to what is owned on the path of its injector. -/
theorem backed_saveHandle (hB : Backed session) {handle : Handle}
    (hHeld : handle.injector ∈ session.hierarchy.holds)
    (hOwner : handle.binding.owner ∈ session.hierarchy.path handle.injector) (name : String) :
    Backed (session.saveHandle name handle) := by
  have hValues := Table.perm_values_insert session.handles name handle
  have hInjectors := hValues.map (·.injector)
  rw [List.map_append, List.map_cons] at hInjectors
  -- with the handle that had the name before, the holders are those of before and the new one
  have hHolders : ((session.handles.get? name).toList.map (·.injector) ++
      (session.names.values ++ (session.handles.insert name handle).values.map (·.injector))).Subperm
        (handle.injector :: session.hierarchy.holds) := by
    have hMoved := List.perm_append_comm_assoc ((session.handles.get? name).toList.map (·.injector))
      session.names.values ((session.handles.insert name handle).values.map (·.injector))
    have hNew := (hInjectors.append_left session.names.values).trans List.perm_middle
    exact (hMoved.trans hNew).subperm.trans ((List.subperm_cons handle.injector).mpr hB.held)
  have hHold : Steps session.hierarchy (session.hierarchy.hold handle.injector) :=
    .single (.hold (hB.wellFormed.rooted.held hHeld))
  have hSaved : Backed
      { session with
        hierarchy := session.hierarchy.hold handle.injector
        handles := session.handles.insert name handle } := by
    refine hB.change hHold hB.names (Table.nodup_keys_insert _ _ _ hB.handles) ?_ fun other hMem => ?_
    · exact (List.sublist_append_right _ _).subperm.trans hHolders
    · rcases List.mem_cons.mp (hValues.subset (List.mem_append_right _ hMem)) with rfl | hOld
      · exact Or.inr hOwner
      · exact Or.inl hOld
  exact hSaved.replaced Handle.injector (session.handles.get? name) hHolders

theorem backed_dropName (hB : Backed session) (name : String) : Backed (session.dropName name).2 := by
  unfold dropName
  split
  · exact hB
  · next n hName =>
    have hValues := Table.perm_values_erase hB.names hName
    have hHolders : (n :: ((session.names.erase name).values ++ session.handles.values.map (·.injector))).Subperm
        session.hierarchy.holds := (hValues.append_right _).subperm.trans hB.held
    refine Backed.release (hB.change .refl (Table.nodup_keys_erase _ _ hB.names) hB.handles ?_ ?_) hHolders
    · exact List.Subperm.cons_self.trans hHolders
    · exact fun handle hMem => Or.inl hMem

theorem backed_dropHandle (hB : Backed session) (name : String) : Backed (session.dropHandle name).2 := by
  unfold dropHandle
  split
  · exact hB
  · next handle hName =>
    have hValues := Table.perm_values_erase hB.handles hName
    have hInjectors := (hValues.map (·.injector)).append_left session.names.values
    have hHolders : (handle.injector ::
        (session.names.values ++ (session.handles.erase name).values.map (·.injector))).Subperm
          session.hierarchy.holds :=
      (List.perm_middle.symm.trans hInjectors).subperm.trans hB.held
    refine Backed.release (hB.change .refl hB.names (Table.nodup_keys_erase _ _ hB.handles) ?_ ?_) hHolders
    · exact List.Subperm.cons_self.trans hHolders
    · exact fun other hMem => Or.inl (hValues.subset (List.mem_cons_of_mem handle hMem))

theorem backed_createAs (hB : Backed session) {parent : Option InjectorId}
    (hLive : ∀ p, parent = some p → session.hierarchy.isLive p = true) (name : String) (plan : Plan) :
    Backed (session.createAs name parent plan).2 := by
  have hPlan := aside_perform session plan.evaluate
  have hB' := hPlan.backed hB
  have hStep : ∀ module explicitOnly, Hierarchy.Step (session.perform plan.evaluate).2.hierarchy
      ((session.perform plan.evaluate).2.hierarchy.create parent module explicitOnly).2 :=
    fun module explicitOnly => .create hLive
  unfold createAs
  simp only
  split
  · next reports h' hRefused =>
    have hCreate := hStep (session.perform plan.evaluate).1.1 (session.perform plan.evaluate).1.2
    rw [hRefused] at hCreate
    refine hB'.of_steps (.single hCreate) ?_ rfl rfl
    rw [(create_error hB'.wellFormed hRefused).core.holds]
    exact hB'.held
  · next n h' hCreated =>
    have hCreate := hStep (session.perform plan.evaluate).1.1 (session.perform plan.evaluate).1.2
    rw [hCreated] at hCreate
    -- the new injector is held, and nothing stands for it yet
    have hHolds := holds_create hB'.wellFormed hLive hCreated
    have hSpare : (n :: (session.perform plan.evaluate).2.holders).Subperm h'.holds := by
      rw [hHolds]
      exact (List.subperm_cons n).mpr hB'.held
    refine backed_store ?_ hSpare name
    exact hB'.of_steps (.single hCreate) (List.Subperm.cons_self.trans hSpare) rfl rfl

-- ---------------------------------------------------------------------------
-- Steps of a session
-- ---------------------------------------------------------------------------

theorem backed_withInjector (hB : Backed session) {name : String} {next : InjectorId → Outcome}
    (hNext : ∀ n ∈ session.hierarchy.holds, Backed (next n).2) : Backed (session.withInjector name next).2 := by
  unfold withInjector
  split
  · next n hName => exact hNext n (hB.held_of_name hName)
  · exact hB

theorem backed_withHandle (hB : Backed session) {name : String} {next : Handle → Outcome}
    (hNext : ∀ handle ∈ session.handles.values, Backed (next handle).2) :
    Backed (session.withHandle name next).2 := by
  unfold withHandle
  split
  · next handle hName => exact hNext handle (Table.mem_values_of_get? hName)
  · exact hB

theorem backed_get (hB : Backed session) (injector : String) (wanted : Wanted) :
    Backed (session.outcome (.get injector wanted)).2 := by
  refine backed_withInjector hB fun n hn => Aside.backed (aside_providing fun outcome h' hEnd => ?_) hB
  have hA := anchored_of_mem_holds hn
  cases wanted with
  | key key => exact (stepwise_getInstance nesting n key).excursion hB.wellFormed hA hEnd
  | keyAs key type => exact (stepwise_getAs nesting n key _).excursion hB.wellFormed hA hEnd
  | type type => exact (stepwise_getAs nesting n _ _).excursion hB.wellFormed hA hEnd

theorem backed_requestHandle (hB : Backed session) (injector : String) (key : Option Key) (type : ServiceType)
    (save : String) : Backed (session.outcome (.requestHandle injector key type save)).2 := by
  refine backed_withInjector hB fun n hn => ?_
  unfold running
  split
  · exact hB
  · next report h' hEnd =>
    have hE := (stepwise_getHandle n _ _).excursion hB.wellFormed (anchored_of_mem_holds hn) hEnd
    exact Aside.backed ⟨hE, rfl, rfl⟩ hB
  · next handle h' hEnd =>
    have hE := (stepwise_getHandle n _ _).excursion hB.wellFormed (anchored_of_mem_holds hn) hEnd
    have hA : Aside session { session with hierarchy := h' } := ⟨hE, rfl, rfl⟩
    obtain ⟨binding, hResolve, rfl⟩ := getHandle_eq_ok_iff.mp hEnd
    -- a resolution leaves the path of its injector alone, and its result is owned on it
    have hShape := (wellFormed_resolve hB.wellFormed (hB.wellFormed.rooted.held hn) hResolve).2.1
    have hOwner : binding.owner ∈ h'.path n := by
      rw [hShape.path]
      exact owner_mem_path_of_resolve hB.wellFormed hResolve
    have hSaved : Backed ({ session with hierarchy := h' }.saveHandle save ⟨n, binding, Catalogue.interface type⟩) :=
      backed_saveHandle (hA.backed hB) (hA.held hn) hOwner save
    exact (aside_showBinding _ binding).backed hSaved

/-- A step of a session keeps the invariant. -/
theorem backed_outcome (hB : Backed session) (step : Step) : Backed (session.outcome step).2 := by
  have hW := hB.wellFormed
  cases step with
  | create name parent plan =>
    cases parent with
    | none => exact backed_createAs hB (fun p hp => by cases hp) name plan
    | some parent =>
      refine backed_withInjector hB fun n hn => backed_createAs hB ?_ name plan
      rintro p ⟨⟩
      exact hW.rooted.held hn
  | get injector wanted => exact backed_get hB injector wanted
  | requestHandle injector key type save => exact backed_requestHandle hB injector key type save
  | provide handle =>
    refine backed_withHandle hB fun handle hHandle => Aside.backed (aside_providing fun outcome h' hEnd => ?_) hB
    have hAnchored := (anchored_of_mem_holds (hB.held_of_handle hHandle)).up hW (hB.owners handle hHandle)
    exact (stepwise_getFrom nesting handle).excursion hW hAnchored hEnd
  | describeHandle handle =>
    exact backed_withHandle hB fun handle _ => (aside_showBinding session handle.binding).backed hB
  | dropHandle handle => exact backed_dropHandle hB handle
  | binding injector key save described =>
    exact backed_withInjector hB fun n _ => (aside_inspectBinding session n key save described).backed hB
  | bindingAgain name =>
    simp only [outcome]
    split
    · exact hB
    · next binding _ => exact (aside_showBinding session binding).backed hB
  | bindings injector => exact backed_withInjector hB fun n _ => (aside_showBindings _ session).backed hB
  | dump => exact (aside_showAll _ session).backed hB
  | parent injector => exact backed_withInjector hB fun n _ => hB
  | scope injector tag =>
    exact backed_withInjector hB fun n _ => (aside_findScope session n tag).backed hB
  | clone injector name =>
    refine backed_withInjector hB fun n hn => ?_
    have hSpare : (n :: session.holders).Subperm (session.hierarchy.hold n).holds :=
      (List.subperm_cons n).mpr hB.held
    refine backed_store ?_ hSpare name
    exact hB.of_steps (.single (.hold (hW.rooted.held hn))) (List.Subperm.cons_self.trans hSpare) rfl rfl
  | equal first second => exact backed_withInjector hB fun n _ => backed_withInjector hB fun m _ => hB
  | drop injector => exact backed_dropName hB injector
  | provideDirect injector form path times wrapping =>
    exact backed_withInjector hB fun n hn => (aside_provideDirectly hB hn form path times wrapping).backed hB

/-- The session after some steps. -/
def after (steps : List Step) (session : Session) : Session :=
  steps.foldl (fun session step => (session.take step).2) session

theorem backed_take (hB : Backed session) (step : Step) : Backed (session.take step).2 := by
  -- the events of the steps before are forgotten first
  have hCleared := (aside_perform session fun user => ((), { user with events := [] })).backed hB
  exact backed_outcome hCleared step

theorem backed_after (hB : Backed session) (steps : List Step) : Backed (session.after steps) := by
  induction steps generalizing session with
  | nil => exact hB
  | cons step rest ih => exact ih (backed_take hB step)

/-- Whatever the steps were, names and saved handles have their holds. -/
theorem backed_from_start (steps : List Step) : Backed (({} : Session).after steps) := by
  have hStart : Backed {} := ⟨.refl, List.nodup_nil, List.nodup_nil, List.nil_subperm, fun _ hMem => by cases hMem⟩
  exact backed_after hStart steps

/-- Every hierarchy that a session gets to is reachable. -/
theorem reachable_after (steps : List Step) : Reachable (({} : Session).after steps).hierarchy :=
  (backed_from_start steps).reachable

end InjectorTree.Session
