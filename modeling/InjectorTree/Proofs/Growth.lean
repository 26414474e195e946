import InjectorTree.Proofs.Elsewhere
import InjectorTree.Proofs.Handles
import InjectorTree.Proofs.Sustained

/-!
# What requests add

A request is made by an injector, and the requests that are made in its course are made by injectors on the path of that
one, or by temporary children that are gone when it ends. So all that a request can add are bindings that are created or
converted on demand, in the injectors on the path. Nobody loses anything, and nobody is lost.

* `Grows`: what a request of an injector leads along; `passage_grows` says that it does.
* `request_grows_path`: what a request adds, and what it leaves as it is.
-/

namespace InjectorTree

namespace Hierarchy

open Provision

/-- In between, injectors on the path of this one can have got bindings that were created or converted on demand. All
others own what they owned. What is kept is kept still, and those that sustained each other are live. -/
structure Grows (n : InjectorId) (h h' : Hierarchy) : Prop where
  excursion : Excursion h h'
  kept : h.kept.entries ⊆ h'.kept.entries
  heldBindings : h'.heldBindings = h.heldBindings
  sustains : h.WellFormed → ∀ S, Sustained h S → ∀ m, S m → h'.isLive m = true
  added : h.WellFormed → Anchored h n → ∀ m key binding, h.isLive m = true → h'.binding? m key = some binding →
    h.binding? m key = some binding ∨
      m ∈ h.path n ∧ (binding.origin = .justInTime ∨ binding.origin = .converted)

variable {h h' h'' h₁ h₂ : Hierarchy} {n m p child : InjectorId} {key : Key} {binding : Binding} {S : InjectorId → Prop}

namespace Grows

theorem sustained (hG : Grows n h h') (hW : h.WellFormed) (hS : Sustained h S) : Sustained h' S := by
  have hC := hG.excursion.steps.continues hW
  have hLive := hG.sustains hW S hS
  refine hS.transfer hLive (fun m _ hHeld => hG.excursion.holds.subset hHeld) (fun m hm => ?_) hG.kept hG.heldBindings
    fun m key binding hm hb => hC.binding? (hLive m hm) hb
  exact hC.lineage (hW.rooted.fresh (hS.live m hm)) (hLive m hm)

protected theorem refl (n : InjectorId) (h : Hierarchy) : Grows n h h where
  excursion := Excursion.refl h
  kept := fun _ hMem => hMem
  heldBindings := rfl
  sustains _ _ hS := hS.live
  added _ _ _ _ _ _ hb := Or.inl hb

protected theorem trans (hG : Grows n h h') (hG' : Grows n h' h'') : Grows n h h'' where
  excursion := hG.excursion.trans hG'.excursion
  kept := fun _ hMem => hG'.kept (hG.kept hMem)
  heldBindings := hG'.heldBindings.trans hG.heldBindings
  sustains hW S hS := hG'.sustains (hG.excursion.wellFormed hW) S (hG.sustained hW hS)
  added hW hA m key binding hm hb := by
    have hW' := hG.excursion.wellFormed hW
    have hA' := hG.excursion.anchored hW hA
    have hC := hG.excursion.steps.continues hW
    have hC' := hG'.excursion.steps.continues hW'
    -- an injector that was live before and is live after was live all along
    have hNew := Nat.lt_of_lt_of_le (hW.rooted.fresh hm) hC.nextInjector
    have hm' := hC'.isLive hNew (isLive_of_binding? hb)
    rcases hG'.added hW' hA' m key binding hm' hb with hOld | ⟨hPath, hOrigin⟩
    · exact hG.added hW hA m key binding hm hOld
    · have hSame := hC.path (hW.rooted.fresh (hA.isLive hW)) (hA'.isLive hW')
      exact Or.inr ⟨hSame ▸ hPath, hOrigin⟩

/-- What a request of an ancestor adds is on the path, too. -/
theorem up (hW : h.WellFormed) (hp : p ∈ h.path n) (hG : Grows p h h') : Grows n h h' where
  excursion := hG.excursion
  kept := hG.kept
  heldBindings := hG.heldBindings
  sustains := hG.sustains
  added _ hA m key binding hm hb := by
    refine (hG.added hW (hA.up hW hp) m key binding hm hb).imp_right fun hAdded => ?_
    exact ⟨hW.rooted.mem_path_trans hp hAdded.1, hAdded.2⟩

/-- Where the injectors stay as they are, nothing is added. -/
theorem of_core (hE : Excursion h h') (hCore : SameCore h' h) (hNotes : SameNotes h' h) : Grows n h h' where
  excursion := hE
  kept := hNotes.kept ▸ fun _ hMem => hMem
  heldBindings := hNotes.heldBindings
  sustains _ _ hS m hm := (hCore.isLive m).trans (hS.live m hm)
  added _ _ m key _ _ hb := Or.inl (hCore.binding? m key ▸ hb)

end Grows

/-- A resolution adds what it has staged, all of it on the path. -/
theorem grows_resolve {outcome : Except Report Binding} (hW : h.WellFormed) (hA : Anchored h n)
    (hRun : h.resolve n key = some (outcome, h')) : Grows n h h' where
  excursion := (excursion_resolve hW hA hRun).1
  kept := (sameNotes_resolve hRun).kept ▸ fun _ hMem => hMem
  heldBindings := (sameNotes_resolve hRun).heldBindings
  sustains _ _ hS m hm := ((wellFormed_resolve hW (hA.isLive hW) hRun).2.1.isLive m).trans (hS.live m hm)
  added _ _ m key' binding _ hb := by
    cases outcome with
    | error report =>
      rw [(resolve_error hW hRun).2.core.binding?] at hb
      exact Or.inl hb
    | ok result =>
      rcases resolve_ok hW hRun with ⟨-, rfl⟩ | ⟨-, d, rfl, hF, -⟩
      · exact Or.inl hb
      · obtain ⟨-, -, -, hBindings⟩ := publish_spec hW (hA.isLive hW) hF
        refine ((hBindings m key' binding).mp hb).imp_right ?_
        rintro ⟨hStaged, rfl, rfl⟩
        exact ⟨hF.onPath binding hStaged, (hF.made binding hStaged).origin⟩

section Visits

variable {module : Module} {explicitOnly : Bool}

/-- A creation that is refused adds nothing. -/
theorem grows_refused {reports : List Report} (hW : h.WellFormed) (hA : Anchored h n)
    (hRun : h.create (some n) module explicitOnly = (.error reports, h')) : Grows n h h' := by
  have hNotes := sameNotes_create (some n) module explicitOnly h
  rw [hRun] at hNotes
  exact .of_core (excursion_refused hW (hA.isLive_parent hW) hRun) (create_error hW hRun).core hNotes

variable (hW : h.WellFormed) (hA : Anchored h n)
  (hRun : h.create (some n) module explicitOnly = (.ok child, h₁)) (hInside : Grows child h₁ h₂)
include hW hA hRun hInside

/-- What the requests of a temporary child add to others than itself is on the path of its parent. -/
theorem grows_opened : Grows n h h₂ := by
  have hLive := hA.isLive_parent hW
  have hW₁ := wellFormed_created hW hLive hRun
  have hHolds := holds_create hW hLive hRun
  obtain ⟨hNew, hLineage, hOthers⟩ := create_adds hW hLive hRun
  have hCreated := sameNotes_create (some n) module explicitOnly h
  rw [hRun] at hCreated
  have hOld : ∀ {m}, h.isLive m = true → m ≠ child := fun hm => hNew ▸ Nat.ne_of_lt (hW.rooted.fresh hm)
  have hLive₁ : ∀ {m}, h.isLive m = true → h₁.isLive m = true := fun hm =>
    isLive_of_binding?_eq hm (hOthers _ (hOld hm)).2
  refine
    { excursion := excursion_opened hW hLive hRun hInside.excursion
      kept := hCreated.kept ▸ hInside.kept
      heldBindings := hInside.heldBindings.trans hCreated.heldBindings
      sustains := fun _ S hS => hInside.sustains hW₁ S ?_
      added := fun _ _ m key binding hm hb => ?_ }
  · -- whoever was there before does without the child
    refine hS.transfer (fun m hm => hLive₁ (hS.live m hm)) (fun m _ hHeld => hHolds ▸ List.mem_cons_of_mem _ hHeld)
      (fun m hm => (hOthers m (hOld (hS.live m hm))).1) (hCreated.kept ▸ fun _ hMem => hMem) hCreated.heldBindings
      fun m key binding hm hb => ?_
    rw [(hOthers m (hOld (hS.live m hm))).2]
    exact hb
  · have hA₁ := anchored_created hW hLive hRun
    rcases hInside.added hW₁ hA₁ m key binding (hLive₁ hm) hb with hBefore | ⟨hPath, hOrigin⟩
    · rw [(hOthers m (hOld hm)).2] at hBefore
      exact Or.inl hBefore
    · rw [path, hLineage] at hPath
      exact Or.inr ⟨(List.mem_cons.mp hPath).resolve_left (hOld hm), hOrigin⟩

/-- When the child is given up, nobody else goes with it to whom something refers. -/
theorem grows_visit : Grows n h (h₂.release child) := by
  have hLive := hA.isLive_parent hW
  have hOpened := grows_opened hW hA hRun hInside
  have hW₂ := hOpened.excursion.wellFormed hW
  have hReleased := sameNotes_release h₂ child
  refine
    { excursion := excursion_visit hW hLive hRun hInside.excursion
      kept := hReleased.kept ▸ hOpened.kept
      heldBindings := hReleased.heldBindings.trans hOpened.heldBindings
      sustains := fun _ S hS m hm => ?_
      added := fun _ _ m key binding hm hb => ?_ }
  · have hNew : child = h.nextInjector := (create_adds hW hLive hRun).1
    have hNotChild : ¬S child := fun hChild => Nat.lt_irrefl _ (hNew ▸ hW.rooted.fresh (hS.live child hChild))
    exact (hOpened.sustained hW hS).isLive_release hW₂.rooted hNotChild hm
  · rw [binding?_release hW₂ (isLive_of_binding? hb)] at hb
    exact hOpened.added hW hA m key binding hm hb

end Visits

end Hierarchy

namespace Provision

open Hierarchy

theorem openCourse_grows (n : InjectorId) : OpenCourse (fun h => h.WellFormed ∧ Anchored h n) (Grows n) where
  refl := Grows.refl n
  trans := Grows.trans
  stays hStart hG := (openCourse_excursion n).stays hStart hG.excursion
  act h user := .of_core (Excursion.act h user) (sameCore_of_injectors rfl rfl rfl) ⟨rfl, rfl⟩
  keep {h h' number height} value hNone hG :=
    { excursion := hG.excursion.trans (Excursion.single (.keep _ _ _) rfl)
      kept := fun entry hMem => by
        -- the place was empty, so what was kept before is kept elsewhere
        refine Table.mem_entries_insert_of_ne (hG.kept hMem) (fun hPlace => ?_) value
        have hSome := Table.isSome_get?_iff.mpr (List.mem_map_of_mem (f := Prod.fst) hMem)
        rw [hPlace, hNone] at hSome
        cases hSome
      heldBindings := hG.heldBindings
      sustains := hG.sustains
      added := hG.added }

/-- Requests add to the path of their injector. -/
theorem passage_grows : Passage (fun n h => h.WellFormed ∧ Anchored h n) Grows where
  course := openCourse_grows
  above hReady hAbove := ⟨(passage_excursion.above hReady hAbove).1, fun hG => hG.up hReady.1 hAbove⟩
  resolved hReady hRun := ⟨grows_resolve hReady.1 hReady.2 hRun, (passage_excursion.resolved hReady hRun).2⟩
  refused hReady hRefused := grows_refused hReady.1 hReady.2 hRefused
  opened hReady hCreated := ⟨(passage_excursion.opened hReady hCreated).1, fun hInside =>
    ⟨grows_opened hReady.1 hReady.2 hCreated hInside, grows_visit hReady.1 hReady.2 hCreated hInside⟩⟩

end Provision

namespace Hierarchy

open Provision

/-- A request of the injector leads from one state to the other, whether it succeeds or fails. It is for an instance, as
it is or received through an interface, or for a handle, or it is made with a handle that was requested before. -/
inductive Asks (n : InjectorId) (h h' : Hierarchy) : Prop
  | getInstance {fuel : Nat} {key : Key} {outcome : Except Report Instance}
      (hRun : getInstance fuel n key h = some (outcome, h'))
  | getAs {fuel : Nat} {key : Key} {interface : Interface} {outcome : Except Report Instance}
      (hRun : getAs fuel n key interface h = some (outcome, h'))
  | getHandle {key : Key} {interface : Interface} {outcome : Except Report Handle}
      (hRun : getHandle n key interface h = some (outcome, h'))
  | getFrom {fuel : Nat} {handle : Handle} {outcome : Except Report Instance}
      (hIssued : Provision.Issued n handle h) (hRun : getFrom fuel handle h = some (outcome, h'))

variable {h h' : Hierarchy} {n m : InjectorId}

theorem Asks.grows (hW : h.WellFormed) (hA : Anchored h n) (hAsks : Asks n h h') : Grows n h h' := by
  cases hAsks with
  | getInstance hRun => exact passage_grows.leads_obtain _ n _ [] h h' _ ⟨hW, hA⟩ hRun
  | getAs hRun => exact passage_grows.leads_getAs _ n _ _ h h' _ ⟨hW, hA⟩ hRun
  | getHandle hRun => exact passage_grows.leads_getHandle n _ _ h h' _ ⟨hW, hA⟩ hRun
  | getFrom hIssued hRun =>
    have hOwner := hIssued.owner_mem_path hW (hA.isLive hW)
    exact (passage_grows.leads_getFrom _ _ h h' _ ⟨hW, hA.up hW hOwner⟩ hRun).up hW hOwner

/-- What its modules declared for an injector: what it binds, and its scopes, implicit declarations, hooks and
converters. -/
structure SameDeclared (before after : Injector) : Prop where
  explicit : after.explicit = before.explicit
  scopes : after.scopes = before.scopes
  implicit : after.implicit = before.implicit
  hooks : after.hooks = before.hooks
  converters : after.converters = before.converters

theorem Continues.sameDeclared (hC : Continues h h') (hR : h.Rooted) (hm : h.isLive m = true)
    (hm' : h'.isLive m = true) :
    ∃ before after, h.injector? m = some before ∧ h'.injector? m = some after ∧ SameDeclared before after := by
  obtain ⟨before, hBefore⟩ := isLive_iff.mp hm
  obtain ⟨after, hAfter⟩ := isLive_iff.mp hm'
  have hShape := hC.shape (hR.fresh hm) hm'
  rw [hBefore, hAfter, Option.map_some, Option.map_some, Option.some.injEq] at hShape
  simp only [Injector.shape, Injector.mk.injEq] at hShape
  obtain ⟨-, -, -, hExplicit, -, -, hScopes, -, hImplicit, hHooks, hConverters⟩ := hShape
  exact ⟨before, after, hBefore, hAfter, hExplicit, hScopes, hImplicit, hHooks, hConverters⟩

/-- Whatever an injector requests, and whatever comes of it:

* Those on its path are live afterwards, and so is everybody else to whom something refers.
* Whoever was live and is so still, but is not on the path, owns exactly the bindings that it owned, under the same
  keys.
* Those on the path own what they owned, and new bindings at most that were created or converted on demand.
* Nobody's explicit bindings, scopes, implicit declarations, hooks and converters have changed. -/
theorem request_grows_path (hReach : Reachable h) (hA : Anchored h n) (hAsks : Asks n h h') :
    (∀ m, m ∈ h.path n ∨ h.prune.isLive m = true → h'.isLive m = true) ∧
      ∀ m, h.isLive m = true → h'.isLive m = true →
        (m ∉ h.path n → ∀ key, h'.binding? m key = h.binding? m key) ∧
        (m ∈ h.path n → ∀ key binding,
          (h.binding? m key = some binding → h'.binding? m key = some binding) ∧
          (h'.binding? m key = some binding →
            h.binding? m key = some binding ∨ binding.origin = .justInTime ∨ binding.origin = .converted)) ∧
        ∃ before after, h.injector? m = some before ∧ h'.injector? m = some after ∧ SameDeclared before after := by
  have hW := hReach.wellFormed
  have hGrows := hAsks.grows hW hA
  have hW' := hGrows.excursion.wellFormed hW
  have hC := hGrows.excursion.steps.continues hW
  refine ⟨fun m hm => ?_, fun m hm hm' => ⟨fun hOff key => ?_, fun hOn key binding => ⟨hC.binding? hm', ?_⟩, ?_⟩⟩
  · rcases hm with hPath | hReferred
    · exact (hGrows.excursion.anchored hW (hA.up hW hPath)).isLive hW'
    · exact hGrows.sustains hW _ (sustained_prune hW) m hReferred
  · refine Option.ext fun binding => ⟨fun hb => ?_, hC.binding? hm'⟩
    exact (hGrows.added hW hA m key binding hm hb).resolve_right fun hAdded => hOff hAdded.1
  · intro hb
    exact (hGrows.added hW hA m key binding hm hb).imp_right And.right
  · exact hC.sameDeclared hW.rooted hm hm'

/-- A request fails in the circle, and leaves a binding behind in the root, but none in a child that did not ask. -/
theorem request_grows_path_in_circle :
    let key := Key.of .text
    let h := ((circle key (.of .singleton)).create (some 0) .empty false).2
    let h' := (getInstance 3 1 key).after h
    Reachable h ∧ Anchored h 1 ∧ Asks 1 h h' ∧ h.isLive 2 = true ∧ h'.isLive 2 = true ∧ 2 ∉ h.path 1 ∧
      (∀ key, h'.binding? 2 key = h.binding? 2 key) ∧ (h.binding? 0 key).isSome = false ∧
      (h'.binding? 0 key).isSome = true := by
  intro key h h'
  have hReach : Reachable h := .tail (reachable_circle key (.of .singleton)) (.create fun p hp => by cases hp; rfl)
  have hA : Anchored h 1 := anchored_of_mem_holds (by decide)
  obtain ⟨report, hRun⟩ : ∃ report, getInstance 3 1 key h = some (.error report, h') :=
    Run.exists_error_after (by decide)
  have hAsks : Asks 1 h h' := .getInstance hRun
  have hOff : 2 ∉ h.path 1 := by decide
  have hm : h.isLive 2 = true := by decide
  have hm' : h'.isLive 2 = true := by decide
  have hSame := ((request_grows_path hReach hA hAsks).2 2 hm hm').1 hOff
  exact ⟨hReach, hA, hAsks, hm, hm', hOff, hSame, by decide, by decide⟩

end Hierarchy

end InjectorTree
