import InjectorTree.Proofs.Admission
import InjectorTree.Proofs.Placement.Resolve

/-!
# What stays from one state to a later one

An injector keeps its shape and its bindings as long as it lives, whatever happens to others. Identifiers are
never given out again, so an injector that is gone does not come back, and a binding that is new has a number
that none has had before.

* `Continues` says so of two states; it is transitive.
* `continues_create`, `continues_resolve`, `continues_release`: what the operations of the library lead to comes
  later than what they began with.
-/

namespace InjectorTree.Hierarchy

/-- The second state can come later than the first one. -/
structure Continues (h h' : Hierarchy) : Prop where
  nextInjector : h.nextInjector ≤ h'.nextInjector
  nextBinding : h.nextBinding ≤ h'.nextBinding
  shape : ∀ {n : InjectorId}, n < h.nextInjector → h'.isLive n = true →
    (h'.injector? n).map Injector.shape = (h.injector? n).map Injector.shape
  binding? : ∀ {n : InjectorId} {key : Key} {binding : Binding}, h'.isLive n = true →
    h.binding? n key = some binding → h'.binding? n key = some binding
  newer : ∀ {n : InjectorId} {key : Key} {binding : Binding}, h'.binding? n key = some binding →
    h.binding? n key = some binding ∨ h.nextBinding ≤ binding.id

variable {h h' h'' : Hierarchy} {n p : InjectorId} {key : Key} {binding : Binding}

theorem isLive_of_binding? (hb : h.binding? n key = some binding) : h.isLive n = true := by
  obtain ⟨injector, hInjector, -⟩ := Option.bind_eq_some_iff.mp hb
  exact isLive_of_injector? hInjector

/-- Whoever still owns what it owned is still live: every injector owns a binding of itself. -/
theorem isLive_of_binding?_eq (hn : h.isLive n = true) (hSame : ∀ key, h'.binding? n key = h.binding? n key) :
    h'.isLive n = true := by
  obtain ⟨itself, hItself⟩ := Option.isSome_iff_exists.mp (binding?_injector_isSome hn)
  rw [← hSame] at hItself
  exact isLive_of_binding? hItself

namespace Continues

theorem isLive (hC : Continues h h') (hn : n < h.nextInjector) (hLive : h'.isLive n = true) :
    h.isLive n = true := by
  have hSome := congrArg Option.isSome (hC.shape hn hLive)
  rw [Option.isSome_map, Option.isSome_map] at hSome
  exact hSome.symm.trans hLive

theorem lineage (hC : Continues h h') (hn : n < h.nextInjector) (hLive : h'.isLive n = true) :
    h'.lineage n = h.lineage n := by
  have hMap := hC.shape hn hLive
  obtain ⟨injector, hInjector⟩ := isLive_iff.mp (hC.isLive hn hLive)
  obtain ⟨injector', hInjector'⟩ := isLive_iff.mp hLive
  rw [hInjector, hInjector', Option.map_some, Option.map_some, Option.some.injEq] at hMap
  rw [lineage_of_injector? hInjector, lineage_of_injector? hInjector']
  exact (congrArg Injector.lineage hMap : injector'.shape.lineage = injector.shape.lineage)

theorem path (hC : Continues h h') (hn : n < h.nextInjector) (hLive : h'.isLive n = true) :
    h'.path n = h.path n := by
  rw [Hierarchy.path, Hierarchy.path, hC.lineage hn hLive]

/-- What an injector sees of shapes it sees as long as it lives. -/
theorem sameShapeOn (hC : Continues h h') (hR : h.Rooted) (hR' : h'.Rooted) (hn : h.isLive n = true)
    (hn' : h'.isLive n = true) : SameShapeOn (· ∈ h.path n) h' h where
  closed hp hq := hR.mem_path_trans hp (mem_path_of_mem_lineage hq)
  injector? {p} hp := by
    have hPath := hC.path (hR.fresh hn) hn'
    exact hC.shape (hR.fresh (hR.isLive_of_mem_path hn hp)) (hR'.isLive_of_mem_path hn' (hPath ▸ hp))

/-- Who is held in both states has stayed in its place. -/
theorem path_of_held (hC : Continues h h') (hR : h.Rooted) (hR' : h'.Rooted) (hn : n ∈ h.holds)
    (hn' : n ∈ h'.holds) : h'.path n = h.path n :=
  hC.path (hR.fresh (hR.held hn)) (hR'.held hn')

protected theorem refl (h : Hierarchy) : Continues h h :=
  ⟨Nat.le_refl _, Nat.le_refl _, fun _ _ => rfl, fun _ hb => hb, fun hb => Or.inl hb⟩

protected theorem trans (hR : h.Rooted) (hC : Continues h h') (hC' : Continues h' h'') :
    Continues h h'' where
  nextInjector := Nat.le_trans hC.nextInjector hC'.nextInjector
  nextBinding := Nat.le_trans hC.nextBinding hC'.nextBinding
  shape hn hLive := by
    have hn' := Nat.lt_of_lt_of_le hn hC.nextInjector
    exact (hC'.shape hn' hLive).trans (hC.shape hn (hC'.isLive hn' hLive))
  binding? hLive hb := by
    have hn := Nat.lt_of_lt_of_le (hR.fresh (isLive_of_binding? hb)) hC.nextInjector
    exact hC'.binding? hLive (hC.binding? (hC'.isLive hn hLive) hb)
  newer hb := by
    rcases hC'.newer hb with hOld | hNew
    · exact hC.newer hOld
    · exact Or.inr (Nat.le_trans hC.nextBinding hNew)

end Continues

-- ---------------------------------------------------------------------------
-- The operations
-- ---------------------------------------------------------------------------

theorem continues_of_sameShape (hs : SameShape h' h) (hNext : h.nextBinding ≤ h'.nextBinding)
    (hOld : ∀ {n key binding}, h.binding? n key = some binding → h'.binding? n key = some binding)
    (hNew : ∀ {n key binding}, h'.binding? n key = some binding →
      h.binding? n key = some binding ∨ h.nextBinding ≤ binding.id) : Continues h h' :=
  ⟨Nat.le_of_eq hs.nextInjector.symm, hNext, fun _ _ => hs.injector? _, fun _ hb => hOld hb, hNew⟩

theorem Marked.continues (hM : Marked h' h) : Continues h h' :=
  continues_of_sameShape hM.core.sameShape hM.nextBinding
    (fun hb => by
      rw [hM.core.binding?]
      exact hb)
    (fun hb => by
      rw [hM.core.binding?] at hb
      exact Or.inl hb)

theorem nextBinding_foldl_announce (bindings : List Binding) (h : Hierarchy) :
    (bindings.foldl announce h).nextBinding = h.nextBinding := by
  obtain ⟨injectors, hEq⟩ := foldl_eq_of_injectors announce_eq bindings h
  rw [hEq]

/-- A creation changes nothing for those that were there. -/
theorem continues_create {parent : Option InjectorId} {module : Module} {explicitOnly : Bool}
    (hW : h.WellFormed) (hLive : ∀ p, parent = some p → h.isLive p = true) :
    Continues h (h.create parent module explicitOnly).2 := by
  cases hRun : h.create parent module explicitOnly with
  | mk outcome h' =>
    cases outcome with
    | error reports => exact (create_error hW hRun).continues
    | ok child =>
      obtain ⟨made, injector, bindings, hMarked, hA, hNumbers, -, rfl⟩ := create_ok hW hLive hRun
      have hClaimed := sameShape_foldl_announce bindings (made.planted injector)
      have hNext := hMarked.core.nextInjector
      have hBinding := binding?_adopted hMarked.wellFormed.toConsistent hA
      -- the new injector has an identifier that nobody had, so all others are left alone
      refine ⟨?_, ?_, fun {n} hn _ => ?_, fun {n key binding} _ hb => ?_, fun {n key binding} hb => ?_⟩
      · exact Nat.le_trans (hNext ▸ Nat.le_succ made.nextInjector) (Nat.le_of_eq hClaimed.nextInjector.symm)
      · exact Nat.le_trans hMarked.nextBinding
          (Nat.le_of_eq (nextBinding_foldl_announce bindings (made.planted injector)).symm)
      · rw [← hMarked.core.sameShape.injector?]
        refine (hClaimed.injector? n).trans ?_
        rw [injector?_planted, if_neg (Nat.ne_of_gt (hNext ▸ hn))]
      · have hOld := hW.rooted.fresh (isLive_of_binding? hb)
        rw [hBinding, if_neg (Nat.ne_of_lt (hNext ▸ hOld)), hMarked.core.binding?]
        exact hb
      · rw [hBinding] at hb
        split at hb
        · refine Or.inr (hNumbers binding ?_)
          by_cases hKey : key = .injector
          · subst hKey
            rw [Injector.binding?_injector, Option.some.injEq] at hb
            exact hb ▸ List.mem_cons_self
          · exact List.mem_cons_of_mem _ ((hA.binding?_eq_some_iff hKey).mp hb).1
        · rw [hMarked.core.binding?] at hb
          exact Or.inl hb

/-- A resolution adds new bindings at most. -/
theorem continues_resolve {outcome : Except Report Binding} (hW : h.WellFormed) (hn : h.isLive n = true)
    (hRun : h.resolve n key = some (outcome, h')) : Continues h h' := by
  cases outcome with
  | error report => exact (resolve_error hW hRun).2.continues
  | ok binding =>
    rcases resolve_ok hW hRun with ⟨-, rfl⟩ | ⟨-, d, rfl, hF, -⟩
    · exact Continues.refl h'
    · obtain ⟨-, hShape, hNext, hBindings⟩ := publish_spec hW hn hF
      refine continues_of_sameShape hShape hNext (fun hb => (hBindings _ _ _).mpr (Or.inl hb)) fun hb => ?_
      exact ((hBindings _ _ _).mp hb).imp_right fun hStaged => hF.older _ hStaged.1

/-- Those who outlive a drop keep what they have. -/
theorem continues_release (hW : h.WellFormed) (n : InjectorId) : Continues h (h.release n) := by
  have hSurvives := survives_release hW n
  obtain ⟨injectors, hEq⟩ := sweepAll_eq h.injectors.entries.length { h with holds := h.holds.erase n }
  refine ⟨?_, Nat.le_of_eq hSurvives.nextBinding.symm, fun _ hLive => hSurvives.shape hLive, fun hLive hb => ?_,
    fun {m key binding} hb => ?_⟩
  · refine Nat.le_of_eq ?_
    rw [release, prune, hEq]
  · rw [binding?_release hW hLive]
    exact hb
  · rw [binding?_release hW (isLive_of_binding? hb)] at hb
    exact Or.inl hb

end InjectorTree.Hierarchy
