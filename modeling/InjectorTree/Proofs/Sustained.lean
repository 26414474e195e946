import InjectorTree.Proofs.Twins.Keeping

/-!
# Injectors that sustain each other

An injector that is not held can live on because of others: because of a child, or of a handle to it that is kept for a
binding of theirs. Some injectors *sustain* each other if something refers to each of them that does not depend on
anybody else. Then no drop forgets any of them, unless it takes away the hold on one of them.

* `Sustained.isLive_release`: drops leave them live.
* `sustained_prune`: those that are left when everything is forgotten to which nothing refers sustain each other.
-/

namespace InjectorTree.Hierarchy

/-- Something among these injectors refers to the binding, or it is held from outside. -/
def Backs (h : Hierarchy) (S : InjectorId → Prop) (number : BindingId) : Prop :=
  number ∈ h.heldBindings ∨ ∃ p key binding, S p ∧ h.binding? p key = some binding ∧ binding.id = number

/-- The injectors are live, and something refers to each of them: a hold, a child among them, or a handle that is kept
for a binding that is held or owned by one of them. -/
structure Sustained (h : Hierarchy) (S : InjectorId → Prop) : Prop where
  live : ∀ m, S m → h.isLive m = true
  referred : ∀ m, S m → m ∈ h.holds ∨ (∃ child, S child ∧ h.parent? child = some m) ∨
    ∃ number height, ((number, height), Instance.handle (some m)) ∈ h.kept.entries ∧ h.Backs S number

variable {h h' : Hierarchy} {n m : InjectorId} {S : InjectorId → Prop}

/-- What nobody is left without, they are not left without elsewhere: the holds, the parents, what is kept and what is
owned. -/
theorem Sustained.transfer (hS : Sustained h S) (hLive : ∀ m, S m → h'.isLive m = true)
    (hHolds : ∀ m, S m → m ∈ h.holds → m ∈ h'.holds) (hLineage : ∀ m, S m → h'.lineage m = h.lineage m)
    (hKept : h.kept.entries ⊆ h'.kept.entries) (hHeld : h'.heldBindings = h.heldBindings)
    (hOwned : ∀ m key binding, S m → h.binding? m key = some binding → h'.binding? m key = some binding) :
    Sustained h' S where
  live := hLive
  referred m hm := by
    refine (hS.referred m hm).imp (hHolds m hm) (Or.imp ?_ ?_)
    · rintro ⟨child, hChild, hParent⟩
      refine ⟨child, hChild, ?_⟩
      rw [parent?, hLineage child hChild]
      exact hParent
    · rintro ⟨number, height, hEntry, hBacked⟩
      refine ⟨number, height, hKept hEntry, ?_⟩
      rw [Backs, hHeld]
      refine hBacked.imp_right ?_
      rintro ⟨p, key, binding, hp, hb, hNumber⟩
      exact ⟨p, key, binding, hp, hOwned p key binding hp hb, hNumber⟩

theorem mem_keptHandles {number : BindingId} :
    (number, n) ∈ h.keptHandles ↔ ∃ height, ((number, height), Instance.handle (some n)) ∈ h.kept.entries := by
  rw [keptHandles, List.mem_filterMap]
  constructor
  · rintro ⟨entry, hEntry, hHandle⟩
    split at hHandle
    · cases hHandle
      exact ⟨_, hEntry⟩
    · cases hHandle
  · rintro ⟨height, hEntry⟩
    exact ⟨_, hEntry, rfl⟩

theorem Sustained.isReferred (hS : Sustained h S) (hm : S m) : h.isReferred m = true := by
  rcases hS.referred m hm with hHeld | ⟨child, -, hParent⟩ | ⟨number, height, hEntry, hBacked⟩
  · exact isReferred_of_mem_holds hHeld
  · obtain ⟨rest, hLineage⟩ := List.head?_eq_some_iff.mp hParent
    exact isReferred_of_child hLineage
  · have hHandle : (number, m) ∈ h.keptHandles := mem_keptHandles.mpr ⟨height, hEntry⟩
    have hExists : h.hasBinding number = true := by
      rw [hasBinding, Bool.or_eq_true, decide_eq_true_eq, List.any_eq_true]
      refine hBacked.imp_right ?_
      rintro ⟨p, key, binding, -, hb, hNumber⟩
      obtain ⟨injector, hInjector, hb⟩ := Option.bind_eq_some_iff.mp hb
      exact ⟨injector, Table.mem_values_of_get? hInjector,
        List.any_eq_true.mpr ⟨binding, Injector.mem_bindings_of_binding? hb, decide_eq_true hNumber⟩⟩
    have hKept : h.isKept m = true :=
      List.any_eq_true.mpr ⟨_, hHandle, by simp only [hExists, decide_true, Bool.and_self]⟩
    rw [Hierarchy.isReferred, hKept, Bool.or_true]

theorem Sustained.sweep (hR : h.Rooted) (hS : Sustained h S) : Sustained h.sweep S := by
  have hSurvives := survives_sweep hR
  obtain ⟨injectors, hEq⟩ := foldl_eq_of_injectors forget_eq (h.injectors.keys.filter fun n => !h.isReferred n) h
  have hLive : ∀ m, S m → h.sweep.isLive m = true := fun m hm =>
    (isLive_sweep h m).mpr ⟨hS.live m hm, hS.isReferred hm⟩
  refine hS.transfer hLive (fun _ _ hHeld => hSurvives.holds ▸ hHeld) (fun m hm => hSurvives.lineage (hLive m hm))
    ?_ ?_ fun m key binding hm hb => ?_
  · rw [Hierarchy.sweep, hEq]
    exact fun _ hMem => hMem
  · rw [Hierarchy.sweep, hEq]
  · rw [hSurvives.binding? (hLive m hm)]
    exact hb

theorem Sustained.sweepAll (hR : h.Rooted) (hS : Sustained h S) (times : Nat) : Sustained (h.sweepAll times) S := by
  induction times generalizing h with
  | zero => exact hS
  | succ times ih =>
    unfold Hierarchy.sweepAll
    split
    · exact hS
    · exact ih (survives_sweep hR).rooted (hS.sweep hR)

/-- A drop leaves them live, unless it takes away a hold that they need. -/
theorem Sustained.isLive_release (hR : h.Rooted) (hS : Sustained h S) (hn : ¬S n) (hm : S m) :
    (h.release n).isLive m = true := by
  have hErased : Sustained { h with holds := h.holds.erase n } S := by
    refine hS.transfer hS.live (fun m hm hHeld => ?_) (fun _ _ => rfl) (fun _ hMem => hMem) rfl fun _ _ _ _ hb => hb
    exact (List.mem_erase_of_ne fun (hEq : m = n) => hn (hEq ▸ hm)).mpr hHeld
  have hRooted : { h with holds := h.holds.erase n }.Rooted :=
    ⟨hR.distinct, hR.fresh, hR.parent, fun hHeld => hR.held (List.mem_of_mem_erase hHeld)⟩
  exact (hErased.sweepAll hRooted _).live m hm

/-- A value of a table stands beside a key. -/
theorem exists_get?_of_mem_values (hR : h.Rooted) {injector : Injector} (hMem : injector ∈ h.injectors.values) :
    ∃ p, h.injector? p = some injector := by
  obtain ⟨⟨p, _⟩, hEntry, rfl⟩ := List.mem_map.mp hMem
  exact ⟨p, (Table.get?_eq_some_iff hR.distinct).mpr hEntry⟩

/-- Those that are left when everything is forgotten to which nothing refers sustain each other, before that already. -/
theorem sustained_prune (hW : h.WellFormed) : Sustained h fun m => h.prune.isLive m = true := by
  have hSurvives : Survives h.prune h := survives_sweepAll hW.rooted _
  have hNotes : SameNotes h.prune h := sameNotes_sweepAll _ h
  have hReferred : ∀ {m}, h.prune.isLive m = true → h.prune.isReferred m = true := isReferred_prune
  generalize h.prune = left at *
  refine ⟨fun m hm => hSurvives.isLive hm, fun m hm => ?_⟩
  · have hSome := hReferred hm
    rw [isReferred, Bool.or_eq_true, Bool.or_eq_true, decide_eq_true_eq, or_assoc] at hSome
    refine hSome.imp (fun hHeld => hSurvives.holds ▸ hHeld) (Or.imp (fun hChild => ?_) fun hKept => ?_)
    · obtain ⟨injector, hMem, hParent⟩ := List.any_eq_true.mp hChild
      obtain ⟨child, hChild⟩ := exists_get?_of_mem_values hSurvives.rooted hMem
      have hLive := isLive_of_injector? hChild
      refine ⟨child, hLive, ?_⟩
      rw [parent?, ← hSurvives.lineage hLive, lineage_of_injector? hChild]
      exact of_decide_eq_true hParent
    · obtain ⟨⟨number, kept⟩, hHandle, hBoth⟩ := List.any_eq_true.mp hKept
      obtain ⟨hSame, hExists⟩ := Bool.and_eq_true_iff.mp hBoth
      obtain rfl : kept = m := of_decide_eq_true hSame
      obtain ⟨height, hEntry⟩ := mem_keptHandles.mp hHandle
      refine ⟨number, height, hNotes.kept ▸ hEntry, ?_⟩
      rw [hasBinding, Bool.or_eq_true, decide_eq_true_eq, hNotes.heldBindings] at hExists
      refine hExists.imp_right fun hOwned => ?_
      obtain ⟨injector, hMem, hOwned⟩ := List.any_eq_true.mp hOwned
      obtain ⟨binding, hBinding, hNumber⟩ := List.any_eq_true.mp hOwned
      obtain ⟨p, hp⟩ := exists_get?_of_mem_values hSurvives.rooted hMem
      obtain ⟨before, hBefore, hSame⟩ := hSurvives.injector? hp
      rw [Injector.congr_unclaimed (f := Injector.bindings) (fun _ => rfl) hSame] at hBinding
      exact ⟨p, binding.key, binding, isLive_of_injector? hp, hW.binding?_of_mem_bindings hBefore hBinding,
        of_decide_eq_true hNumber⟩

end InjectorTree.Hierarchy
