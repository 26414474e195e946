import InjectorTree.Proofs.Reachability
import InjectorTree.Proofs.Twins.Keeping
import InjectorTree.Proofs.Twins.Renumbering

/-!
# Steps in mirrors

Whatever happens in a hierarchy can happen in its mirror, and leads to a mirror again. A *twin* is a mirror of a
hierarchy in good order.

* `Mirror.modify`, `Mirror.announce`, `Mirror.own`, `Mirror.release` and so on: what is done to injectors.
* `Mirror.makeBinding`: a new binding gets a number in both, and one is the other renumbered.
* `Twin.findScope`, `Twin.keep` and so on: the steps that do not make an injector keep twins.
-/

namespace InjectorTree

variable {ρ : BindingId → BindingId}

namespace Hierarchy

variable {h h' : Hierarchy} {n : InjectorId} {key : Key} {binding : Binding}

/-- Injectors that differ in remembered scopes only. -/
theorem SameCore.bare_eq (hs : SameCore h' h) (hR : h.Rooted) :
    h'.injectors.mapValues (fun _ injector => injector.bare) =
      h.injectors.mapValues fun _ injector => injector.bare := by
  refine Table.eq_of_get? ?_ ?_ fun n => ?_
  · rw [Table.keys_mapValues]
    exact hR.distinct
  · rw [Table.keys_mapValues, Table.keys_mapValues, hs.keys]
  · rw [Table.get?_mapValues, Table.get?_mapValues]
    exact hs.injector? n

/-- The bindings that an injector owns have numbers that were given out. -/
theorem WellFormed.numbered_of_mem_bindings (hW : h.WellFormed) (hMem : binding ∈ h.bindings n) :
    binding.id < h.nextBinding := by
  obtain ⟨injector, hn, hMem⟩ := exists_of_mem_bindings hMem
  exact hW.numbered (hW.binding?_of_mem_bindings hn hMem)

namespace Mirror

-- ---------------------------------------------------------------------------
-- Changes of injectors
-- ---------------------------------------------------------------------------

/-- What injectors remember does not matter. -/
theorem withInjectors (hM : Mirror ρ h h') {injectors injectors' : Table InjectorId Injector}
    (hBare : injectors.mapValues (fun _ injector => injector.bare) =
      h.injectors.mapValues fun _ injector => injector.bare)
    (hBare' : injectors'.mapValues (fun _ injector => injector.bare) =
      h'.injectors.mapValues fun _ injector => injector.bare) :
    Mirror ρ { h with injectors } { h' with injectors := injectors' } := by
  refine { hM with injectors := ?_ }
  -- the renumbered injectors depend on the bare ones only
  have hRenumbered := congrArg (fun t => t.mapValues fun _ injector => (injector.renumber ρ).bare) hBare
  simp only [Table.mapValues_mapValues] at hRenumbered
  exact hBare'.trans (hM.injectors.trans hRenumbered.symm)

/-- Changes of one injector that are the same one up to numbers. -/
theorem modify {f f' : Injector → Injector} (hM : Mirror ρ h h') (change : Injector → Injector)
    (hf : ∀ injector, ((f injector).renumber ρ).bare = change (injector.renumber ρ).bare)
    (hf' : ∀ injector, (f' injector).bare = change injector.bare) (n : InjectorId) :
    Mirror ρ (h.modify n f) (h'.modify n f') := by
  refine { hM with injectors := ?_ }
  have hChanged := congrArg (fun t => t.modify n change) hM.injectors
  simp only [Table.modify, Table.mapValues_mapValues] at hChanged
  have hPush : ∀ (g : Injector → Injector) (f : Injector → Injector) (k : InjectorId) (injector : Injector),
      (∀ injector, g (f injector) = change (g injector)) →
        g (if k = n then f injector else injector) = if k = n then change (g injector) else g injector := by
    intro g f k injector hg
    split
    · exact hg injector
    · rfl
  simp only [Hierarchy.modify, Table.modify, Table.mapValues_mapValues]
  simp only [hPush Injector.bare f' _ _ hf', hPush (fun injector => (injector.renumber ρ).bare) f _ _ hf]
  exact hChanged

theorem foldl_modify {f f' : Injector → Injector} (change : Injector → Injector)
    (hf : ∀ injector, ((f injector).renumber ρ).bare = change (injector.renumber ρ).bare)
    (hf' : ∀ injector, (f' injector).bare = change injector.bare) (hM : Mirror ρ h h') (ns : List InjectorId) :
    Mirror ρ (ns.foldl (fun h n => h.modify n f) h) (ns.foldl (fun h n => h.modify n f') h') := by
  induction ns generalizing h h' with
  | nil => exact hM
  | cons n rest ih => exact ih (hM.modify change hf hf' n)

theorem announce (hM : Mirror ρ h h') (binding : Binding) :
    Mirror ρ (h.announce binding) (h'.announce (binding.renumber ρ)) := by
  have hLineage : h'.lineage (binding.renumber ρ).owner = h.lineage binding.owner := hM.lineage binding.owner
  rw [Hierarchy.announce, Hierarchy.announce, claim, claim, hLineage]
  exact foldl_modify (Injector.noting binding) (fun _ => rfl) (fun _ => rfl) hM _

theorem foldl_announce (hM : Mirror ρ h h') (bindings : List Binding) :
    Mirror ρ (bindings.foldl Hierarchy.announce h) ((bindings.map (Binding.renumber ρ)).foldl Hierarchy.announce h') := by
  induction bindings generalizing h h' with
  | nil => exact hM
  | cons first rest ih => exact ih (hM.announce first)

theorem own (hM : Mirror ρ h h') (binding : Binding) : Mirror ρ (h.own binding) (h'.own (binding.renumber ρ)) := by
  refine (hM.announce binding).modify (Injector.owning (binding.renumber ρ)) (fun injector => ?_)
    (fun _ => rfl) binding.owner
  simp only [Injector.owning, Injector.renumber, Injector.bare, Table.mapValues_insertNew]
  rfl

theorem foldl_own (hM : Mirror ρ h h') (bindings : List Binding) :
    Mirror ρ (bindings.foldl Hierarchy.own h) ((bindings.map (Binding.renumber ρ)).foldl Hierarchy.own h') := by
  induction bindings generalizing h h' with
  | nil => exact hM
  | cons first rest ih => exact ih (hM.own first)

/-- A new injector, with bindings that are renumbered. -/
theorem insert (hM : Mirror ρ h h') (n : InjectorId) {injector injector' : Injector}
    (hSame : injector' = injector.renumber ρ) :
    Mirror ρ { h with injectors := h.injectors.insert n injector }
      { h' with injectors := h'.injectors.insert n injector' } :=
  { hM with injectors := by simp only [Table.mapValues_insert, hM.injectors, hSame] }

-- ---------------------------------------------------------------------------
-- Holding and giving up
-- ---------------------------------------------------------------------------

theorem hold (hM : Mirror ρ h h') (n : InjectorId) : Mirror ρ (h.hold n) (h'.hold n) :=
  { hM with holds := congrArg (n :: ·) hM.holds }

/-- An injector that goes takes the same claims along. -/
theorem forget (hM : Mirror ρ h h') (n : InjectorId) : Mirror ρ (h.forget n) (h'.forget n) := by
  have hGone := hM.map (f := fun injector => (injector.lineage, injector.explicit.keys ++ injector.created.keys))
    (fun _ => rfl) n
  unfold Hierarchy.forget
  cases hn : h.injector? n with
  | none =>
    rw [hn, Option.map_none, Option.map_eq_none_iff] at hGone
    rw [hGone]
    exact hM
  | some gone =>
    rw [hn, Option.map_some] at hGone
    obtain ⟨gone', hn', hSame⟩ := Option.map_eq_some_iff.mp hGone
    rw [hn']
    simp only [Injector.renumber, Table.keys_mapValues, Prod.mk.injEq] at hSame
    have hErased : Mirror ρ { h with injectors := h.injectors.erase n }
        { h' with injectors := h'.injectors.erase n } := by
      refine { hM with injectors := ?_ }
      have hOthers := congrArg (fun t => t.filter fun m _ => decide (m ≠ n)) hM.injectors
      simp only [← Table.mapValues_filter] at hOthers
      exact hOthers
    dsimp only
    rw [retract_eq, retract_eq, hSame.1]
    -- the ancestors discard the same claims
    have hDiscarding : discarding { h' with injectors := h'.injectors.erase n } gone' =
        discarding { h with injectors := h.injectors.erase n } gone := by
      funext injector
      rw [discarding, discarding, hSame.2, retainClaims_congr hErased.keys]
    rw [hDiscarding]
    exact foldl_modify (discarding { h with injectors := h.injectors.erase n } gone) (fun _ => rfl) (fun _ => rfl)
      hErased _

theorem foldl_forget (hM : Mirror ρ h h') (ns : List InjectorId) :
    Mirror ρ (ns.foldl Hierarchy.forget h) (ns.foldl Hierarchy.forget h') := by
  induction ns generalizing h h' with
  | nil => exact hM
  | cons n rest ih => exact ih (hM.forget n)

theorem sweep (hM : Mirror ρ h h') : Mirror ρ h.sweep h'.sweep := by
  have hReferred : h'.isReferred = h.isReferred := funext hM.isReferred
  rw [Hierarchy.sweep, Hierarchy.sweep, hM.keys, hReferred]
  exact hM.foldl_forget _

theorem sweepAll (hM : Mirror ρ h h') (times : Nat) : Mirror ρ (h.sweepAll times) (h'.sweepAll times) := by
  induction times generalizing h h' with
  | zero => exact hM
  | succ times ih =>
    have hReferred : h'.isReferred = h.isReferred := funext hM.isReferred
    unfold Hierarchy.sweepAll
    rw [hM.keys, hReferred]
    split
    · exact hM
    · exact ih hM.sweep

theorem release (hM : Mirror ρ h h') (n : InjectorId) : Mirror ρ (h.release n) (h'.release n) := by
  have hErased : Mirror ρ { h with holds := h.holds.erase n } { h' with holds := h'.holds.erase n } :=
    { hM with holds := congrArg (·.erase n) hM.holds }
  have hLength : h'.injectors.entries.length = h.injectors.entries.length := by
    have hKeys := congrArg List.length hM.keys
    rwa [Table.keys, Table.keys, List.length_map, List.length_map] at hKeys
  unfold Hierarchy.release prune
  simp only [hLength]
  exact hErased.sweepAll _

-- ---------------------------------------------------------------------------
-- Numbers and user code
-- ---------------------------------------------------------------------------

theorem withUser (hM : Mirror ρ h h') (user : UserState) : Mirror ρ { h with user } { h' with user } :=
  { hM with user := rfl }

/-- The next number is that of the next binding. -/
theorem number_nextBinding (hM : Mirror ρ h h') : ρ h.nextBinding = h'.nextBinding :=
  hM.nextBinding 0

/-- Numbers that were given out are taken to such numbers. -/
theorem number_lt_iff (hM : Mirror ρ h h') (number : BindingId) :
    ρ number < h'.nextBinding ↔ number < h.nextBinding := by
  constructor
  · intro hLt
    by_contra hGe
    have hNext := hM.nextBinding (number - h.nextBinding)
    rw [Nat.add_sub_cancel' (Nat.le_of_not_lt hGe)] at hNext
    exact absurd hLt (Nat.not_lt.mpr (hNext ▸ Nat.le_add_right _ _))
  · -- otherwise its number would be that of a binding still to be made
    intro hLt
    by_contra hGe
    have hNext := hM.nextBinding (ρ number - h'.nextBinding)
    rw [Nat.add_sub_cancel' (Nat.le_of_not_lt hGe)] at hNext
    exact absurd hLt (Nat.not_lt.mpr (hM.injective hNext ▸ Nat.le_add_right _ _))

theorem makeBinding (hM : Mirror ρ h h') (key : Key) (strategy : Strategy) (scope : Option (ScopeTag × Scope))
    (source : Source) (origin : Origin) (owner : InjectorId) :
    (h'.makeBinding key strategy scope source origin owner).1 =
        (h.makeBinding key strategy scope source origin owner).1.renumber ρ ∧
      Mirror ρ (h.makeBinding key strategy scope source origin owner).2
        (h'.makeBinding key strategy scope source origin owner).2 := by
  simp only [Hierarchy.makeBinding, hM.user, Binding.renumber, hM.number_nextBinding]
  refine ⟨trivial, { hM with nextBinding := fun i => ?_, user := rfl }⟩
  have hNext := hM.nextBinding (1 + i)
  rwa [← Nat.add_assoc, ← Nat.add_assoc] at hNext

theorem injective_place (hM : Mirror ρ h h') :
    Function.Injective fun place : BindingId × Nat => (ρ place.1, place.2) := by
  intro place place' hEq
  rw [Prod.mk.injEq] at hEq
  exact Prod.ext (hM.injective hEq.1) hEq.2

theorem keep (hM : Mirror ρ h h') (number : BindingId) (height : Nat) (value : Instance) :
    Mirror ρ { h with kept := h.kept.insert (number, height) value }
      { h' with kept := h'.kept.insert (ρ number, height) value } := by
  refine { hM with kept := ?_ }
  rw [Table.mapKeys_insert hM.injective_place, hM.kept]

theorem get?_kept (hM : Mirror ρ h h') (number : BindingId) (height : Nat) :
    h'.kept.get? (ρ number, height) = h.kept.get? (number, height) := by
  rw [hM.kept]
  exact Table.get?_mapKeys hM.injective_place h.kept (number, height)

theorem holdBinding (hM : Mirror ρ h h') (number : BindingId) :
    Mirror ρ (h.holdBinding number) (h'.holdBinding (ρ number)) := by
  refine { hM with heldBindings := ?_ }
  simp only [Hierarchy.holdBinding, hM.heldBindings, List.insert, List.elem_eq_mem,
    List.mem_map_of_injective hM.injective]
  split <;> rfl

end Mirror

-- ---------------------------------------------------------------------------
-- Twins
-- ---------------------------------------------------------------------------

/-- A mirror in good order of a hierarchy in good order. -/
structure Twin (ρ : BindingId → BindingId) (h h' : Hierarchy) : Prop extends Mirror ρ h h' where
  wellFormed : h.WellFormed
  wellFormed' : h'.WellFormed
  tidy : h.Tidy

namespace Twin

theorem withUser (hT : Twin ρ h h') (user : UserState) : Twin ρ { h with user } { h' with user } where
  toMirror := hT.toMirror.withUser user
  wellFormed := (marked_user hT.wellFormed user).wellFormed
  wellFormed' := (marked_user hT.wellFormed' user).wellFormed
  tidy := ⟨hT.tidy.held, hT.tidy.kept⟩

/-- The same scope is found in both. -/
theorem findScope (hT : Twin ρ h h') (n : InjectorId) (tag : ScopeTag) :
    (h'.findScope n tag).1 = (h.findScope n tag).1 ∧ Twin ρ (h.findScope n tag).2 (h'.findScope n tag).2 := by
  have hFirst := findScope_fst hT.wellFormed.rooted hT.wellFormed.caches n tag
  have hFirst' := findScope_fst hT.wellFormed'.rooted hT.wellFormed'.caches n tag
  refine ⟨by rw [hFirst, hFirst', hT.nearestScope], ?_⟩
  have hBare := (sameCore_findScope h n tag).bare_eq hT.wellFormed.rooted
  have hBare' := (sameCore_findScope h' n tag).bare_eq hT.wellFormed'.rooted
  obtain ⟨injectors, hEq⟩ := findScopeOn_snd tag (h.path n) h
  obtain ⟨injectors', hEq'⟩ := findScopeOn_snd tag (h'.path n) h'
  have hMirror : Mirror ρ (h.findScope n tag).2 (h'.findScope n tag).2 := by
    rw [Hierarchy.findScope, hEq] at hBare ⊢
    rw [Hierarchy.findScope, hEq'] at hBare' ⊢
    exact hT.toMirror.withInjectors hBare hBare'
  exact
    { toMirror := hMirror
      wellFormed := wellFormed_findScope hT.wellFormed n tag
      wellFormed' := wellFormed_findScope hT.wellFormed' n tag
      tidy := hT.tidy.of_sameNotes (sameNotes_findScope h n tag) (Nat.le_of_eq (nextBinding_findScope h n tag).symm) }

theorem makeBinding (hT : Twin ρ h h') (key : Key) (strategy : Strategy) (scope : Option (ScopeTag × Scope))
    (source : Source) (origin : Origin) (owner : InjectorId) :
    Twin ρ (h.makeBinding key strategy scope source origin owner).2
      (h'.makeBinding key strategy scope source origin owner).2 where
  toMirror := (hT.toMirror.makeBinding key strategy scope source origin owner).2
  wellFormed := wellFormed_makeBinding hT.wellFormed key strategy scope source origin owner
  wellFormed' := wellFormed_makeBinding hT.wellFormed' key strategy scope source origin owner
  tidy := hT.tidy.of_sameNotes ⟨rfl, rfl⟩ (Nat.le_succ _)

theorem hold (hT : Twin ρ h h') (hn : h.isLive n = true) : Twin ρ (h.hold n) (h'.hold n) where
  toMirror := hT.toMirror.hold n
  wellFormed := wellFormed_hold hT.wellFormed hn
  wellFormed' := wellFormed_hold hT.wellFormed' (hT.isLive n ▸ hn)
  tidy := ⟨hT.tidy.held, hT.tidy.kept⟩

theorem release (hT : Twin ρ h h') (n : InjectorId) : Twin ρ (h.release n) (h'.release n) where
  toMirror := hT.toMirror.release n
  wellFormed := wellFormed_release hT.wellFormed n
  wellFormed' := wellFormed_release hT.wellFormed' n
  tidy := hT.tidy.of_sameNotes (sameNotes_release h n) (continues_release hT.wellFormed n).nextBinding

/-- An instance is kept for a binding that was made. -/
theorem keep (hT : Twin ρ h h') {number : BindingId} (hMade : number < h.nextBinding) (height : Nat)
    (value : Instance) :
    Twin ρ { h with kept := h.kept.insert (number, height) value }
      { h' with kept := h'.kept.insert (ρ number, height) value } where
  toMirror := hT.toMirror.keep number height value
  wellFormed := (marked_keep hT.wellFormed _).wellFormed
  wellFormed' := (marked_keep hT.wellFormed' _).wellFormed
  tidy := by
    refine ⟨hT.tidy.held, fun place hMem => ?_⟩
    rcases (Table.mem_keys_insertEntry _ _ _ _).mp hMem with rfl | hOld
    · exact hMade
    · exact hT.tidy.kept place hOld

/-- A binding that was made is held. -/
theorem holdBinding (hT : Twin ρ h h') {number : BindingId} (hMade : number < h.nextBinding) :
    Twin ρ (h.holdBinding number) (h'.holdBinding (ρ number)) where
  toMirror := hT.toMirror.holdBinding number
  wellFormed := (marked_holdBinding hT.wellFormed number).wellFormed
  wellFormed' := (marked_holdBinding hT.wellFormed' (ρ number)).wellFormed
  tidy := by
    refine ⟨fun held hMem => ?_, hT.tidy.kept⟩
    rcases List.mem_insert_iff.mp hMem with rfl | hOld
    · exact hMade
    · exact hT.tidy.held held hOld

end Twin

end Hierarchy

end InjectorTree
