import Mathlib.Data.List.Sort
import InjectorTree.Proofs.Provision

/-!
# Who owns what, in every reachable state

* `owner_unique_on_line`: along a line of ancestors a key has one owner at most, and each owner has it once.
* `claims_exact`: the claims that an injector holds are those of what its live strict descendants own, oldest
  binding first. Claims outlast neither those who made them nor a failure, so what a state refuses to place is a
  matter of who owns what in it.
-/

namespace InjectorTree.Hierarchy

variable {h h' : Hierarchy} {n m a : InjectorId} {key : Key} {binding : Binding}

/-- A root, and a child of it that binds a key. -/
def family (key : Key) (value : Instance) : Hierarchy :=
  (create (some 0) ⟨[⟨key, .fixed value, none, .builtin⟩], [], [], [], []⟩ false
    (create none .empty false {}).2).2

theorem reachable_family (key : Key) (value : Instance) : Reachable (family key value) := by
  have hRoot : Step {} (create none .empty false {}).2 := .create fun p hp => nomatch hp
  have hChild : Step (create none .empty false {}).2 (family key value) := .create fun p hp => by
    cases hp
    rfl
  exact .tail (.single hRoot) hChild

-- ---------------------------------------------------------------------------
-- Lines
-- ---------------------------------------------------------------------------

/-- Of two injectors one above the other, at most one owns a key, however its binding came to exist; and no
injector owns it twice. The only exception is the key under which every injector provides itself. This is so in
whatever state callers find the hierarchy (`Reachable.operation`, `Session.reachable_after`), and user code in the
middle of a request. -/
theorem owner_unique_on_line (hReach : Reachable h) (hKey : key ≠ .injector) :
    (∀ m a, a ∈ h.lineage m → h.binding? m key = none ∨ h.binding? a key = none) ∧
      ∀ n injector, h.injector? n = some injector →
        injector.explicit.get? key = none ∨ injector.created.get? key = none :=
  ⟨fun _ _ ha => hReach.wellFormed.line hKey ha,
    fun _ _ hn => (hReach.wellFormed.coherent hn).disjoint key⟩

theorem owner_unique_in_family :
    let key := Key.of .text
    let h := family key (.handle none)
    Reachable h ∧ key ≠ .injector ∧ 0 ∈ h.lineage 1 ∧ (h.binding? 1 key).isSome = true ∧
      (h.binding? 1 key = none ∨ h.binding? 0 key = none) := by
  have hKey : Key.of .text ≠ .injector := by decide
  have hLine : 0 ∈ (family (.of .text) (.handle none)).lineage 1 := by decide
  exact ⟨reachable_family _ _, hKey, hLine, by decide,
    (owner_unique_on_line (reachable_family _ _) hKey).1 1 0 hLine⟩

-- ---------------------------------------------------------------------------
-- Claims
-- ---------------------------------------------------------------------------

theorem OwnedBelow.owner (hW : h.WellFormed) (hO : h.OwnedBelow a key binding) :
    a ∈ h.lineage binding.owner ∧ h.binding? binding.owner key = some binding := by
  obtain ⟨m, ha, hb, -⟩ := hO
  obtain rfl := (hW.binding? hb).2.1
  exact ⟨ha, hb⟩

/-- Bindings in the order of their numbers are all different, and each injector owns one for a key at most. -/
theorem nodup_owners (hW : h.WellFormed) {bindings : List Binding}
    (hOrder : bindings.Pairwise fun first second => first.id < second.id)
    (hOwned : ∀ binding ∈ bindings, h.OwnedBelow a key binding) : (bindings.map (·.owner)).Nodup := by
  rw [List.nodup_iff_pairwise_ne, List.pairwise_map]
  refine hOrder.imp_of_mem fun {first second} hFirst hSecond hLt hEq => ?_
  have hFirstOwned := ((hOwned first hFirst).owner hW).2
  have hSecondOwned := ((hOwned second hSecond).owner hW).2
  rw [hEq, hSecondOwned, Option.some.injEq] at hFirstOwned
  rw [hFirstOwned] at hLt
  exact Nat.lt_irrefl _ hLt

/-- Those whose claims stand in the way are the strict descendants that own the key. -/
theorem exists_claimants (hW : h.WellFormed) (hKey : key ≠ .injector) (a : InjectorId) :
    ∃ bindings : List Binding, h.claimants a key = bindings.map (·.source) ∧ (bindings.map (·.owner)).Nodup ∧
      ∀ m binding, (binding ∈ bindings ∧ binding.owner = m) ↔
        a ∈ h.lineage m ∧ h.binding? m key = some binding := by
  obtain ⟨bindings, hClaims, hOrder, hOwned⟩ := hW.claims a key
  refine ⟨bindings, ?_, nodup_owners hW hOrder fun binding => (hOwned binding).mp, fun m binding => ?_⟩
  · rw [hW.claimants_eq, hClaims, List.map_map]
    rfl
  · rw [hOwned]
    constructor
    · rintro ⟨hBelow, rfl⟩
      exact hBelow.owner hW
    · rintro ⟨ha, hb⟩
      obtain ⟨-, hOwner, hBuiltin⟩ := hW.binding? hb
      exact ⟨⟨m, ha, hb, fun hEq => hKey (hBuiltin.mp hEq)⟩, hOwner⟩

/-- Numbers order bindings strictly, so lists in their order are told apart by their members. -/
theorem eq_of_ids {first second : List Binding}
    (hFirst : first.Pairwise fun one other => one.id < other.id)
    (hSecond : second.Pairwise fun one other => one.id < other.id)
    (hMem : ∀ binding, binding ∈ first ↔ binding ∈ second) : first = second := by
  have : Std.Irrefl fun one other : Binding => one.id < other.id := ⟨fun one => Nat.lt_irrefl one.id⟩
  have : Std.Antisymm fun one other : Binding => one.id < other.id :=
    ⟨fun _ _ hLt hGt => absurd (Nat.lt_trans hLt hGt) (Nat.lt_irrefl _)⟩
  exact hFirst.eq_of_mem_iff hSecond hMem

/-- What steps leave of what is owned below an injector. -/
theorem ownedBelow_steps (hW : h.WellFormed) (hSteps : Steps h h') :
    h'.OwnedBelow a key binding ↔
      h.OwnedBelow a key binding ∧ h'.isLive binding.owner = true ∨
        h'.OwnedBelow a key binding ∧ h.nextBinding ≤ binding.id := by
  have hC := hSteps.continues hW
  have hW' := hSteps.wellFormed hW
  constructor
  · rintro ⟨m, ha, hb, hOrigin⟩
    rcases hC.newer hb with hOld | hNew
    · have hm := hW.rooted.fresh (isLive_of_binding? hOld)
      have hLive := isLive_of_binding? hb
      rw [hC.lineage hm hLive] at ha
      exact Or.inl ⟨⟨m, ha, hOld, hOrigin⟩, (hW.binding? hOld).2.1.symm ▸ hLive⟩
    · exact Or.inr ⟨⟨m, ha, hb, hOrigin⟩, hNew⟩
  · rintro (⟨hOwned, hLive⟩ | ⟨hOwned, -⟩)
    · obtain ⟨m, ha, hb, hOrigin⟩ := hOwned
      obtain rfl := (hW.binding? hb).2.1
      have hm := hW.rooted.fresh (isLive_of_binding? hb)
      rw [← hC.lineage hm hLive] at ha
      exact ⟨binding.owner, ha, hC.binding? hLive hb, hOrigin⟩
    · exact hOwned

/-- What steps leave of the claims of an injector stands first, in its order; what follows was not owned
before. -/
theorem claimsOf_steps (hW : h.WellFormed) (hSteps : Steps h h') (a : InjectorId) (key : Key) :
    ∃ later,
      h'.claimsOf a key = (h.claimsOf a key).filter (fun claim => h'.isLive claim.claimant) ++ later ∧
        ∀ claim ∈ later, h.binding? claim.claimant key = none := by
  have hC := hSteps.continues hW
  have hW' := hSteps.wellFormed hW
  obtain ⟨old, hOld, hOldOrder, hOldMem⟩ := hW.claims a key
  obtain ⟨all, hAll, hAllOrder, hAllMem⟩ := hW'.claims a key
  -- both lists are in the order of the numbers, and what is new has larger ones
  have hSplit : all = old.filter (fun binding => h'.isLive binding.owner) ++
      all.filter (fun binding => h.nextBinding ≤ binding.id) := by
    refine eq_of_ids hAllOrder ?_ fun binding => ?_
    · refine List.pairwise_append.mpr ⟨hOldOrder.filter _, hAllOrder.filter _, ?_⟩
      intro first hFirst second hSecond
      obtain ⟨m, -, hb, -⟩ := (hOldMem first).mp (List.mem_filter.mp hFirst).1
      exact Nat.lt_of_lt_of_le (hW.numbered hb) (of_decide_eq_true (List.mem_filter.mp hSecond).2)
    · rw [List.mem_append, List.mem_filter, List.mem_filter, decide_eq_true_eq, hOldMem, hAllMem]
      exact ownedBelow_steps hW hSteps
  refine ⟨(all.filter fun binding => h.nextBinding ≤ binding.id).map Binding.claim, ?_, ?_⟩
  · rw [hAll, hOld, List.filter_map]
    conv_lhs => rw [hSplit, List.map_append]
    rfl
  · intro claim hClaim
    obtain ⟨binding, hMem, rfl⟩ := List.mem_map.mp hClaim
    obtain ⟨hBinding, hNew⟩ := List.mem_filter.mp hMem
    have hOwned := ((hAllMem binding).mp hBinding).owner hW'
    rw [Option.eq_none_iff_forall_ne_some]
    intro other hOther
    -- the owner would have had another binding, and would have kept it
    have hKept := hC.binding? (isLive_of_binding? hOwned.2) hOther
    rw [hOwned.2, Option.some.injEq] at hKept
    have hLt := hW.numbered hOther
    rw [← hKept] at hLt
    exact Nat.lt_irrefl _ (Nat.lt_of_le_of_lt (of_decide_eq_true hNew) hLt)

/-- Who claims a key at an injector is a matter of who owns it below. -/
theorem claimants_eq_nil_congr (hW : h.WellFormed) (hW' : h'.WellFormed)
    (hLineage : ∀ m, h'.lineage m = h.lineage m)
    (hOwners : ∀ m key, (h'.binding? m key).isSome = (h.binding? m key).isSome) (a : InjectorId) (key : Key) :
    h'.claimants a key = [] ↔ h.claimants a key = [] := by
  by_cases hKey : key = .injector
  · -- what is built in is never claimed
    have hNone : ∀ {h : Hierarchy}, h.WellFormed → h.claimants a .injector = [] := by
      intro h hW
      obtain ⟨bindings, hClaims, -, hOwned⟩ := hW.claims a .injector
      have hNil : bindings = [] := List.eq_nil_iff_forall_not_mem.mpr fun binding hMem => by
        obtain ⟨m, -, hb, hOrigin⟩ := (hOwned binding).mp hMem
        exact hOrigin ((hW.binding? hb).2.2.mpr rfl)
      rw [hW.claimants_eq, hClaims, hNil]
      rfl
    rw [hKey, hNone hW, hNone hW']
  · rw [hW.claimants_eq_nil_iff hKey, hW'.claimants_eq_nil_iff hKey]
    refine forall_congr' fun m => ?_
    rw [hLineage, ← Option.not_isSome_iff_eq_none, ← Option.not_isSome_iff_eq_none, hOwners]

/-- Where the survivors are among those who were there, and own what they owned, no claims have come in. -/
theorem claimsOf_survivors (hW : h.WellFormed) (hSteps : Steps h h')
    (hSame : ∀ m, h'.isLive m = true → ∀ key, h'.binding? m key = h.binding? m key) (a : InjectorId) (key : Key) :
    h'.claimsOf a key = (h.claimsOf a key).filter fun claim => h'.isLive claim.claimant := by
  obtain ⟨later, hClaims, hLater⟩ := claimsOf_steps hW hSteps a key
  have hW' := hSteps.wellFormed hW
  have hNil : later = [] := List.eq_nil_iff_forall_not_mem.mpr fun claim hClaim => by
    have hMem : claim ∈ h'.claimsOf a key := hClaims ▸ List.mem_append_right _ hClaim
    obtain ⟨bindings, hBindings, -, hOwned⟩ := hW'.claims a key
    rw [hBindings] at hMem
    obtain ⟨binding, hBinding, rfl⟩ := List.mem_map.mp hMem
    have hb := (((hOwned binding).mp hBinding).owner hW').2
    have hNone : h.binding? binding.owner key = none := hLater _ hClaim
    rw [← hSame binding.owner (isLive_of_binding? hb)] at hNone
    exact Option.some_ne_none binding (hb.symm.trans hNone)
  rw [hClaims, hNil, List.append_nil]

/-- The claims of a key that an injector holds stand for the bindings of the key that its live strict
descendants own, one for each, in the order in which the bindings came to exist: what steps leave of them keeps
its place, and what was created and is gone has left none. A creation or a resolution that fails makes none.
What is not placed because of claims is the same in all states in which the same injectors own the same keys. -/
theorem claims_exact (hReach : Reachable h) :
    (∀ a key, ∃ bindings : List Binding,
      h.claimsOf a key = bindings.map (fun binding => ⟨binding.owner, binding.source⟩) ∧
        (bindings.map (·.owner)).Nodup ∧
        bindings.Pairwise (fun first second => first.id < second.id) ∧
        ∀ m binding, (binding ∈ bindings ∧ binding.owner = m) ↔
          a ∈ h.lineage m ∧ h.binding? m key = some binding ∧ binding.origin ≠ .builtin) ∧
    (∀ a key claim, claim ∈ h.claimsOf a key → h.isLive claim.claimant = true) ∧
    (∀ h', Steps h h' → ∀ a key, ∃ later,
      h'.claimsOf a key = (h.claimsOf a key).filter (fun claim => h'.isLive claim.claimant) ++ later ∧
        ∀ claim ∈ later, h.binding? claim.claimant key = none) ∧
    (∀ h', Steps h h' → (∀ m, h'.isLive m = true → ∀ key, h'.binding? m key = h.binding? m key) →
      ∀ a key, h'.claimsOf a key = (h.claimsOf a key).filter fun claim => h'.isLive claim.claimant) ∧
    (∀ parent module explicitOnly reports h', h.create parent module explicitOnly = (.error reports, h') →
      ∀ a key, h'.claimsOf a key = h.claimsOf a key) ∧
    (∀ n wanted report h', h.resolve n wanted = some (.error report, h') →
      ∀ a key, h'.claimsOf a key = h.claimsOf a key) ∧
    ∀ h', Reachable h' → (∀ m, h'.lineage m = h.lineage m) →
      (∀ m key, (h'.binding? m key).isSome = (h.binding? m key).isSome) →
        ∀ a key, h'.claimants a key = [] ↔ h.claimants a key = [] := by
  have hW := hReach.wellFormed
  refine ⟨fun a key => ?_, fun a key claim hClaim => ?_, ?_, ?_, ?_, ?_, ?_⟩
  · obtain ⟨bindings, hClaims, hOrder, hOwned⟩ := hW.claims a key
    refine ⟨bindings, hClaims, nodup_owners hW hOrder fun binding => (hOwned binding).mp, hOrder, ?_⟩
    intro m binding
    rw [hOwned]
    constructor
    · rintro ⟨⟨m', ha, hb, hOrigin⟩, rfl⟩
      obtain rfl := (hW.binding? hb).2.1
      exact ⟨ha, hb, hOrigin⟩
    · rintro ⟨ha, hb, hOrigin⟩
      exact ⟨⟨m, ha, hb, hOrigin⟩, (hW.binding? hb).2.1⟩
  · obtain ⟨bindings, hClaims, -, hOwned⟩ := hW.claims a key
    rw [hClaims] at hClaim
    obtain ⟨binding, hMem, rfl⟩ := List.mem_map.mp hClaim
    exact isLive_of_binding? (((hOwned binding).mp hMem).owner hW).2
  · intro h' hSteps a key
    exact claimsOf_steps hW hSteps a key
  · intro h' hSteps hSame a key
    exact claimsOf_survivors hW hSteps hSame a key
  · intro parent module explicitOnly reports h' hRun a key
    exact (create_error hW hRun).core.claimsOf a key
  · intro n wanted report h' hRun a key
    exact (resolve_error hW hRun).2.core.claimsOf a key
  · intro h' hReach' hLineage hOwners a key
    exact claimants_eq_nil_congr hW hReach'.wellFormed hLineage hOwners a key

theorem claims_exact_in_family :
    let key := Key.of .text
    let h := family key (.handle none)
    Reachable h ∧ h.claimsOf 0 key = [⟨1, .builtin⟩] ∧
      (∃ bindings : List Binding,
        h.claimsOf 0 key = bindings.map (fun binding => ⟨binding.owner, binding.source⟩) ∧
          (bindings.map (·.owner)).Nodup ∧
          bindings.Pairwise (fun first second => first.id < second.id) ∧
          ∀ m binding, (binding ∈ bindings ∧ binding.owner = m) ↔
            0 ∈ h.lineage m ∧ h.binding? m key = some binding ∧ binding.origin ≠ .builtin) ∧
      (h.release 1).claimsOf 0 key = [] ∧
      ∃ later,
        (h.release 1).claimsOf 0 key =
            (h.claimsOf 0 key).filter (fun claim => (h.release 1).isLive claim.claimant) ++ later ∧
          ∀ claim ∈ later, h.binding? claim.claimant key = none := by
  have hReach := reachable_family (.of .text) (.handle none)
  have hExact := claims_exact hReach
  exact ⟨hReach, by decide, hExact.1 0 (.of .text), by decide,
    hExact.2.2.1 _ (.single (.release 1)) 0 (.of .text)⟩

end InjectorTree.Hierarchy
