import InjectorTree.Proofs.Hierarchy.ScopeCache

/-!
# Publishing

A binding that is published is claimed on the ancestors of its owner, and owned from then on. A draft
publishes its bindings one after the other, oldest first.

* `Ownable`: nobody on the path of the owner or below it has a binding of the key, and the binding is newer
  than all that exist.
* `binding?_own`, `claimsOf_own`: what publishing one binding changes.
* `wellFormed_foldl_own`: bindings of distinct keys, each of them ownable, are published together.
-/

namespace InjectorTree

/-- The injector after it was told that a descendant owns the binding. -/
def Injector.noting (binding : Binding) (injector : Injector) : Injector :=
  { injector with claims := injector.claims.push binding.key binding.claim }

/-- The injector with one more created binding. -/
def Injector.owning (binding : Binding) (injector : Injector) : Injector :=
  { injector with created := injector.created.insertNew binding.key binding }

namespace Hierarchy

/-- Claims a binding for its owner, under its key. -/
def announce (h : Hierarchy) (binding : Binding) : Hierarchy :=
  h.claim binding.owner binding.key binding.source

/-- Publishes one binding. -/
def own (h : Hierarchy) (binding : Binding) : Hierarchy :=
  (h.announce binding).modify binding.owner (Injector.owning binding)

/-- What was staged is published for the owners and under the keys that the bindings have themselves. -/
theorem publish_eq_foldl (d : Draft) : d.publish = d.staged.foldl own d.hierarchy := by
  rw [Draft.publish, Draft.staged, List.foldl_map]
  congr 1
  funext h staged
  obtain ⟨_, _, binding, rfl, rfl⟩ := staged
  rfl

variable {h : Hierarchy} {n m a : InjectorId} {key : Key} {binding other : Binding}

-- ---------------------------------------------------------------------------
-- What claiming changes
-- ---------------------------------------------------------------------------

theorem injector?_announce (hR : h.Rooted) (binding : Binding) (m : InjectorId) :
    (h.announce binding).injector? m =
      if m ∈ h.lineage binding.owner then (h.injector? m).map (Injector.noting binding)
      else h.injector? m :=
  injector?_foldl_modify hR.nodup_lineage h m

theorem sameShape_announce (h : Hierarchy) (binding : Binding) : SameShape (h.announce binding) h :=
  sameShape_foldl_modify (f := Injector.noting binding) (fun _ => rfl) (h.lineage binding.owner) h

/-- Claims are no bindings, and neither are they remembered scopes. -/
theorem bind_announce {α : Type} (hR : h.Rooted) {f : Injector → Option α}
    (hf : ∀ injector, f (injector.noting binding) = f injector) (m : InjectorId) :
    ((h.announce binding).injector? m).bind f = (h.injector? m).bind f := by
  rw [injector?_announce hR]
  split
  · rw [Option.bind_map]
    congr 1
    funext injector
    exact hf injector
  · rfl

/-- Claims change nothing but injectors. -/
theorem announce_eq (h : Hierarchy) (binding : Binding) : ∃ injectors, h.announce binding = { h with injectors } :=
  foldl_eq_of_injectors (fun _ _ => ⟨_, rfl⟩) (h.lineage binding.owner) h

theorem nextBinding_announce (h : Hierarchy) (binding : Binding) :
    (h.announce binding).nextBinding = h.nextBinding := by
  obtain ⟨injectors, hEq⟩ := announce_eq h binding
  rw [hEq]

theorem claimsOf_announce (hR : h.Rooted) (binding : Binding) (a : InjectorId) (key : Key) :
    (h.announce binding).claimsOf a key =
      if a ∈ h.lineage binding.owner ∧ binding.key = key then h.claimsOf a key ++ [binding.claim]
      else h.claimsOf a key := by
  rw [claimsOf, claimsOf, injector?_announce hR]
  by_cases ha : a ∈ h.lineage binding.owner
  · -- an ancestor gets one claim, at the end of those of the key
    obtain ⟨injector, hInjector⟩ := isLive_iff.mp (hR.isLive_ancestor ha)
    simp only [ha, if_true, true_and, hInjector, Option.map_some, Option.bind_some, Injector.noting,
      Table.get?_push]
    by_cases hKey : binding.key = key
    · rw [if_pos hKey, if_pos hKey, Option.getD_some, hKey]
    · rw [if_neg hKey, if_neg hKey]
  · simp only [ha, if_false, false_and]

-- ---------------------------------------------------------------------------
-- What publishing one binding changes
-- ---------------------------------------------------------------------------

/-- Nothing stands in the way of publishing the binding. -/
structure Ownable (h : Hierarchy) (binding : Binding) : Prop where
  live : h.isLive binding.owner = true
  key : binding.key ≠ .injector
  origin : binding.origin = .justInTime ∨ binding.origin = .converted
  path : h.lookup binding.owner binding.key = none
  below : ∀ m, binding.owner ∈ h.lineage m → h.binding? m binding.key = none
  newest : ∀ {n : InjectorId} {key : Key} {other : Binding}, h.binding? n key = some other →
    other.id < binding.id
  numbered : binding.id < h.nextBinding

theorem injector?_own (hR : h.Rooted) (binding : Binding) (m : InjectorId) :
    (h.own binding).injector? m =
      if m = binding.owner then (h.injector? m).map (Injector.owning binding)
      else if m ∈ h.lineage binding.owner then (h.injector? m).map (Injector.noting binding)
      else h.injector? m := by
  rw [own, injector?_modify, injector?_announce hR]
  by_cases hEq : m = binding.owner
  · subst hEq
    rw [if_pos rfl, if_pos rfl, if_neg hR.not_mem_lineage_self]
  · rw [if_neg (Ne.symm hEq), if_neg hEq]

theorem sameShape_own (h : Hierarchy) (binding : Binding) : SameShape (h.own binding) h :=
  (sameShape_modify (h.announce binding) binding.owner (f := Injector.owning binding) fun _ => rfl).trans
    (sameShape_announce h binding)

/-- So does publishing. -/
theorem own_eq (h : Hierarchy) (binding : Binding) : ∃ injectors, h.own binding = { h with injectors } := by
  obtain ⟨injectors, hEq⟩ := announce_eq h binding
  rw [own, hEq]
  exact ⟨_, rfl⟩

theorem nextBinding_own (h : Hierarchy) (binding : Binding) :
    (h.own binding).nextBinding = h.nextBinding :=
  nextBinding_announce h binding

theorem claimsOf_own (hR : h.Rooted) (binding : Binding) (a : InjectorId) (key : Key) :
    (h.own binding).claimsOf a key =
      if a ∈ h.lineage binding.owner ∧ binding.key = key then h.claimsOf a key ++ [binding.claim]
      else h.claimsOf a key := by
  rw [← claimsOf_announce hR, claimsOf, claimsOf, own, injector?_modify]
  split
  · rw [Option.bind_map]
    rfl
  · rfl

/-- An injector gets the binding unless it has one of the key. -/
theorem Injector.binding?_owning (injector : Injector) (binding : Binding) (key : Key) :
    (injector.owning binding).binding? key =
      if key = binding.key ∧ key ≠ .injector then some ((injector.binding? key).getD binding)
      else injector.binding? key := by
  by_cases hInjector : key = .injector
  · subst hInjector
    rw [if_neg fun hBoth => hBoth.2 rfl, Injector.binding?_injector, Injector.binding?_injector]
    rfl
  · rw [Injector.binding?_of_ne hInjector, Injector.binding?_of_ne hInjector]
    simp only [Injector.owning, Table.get?_insertNew]
    by_cases hKey : binding.key = key
    · rw [if_pos hKey, if_pos ⟨hKey.symm, hInjector⟩, hKey]
      cases injector.explicit.get? key <;> rfl
    · rw [if_neg hKey, if_neg fun hBoth => hKey hBoth.1.symm]

/-- Nobody but the owner gets a binding. -/
theorem binding?_own_eq (hR : h.Rooted) (binding : Binding) (m : InjectorId) (key : Key) :
    (h.own binding).binding? m key =
      if m = binding.owner then (h.injector? m).bind fun injector => (injector.owning binding).binding? key
      else h.binding? m key := by
  rw [Hierarchy.binding?, injector?_own hR]
  split
  · exact Option.bind_map ..
  · split
    · exact Option.bind_map ..
    · rfl

/-- The owner gets the binding; nobody else gets or loses one. -/
theorem binding?_own (hR : h.Rooted) (hO : h.Ownable binding) (m : InjectorId) (key : Key) :
    (h.own binding).binding? m key =
      if m = binding.owner ∧ key = binding.key then some binding else h.binding? m key := by
  rw [binding?_own_eq hR]
  by_cases hEq : m = binding.owner
  · -- the owner has had no binding of the key
    subst hEq
    obtain ⟨injector, hInjector⟩ := isLive_iff.mp hO.live
    have hNone := lookup_eq_none_iff.mp hO.path binding.owner self_mem_path
    rw [binding?_of_injector? hInjector] at hNone
    rw [if_pos rfl, binding?_of_injector? hInjector, hInjector, Option.bind_some, Injector.binding?_owning]
    by_cases hKey : key = binding.key
    · subst hKey
      rw [if_pos ⟨rfl, hO.key⟩, if_pos ⟨rfl, rfl⟩, hNone, Option.getD_none]
    · rw [if_neg fun hBoth => hKey hBoth.1, if_neg fun hBoth => hKey hBoth.2]
  · rw [if_neg hEq, if_neg fun hBoth => hEq hBoth.1]

theorem Injector.Coherent.noting {injector : Injector} (hC : injector.Coherent n) (binding : Binding) :
    (injector.noting binding).Coherent n :=
  ⟨hC.itself, hC.explicit, hC.created, hC.disjoint, hC.explicitKeys, hC.createdKeys,
    Table.nodup_keys_insert _ _ _ hC.claimKeys, hC.provided⟩

theorem Injector.Coherent.owning {injector : Injector} (hC : injector.Coherent binding.owner)
    (hKey : binding.key ≠ .injector) (hOrigin : binding.origin = .justInTime ∨ binding.origin = .converted)
    (hExplicit : injector.explicit.get? binding.key = none)
    (hCreated : injector.created.get? binding.key = none) :
    (injector.owning binding).Coherent binding.owner where
  itself := hC.itself
  explicit := hC.explicit
  created {key other} hOther := by
    simp only [Injector.owning, Table.get?_insertNew, hCreated, Option.getD_none] at hOther
    by_cases hEq : binding.key = key
    · rw [if_pos hEq, Option.some.injEq] at hOther
      subst hOther
      exact ⟨hEq, rfl, hOrigin, hEq ▸ hKey⟩
    · rw [if_neg hEq] at hOther
      exact hC.created hOther
  disjoint key := by
    by_cases hEq : binding.key = key
    · exact Or.inl (hEq ▸ hExplicit)
    · simp only [Injector.owning, Table.get?_insertNew, if_neg hEq]
      exact hC.disjoint key
  explicitKeys := hC.explicitKeys
  createdKeys := Table.nodup_keys_insertNew _ _ _ hC.createdKeys
  claimKeys := hC.claimKeys
  provided := hC.provided

/-- The claims go on to be exact: the new one stands last, and so does the new binding. -/
theorem claimsExact_own (hW : h.WellFormed) (hO : h.Ownable binding) (a : InjectorId) (key : Key) :
    (h.own binding).ClaimsExact a key := by
  -- below an ancestor of the owner, exactly one more binding is owned
  have hBelow : ∀ other, (h.own binding).OwnedBelow a key other ↔
      h.OwnedBelow a key other ∨ (a ∈ h.lineage binding.owner ∧ binding.key = key) ∧ other = binding := by
    intro other
    simp only [OwnedBelow, (sameShape_own h binding).lineage, binding?_own hW.rooted hO]
    constructor
    · rintro ⟨m, ha, hOther, hOrigin⟩
      split at hOther
      · next hNew =>
        rw [Option.some.injEq] at hOther
        exact Or.inr ⟨⟨hNew.1 ▸ ha, hNew.2.symm⟩, hOther.symm⟩
      · exact Or.inl ⟨m, ha, hOther, hOrigin⟩
    · rintro (⟨m, ha, hOther, hOrigin⟩ | ⟨⟨ha, hKey⟩, rfl⟩)
      · refine ⟨m, ha, ?_, hOrigin⟩
        rw [if_neg, hOther]
        rintro ⟨rfl, rfl⟩
        -- the owner had no binding of the key before
        rw [lookup_eq_none_iff.mp hO.path _ self_mem_path] at hOther
        cases hOther
      · refine ⟨other.owner, ha, if_pos ⟨rfl, hKey.symm⟩, fun hBuiltin => ?_⟩
        have hOrigin := hO.origin
        rw [hBuiltin] at hOrigin
        rcases hOrigin with hOrigin | hOrigin <;> cases hOrigin
  by_cases hNew : a ∈ h.lineage binding.owner ∧ binding.key = key
  · -- its number is the largest, so the order is kept when it is put last
    have hClaims : (h.own binding).claimsOf a key = h.claimsOf a key ++ [binding].map Binding.claim := by
      rw [claimsOf_own hW.rooted, if_pos hNew, List.map_singleton]
    refine (hW.claims a key).append hClaims (List.pairwise_singleton _ _) ?_ fun other => ?_
    · rintro old ⟨m, -, hb, -⟩ new hMem
      rw [List.mem_singleton.mp hMem]
      exact hO.newest hb
    · rw [hBelow, List.mem_singleton]
      simp only [hNew, true_and, and_self]
  · have hClaims : (h.own binding).claimsOf a key = h.claimsOf a key ++ [].map Binding.claim := by
      rw [claimsOf_own hW.rooted, if_neg hNew, List.map_nil, List.append_nil]
    refine (hW.claims a key).append hClaims List.Pairwise.nil ?_ fun other => ?_
    · intro old _ new hMem
      exact absurd hMem List.not_mem_nil
    · rw [hBelow]
      simp only [hNew, false_and, List.not_mem_nil]

theorem cachesSound_own (hW : h.WellFormed) (binding : Binding) : (h.own binding).CachesSound where
  nearest {m injector tag registration} hm hTag := by
    rw [(sameShape_own h binding).nearestScope]
    rw [injector?_own hW.rooted] at hm
    split at hm
    · obtain ⟨before, hBefore, rfl⟩ := Option.map_eq_some_iff.mp hm
      exact hW.caches.nearest hBefore hTag
    · split at hm
      · obtain ⟨before, hBefore, rfl⟩ := Option.map_eq_some_iff.mp hm
        exact hW.caches.nearest hBefore hTag
      · exact hW.caches.nearest hm hTag

/-- Publishing an ownable binding keeps a hierarchy well-formed. -/
theorem wellFormed_own (hW : h.WellFormed) (hO : h.Ownable binding) : (h.own binding).WellFormed where
  rooted := hW.rooted.of_sameShape (sameShape_own h binding)
  coherent {m injector} hm := by
    rw [injector?_own hW.rooted] at hm
    split at hm
    · next hEq =>
      subst hEq
      obtain ⟨before, hBefore, rfl⟩ := Option.map_eq_some_iff.mp hm
      have hNone := lookup_eq_none_iff.mp hO.path binding.owner self_mem_path
      rw [binding?_of_injector? hBefore, Injector.binding?_of_ne hO.key, Option.or_eq_none_iff] at hNone
      exact Injector.Coherent.owning (hW.coherent hBefore) hO.key hO.origin hNone.1 hNone.2
    · split at hm
      · obtain ⟨before, hBefore, rfl⟩ := Option.map_eq_some_iff.mp hm
        exact Injector.Coherent.noting (hW.coherent hBefore) binding
      · exact hW.coherent hm
  line {m a key} hKey ha := by
    rw [(sameShape_own h binding).lineage] at ha
    rw [binding?_own hW.rooted hO, binding?_own hW.rooted hO]
    by_cases hm : m = binding.owner ∧ key = binding.key
    · -- above the owner nobody had the key
      obtain ⟨rfl, rfl⟩ := hm
      have hne : ¬(a = binding.owner ∧ binding.key = binding.key) := fun hBoth =>
        hW.rooted.not_mem_lineage_self (hBoth.1 ▸ ha)
      rw [if_neg hne]
      exact Or.inr (lookup_eq_none_iff.mp hO.path a (mem_path_of_mem_lineage ha))
    · rw [if_neg hm]
      by_cases haNew : a = binding.owner ∧ key = binding.key
      · -- below the owner nobody had the key
        obtain ⟨rfl, rfl⟩ := haNew
        exact Or.inl (hO.below m ha)
      · rw [if_neg haNew]
        exact hW.line hKey ha
  claims := claimsExact_own hW hO
  numbered {m key other} hOther := by
    rw [nextBinding_own]
    rw [binding?_own hW.rooted hO] at hOther
    split at hOther
    · rw [Option.some.injEq] at hOther
      subst hOther
      exact hO.numbered
    · exact hW.numbered hOther
  caches := cachesSound_own hW binding

-- ---------------------------------------------------------------------------
-- Publishing several bindings
-- ---------------------------------------------------------------------------

/-- A binding of another key that is newer can be published next. -/
theorem Ownable.own (hR : h.Rooted) (hO : h.Ownable binding) (hOther : h.Ownable other)
    (hKey : binding.key ≠ other.key) (hId : binding.id < other.id) : (h.own binding).Ownable other where
  live := by
    rw [(sameShape_own h binding).isLive]
    exact hOther.live
  key := hOther.key
  origin := hOther.origin
  path := by
    rw [lookup_eq_none_iff, (sameShape_own h binding).path]
    intro p hp
    rw [binding?_own hR hO, if_neg fun hBoth => hKey hBoth.2.symm]
    exact lookup_eq_none_iff.mp hOther.path p hp
  below m hm := by
    rw [(sameShape_own h binding).lineage] at hm
    rw [binding?_own hR hO, if_neg fun hBoth => hKey hBoth.2.symm]
    exact hOther.below m hm
  newest {n key last} hLast := by
    rw [binding?_own hR hO] at hLast
    split at hLast
    · rw [Option.some.injEq] at hLast
      exact hLast ▸ hId
    · exact hOther.newest hLast
  numbered := by
    rw [nextBinding_own]
    exact hOther.numbered

theorem sameShape_foldl_own (bindings : List Binding) (h : Hierarchy) :
    SameShape (bindings.foldl own h) h := by
  induction bindings generalizing h with
  | nil => exact SameShape.refl h
  | cons first rest ih => exact (ih (h.own first)).trans (sameShape_own h first)

/-- Bindings of distinct keys, in the order of their numbers and each of them ownable, are published
together: the hierarchy stays well-formed, and nobody else gets or loses a binding. -/
theorem foldl_own {bindings : List Binding} (hW : h.WellFormed)
    (hO : ∀ binding ∈ bindings, h.Ownable binding) (hKeys : (bindings.map (·.key)).Nodup)
    (hOrder : bindings.Pairwise fun first second => first.id < second.id) :
    (bindings.foldl own h).WellFormed ∧
      ∀ (m : InjectorId) (key : Key) (binding : Binding),
        (bindings.foldl own h).binding? m key = some binding ↔
          h.binding? m key = some binding ∨
            binding ∈ bindings ∧ binding.owner = m ∧ binding.key = key := by
  induction bindings generalizing h with
  | nil => exact ⟨hW, fun m key binding => by simp⟩
  | cons first rest ih =>
    -- the others are of other keys and newer, so they can still be published after the first one
    rw [List.map_cons, List.nodup_cons] at hKeys
    rw [List.pairwise_cons] at hOrder
    have hFirst := hO first List.mem_cons_self
    have hRest : ∀ binding ∈ rest, (h.own first).Ownable binding := fun binding hMem =>
      Ownable.own hW.rooted hFirst (hO binding (List.mem_cons_of_mem first hMem))
        (fun hEq => hKeys.1 (hEq ▸ List.mem_map_of_mem hMem)) (hOrder.1 binding hMem)
    obtain ⟨hWell, hBindings⟩ := ih (wellFormed_own hW hFirst) hRest hKeys.2 hOrder.2
    refine ⟨hWell, fun m key binding => ?_⟩
    rw [List.foldl_cons, hBindings, binding?_own hW.rooted hFirst, List.mem_cons]
    have hNone : h.binding? first.owner first.key = none :=
      lookup_eq_none_iff.mp hFirst.path first.owner self_mem_path
    by_cases hNew : m = first.owner ∧ key = first.key
    · obtain ⟨rfl, rfl⟩ := hNew
      rw [if_pos ⟨rfl, rfl⟩, Option.some.injEq, hNone]
      constructor
      · rintro (rfl | ⟨hMem, hOwner, hKey⟩)
        · exact Or.inr ⟨Or.inl rfl, rfl, rfl⟩
        · exact Or.inr ⟨Or.inr hMem, hOwner, hKey⟩
      · rintro (hAbsurd | ⟨rfl | hMem, hOwner, hKey⟩)
        · cases hAbsurd
        · exact Or.inl rfl
        · exact Or.inr ⟨hMem, hOwner, hKey⟩
    · rw [if_neg hNew]
      constructor
      · rintro (hOld | ⟨hMem, hOwner, hKey⟩)
        · exact Or.inl hOld
        · exact Or.inr ⟨Or.inr hMem, hOwner, hKey⟩
      · rintro (hOld | ⟨rfl | hMem, hOwner, hKey⟩)
        · exact Or.inl hOld
        · exact absurd ⟨hOwner.symm, hKey.symm⟩ hNew
        · exact Or.inr ⟨hMem, hOwner, hKey⟩

end Hierarchy

end InjectorTree
