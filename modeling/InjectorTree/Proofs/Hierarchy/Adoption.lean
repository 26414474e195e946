import InjectorTree.Proofs.Hierarchy.Publishing
import InjectorTree.Proofs.Hierarchy.Release

/-!
# Adding an injector

A new injector comes with explicit bindings, which are claimed on its ancestors when it is in the tree.

* `Adoptable`: the injector is a coherent one below its parent, and nobody on its path binds one of its keys.
* `wellFormed_adopted`: adding it and claiming its bindings keeps a hierarchy well-formed.
* `binding?_adopted`: it owns its bindings, and nobody else gets or loses one.
-/

namespace InjectorTree.Hierarchy

variable {h : Hierarchy} {n m p a : InjectorId} {key : Key} {injector : Injector} {bindings : List Binding}

-- ---------------------------------------------------------------------------
-- Claiming several bindings
-- ---------------------------------------------------------------------------

theorem sameShape_foldl_announce (bindings : List Binding) (h : Hierarchy) :
    SameShape (bindings.foldl announce h) h := by
  induction bindings generalizing h with
  | nil => exact SameShape.refl h
  | cons first rest ih => exact (ih (h.announce first)).trans (sameShape_announce h first)

theorem binding?_announce (hR : h.Rooted) (binding : Binding) (m : InjectorId) (key : Key) :
    (h.announce binding).binding? m key = h.binding? m key :=
  bind_announce hR (fun _ => rfl) m

/-- Claims change nothing but claims. -/
theorem Consistent.announce (hC : h.Consistent) (binding : Binding) : (h.announce binding).Consistent where
  rooted := hC.rooted.of_sameShape (sameShape_announce h binding)
  coherent {m injector} hm := by
    rw [injector?_announce hC.rooted] at hm
    split at hm
    · obtain ⟨before, hBefore, rfl⟩ := Option.map_eq_some_iff.mp hm
      exact Injector.Coherent.noting (hC.coherent hBefore) binding
    · exact hC.coherent hm
  line hKey ha := by
    rw [(sameShape_announce h binding).lineage] at ha
    rw [binding?_announce hC.rooted, binding?_announce hC.rooted]
    exact hC.line hKey ha
  numbered hb := by
    rw [binding?_announce hC.rooted] at hb
    rw [nextBinding_announce]
    exact hC.numbered hb
  caches := by
    refine ⟨fun {m injector tag registration} hm hTag => ?_⟩
    rw [(sameShape_announce h binding).nearestScope]
    rw [injector?_announce hC.rooted] at hm
    split at hm
    · obtain ⟨before, hBefore, rfl⟩ := Option.map_eq_some_iff.mp hm
      exact hC.caches.nearest hBefore hTag
    · exact hC.caches.nearest hm hTag

/-- What claiming the bindings of one owner leaves: the claims of a key grow by those bindings of it. -/
theorem foldl_announce (hC : h.Consistent) (hOwner : ∀ binding ∈ bindings, binding.owner = n) :
    (bindings.foldl announce h).Consistent ∧
      (∀ m key, (bindings.foldl announce h).binding? m key = h.binding? m key) ∧
      ∀ a key, (bindings.foldl announce h).claimsOf a key =
        h.claimsOf a key ++
          if a ∈ h.lineage n then (bindings.filter fun binding => binding.key = key).map Binding.claim
          else [] := by
  induction bindings generalizing h with
  | nil => exact ⟨hC, fun _ _ => rfl, fun _ _ => by simp⟩
  | cons first rest ih =>
    have hFirst := hOwner first List.mem_cons_self
    obtain ⟨hConsistent, hBindings, hClaims⟩ :=
      ih (hC.announce first) fun binding hMem => hOwner binding (List.mem_cons_of_mem first hMem)
    refine ⟨hConsistent, fun m key => ?_, fun a key => ?_⟩
    · rw [List.foldl_cons, hBindings, binding?_announce hC.rooted]
    · rw [List.foldl_cons, hClaims, (sameShape_announce h first).lineage, claimsOf_announce hC.rooted, hFirst]
      by_cases ha : a ∈ h.lineage n
      · rw [if_pos ha, if_pos ha, List.filter_cons]
        by_cases hKey : first.key = key
        · simp [ha, hKey]
        · simp [hKey]
      · simp [ha]

-- ---------------------------------------------------------------------------
-- The new injector
-- ---------------------------------------------------------------------------

/-- The injector can be added below the parent, with the explicit bindings. -/
structure Adoptable (h : Hierarchy) (parent : Option InjectorId) (injector : Injector)
    (bindings : List Binding) : Prop where
  live : ∀ p, parent = some p → h.isLive p = true
  lineage : injector.lineage = parent.elim [] h.path
  only : ∀ p, parent = some p → h.isExplicitOnly p = true → injector.explicitOnly = true
  coherent : injector.Coherent h.nextInjector
  created : injector.created = ∅
  claims : injector.claims = ∅
  caches : injector.scopeCache = ∅
  explicit : ∀ key binding, injector.explicit.get? key = some binding ↔
    binding ∈ bindings ∧ binding.key = key
  owner : ∀ binding ∈ bindings, binding.owner = h.nextInjector
  origin : ∀ binding ∈ bindings, binding.origin = .explicit
  unbound : ∀ p, parent = some p → ∀ binding ∈ bindings, h.lookup p binding.key = none
  order : bindings.Pairwise fun first second => first.id < second.id
  newest : ∀ {n : InjectorId} {key : Key} {other : Binding}, h.binding? n key = some other →
    ∀ binding ∈ bindings, other.id < binding.id
  numbered : ∀ binding ∈ injector.itself :: bindings, binding.id < h.nextBinding

/-- The hierarchy with the injector in it, before its bindings are claimed. -/
def planted (h : Hierarchy) (injector : Injector) : Hierarchy :=
  { h with
    nextInjector := h.nextInjector + 1
    injectors := h.injectors.insert h.nextInjector injector }

/-- The hierarchy with the injector in it. -/
def adopted (h : Hierarchy) (injector : Injector) (bindings : List Binding) : Hierarchy :=
  (bindings.foldl announce (h.planted injector)).hold h.nextInjector

theorem injector?_planted (h : Hierarchy) (injector : Injector) (m : InjectorId) :
    (h.planted injector).injector? m = if h.nextInjector = m then some injector else h.injector? m :=
  Table.get?_insert ..

theorem Rooted.injector?_next (hR : h.Rooted) : h.injector? h.nextInjector = none := by
  cases hn : h.injector? h.nextInjector with
  | none => rfl
  | some injector => exact absurd (hR.fresh (isLive_of_injector? hn)) (Nat.lt_irrefl _)

variable {parent : Option InjectorId}

theorem Adoptable.mem_lineage_iff (hA : h.Adoptable parent injector bindings) :
    a ∈ injector.lineage ↔ ∃ p, parent = some p ∧ a ∈ h.path p := by
  rw [hA.lineage]
  cases parent with
  | none => simp
  | some p => simp

/-- The parent of an injector that is there after planting was there before, and is what it was. -/
theorem parent_planted (hR : h.Rooted) (hA : h.Adoptable parent injector bindings) {rest : List InjectorId}
    (hm : (h.planted injector).lineage m = p :: rest) :
    p < m ∧ h.isLive p = true ∧ h.lineage p = rest ∧
      (h.isExplicitOnly p = true → (h.planted injector).isExplicitOnly m = true) := by
  rw [lineage, injector?_planted] at hm
  rw [isExplicitOnly, isExplicitOnly, injector?_planted]
  by_cases hEq : h.nextInjector = m
  · -- the new injector comes with a lineage, and begins it with the parent it was made for
    subst hEq
    rw [if_pos rfl] at hm ⊢
    change injector.lineage = p :: rest at hm
    have hParent : parent = some p ∧ h.lineage p = rest := by
      rw [hA.lineage] at hm
      cases parent with
      | none => cases hm
      | some q =>
        simp only [Option.elim_some, path, List.cons.injEq] at hm
        exact ⟨congrArg some hm.1, hm.1 ▸ hm.2⟩
    have hLive := hA.live p hParent.1
    exact ⟨hR.fresh hLive, hLive, hParent.2, hA.only p hParent.1⟩
  · rw [if_neg hEq] at hm ⊢
    exact hR.parent (n := m) hm

theorem rooted_planted (hR : h.Rooted) (hA : h.Adoptable parent injector bindings) :
    (h.planted injector).Rooted where
  distinct := Table.nodup_keys_insert _ _ _ hR.distinct
  fresh {m} hm := by
    rw [isLive, injector?_planted] at hm
    split at hm
    · next hEq => exact hEq ▸ Nat.lt_succ_self _
    · exact Nat.lt_succ_of_lt (hR.fresh hm)
  parent {m p rest} hm := by
    obtain ⟨hLt, hLive, hRest, hOnly⟩ := parent_planted hR hA hm
    have hOld : (h.planted injector).injector? p = h.injector? p := by
      rw [injector?_planted, if_neg (Nat.ne_of_gt (hR.fresh hLive))]
    refine ⟨hLt, ?_, ?_, ?_⟩
    · rw [isLive, hOld]
      exact hLive
    · rw [lineage, hOld]
      exact hRest
    · intro hExplicit
      rw [isExplicitOnly, hOld] at hExplicit
      exact hOnly hExplicit
  held {m} hm := by
    have hLive := hR.held hm
    rw [isLive, injector?_planted, if_neg (Nat.ne_of_gt (hR.fresh hLive))]
    exact hLive

/-- All that were there are there still, unchanged. -/
theorem survives_planted (hR : h.Rooted) (injector : Injector) : Survives h (h.planted injector) where
  injector? {m other} hm := by
    refine ⟨other, ?_, rfl⟩
    rw [injector?_planted, if_neg (Nat.ne_of_gt (hR.fresh (isLive_of_injector? hm))), hm]
  rooted := hR
  holds := rfl
  nextBinding := rfl

theorem binding?_planted (h : Hierarchy) (injector : Injector) (m : InjectorId) (key : Key) :
    (h.planted injector).binding? m key =
      if m = h.nextInjector then injector.binding? key else h.binding? m key := by
  rw [binding?, injector?_planted]
  by_cases hEq : m = h.nextInjector
  · rw [if_pos hEq.symm, if_pos hEq, Option.bind_some]
  · rw [if_neg (Ne.symm hEq), if_neg hEq, binding?]

theorem lineage_planted (h : Hierarchy) (injector : Injector) (m : InjectorId) :
    (h.planted injector).lineage m = if m = h.nextInjector then injector.lineage else h.lineage m := by
  rw [lineage, injector?_planted]
  by_cases hEq : m = h.nextInjector
  · rw [if_pos hEq.symm, if_pos hEq]
  · rw [if_neg (Ne.symm hEq), if_neg hEq, lineage]

/-- The new injector owns its explicit bindings, and itself. -/
theorem Adoptable.binding?_eq_some_iff (hA : h.Adoptable parent injector bindings) (hKey : key ≠ .injector)
    {binding : Binding} :
    injector.binding? key = some binding ↔ binding ∈ bindings ∧ binding.key = key := by
  rw [Injector.binding?_of_ne hKey, hA.created, Table.get?_empty, Option.or_none, hA.explicit]

theorem consistent_planted (hC : h.Consistent) (hA : h.Adoptable parent injector bindings) :
    (h.planted injector).Consistent where
  rooted := rooted_planted hC.rooted hA
  coherent {m other} hm := by
    rw [injector?_planted] at hm
    split at hm
    · next hEq =>
      rw [Option.some.injEq] at hm
      exact hm ▸ hEq ▸ hA.coherent
    · exact hC.coherent hm
  line {m a key} hKey ha := by
    rw [lineage_planted] at ha
    rw [binding?_planted, binding?_planted]
    by_cases hEq : m = h.nextInjector
    · -- what the new injector binds was unbound on the path of its parent
      rw [if_pos hEq] at ha
      obtain ⟨p, hParent, haPath⟩ := hA.mem_lineage_iff.mp ha
      have haLive := hC.rooted.isLive_of_mem_path (hA.live p hParent) haPath
      rw [if_pos hEq, if_neg (Nat.ne_of_lt (hC.rooted.fresh haLive))]
      cases hb : injector.binding? key with
      | none => exact Or.inl rfl
      | some binding =>
        obtain ⟨hMem, rfl⟩ := (hA.binding?_eq_some_iff hKey).mp hb
        exact Or.inr (lookup_eq_none_iff.mp (hA.unbound p hParent binding hMem) a haPath)
    · rw [if_neg hEq] at ha
      have haLive := hC.rooted.isLive_ancestor ha
      rw [if_neg hEq, if_neg (Nat.ne_of_lt (hC.rooted.fresh haLive))]
      exact hC.line hKey ha
  numbered {m key binding} hb := by
    rw [binding?_planted] at hb
    split at hb
    · by_cases hKey : key = .injector
      · subst hKey
        rw [Injector.binding?_injector, Option.some.injEq] at hb
        exact hA.numbered binding (hb ▸ List.mem_cons_self)
      · exact hA.numbered binding (List.mem_cons_of_mem _ ((hA.binding?_eq_some_iff hKey).mp hb).1)
    · exact hC.numbered hb
  caches := by
    refine ⟨fun {m other tag registration} hm hTag => ?_⟩
    rw [injector?_planted] at hm
    split at hm
    · rw [Option.some.injEq] at hm
      rw [← hm, hA.caches] at hTag
      cases hTag
    · rw [← hC.caches.nearest hm hTag]
      exact ((survives_planted hC.rooted injector).nearest (fun _ => rfl) (isLive_of_injector? hm)).symm

theorem claimsOf_planted (hR : h.Rooted) (hA : h.Adoptable parent injector bindings) (a : InjectorId)
    (key : Key) : (h.planted injector).claimsOf a key = h.claimsOf a key := by
  rw [claimsOf, claimsOf, injector?_planted]
  split
  · next hEq =>
    subst hEq
    rw [hR.injector?_next, Option.bind_some, hA.claims, Option.bind_none]
    rfl
  · rfl

/-- It owns its bindings, and nobody else gets or loses one. -/
theorem binding?_adopted (hC : h.Consistent) (hA : h.Adoptable parent injector bindings) (m : InjectorId)
    (key : Key) :
    (h.adopted injector bindings).binding? m key =
      if m = h.nextInjector then injector.binding? key else h.binding? m key := by
  rw [← binding?_planted]
  exact (foldl_announce (consistent_planted hC hA) hA.owner).2.1 m key

theorem lineage_adopted (h : Hierarchy) (injector : Injector) (bindings : List Binding) (m : InjectorId) :
    (h.adopted injector bindings).lineage m =
      if m = h.nextInjector then injector.lineage else h.lineage m := by
  rw [← lineage_planted]
  exact (sameShape_foldl_announce bindings (h.planted injector)).lineage m

/-- The claims that the new injector makes stand last, as its bindings do. -/
theorem claimsExact_adopted (hW : h.WellFormed) (hA : h.Adoptable parent injector bindings) (a : InjectorId)
    (key : Key) : (h.adopted injector bindings).ClaimsExact a key := by
  have hClaimed : (h.adopted injector bindings).claimsOf a key = h.claimsOf a key ++
      if a ∈ injector.lineage then (bindings.filter fun binding => binding.key = key).map Binding.claim
      else [] := by
    rw [← claimsOf_planted hW.rooted hA]
    have hLineage := lineage_planted h injector h.nextInjector
    rw [if_pos rfl] at hLineage
    rw [← hLineage]
    exact (foldl_announce (consistent_planted hW.toConsistent hA) hA.owner).2.2 a key
  -- below an ancestor of the new injector, its bindings of the key are owned in addition
  have hBelow : ∀ binding, (h.adopted injector bindings).OwnedBelow a key binding ↔
      h.OwnedBelow a key binding ∨ a ∈ injector.lineage ∧ binding ∈ bindings ∧ binding.key = key := by
    intro binding
    simp only [OwnedBelow, lineage_adopted, binding?_adopted hW.toConsistent hA]
    constructor
    · rintro ⟨m, ha, hb, hOrigin⟩
      by_cases hEq : m = h.nextInjector
      · rw [if_pos hEq] at ha hb
        by_cases hKey : key = .injector
        · subst hKey
          rw [Injector.binding?_injector, Option.some.injEq] at hb
          exact absurd (hb ▸ hA.coherent.itself.2.2) hOrigin
        · exact Or.inr ⟨ha, (hA.binding?_eq_some_iff hKey).mp hb⟩
      · rw [if_neg hEq] at ha hb
        exact Or.inl ⟨m, ha, hb, hOrigin⟩
    · rintro (⟨m, ha, hb, hOrigin⟩ | ⟨ha, hMem, rfl⟩)
      · have hEq : m ≠ h.nextInjector :=
          Nat.ne_of_lt (hW.rooted.fresh (isLive_of_mem_lineage ha))
        exact ⟨m, by rw [if_neg hEq]; exact ha, by rw [if_neg hEq]; exact hb, hOrigin⟩
      · refine ⟨h.nextInjector, by rw [if_pos rfl]; exact ha, ?_, ?_⟩
        · have hExplicit := (hA.explicit binding.key binding).mpr ⟨hMem, rfl⟩
          have hKey : binding.key ≠ .injector := fun hEq => by
            have hBuiltin := (hA.coherent.explicit hExplicit).2.2.2
            rw [hEq] at hBuiltin
            cases hBuiltin
          rw [if_pos rfl, hA.binding?_eq_some_iff hKey]
          exact ⟨hMem, rfl⟩
        · rw [hA.origin binding hMem]
          intro hEq
          cases hEq
  by_cases ha : a ∈ injector.lineage
  · rw [if_pos ha] at hClaimed
    refine (hW.claims a key).append hClaimed (hA.order.filter _) ?_ fun binding => ?_
    · rintro old ⟨m, -, hb, -⟩ new hMem
      exact hA.newest hb new (List.mem_filter.mp hMem).1
    · rw [hBelow, List.mem_filter, decide_eq_true_iff]
      simp only [ha, true_and]
  · have hSame : (h.adopted injector bindings).claimsOf a key = h.claimsOf a key ++ [].map Binding.claim := by
      rw [hClaimed, if_neg ha, List.map_nil]
    refine (hW.claims a key).append hSame List.Pairwise.nil ?_ fun binding => ?_
    · intro old _ new hMem
      exact absurd hMem List.not_mem_nil
    · rw [hBelow]
      simp only [ha, false_and, List.not_mem_nil]

/-- Adding an injector and claiming its bindings keeps a hierarchy well-formed. -/
theorem wellFormed_adopted (hW : h.WellFormed) (hA : h.Adoptable parent injector bindings) :
    (h.adopted injector bindings).WellFormed := by
  have hClaimed : (bindings.foldl announce (h.planted injector)).WellFormed :=
    { (foldl_announce (consistent_planted hW.toConsistent hA) hA.owner).1 with
      claims := claimsExact_adopted hW hA }
  refine wellFormed_hold hClaimed ?_
  rw [(sameShape_foldl_announce bindings (h.planted injector)).isLive, isLive, injector?_planted, if_pos rfl]
  rfl

end InjectorTree.Hierarchy
