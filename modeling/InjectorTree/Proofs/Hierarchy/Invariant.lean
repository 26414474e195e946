import InjectorTree.Proofs.Hierarchy.Core

/-!
# Well-formed hierarchies

What every operation of the library keeps:

* the live injectors form trees (`Rooted`);
* injectors store their own bindings, each under its key and in the table of its origin, and are bound to themselves
  (`Coherent`);
* along a path, a key has one owner at most (`line`);
* the claims of an injector are exactly the bindings of its live strict descendants, in the order in which
  the bindings were made (`ClaimsExact`);
* bindings are numbered in the order in which they are made;
* remembered scopes are the nearest ones.

Bindings come to exist with growing numbers, so the order of the numbers is the order of coming to exist.
-/

namespace InjectorTree

/-- The claim that stands for a binding. -/
def Binding.claim (binding : Binding) : Claim :=
  ⟨binding.owner, binding.source⟩

/-- What an injector stores is its own, under its key and in the table of its origin. The injector provides itself. -/
structure Injector.Coherent (n : InjectorId) (injector : Injector) : Prop where
  itself : injector.itself.key = .injector ∧ injector.itself.owner = n ∧ injector.itself.origin = .builtin
  explicit : ∀ {key : Key} {binding : Binding}, injector.explicit.get? key = some binding →
    binding.key = key ∧ binding.owner = n ∧ binding.origin = .explicit ∧ key.isBuiltin = false
  created : ∀ {key : Key} {binding : Binding}, injector.created.get? key = some binding →
    binding.key = key ∧ binding.owner = n ∧
      (binding.origin = .justInTime ∨ binding.origin = .converted) ∧ key ≠ .injector
  disjoint : ∀ key : Key, injector.explicit.get? key = none ∨ injector.created.get? key = none
  explicitKeys : injector.explicit.keys.Nodup
  createdKeys : injector.created.keys.Nodup
  claimKeys : injector.claims.keys.Nodup
  provided : injector.itself.strategy = .itself ∧ injector.itself.scope = none

theorem Injector.Coherent.of_bare {n : InjectorId} {injector injector' : Injector}
    (hC : injector.Coherent n) (hBare : injector'.bare = injector.bare) : injector'.Coherent n := by
  have hBare' : injector'.bare.Coherent n := by
    rw [hBare]
    exact ⟨hC.itself, hC.explicit, hC.created, hC.disjoint, hC.explicitKeys, hC.createdKeys, hC.claimKeys,
      hC.provided⟩
  exact ⟨hBare'.itself, hBare'.explicit, hBare'.created, hBare'.disjoint, hBare'.explicitKeys,
    hBare'.createdKeys, hBare'.claimKeys, hBare'.provided⟩

theorem Injector.binding?_of_ne {injector : Injector} {key : Key} (hKey : key ≠ .injector) :
    injector.binding? key = (injector.explicit.get? key).or (injector.created.get? key) :=
  if_neg hKey

theorem Injector.binding?_injector (injector : Injector) :
    injector.binding? .injector = some injector.itself :=
  if_pos rfl

theorem ne_injector_of_isBuiltin {key : Key} (hBuiltin : key.isBuiltin = false) : key ≠ .injector := by
  rintro rfl
  cases hBuiltin

/-- What an injector owns under a key is among its bindings. -/
theorem Injector.mem_bindings_of_binding? {injector : Injector} {key : Key} {binding : Binding}
    (hb : injector.binding? key = some binding) : binding ∈ injector.bindings := by
  rw [Injector.binding?] at hb
  split at hb
  · cases hb
    exact List.mem_cons_self
  · refine List.mem_cons_of_mem _ (List.mem_append.mpr ?_)
    rcases Option.or_eq_some_iff.mp hb with hExplicit | ⟨-, hCreated⟩
    · exact Or.inl (Table.mem_values_of_get? hExplicit)
    · exact Or.inr (Table.mem_values_of_get? hCreated)

theorem Injector.Coherent.of_mem_explicit {n : InjectorId} {injector : Injector} {key : Key} {binding : Binding}
    (hC : injector.Coherent n) (hMem : (key, binding) ∈ injector.explicit.entries) :
    binding.key = key ∧ binding.owner = n ∧ binding.origin = .explicit ∧ key ≠ .injector := by
  obtain ⟨hKey, hOwner, hOrigin, hBuiltin⟩ := hC.explicit ((Table.get?_eq_some_iff hC.explicitKeys).mpr hMem)
  exact ⟨hKey, hOwner, hOrigin, ne_injector_of_isBuiltin hBuiltin⟩

theorem Injector.Coherent.of_mem_created {n : InjectorId} {injector : Injector} {key : Key} {binding : Binding}
    (hC : injector.Coherent n) (hMem : (key, binding) ∈ injector.created.entries) :
    binding.key = key ∧ binding.owner = n ∧ (binding.origin = .justInTime ∨ binding.origin = .converted) ∧
      key ≠ .injector :=
  hC.created ((Table.get?_eq_some_iff hC.createdKeys).mpr hMem)

/-- A binding of an injector is its own one, or is stored under its key in one of the two tables. -/
theorem Injector.Coherent.stored {n : InjectorId} {injector : Injector} {binding : Binding}
    (hC : injector.Coherent n) (hMem : binding ∈ injector.bindings) :
    binding = injector.itself ∨ (binding.key, binding) ∈ injector.explicit.entries ∨
      (binding.key, binding) ∈ injector.created.entries := by
  rcases List.mem_cons.mp hMem with hItself | hStored
  · exact Or.inl hItself
  · rcases List.mem_append.mp hStored with hExplicit | hCreated
    · obtain ⟨⟨key, _⟩, hEntry, rfl⟩ := List.mem_map.mp hExplicit
      rw [(hC.of_mem_explicit hEntry).1]
      exact Or.inr (Or.inl hEntry)
    · obtain ⟨⟨key, _⟩, hEntry, rfl⟩ := List.mem_map.mp hCreated
      rw [(hC.of_mem_created hEntry).1]
      exact Or.inr (Or.inr hEntry)

/-- A binding that an injector owns is of the key it is found under, and built in only under the key of
injectors. -/
theorem Injector.Coherent.binding? {n : InjectorId} {injector : Injector} {key : Key} {binding : Binding}
    (hC : injector.Coherent n) (hb : injector.binding? key = some binding) :
    binding.key = key ∧ binding.owner = n ∧ (binding.origin = .builtin ↔ key = .injector) := by
  by_cases hKey : key = .injector
  · -- the key under which every injector provides itself
    subst hKey
    rw [Injector.binding?_injector, Option.some.injEq] at hb
    subst hb
    exact ⟨hC.itself.1, hC.itself.2.1, fun _ => rfl, fun _ => hC.itself.2.2⟩
  · -- any other key is in one of the two tables, and neither has built-in bindings
    rw [Injector.binding?_of_ne hKey] at hb
    rcases Option.or_eq_some_iff.mp hb with hExplicit | ⟨-, hCreated⟩
    · obtain ⟨hk, ho, hOrigin, -⟩ := hC.explicit hExplicit
      refine ⟨hk, ho, fun hBuiltin => ?_, fun hEq => absurd hEq hKey⟩
      rw [hOrigin] at hBuiltin
      cases hBuiltin
    · obtain ⟨hk, ho, hOrigin, -⟩ := hC.created hCreated
      refine ⟨hk, ho, fun hBuiltin => ?_, fun hEq => absurd hEq hKey⟩
      rw [hBuiltin] at hOrigin
      rcases hOrigin with hOrigin | hOrigin <;> cases hOrigin

/-- The explicit table holds what the injector owns that is explicit. -/
theorem Injector.Coherent.explicit_get? {n : InjectorId} {injector : Injector} {key : Key}
    (hC : injector.Coherent n) (hKey : key ≠ .injector) :
    injector.explicit.get? key = (injector.binding? key).filter (·.origin = .explicit) := by
  rw [Injector.binding?_of_ne hKey]
  cases hExplicit : injector.explicit.get? key with
  | some binding => simp [Option.filter_some, (hC.explicit hExplicit).2.2.1]
  | none =>
    cases hCreated : injector.created.get? key with
    | none => rfl
    | some binding => rcases (hC.created hCreated).2.2.1 with hOrigin | hOrigin <;> simp [Option.filter_some, hOrigin]

/-- The other table holds what it owns that is not. -/
theorem Injector.Coherent.created_get? {n : InjectorId} {injector : Injector} {key : Key}
    (hC : injector.Coherent n) (hKey : key ≠ .injector) :
    injector.created.get? key = (injector.binding? key).filter (·.origin ≠ .explicit) := by
  rw [Injector.binding?_of_ne hKey]
  cases hExplicit : injector.explicit.get? key with
  | some binding =>
    have hNone := (hC.disjoint key).resolve_left (hExplicit ▸ Option.some_ne_none binding)
    simp [Option.filter_some, hNone, (hC.explicit hExplicit).2.2.1]
  | none =>
    cases hCreated : injector.created.get? key with
    | none => rfl
    | some binding => rcases (hC.created hCreated).2.2.1 with hOrigin | hOrigin <;> simp [Option.filter_some, hOrigin]

namespace Hierarchy

/-- The claims of a key that an injector holds. -/
def claimsOf (h : Hierarchy) (a : InjectorId) (key : Key) : List Claim :=
  ((h.injector? a).bind (·.claims.get? key)).getD []

/-- A strict descendant of the injector owns the binding under the key; what is built in does not count. -/
def OwnedBelow (h : Hierarchy) (a : InjectorId) (key : Key) (binding : Binding) : Prop :=
  ∃ m, a ∈ h.lineage m ∧ h.binding? m key = some binding ∧ binding.origin ≠ .builtin

/-- The claims of a key that an injector holds are those of the bindings that its strict descendants own, in
the order in which the bindings were made. -/
def ClaimsExact (h : Hierarchy) (a : InjectorId) (key : Key) : Prop :=
  ∃ bindings : List Binding, h.claimsOf a key = bindings.map Binding.claim ∧
    bindings.Pairwise (fun first second => first.id < second.id) ∧
    ∀ binding, binding ∈ bindings ↔ h.OwnedBelow a key binding

/-- Scopes are remembered as they are found by walking up. -/
structure CachesSound (h : Hierarchy) : Prop where
  nearest : ∀ {n : InjectorId} {injector : Injector} {tag : ScopeTag} {registration : ScopeRegistration},
    h.injector? n = some injector → injector.scopeCache.get? tag = some registration →
      h.nearestScope n tag = some registration

/-- What is well-formed apart from claims. -/
structure Consistent (h : Hierarchy) : Prop where
  rooted : h.Rooted
  coherent : ∀ {n : InjectorId} {injector : Injector}, h.injector? n = some injector → injector.Coherent n
  line : ∀ {m a : InjectorId} {key : Key}, key ≠ .injector → a ∈ h.lineage m →
    h.binding? m key = none ∨ h.binding? a key = none
  numbered : ∀ {n : InjectorId} {key : Key} {binding : Binding}, h.binding? n key = some binding →
    binding.id < h.nextBinding
  caches : h.CachesSound

/-- Every operation keeps this. -/
structure WellFormed (h : Hierarchy) : Prop extends Consistent h where
  claims : ∀ (a : InjectorId) (key : Key), h.ClaimsExact a key

variable {h h' : Hierarchy} {n m a : InjectorId} {key : Key} {binding : Binding}

-- ---------------------------------------------------------------------------
-- Hierarchies with one core
-- ---------------------------------------------------------------------------

theorem SameCore.claimsOf (hs : SameCore h' h) (a : InjectorId) (key : Key) :
    h'.claimsOf a key = h.claimsOf a key := by
  rw [Hierarchy.claimsOf, Hierarchy.claimsOf, hs.bind (f := (·.claims.get? key)) (fun _ => rfl)]

theorem SameCore.ownedBelow (hs : SameCore h' h) (a : InjectorId) (key : Key) (binding : Binding) :
    h'.OwnedBelow a key binding ↔ h.OwnedBelow a key binding := by
  simp only [OwnedBelow, hs.lineage, hs.binding?]

/-- Well-formed is what has the core of something well-formed and sound marks on it. -/
theorem WellFormed.of_sameCore (hW : h.WellFormed) (hs : SameCore h' h)
    (hNext : h.nextBinding ≤ h'.nextBinding) (hCaches : h'.CachesSound) : h'.WellFormed where
  rooted := hW.rooted.of_sameShape hs.sameShape
  coherent hn := by
    obtain ⟨injector, hInjector, hBare⟩ := hs.exists_injector hn
    exact (hW.coherent hInjector).of_bare hBare
  line hKey ha := by
    rw [hs.lineage] at ha
    rw [hs.binding?, hs.binding?]
    exact hW.line hKey ha
  claims a key := by
    obtain ⟨bindings, hClaims, hOrder, hOwned⟩ := hW.claims a key
    refine ⟨bindings, ?_, hOrder, fun binding => ?_⟩
    · rw [hs.claimsOf, hClaims]
    · rw [hOwned, hs.ownedBelow]
  numbered hb := by
    rw [hs.binding?] at hb
    exact Nat.lt_of_lt_of_le (hW.numbered hb) hNext
  caches := hCaches

theorem CachesSound.of_injectors (hC : h.CachesSound) (hInjectors : h'.injectors = h.injectors) :
    h'.CachesSound where
  nearest hn hTag := by
    have hSame : ∀ m, h'.injector? m = h.injector? m := fun m => by
      rw [injector?, injector?, hInjectors]
    rw [hSame] at hn
    have hNearest := hC.nearest hn hTag
    simp only [nearestScope, Hierarchy.nearest, path, lineage, hSame] at hNearest ⊢
    exact hNearest

/-- Only the injectors, what is held of them and the next numbers matter. -/
theorem WellFormed.of_injectors (hW : h.WellFormed) (hInjectors : h'.injectors = h.injectors)
    (hHolds : h'.holds = h.holds) (hNext : h'.nextInjector = h.nextInjector)
    (hNumber : h.nextBinding ≤ h'.nextBinding) : h'.WellFormed :=
  hW.of_sameCore (sameCore_of_injectors hInjectors hHolds hNext) hNumber (hW.caches.of_injectors hInjectors)

-- ---------------------------------------------------------------------------
-- What well-formedness says of bindings and claims
-- ---------------------------------------------------------------------------

/-- Claims stay exact when those of newer bindings are added at the end. -/
theorem ClaimsExact.append (hC : h.ClaimsExact a key) {later : List Binding}
    (hClaims : h'.claimsOf a key = h.claimsOf a key ++ later.map Binding.claim)
    (hOrder : later.Pairwise fun first second => first.id < second.id)
    (hNewer : ∀ old, h.OwnedBelow a key old → ∀ new ∈ later, old.id < new.id)
    (hOwned : ∀ binding, h'.OwnedBelow a key binding ↔ h.OwnedBelow a key binding ∨ binding ∈ later) :
    h'.ClaimsExact a key := by
  obtain ⟨before, hBefore, hOrderBefore, hOwnedBefore⟩ := hC
  refine ⟨before ++ later, ?_, ?_, fun binding => ?_⟩
  · rw [hClaims, hBefore, List.map_append]
  · refine List.pairwise_append.mpr ⟨hOrderBefore, hOrder, ?_⟩
    intro old hOld new hNew
    exact hNewer old ((hOwnedBefore old).mp hOld) new hNew
  · rw [List.mem_append, hOwnedBefore, hOwned]

theorem WellFormed.binding? (hW : h.WellFormed) (hb : h.binding? n key = some binding) :
    binding.key = key ∧ binding.owner = n ∧ (binding.origin = .builtin ↔ key = .injector) := by
  obtain ⟨injector, hn, hb⟩ := Option.bind_eq_some_iff.mp hb
  exact (hW.coherent hn).binding? hb

theorem exists_of_mem_bindings (hMem : binding ∈ h.bindings n) :
    ∃ injector, h.injector? n = some injector ∧ binding ∈ injector.bindings := by
  rw [bindings] at hMem
  cases hn : h.injector? n with
  | none =>
    rw [hn] at hMem
    cases hMem
  | some injector =>
    rw [hn] at hMem
    exact ⟨injector, rfl, hMem⟩

/-- Whatever an injector owns is found under its key. -/
theorem WellFormed.binding?_of_mem_bindings (hW : h.WellFormed) {injector : Injector}
    (hn : h.injector? n = some injector) (hMem : binding ∈ injector.bindings) :
    h.binding? n binding.key = some binding := by
  have hC := hW.coherent hn
  rw [binding?_of_injector? hn]
  rcases hC.stored hMem with rfl | hExplicit | hCreated
  · rw [hC.itself.1, Injector.binding?_injector]
  · rw [Injector.binding?_of_ne (hC.of_mem_explicit hExplicit).2.2.2,
      (Table.get?_eq_some_iff hC.explicitKeys).mpr hExplicit, Option.some_or]
  · have hGet := (Table.get?_eq_some_iff hC.createdKeys).mpr hCreated
    have hNone := (hC.disjoint binding.key).resolve_right (hGet ▸ Option.some_ne_none _)
    rw [Injector.binding?_of_ne (hC.of_mem_created hCreated).2.2.2, hNone, hGet, Option.none_or]

/-- Every live injector is bound to itself. -/
theorem binding?_injector_isSome (hn : h.isLive n = true) : (h.binding? n .injector).isSome = true := by
  obtain ⟨injector, hInjector⟩ := isLive_iff.mp hn
  rw [binding?_of_injector? hInjector, Injector.binding?_injector, Option.isSome_some]

/-- To itself, and in no scope. -/
theorem WellFormed.provided_itself (hW : h.WellFormed) (hb : h.binding? n .injector = some binding) :
    binding.strategy = .itself ∧ binding.scope = none := by
  obtain ⟨injector, hInjector, hb⟩ := Option.bind_eq_some_iff.mp hb
  rw [Injector.binding?_injector, Option.some.injEq] at hb
  rw [← hb]
  exact (hW.coherent hInjector).provided

/-- It asks for nothing to provide itself. -/
theorem WellFormed.strategy_itself (hW : h.WellFormed) (hb : h.binding? n .injector = some binding) :
    binding.strategy = .itself :=
  (hW.provided_itself hb).1

theorem key_ne_injector_of_lookup (hn : h.isLive n = true) (hNone : h.lookup n key = none) :
    key ≠ .injector := by
  rintro rfl
  have hSome := binding?_injector_isSome hn
  rw [lookup_eq_none_iff.mp hNone n self_mem_path] at hSome
  cases hSome

/-- Whoever has a claim is live. -/
theorem WellFormed.isLive_of_mem_claimsOf (hW : h.WellFormed) {claim : Claim} (hMem : claim ∈ h.claimsOf a key) :
    h.isLive claim.claimant = true := by
  obtain ⟨bindings, hClaims, -, hOwned⟩ := hW.claims a key
  rw [hClaims] at hMem
  obtain ⟨binding, hBinding, rfl⟩ := List.mem_map.mp hMem
  obtain ⟨m, ha, hb, -⟩ := (hOwned binding).mp hBinding
  rw [Binding.claim, (hW.binding? hb).2.1]
  exact isLive_of_mem_lineage ha

/-- So all claims count, and there is nothing to discard when they are read. -/
theorem WellFormed.claimants_eq (hW : h.WellFormed) (n : InjectorId) (key : Key) :
    h.claimants n key = (h.claimsOf n key).map Claim.source :=
  congrArg (List.map Claim.source) (List.filter_eq_self.mpr fun _ hMem => hW.isLive_of_mem_claimsOf hMem)

/-- An injector has no claimant of a key exactly if no strict descendant owns a binding of it. -/
theorem WellFormed.claimants_eq_nil_iff (hW : h.WellFormed) (hKey : key ≠ .injector) :
    h.claimants a key = [] ↔ ∀ m, a ∈ h.lineage m → h.binding? m key = none := by
  obtain ⟨bindings, hClaims, -, hOwned⟩ := hW.claims a key
  rw [hW.claimants_eq, hClaims, List.map_eq_nil_iff, List.map_eq_nil_iff, List.eq_nil_iff_forall_not_mem]
  constructor
  · -- a binding below would have made a claim, as it is not built in
    intro hNone m ha
    rw [Option.eq_none_iff_forall_ne_some]
    intro binding hb
    refine hNone binding ((hOwned binding).mpr ⟨m, ha, hb, ?_⟩)
    exact fun hBuiltin => hKey ((hW.binding? hb).2.2.mp hBuiltin)
  · intro hNone binding hMem
    obtain ⟨m, ha, hb, -⟩ := (hOwned binding).mp hMem
    rw [hNone m ha] at hb
    cases hb

/-- No ancestor of an owner owns the key too. -/
theorem WellFormed.not_mem_lineage_of_owner (hW : h.WellFormed) (hKey : key ≠ .injector) {p q : InjectorId}
    (hp : (h.binding? p key).isSome = true) (hq : (h.binding? q key).isSome = true) : q ∉ h.lineage p := by
  intro hAbove
  rcases hW.line hKey hAbove with hNone | hNone
  · rw [hNone] at hp
    cases hp
  · rw [hNone] at hq
    cases hq

/-- On a path, the binding that is located is the only one. -/
theorem WellFormed.lookup_eq_some_iff (hW : h.WellFormed) (hKey : key ≠ .injector) :
    h.lookup n key = some binding ↔ ∃ p ∈ h.path n, h.binding? p key = some binding := by
  refine ⟨exists_of_lookup, ?_⟩
  rintro ⟨p, hp, hb⟩
  have hpSome : (h.binding? p key).isSome = true := Option.isSome_iff_exists.mpr ⟨binding, hb⟩
  have hFound : (h.lookup n key).isSome = true := lookup_isSome_iff.mpr ⟨p, hp, hpSome⟩
  obtain ⟨other, hOther⟩ := Option.isSome_iff_exists.mp hFound
  obtain ⟨q, hq, hb'⟩ := exists_of_lookup hOther
  have hqSome : (h.binding? q key).isSome = true := Option.isSome_iff_exists.mpr ⟨other, hb'⟩
  -- of the two owners one would be above the other
  have hEq : p = q := by
    rcases hW.rooted.mem_path_or_mem_lineage hp hq with hqp | hpq
    · rcases mem_path_iff.mp hqp with hEq | hAbove
      · exact hEq.symm
      · exact absurd hAbove (hW.not_mem_lineage_of_owner hKey hpSome hqSome)
    · exact absurd hpq (hW.not_mem_lineage_of_owner hKey hqSome hpSome)
  subst hEq
  rw [hOther, ← hb, hb']

/-- Above an owner, the key is not located. -/
theorem WellFormed.lookup_above (hW : h.WellFormed) (hKey : key ≠ .injector) {m : InjectorId}
    (ha : a ∈ h.lineage m) (hb : h.binding? m key = some binding) : h.lookup a key = none := by
  refine lookup_eq_none_iff.mpr fun q hq => (hW.line hKey (hW.rooted.mem_lineage_of_lineage ha hq)).resolve_left ?_
  rw [hb]
  exact Option.some_ne_none binding

/-- On a path, nobody owns the key but the owner of the located binding. -/
theorem WellFormed.filterMap_path (hW : h.WellFormed) (hKey : key ≠ .injector) (n : InjectorId) :
    (h.path n).filterMap (h.binding? · key) = (h.lookup n key).toList := by
  induction hl : h.lineage n generalizing n with
  | nil =>
    have hLookup : h.lookup n key = (h.binding? n key).or none := by
      rw [lookup, nearest, path, hl, List.findSome?_cons, List.findSome?_nil, Hierarchy.binding?]
      cases (h.injector? n).bind (·.binding? key) <;> rfl
    rw [hLookup, path, hl]
    cases hb : h.binding? n key <;> simp [hb]
  | cons p rest ih =>
    obtain ⟨-, -, hRest, -⟩ := hW.rooted.parent hl
    have hPath : h.path n = n :: h.path p := by rw [path, path, hRest, hl]
    have hLookup : h.lookup n key = (h.binding? n key).or (h.lookup p key) := nearest_of_lineage hW.rooted hl
    rw [hPath, hLookup, List.filterMap_cons, ih p hRest]
    cases hb : h.binding? n key with
    | none => rfl
    | some binding =>
      -- an owner has no other owners above it
      have hNone := hW.lookup_above hKey (hl ▸ List.mem_cons_self : p ∈ h.lineage n) hb
      rw [hNone]
      rfl

/-- Where injectors answer with their own binding of a key if it is of some kind, the nearest answer is the located
binding if that is of the kind. -/
theorem WellFormed.nearest_eq_filter (hW : h.WellFormed) (hKey : key ≠ .injector) {f : Injector → Option Binding}
    {kind : Binding → Bool}
    (hf : ∀ p injector, h.injector? p = some injector → f injector = (injector.binding? key).filter kind) :
    h.nearest n f = (h.lookup n key).filter kind := by
  have hAnswer : ∀ found, h.nearest n f = some found → h.lookup n key = some found ∧ kind found = true := by
    intro found hFound
    obtain ⟨p, hp, injector, hInjector, hOwn⟩ := exists_of_nearest hFound
    rw [hf p injector hInjector, Option.filter_eq_some_iff] at hOwn
    exact ⟨(hW.lookup_eq_some_iff hKey).mpr ⟨p, hp, (binding?_of_injector? hInjector key).trans hOwn.1⟩, hOwn.2⟩
  apply Option.ext
  intro found
  rw [Option.filter_eq_some_iff]
  refine ⟨hAnswer found, fun ⟨hLookup, hKind⟩ => ?_⟩
  -- the owner answers, and whatever is nearest is what is located
  obtain ⟨p, hp, hb⟩ := exists_of_lookup hLookup
  obtain ⟨injector, hInjector, hOwn⟩ := Option.bind_eq_some_iff.mp hb
  cases hNearest : h.nearest n f with
  | none =>
    have hNone := nearest_eq_none_iff.mp hNearest p hp
    rw [hInjector, Option.bind_some, hf p injector hInjector, hOwn, Option.filter_eq_none_iff] at hNone
    exact absurd hKind (hNone found rfl)
  | some other => rw [← (hAnswer other hNearest).1, hLookup]

/-- An explicit binding on the path is the located one, if that is explicit. -/
theorem WellFormed.explicitBinding?_eq (hW : h.WellFormed) (hKey : key ≠ .injector) :
    h.explicitBinding? n key = (h.lookup n key).filter (·.origin = .explicit) :=
  hW.nearest_eq_filter hKey fun _ _ hInjector => (hW.coherent hInjector).explicit_get? hKey

/-- A binding on the path that was created on demand is the located one, if that is not explicit. -/
theorem WellFormed.createdBinding?_eq (hW : h.WellFormed) (hKey : key ≠ .injector) :
    h.createdBinding? n key = (h.lookup n key).filter (·.origin ≠ .explicit) :=
  hW.nearest_eq_filter hKey fun _ _ hInjector => (hW.coherent hInjector).created_get? hKey

end Hierarchy

end InjectorTree
