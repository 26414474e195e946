import InjectorTree.Hierarchy.Lifetime
import InjectorTree.Proofs.Hierarchy.Invariant

/-!
# Giving up injectors

When a hold is given up, the injectors to which nothing refers any more are forgotten one after the other. Each of
them visits its ancestors, and under its own keys they discard the claims of those who are gone.

* `survives_forget`: what is left is unchanged but for claims, and with an injector its ancestors are left too.
* `claimsOf_forget`: the keys and the ancestors that are visited are enough. In a well-formed hierarchy exactly the
  claims of the one that is gone disappear, wherever they are, and the others keep their order.
* `isReferred_prune`: as many sweeps as there are injectors leave none to which nothing refers.
* `wellFormed_release`: giving up a hold keeps the hierarchy well-formed.
-/

namespace InjectorTree

/-- An injector without what it knows of its descendants. -/
def Injector.unclaimed (injector : Injector) : Injector :=
  { injector with claims := ∅ }

theorem Injector.congr_unclaimed {α : Type} {f : Injector → α} (hf : ∀ injector, f injector.unclaimed = f injector)
    {after before : Injector} (hSame : after.unclaimed = before.unclaimed) : f after = f before := by
  rw [← hf after, hSame, hf]

namespace Hierarchy

variable {h h' h'' : Hierarchy} {n m a : InjectorId} {key : Key}

/-- Some of the injectors are left, with their ancestors and unchanged but for claims. -/
structure Survives (h' h : Hierarchy) : Prop where
  injector? : ∀ {n : InjectorId} {after : Injector}, h'.injector? n = some after →
    ∃ before, h.injector? n = some before ∧ after.unclaimed = before.unclaimed
  rooted : h'.Rooted
  holds : h'.holds = h.holds
  nextBinding : h'.nextBinding = h.nextBinding

namespace Survives

protected theorem refl (hR : h.Rooted) : Survives h h :=
  ⟨fun hn => ⟨_, hn, rfl⟩, hR, rfl, rfl⟩

protected theorem trans (hs' : Survives h'' h') (hs : Survives h' h) : Survives h'' h where
  injector? hn := by
    obtain ⟨between, hBetween, hLater⟩ := hs'.injector? hn
    obtain ⟨before, hBefore, hEarlier⟩ := hs.injector? hBetween
    exact ⟨before, hBefore, hLater.trans hEarlier⟩
  rooted := hs'.rooted
  holds := hs'.holds.trans hs.holds
  nextBinding := hs'.nextBinding.trans hs.nextBinding

theorem isLive (hs : Survives h' h) (hn : h'.isLive n = true) : h.isLive n = true := by
  obtain ⟨after, hAfter⟩ := isLive_iff.mp hn
  obtain ⟨before, hBefore, -⟩ := hs.injector? hAfter
  exact isLive_of_injector? hBefore

/-- What does not depend on claims is what it was. -/
theorem bind {α : Type} {f : Injector → Option α} (hf : ∀ injector, f injector.unclaimed = f injector)
    (hs : Survives h' h) (hn : h'.isLive n = true) : (h'.injector? n).bind f = (h.injector? n).bind f := by
  obtain ⟨after, hAfter⟩ := isLive_iff.mp hn
  obtain ⟨before, hBefore, hSame⟩ := hs.injector? hAfter
  rw [hAfter, hBefore, Option.bind_some, Option.bind_some, Injector.congr_unclaimed hf hSame]

theorem lineage (hs : Survives h' h) (hn : h'.isLive n = true) : h'.lineage n = h.lineage n := by
  obtain ⟨after, hAfter⟩ := isLive_iff.mp hn
  obtain ⟨before, hBefore, hSame⟩ := hs.injector? hAfter
  rw [lineage_of_injector? hAfter, lineage_of_injector? hBefore]
  exact Injector.congr_unclaimed (fun _ => rfl) hSame

theorem shape (hs : Survives h' h) (hn : h'.isLive n = true) :
    (h'.injector? n).map Injector.shape = (h.injector? n).map Injector.shape := by
  obtain ⟨after, hAfter⟩ := isLive_iff.mp hn
  obtain ⟨before, hBefore, hSame⟩ := hs.injector? hAfter
  rw [hAfter, hBefore, Option.map_some, Option.map_some]
  exact congrArg some (Injector.congr_unclaimed (fun _ => rfl) hSame)

theorem binding? (hs : Survives h' h) (hn : h'.isLive n = true) (key : Key) :
    h'.binding? n key = h.binding? n key :=
  hs.bind (f := (·.binding? key)) (fun _ => rfl) hn

theorem nearest {α : Type} {f : Injector → Option α} (hf : ∀ injector, f injector.unclaimed = f injector)
    (hs : Survives h' h) (hn : h'.isLive n = true) : h'.nearest n f = h.nearest n f := by
  have hPath : h'.path n = h.path n := by rw [Hierarchy.path, Hierarchy.path, hs.lineage hn]
  -- on a walk through live injectors, the same is found
  have hFound : ∀ ns : List InjectorId, (∀ p ∈ ns, h'.isLive p = true) →
      (ns.findSome? fun p => (h'.injector? p).bind f) = ns.findSome? fun p => (h.injector? p).bind f := by
    intro ns hLive
    induction ns with
    | nil => rfl
    | cons p rest ih =>
      rw [List.findSome?_cons, List.findSome?_cons, hs.bind hf (hLive p List.mem_cons_self),
        ih fun q hq => hLive q (List.mem_cons_of_mem p hq)]
  rw [Hierarchy.nearest, Hierarchy.nearest, ← hPath]
  exact hFound _ fun p hp => hs.rooted.isLive_of_mem_path hn hp

/-- Apart from claims, what is left of a consistent hierarchy is consistent. -/
theorem consistent (hs : Survives h' h) (hC : h.Consistent)
    (hClaims : ∀ {n : InjectorId} {after : Injector}, h'.injector? n = some after → after.claims.keys.Nodup) :
    h'.Consistent where
  rooted := hs.rooted
  coherent {n after} hn := by
    obtain ⟨before, hBefore, hSame⟩ := hs.injector? hn
    have hCoherent : before.unclaimed.Coherent n := by
      have hC := hC.coherent hBefore
      exact ⟨hC.itself, hC.explicit, hC.created, hC.disjoint, hC.explicitKeys, hC.createdKeys, List.nodup_nil,
        hC.provided⟩
    rw [← hSame] at hCoherent
    exact ⟨hCoherent.itself, hCoherent.explicit, hCoherent.created, hCoherent.disjoint, hCoherent.explicitKeys,
      hCoherent.createdKeys, hClaims hn, hCoherent.provided⟩
  line {m a key} hKey ha := by
    have hm := isLive_of_mem_lineage ha
    have hLive := hs.rooted.isLive_ancestor ha
    rw [hs.lineage hm] at ha
    rw [hs.binding? hm, hs.binding? hLive]
    exact hC.line hKey ha
  numbered {n key binding} hb := by
    obtain ⟨injector, hn, -⟩ := Option.bind_eq_some_iff.mp hb
    rw [hs.binding? (isLive_of_injector? hn)] at hb
    rw [hs.nextBinding]
    exact hC.numbered hb
  caches := by
    refine ⟨fun {n after tag registration} hn hTag => ?_⟩
    obtain ⟨before, hBefore, hSame⟩ := hs.injector? hn
    rw [nearestScope, hs.nearest (fun _ => rfl) (isLive_of_injector? hn)]
    rw [Injector.congr_unclaimed (f := Injector.scopeCache) (fun _ => rfl) hSame] at hTag
    exact hC.caches.nearest hBefore hTag

end Survives

-- ---------------------------------------------------------------------------
-- What stands against forgetting
-- ---------------------------------------------------------------------------

/-- Neither a hold nor a child stands against forgetting the injector. -/
structure Forgettable (h : Hierarchy) (n : InjectorId) : Prop where
  notHeld : n ∉ h.holds
  childless : ∀ m, n ∉ h.lineage m

theorem isReferred_of_mem_holds (hn : n ∈ h.holds) : h.isReferred n = true := by
  rw [isReferred, decide_eq_true hn, Bool.true_or, Bool.true_or]

/-- Children refer to their parents. -/
theorem isReferred_of_child {p : InjectorId} {rest : List InjectorId} (hn : h.lineage n = p :: rest) :
    h.isReferred p = true := by
  have hLive : h.isLive n = true := isLive_of_mem_lineage (a := p) (by rw [hn]; exact List.mem_cons_self)
  obtain ⟨injector, hInjector⟩ := isLive_iff.mp hLive
  have hChild : h.hasChild p = true := by
    rw [hasChild, List.any_eq_true]
    refine ⟨injector, Table.mem_values_of_get? hInjector, ?_⟩
    rw [← lineage_of_injector? hInjector, hn]
    exact decide_eq_true rfl
  rw [isReferred, hChild, Bool.or_true, Bool.true_or]

theorem forgettable_of_isReferred (hR : h.Rooted) (hn : h.isReferred n = false) : h.Forgettable n where
  notHeld hHeld := by
    rw [isReferred_of_mem_holds hHeld] at hn
    cases hn
  childless m hm := by
    -- on the walk down to the descendant, the first step is a child
    obtain ⟨before, after, hLineage⟩ := List.append_of_mem hm
    have hChild : ∃ child rest, h.lineage child = n :: rest := by
      rcases List.eq_nil_or_concat before with rfl | ⟨front, child, rfl⟩
      · exact ⟨m, after, hLineage⟩
      · rw [List.concat_eq_append, List.append_assoc] at hLineage
        exact ⟨child, after, (hR.lineage_of_append hLineage).2.1⟩
    obtain ⟨child, rest, hChild⟩ := hChild
    rw [isReferred_of_child hChild] at hn
    cases hn

theorem Survives.forgettable (hs : Survives h' h) (hF : h.Forgettable n) : h'.Forgettable n where
  notHeld hHeld := hF.notHeld (hs.holds ▸ hHeld)
  childless m hm := hF.childless m (hs.lineage (isLive_of_mem_lineage hm) ▸ hm)

-- ---------------------------------------------------------------------------
-- Discarding claims
-- ---------------------------------------------------------------------------

/-- Under the key, the claims of live injectors are left, in their order; under other keys, all are. -/
theorem getD_get?_retainClaims (h : Hierarchy) (claims : Table Key (List Claim)) (key other : Key) :
    ((h.retainClaims claims key).get? other).getD [] =
      if other = key then ((claims.get? other).getD []).filter fun claim => h.isLive claim.claimant
      else (claims.get? other).getD [] := by
  unfold retainClaims
  split
  · next hNone =>
    split
    · next hKey => rw [hKey, hNone, Option.getD_none, List.filter_nil]
    · rfl
  · next entries hEntries =>
    by_cases hKey : other = key
    · subst hKey
      rw [if_pos rfl, hEntries, Option.getD_some]
      split
      · next hNobody => rw [Table.get?_erase, if_pos rfl, hNobody, Option.getD_none]
      · rw [Table.get?_insert_self, Option.getD_some]
    · rw [if_neg hKey]
      split
      · rw [Table.get?_erase, if_neg (Ne.symm hKey)]
      · rw [Table.get?_insert, if_neg (Ne.symm hKey)]

theorem nodup_keys_retainClaims {claims : Table Key (List Claim)} (hNodup : claims.keys.Nodup) (key : Key) :
    (h.retainClaims claims key).keys.Nodup := by
  unfold retainClaims
  split
  · exact hNodup
  · split
    · exact Table.nodup_keys_erase _ _ hNodup
    · exact Table.nodup_keys_insert _ _ _ hNodup

/-- So it is for several keys. -/
theorem getD_get?_foldl_retainClaims (h : Hierarchy) (keys : List Key) (claims : Table Key (List Claim)) (key : Key) :
    ((keys.foldl h.retainClaims claims).get? key).getD [] =
      if key ∈ keys then ((claims.get? key).getD []).filter fun claim => h.isLive claim.claimant
      else (claims.get? key).getD [] := by
  induction keys generalizing claims with
  | nil => rfl
  | cons first rest ih =>
    rw [List.foldl_cons, ih, getD_get?_retainClaims]
    by_cases hFirst : key = first
    · subst hFirst
      rw [if_pos rfl, if_pos List.mem_cons_self, List.filter_filter]
      simp only [Bool.and_self, ite_self]
    · rw [if_neg hFirst]
      simp only [List.mem_cons, hFirst, false_or]

theorem nodup_keys_foldl_retainClaims (keys : List Key) {claims : Table Key (List Claim)}
    (hNodup : claims.keys.Nodup) : (keys.foldl h.retainClaims claims).keys.Nodup := by
  induction keys generalizing claims with
  | nil => exact hNodup
  | cons first rest ih => exact ih (nodup_keys_retainClaims hNodup first)

/-- The injector after a visit of a descendant that is gone. -/
def discarding (h : Hierarchy) (gone injector : Injector) : Injector :=
  { injector with
    claims := (gone.explicit.keys ++ gone.created.keys).foldl h.retainClaims injector.claims }

/-- Who is live depends on the identifiers in the table only. -/
theorem isLive_congr (hKeys : h'.injectors.keys = h.injectors.keys) (n : InjectorId) : h'.isLive n = h.isLive n := by
  rw [Bool.eq_iff_iff, isLive, isLive, injector?, injector?, Table.isSome_get?_iff, Table.isSome_get?_iff, hKeys]

theorem retainClaims_congr (hKeys : h'.injectors.keys = h.injectors.keys) : h'.retainClaims = h.retainClaims := by
  funext claims key
  unfold retainClaims
  rw [funext (isLive_congr hKeys)]

/-- The ancestors are visited one by one, and all of them do the same. -/
theorem retract_eq (h : Hierarchy) (gone : Injector) :
    h.retract gone = gone.lineage.foldl (fun h' ancestor => h'.modify ancestor (h.discarding gone)) h := by
  -- visits leave the same injectors live
  have hVisits : ∀ (ns : List InjectorId) (h' : Hierarchy), h'.injectors.keys = h.injectors.keys →
      ns.foldl (fun h' ancestor => h'.modify ancestor fun injector =>
        { injector with
          claims := (gone.explicit.keys ++ gone.created.keys).foldl h'.retainClaims injector.claims }) h' =
      ns.foldl (fun h' ancestor => h'.modify ancestor (h.discarding gone)) h' := by
    intro ns
    induction ns with
    | nil => exact fun _ _ => rfl
    | cons ancestor rest ih =>
      intro h' hKeys
      rw [List.foldl_cons, List.foldl_cons, retainClaims_congr hKeys]
      exact ih _ ((Table.keys_modify ..).trans hKeys)
  exact hVisits _ h rfl

-- ---------------------------------------------------------------------------
-- Forgetting one injector
-- ---------------------------------------------------------------------------

theorem injector?_forget (hR : h.Rooted) {gone : Injector} (hn : h.injector? n = some gone) (m : InjectorId) :
    (h.forget n).injector? m =
      if m = n then none
      else if m ∈ h.lineage n then
        (h.injector? m).map ({ h with injectors := h.injectors.erase n }.discarding gone)
      else h.injector? m := by
  rw [forget, hn]
  dsimp only
  rw [retract_eq, ← lineage_of_injector? hn, injector?_foldl_modify hR.nodup_lineage]
  have hErased : ({ h with injectors := h.injectors.erase n } : Hierarchy).injector? m =
      if n = m then none else h.injector? m := Table.get?_erase ..
  rw [hErased]
  by_cases hm : m = n
  · subst hm
    rw [if_pos rfl, if_pos rfl, if_neg hR.not_mem_lineage_self]
  · rw [if_neg hm, if_neg (Ne.symm hm)]

/-- Forgetting changes nothing but injectors. -/
theorem forget_eq (h : Hierarchy) (n : InjectorId) : ∃ injectors, h.forget n = { h with injectors } := by
  unfold forget
  split
  · exact ⟨h.injectors, rfl⟩
  · next injector _ =>
    exact foldl_eq_of_injectors (fun _ _ => ⟨_, rfl⟩) injector.lineage { h with injectors := h.injectors.erase n }

theorem keys_forget (h : Hierarchy) (n : InjectorId) :
    (h.forget n).injectors.keys = h.injectors.keys.filter (· ≠ n) := by
  unfold forget
  split
  · next hNone =>
    refine (List.filter_eq_self.mpr fun m hm => decide_eq_true ?_).symm
    rintro rfl
    have hSome := Table.isSome_get?_iff.mpr hm
    rw [← injector?, hNone] at hSome
    cases hSome
  · next injector hSome =>
    rw [retract_eq]
    refine (sameShape_foldl_modify (f := discarding _ injector) (fun _ => rfl) _ _).keys.trans ?_
    exact Table.keys_erase ..

theorem isLive_forget (h : Hierarchy) (n m : InjectorId) :
    (h.forget n).isLive m = true ↔ h.isLive m = true ∧ m ≠ n := by
  rw [isLive, isLive, injector?, injector?, Table.isSome_get?_iff, Table.isSome_get?_iff, keys_forget, List.mem_filter,
    decide_eq_true_eq]

/-- What is left is unchanged but for claims. -/
theorem survives_forget (hR : h.Rooted) (hF : h.Forgettable n) : Survives (h.forget n) h := by
  obtain ⟨injectors, hEq⟩ := forget_eq h n
  cases hn : h.injector? n with
  | none =>
    have hSame : h.forget n = h := by rw [forget, hn]
    rw [hSame]
    exact Survives.refl hR
  | some gone =>
    have hLeft : ∀ {m after}, (h.forget n).injector? m = some after →
        m ≠ n ∧ ∃ before, h.injector? m = some before ∧ after.unclaimed = before.unclaimed := by
      intro m after hm
      rw [injector?_forget hR hn] at hm
      split at hm
      · cases hm
      · next hNe =>
        refine ⟨hNe, ?_⟩
        split at hm
        · obtain ⟨before, hBefore, rfl⟩ := Option.map_eq_some_iff.mp hm
          exact ⟨before, hBefore, rfl⟩
        · exact ⟨after, hm, rfl⟩
    have hLineage : ∀ {m}, (h.forget n).isLive m = true →
        (h.forget n).lineage m = h.lineage m ∧ (h.forget n).isExplicitOnly m = h.isExplicitOnly m := by
      intro m hm
      obtain ⟨after, hAfter⟩ := isLive_iff.mp hm
      obtain ⟨-, before, hBefore, hSame⟩ := hLeft hAfter
      rw [lineage_of_injector? hAfter, lineage_of_injector? hBefore, isExplicitOnly_of_injector? hAfter,
        isExplicitOnly_of_injector? hBefore]
      exact ⟨Injector.congr_unclaimed (fun _ => rfl) hSame, Injector.congr_unclaimed (fun _ => rfl) hSame⟩
    refine ⟨fun hm => (hLeft hm).2, ?_, ?_, ?_⟩
    · refine ⟨?_, fun {m} hm => ?_, fun {m p rest} hm => ?_, fun {m} hm => ?_⟩
      · rw [keys_forget]
        exact hR.distinct.filter _
      · rw [hEq]
        exact hR.fresh ((isLive_forget h n m).mp hm).1
      · -- nobody is a child of the one that is gone, so every parent is left
        have hLive : (h.forget n).isLive m = true :=
          isLive_of_mem_lineage (a := p) (by rw [hm]; exact List.mem_cons_self)
        have hBefore : h.lineage m = p :: rest := (hLineage hLive).1.symm.trans hm
        obtain ⟨hLt, hParent, hRest, hOnly⟩ := hR.parent hBefore
        have hNe : p ≠ n := fun hEq => hF.childless m (by rw [hBefore, hEq]; exact List.mem_cons_self)
        have hParent' := (isLive_forget h n p).mpr ⟨hParent, hNe⟩
        rw [(hLineage hParent').1, (hLineage hParent').2, (hLineage hLive).2]
        exact ⟨hLt, hParent', hRest, hOnly⟩
      · rw [hEq] at hm
        exact (isLive_forget h n m).mpr ⟨hR.held hm, fun hEq => hF.notHeld (hEq ▸ hm)⟩
    · rw [hEq]
    · rw [hEq]

/-- Who visits which ancestors, and under which keys, is enough: in a well-formed hierarchy, exactly the claims of the one
that is gone disappear. -/
theorem claimsOf_forget (hW : h.WellFormed) (ha : (h.forget n).isLive a = true) (key : Key) :
    (h.forget n).claimsOf a key = (h.claimsOf a key).filter fun claim => (h.forget n).isLive claim.claimant := by
  obtain ⟨hLive, hNe⟩ := (isLive_forget h n a).mp ha
  obtain ⟨injector, hInjector⟩ := isLive_iff.mp hLive
  cases hn : h.injector? n with
  | none =>
    have hSame : h.forget n = h := by rw [forget, hn]
    rw [hSame]
    exact (List.filter_eq_self.mpr fun _ hMem => hW.isLive_of_mem_claimsOf hMem).symm
  | some gone =>
    have hErased : ∀ m, ({ h with injectors := h.injectors.erase n } : Hierarchy).isLive m = (h.forget n).isLive m := by
      refine fun m => isLive_congr ?_ m
      rw [keys_forget]
      exact Table.keys_erase ..
    have hVisited : (h.forget n).claimsOf a key =
        if a ∈ h.lineage n ∧ key ∈ gone.explicit.keys ++ gone.created.keys then
          (h.claimsOf a key).filter fun claim => (h.forget n).isLive claim.claimant
        else h.claimsOf a key := by
      rw [claimsOf, claimsOf, injector?_forget hW.rooted hn, if_neg hNe, hInjector, Option.bind_some]
      by_cases hBelow : a ∈ h.lineage n
      · simp only [hBelow, true_and, if_true, Option.map_some, Option.bind_some, discarding,
          getD_get?_foldl_retainClaims, hErased]
      · simp only [hBelow, false_and, if_false, Option.bind_some]
    rw [hVisited]
    split
    · rfl
    · next hElsewhere =>
      -- whoever has a claim here owns the key, so it is not the one that is gone
      refine (List.filter_eq_self.mpr fun claim hMem => (isLive_forget h n _).mpr
        ⟨hW.isLive_of_mem_claimsOf hMem, fun hClaimant => hElsewhere ?_⟩).symm
      obtain ⟨bindings, hClaims, -, hOwned⟩ := hW.claims a key
      rw [hClaims] at hMem
      obtain ⟨binding, hBinding, rfl⟩ := List.mem_map.mp hMem
      obtain ⟨m, hBelow, hb, hOrigin⟩ := (hOwned binding).mp hBinding
      obtain rfl : m = n := (hW.binding? hb).2.1.symm.trans hClaimant
      refine ⟨hBelow, List.mem_append.mpr ?_⟩
      have hKey : key ≠ .injector := fun hKey => hOrigin ((hW.binding? hb).2.2.mpr hKey)
      rw [binding?_of_injector? hn, Injector.binding?_of_ne hKey] at hb
      exact (Option.or_eq_some_iff.mp hb).imp Table.mem_keys_of_get? fun hb => Table.mem_keys_of_get? hb.2

theorem claimKeys_forget (hC : h.Consistent) {after : Injector} (hm : (h.forget n).injector? m = some after) :
    after.claims.keys.Nodup := by
  cases hn : h.injector? n with
  | none =>
    rw [forget, hn] at hm
    exact (hC.coherent hm).claimKeys
  | some gone =>
    rw [injector?_forget hC.rooted hn] at hm
    split at hm
    · cases hm
    · split at hm
      · obtain ⟨before, hBefore, rfl⟩ := Option.map_eq_some_iff.mp hm
        exact nodup_keys_foldl_retainClaims _ (hC.coherent hBefore).claimKeys
      · exact (hC.coherent hm).claimKeys

/-- What survivors own below an injector is what they have owned there. -/
theorem Survives.ownedBelow (hs : Survives h' h) (hW : h.WellFormed) {binding : Binding} :
    h'.OwnedBelow a key binding ↔ h.OwnedBelow a key binding ∧ h'.isLive binding.owner = true := by
  constructor
  · rintro ⟨m, ha, hb, hOrigin⟩
    have hm := isLive_of_mem_lineage ha
    rw [hs.lineage hm] at ha
    rw [hs.binding? hm] at hb
    exact ⟨⟨m, ha, hb, hOrigin⟩, (hW.binding? hb).2.1.symm ▸ hm⟩
  · rintro ⟨⟨m, ha, hb, hOrigin⟩, hm⟩
    rw [(hW.binding? hb).2.1] at hm
    exact ⟨m, (hs.lineage hm).symm ▸ ha, (hs.binding? hm key).trans hb, hOrigin⟩

/-- The claims that are left stand for what those who are left own. -/
theorem claimsExact_forget (hW : h.WellFormed) (hF : h.Forgettable n) (a : InjectorId) (key : Key) :
    (h.forget n).ClaimsExact a key := by
  have hs := survives_forget hW.rooted hF
  obtain ⟨bindings, hClaims, hOrder, hOwned⟩ := hW.claims a key
  by_cases ha : (h.forget n).isLive a = true
  · refine ⟨bindings.filter fun binding => (h.forget n).isLive binding.owner, ?_, hOrder.filter _, fun binding => ?_⟩
    · rw [claimsOf_forget hW ha, hClaims, List.filter_map]
      rfl
    · rw [List.mem_filter, hOwned, hs.ownedBelow hW]
  · -- whoever is gone holds no claims, and is nobody's ancestor any more
    refine ⟨[], ?_, List.Pairwise.nil, fun binding => ⟨fun hMem => (nomatch hMem), ?_⟩⟩
    · rw [claimsOf, Option.not_isSome_iff_eq_none.mp ha]
      rfl
    · rintro ⟨m, hm, -⟩
      exact absurd (hs.rooted.isLive_ancestor hm) ha

/-- Forgetting an injector keeps the hierarchy well-formed, if neither a hold nor a child stands against it. -/
theorem wellFormed_forget (hW : h.WellFormed) (hF : h.Forgettable n) : (h.forget n).WellFormed where
  toConsistent := (survives_forget hW.rooted hF).consistent hW.toConsistent (claimKeys_forget hW.toConsistent)
  claims := claimsExact_forget hW hF

-- ---------------------------------------------------------------------------
-- Sweeping
-- ---------------------------------------------------------------------------

theorem survives_foldl_forget (hR : h.Rooted) {ns : List InjectorId} (hF : ∀ n ∈ ns, h.Forgettable n) :
    Survives (ns.foldl forget h) h := by
  induction ns generalizing h with
  | nil => exact Survives.refl hR
  | cons n rest ih =>
    have hs := survives_forget hR (hF n List.mem_cons_self)
    have hRest := ih hs.rooted fun m hm => hs.forgettable (hF m (List.mem_cons_of_mem n hm))
    exact hRest.trans hs

theorem wellFormed_foldl_forget (hW : h.WellFormed) {ns : List InjectorId} (hF : ∀ n ∈ ns, h.Forgettable n) :
    (ns.foldl forget h).WellFormed := by
  induction ns generalizing h with
  | nil => exact hW
  | cons n rest ih =>
    have hn := hF n List.mem_cons_self
    have hs := survives_forget hW.rooted hn
    exact ih (wellFormed_forget hW hn) fun m hm => hs.forgettable (hF m (List.mem_cons_of_mem n hm))

theorem forgettable_of_mem_gone (hR : h.Rooted)
    (hn : n ∈ h.injectors.keys.filter fun n => !h.isReferred n) : h.Forgettable n :=
  forgettable_of_isReferred hR (Bool.not_eq_true' _ |>.mp (List.mem_filter.mp hn).2)

theorem survives_sweep (hR : h.Rooted) : Survives h.sweep h :=
  survives_foldl_forget hR fun _ hn => forgettable_of_mem_gone hR hn

theorem wellFormed_sweep (hW : h.WellFormed) : h.sweep.WellFormed :=
  wellFormed_foldl_forget hW fun _ hn => forgettable_of_mem_gone hW.rooted hn

/-- A sweep leaves the injectors to which something refers. -/
theorem keys_sweep (h : Hierarchy) : h.sweep.injectors.keys = h.injectors.keys.filter h.isReferred := by
  have hFold : ∀ (ns : List InjectorId) (h : Hierarchy),
      (ns.foldl forget h).injectors.keys = h.injectors.keys.filter (· ∉ ns) := by
    intro ns
    induction ns with
    | nil => exact fun h => (List.filter_eq_self.mpr fun _ _ => by simp).symm
    | cons n rest ih =>
      intro h
      rw [List.foldl_cons, ih, keys_forget, List.filter_filter]
      refine List.filter_congr fun m _ => ?_
      simp only [List.mem_cons, not_or, ne_eq, Bool.decide_and, Bool.and_comm]
  rw [sweep, hFold]
  refine List.filter_congr fun m hm => ?_
  simp [hm]

theorem isLive_sweep (h : Hierarchy) (n : InjectorId) :
    h.sweep.isLive n = true ↔ h.isLive n = true ∧ h.isReferred n = true := by
  rw [isLive, isLive, injector?, injector?, Table.isSome_get?_iff, Table.isSome_get?_iff, keys_sweep, List.mem_filter]

/-- Sweeping changes nothing but injectors. -/
theorem sweepAll_eq (times : Nat) (h : Hierarchy) : ∃ injectors, h.sweepAll times = { h with injectors } := by
  induction times generalizing h with
  | zero => exact ⟨h.injectors, rfl⟩
  | succ times ih =>
    unfold sweepAll
    split
    · exact ⟨h.injectors, rfl⟩
    · obtain ⟨injectors, hFirst⟩ := foldl_eq_of_injectors forget_eq (h.injectors.keys.filter fun n => !h.isReferred n) h
      obtain ⟨injectors', hRest⟩ := ih h.sweep
      exact ⟨injectors', by rw [hRest, sweep, hFirst]⟩

theorem survives_sweepAll (hR : h.Rooted) (times : Nat) : Survives (h.sweepAll times) h := by
  -- each sweep leaves a forest, so the next one can begin
  induction times generalizing h with
  | zero => exact Survives.refl hR
  | succ times ih =>
    unfold sweepAll
    split
    · exact Survives.refl hR
    · have hSweep := survives_sweep hR
      exact (ih hSweep.rooted).trans hSweep

theorem wellFormed_sweepAll (hW : h.WellFormed) (times : Nat) : (h.sweepAll times).WellFormed := by
  induction times generalizing h with
  | zero => exact hW
  | succ times ih =>
    unfold sweepAll
    split
    · exact hW
    · exact ih (wellFormed_sweep hW)

/-- As many sweeps as there are injectors are enough: each one that does not end the sweeping forgets an injector. -/
theorem isReferred_sweepAll {times : Nat} (hEnough : h.injectors.keys.length ≤ times)
    (hn : (h.sweepAll times).isLive n = true) : (h.sweepAll times).isReferred n = true := by
  induction times generalizing h with
  | zero =>
    have hNone : h.injectors.keys = [] := List.length_eq_zero_iff.mp (Nat.le_zero.mp hEnough)
    have hMem := Table.isSome_get?_iff.mp hn
    rw [sweepAll, hNone] at hMem
    cases hMem
  | succ times ih =>
    unfold sweepAll at hn ⊢
    split at hn
    · next hSettled =>
      rw [if_pos hSettled]
      exact List.all_eq_true.mp hSettled n (Table.isSome_get?_iff.mp hn)
    · next hUnsettled =>
      rw [if_neg hUnsettled]
      refine ih (Nat.le_of_lt_succ (Nat.lt_of_lt_of_le ?_ hEnough)) hn
      rw [keys_sweep]
      simp only [List.all_eq_true, Classical.not_forall, exists_prop] at hUnsettled
      exact List.length_filter_lt_length_iff_exists.mpr hUnsettled

/-- Something refers to everybody who is left. -/
theorem isReferred_prune (hn : h.prune.isLive n = true) : h.prune.isReferred n = true :=
  isReferred_sweepAll (Nat.le_of_eq (List.length_map _)) hn

-- ---------------------------------------------------------------------------
-- Holding and giving up
-- ---------------------------------------------------------------------------

theorem wellFormed_hold (hW : h.WellFormed) (hn : h.isLive n = true) : (h.hold n).WellFormed where
  rooted := by
    refine ⟨hW.rooted.distinct, hW.rooted.fresh, hW.rooted.parent, fun {m} hm => ?_⟩
    rcases List.mem_cons.mp hm with rfl | hm
    · exact hn
    · exact hW.rooted.held hm
  coherent := hW.coherent
  line := hW.line
  claims := hW.claims
  numbered := hW.numbered
  caches := ⟨hW.caches.nearest⟩

/-- Without a hold, a hierarchy is still well-formed. -/
theorem wellFormed_eraseHold (hW : h.WellFormed) (n : InjectorId) :
    { h with holds := h.holds.erase n }.WellFormed where
  rooted := ⟨hW.rooted.distinct, hW.rooted.fresh, hW.rooted.parent,
    fun hm => hW.rooted.held (List.mem_of_mem_erase hm)⟩
  coherent := hW.coherent
  line := hW.line
  claims := hW.claims
  numbered := hW.numbered
  caches := ⟨hW.caches.nearest⟩

/-- Those who are left after a hold was given up are what they were, but for claims. -/
theorem survives_release (hW : h.WellFormed) (n : InjectorId) :
    Survives (h.release n) { h with holds := h.holds.erase n } :=
  survives_sweepAll (wellFormed_eraseHold hW n).rooted _

theorem holds_release (hW : h.WellFormed) (n : InjectorId) : (h.release n).holds = h.holds.erase n :=
  (survives_release hW n).holds

/-- Whoever is left owns what it owned. -/
theorem binding?_release (hW : h.WellFormed) {n : InjectorId} (hm : (h.release n).isLive m = true) (key : Key) :
    (h.release n).binding? m key = h.binding? m key :=
  (survives_release hW n).binding? hm key

/-- Giving up a hold keeps the hierarchy well-formed. -/
theorem wellFormed_release (hW : h.WellFormed) (n : InjectorId) : (h.release n).WellFormed :=
  wellFormed_sweepAll (wellFormed_eraseHold hW n) _

end Hierarchy

end InjectorTree
