import InjectorTree.Proofs.Placement.SelfSupport

/-!
# Placeability in later states

Requests take placements away from each other by owning keys and by claiming them. But they own keys only where
those belong, so whatever they take away has been provided for, and what they have not provided for is placeable
as before. What a request adds is therefore a matter of the state in which all of them began.

* `placeable_iff_self`: whether a key is placeable in an injector does not depend on who asks for it.
* `Extended`: the states in which more is owned, all of it where it belongs.
* `placeable_later_iff`, `rootMost_later_iff`, `needs_later_iff`: what is placeable and needed in them.
-/

namespace InjectorTree.Hierarchy

-- ---------------------------------------------------------------------------
-- Placeability is local
-- ---------------------------------------------------------------------------

variable {h h' h'' : Hierarchy} {n m p q : InjectorId} {key x : Key} {binding : Binding}
  {pair : InjectorId × Key}

/-- Whether a key is placeable in an injector does not depend on who asks for it. -/
theorem placeable_iff_self (hR : h.Rooted) : h.Placeable n p key ↔ p ∈ h.path n ∧ h.Placeable p p key := by
  constructor
  · intro hPlaceable
    obtain ⟨S, hS, hMem⟩ := hPlaceable
    refine ⟨hS.onPath hMem, {pair | pair ∈ S ∧ pair.1 ∈ h.path p}, ?_, hMem, self_mem_path⟩
    -- dependencies are looked for further up, so the rest of the set is not missed
    refine ⟨fun hPair => hPair.2, fun hPair => hS.unbound hPair.1, fun hPair => hS.unowned hPair.1, ?_⟩
    intro r y hPair
    obtain ⟨declaration, hDeclared, hSound, hRegistered, hDependencies⟩ := hS.declared hPair.1
    refine ⟨declaration, hDeclared, hSound, hRegistered, fun dependency hDependency => ?_⟩
    refine (hDependencies dependency hDependency).imp_right ?_
    intro hOther
    obtain ⟨q, hq, hOther⟩ := hOther
    exact ⟨q, hq, hOther, hR.mem_path_trans hPair.2 hq⟩
  · intro hBoth
    obtain ⟨hp, S, hS, hMem⟩ := hBoth
    have hUp : ∀ {r y}, (r, y) ∈ S → r ∈ h.path n := fun hPair => hR.mem_path_trans hp (hS.onPath hPair)
    exact ⟨S, ⟨hUp, hS.unbound, hS.unowned, hS.declared⟩, hMem⟩

theorem rootMost_iff_self (hR : h.Rooted) : h.RootMost n key p ↔ p ∈ h.path n ∧ h.RootMost p key p := by
  have hAbove : p ∈ h.path n → ((∀ q ∈ h.lineage p, ¬h.Placeable n q key) ↔
      ∀ q ∈ h.lineage p, ¬h.Placeable p q key) := by
    intro hp
    refine forall₂_congr fun q hq => not_congr ?_
    rw [placeable_iff_self hR, placeable_iff_self (n := p) hR]
    have hqp : q ∈ h.path p := mem_path_of_mem_lineage hq
    exact and_congr_left fun _ => ⟨fun _ => hqp, fun _ => hR.mem_path_trans hp hqp⟩
  constructor
  · intro hRoot
    have hp := hRoot.1.onPath
    exact ⟨hp, ((placeable_iff_self hR).mp hRoot.1).2, (hAbove hp).mp hRoot.2⟩
  · intro hBoth
    obtain ⟨hp, hPlaceable, hNot⟩ := hBoth
    exact ⟨(placeable_iff_self hR).mpr ⟨hp, hPlaceable⟩, (hAbove hp).mpr hNot⟩

theorem Needs.of_path (hR : h.Rooted) {first second : InjectorId × Key} (hNeeds : h.Needs n first second)
    (hm : first.1 ∈ h.path m) : h.Needs m first second := by
  obtain ⟨declaration, hDeclared, hDependency, hNone, hPath, hRoot⟩ := hNeeds
  have hSelf := ((rootMost_iff_self hR).mp hRoot).2
  exact ⟨declaration, hDeclared, hDependency, hNone, hPath,
    (rootMost_iff_self hR).mpr ⟨hR.mem_path_trans hm hPath, hSelf⟩⟩

-- ---------------------------------------------------------------------------
-- Later states
-- ---------------------------------------------------------------------------

/-- A later state with more owners: those of a set of pairs, each of which belongs where it is owned, and
everything they need in turn. What is owned in addition is built from the nearest declarations. -/
structure Extended (h : Hierarchy) (D : Set (InjectorId × Key)) (h' : Hierarchy) : Prop where
  wellFormed : h'.WellFormed
  shape : SameShape h' h
  kept : ∀ {m : InjectorId} {x : Key} {old : Binding}, h.binding? m x = some old → h'.binding? m x = some old
  added : ∀ {m : InjectorId} {x : Key} {new : Binding}, h'.binding? m x = some new →
    h.binding? m x = some new ∨ (m, x) ∈ D ∧
      ∃ declaration, h.declaration? m x = some declaration ∧ h.BuiltFrom declaration new
  owned : ∀ {m : InjectorId} {x : Key}, (m, x) ∈ D → (h'.binding? m x).isSome = true
  belongs : ∀ {m : InjectorId} {x : Key}, (m, x) ∈ D → h.RootMost m x m
  closed : ∀ {m : InjectorId} {x : Key} {pair : InjectorId × Key}, (m, x) ∈ D →
    h.Needs m (m, x) pair → pair ∈ D

variable {D : Set (InjectorId × Key)}

theorem Extended.refl (hW : h.WellFormed) : Extended h ∅ h :=
  ⟨hW, SameShape.refl h, fun hOld => hOld, fun hNew => Or.inl hNew, fun hMem => hMem.elim, fun hMem => hMem.elim,
    fun hMem => hMem.elim⟩

namespace Extended

/-- What is bound later on a path was bound before, or belongs there. -/
theorem exists_of_lookup (hE : Extended h D h') (hFound : (h'.lookup n x).isSome = true) :
    (h.lookup n x).isSome = true ∨ ∃ p ∈ h.path n, (p, x) ∈ D := by
  obtain ⟨p, hp, hSome⟩ := lookup_isSome_iff.mp hFound
  rw [hE.shape.path] at hp
  obtain ⟨new, hNew⟩ := Option.isSome_iff_exists.mp hSome
  rcases hE.added hNew with hOld | ⟨hMem, -⟩
  · exact Or.inl (lookup_isSome_iff.mpr ⟨p, hp, by rw [hOld]; rfl⟩)
  · exact Or.inr ⟨p, hp, hMem⟩

theorem lookup_isSome (hE : Extended h D h') (hFound : (h.lookup n x).isSome = true) :
    (h'.lookup n x).isSome = true := by
  obtain ⟨p, hp, hSome⟩ := lookup_isSome_iff.mp hFound
  obtain ⟨old, hOld⟩ := Option.isSome_iff_exists.mp hSome
  refine lookup_isSome_iff.mpr ⟨p, ?_, ?_⟩
  · rw [hE.shape.path]
    exact hp
  · rw [hE.kept hOld]
    rfl

theorem lookup_eq_none (hE : Extended h D h') (hNone : h'.lookup n x = none) : h.lookup n x = none := by
  rw [← Option.not_isSome_iff_eq_none] at hNone ⊢
  exact fun hFound => hNone (hE.lookup_isSome hFound)

/-- What is placeable later was placeable before: what later states provide could have been placed too. -/
theorem placeable_before (hE : Extended h D h') (hPlaceable : h'.Placeable n p x) : h.Placeable n p x := by
  obtain ⟨S, hS, hMem⟩ := hPlaceable
  have hR := hE.wellFormed.rooted.of_sameShape hE.shape.symm
  refine ⟨S ∪ {pair | h.Placeable n pair.1 pair.2}, ?_, Or.inl hMem⟩
  have hOld := selfSupporting_placeable h n
  refine ⟨?_, ?_, ?_, ?_⟩
  · intro q y hPair
    rcases hPair with hPair | hPair
    · exact hE.shape.path n ▸ hS.onPath hPair
    · exact hOld.onPath hPair
  · intro q y hPair
    rcases hPair with hPair | hPair
    · exact hE.lookup_eq_none (hS.unbound hPair)
    · exact hOld.unbound hPair
  · intro q y hPair m hm
    rcases hPair with hPair | hPair
    · -- what somebody below owns, it owns later too
      have hNone := hS.unowned hPair m (hE.shape.lineage m ▸ hm)
      rw [Option.eq_none_iff_forall_ne_some] at hNone ⊢
      exact fun binding hb => hNone binding (hE.kept hb)
    · exact hOld.unowned hPair m hm
  · intro q y hPair
    rcases hPair with hPair | hPair
    · obtain ⟨declaration, hDeclared, hSound, hRegistered, hDependencies⟩ := hS.declared hPair
      have hqn : q ∈ h.path n := hE.shape.path n ▸ hS.onPath hPair
      refine ⟨declaration, hE.shape.declaration? q y ▸ hDeclared, hSound, ?_, ?_⟩
      · intro tag hTag
        rw [← hE.shape.nearestScope]
        exact hRegistered tag hTag
      · intro dependency hDependency
        rcases hDependencies dependency hDependency with hFound | ⟨r, hr, hOther⟩
        · refine (hE.exists_of_lookup hFound).imp_right ?_
          rintro ⟨r, hr, hMem⟩
          have hPlaceable : h.Placeable n r dependency :=
            (placeable_iff_self hR).mpr ⟨hR.mem_path_trans hqn hr, (hE.belongs hMem).1⟩
          exact ⟨r, hr, Or.inr hPlaceable⟩
        · exact Or.inr ⟨r, hE.shape.path q ▸ hr, Or.inl hOther⟩
    · obtain ⟨declaration, hDeclared, hSound, hRegistered, hDependencies⟩ := hOld.declared hPair
      refine ⟨declaration, hDeclared, hSound, hRegistered, fun dependency hDependency => ?_⟩
      refine (hDependencies dependency hDependency).imp_right ?_
      rintro ⟨r, hr, hOther⟩
      exact ⟨r, hr, Or.inr hOther⟩

/-- What was placeable before is so later, unless it is bound: a key that is owned further down has not been
placeable further up. -/
theorem placeable_after (hE : Extended h D h') (hPlaceable : h.Placeable n p x) (hNone : h'.lookup p x = none) :
    h'.Placeable n p x := by
  have hR := hE.wellFormed.rooted.of_sameShape hE.shape.symm
  have hOld := selfSupporting_placeable h n
  refine ⟨{pair | h.Placeable n pair.1 pair.2 ∧ h'.lookup pair.1 pair.2 = none}, ?_, hPlaceable, hNone⟩
  refine ⟨?_, fun hPair => hPair.2, ?_, ?_⟩
  · intro q y hPair
    rw [hE.shape.path]
    exact hOld.onPath hPair.1
  · intro q y hPair m hm
    rw [hE.shape.lineage] at hm
    rw [Option.eq_none_iff_forall_ne_some]
    intro new hNew
    rcases hE.added hNew with hBefore | ⟨hMem, -⟩
    · rw [hOld.unowned hPair.1 m hm] at hBefore
      cases hBefore
    · -- the new owner is the root-most injector for the key, and `q` is above it
      have hAbove : h.Placeable m q y :=
        (placeable_iff_self hR).mpr ⟨mem_path_of_mem_lineage hm, ((placeable_iff_self hR).mp hPair.1).2⟩
      exact (hE.belongs hMem).2 q hm hAbove
  · intro q y hPair
    obtain ⟨declaration, hDeclared, hSound, hRegistered, hDependencies⟩ := hOld.declared hPair.1
    refine ⟨declaration, (hE.shape.declaration? q y).trans hDeclared, hSound, ?_, ?_⟩
    · intro tag hTag
      rw [hE.shape.nearestScope]
      exact hRegistered tag hTag
    · intro dependency hDependency
      rcases hDependencies dependency hDependency with hFound | ⟨r, hr, hOther⟩
      · exact Or.inl (hE.lookup_isSome hFound)
      · cases hLater : h'.lookup r dependency with
        | none => exact Or.inr ⟨r, (hE.shape.path q).symm ▸ hr, hOther, hLater⟩
        | some binding =>
          have hSome : (h'.lookup r dependency).isSome = true := by rw [hLater]; rfl
          obtain ⟨s, hs, hOwned⟩ := lookup_isSome_iff.mp hSome
          have hq : s ∈ h'.path q :=
            hE.wellFormed.rooted.mem_path_trans ((hE.shape.path q).symm ▸ hr) hs
          exact Or.inl (lookup_isSome_iff.mpr ⟨s, hq, hOwned⟩)

/-- Later, exactly those keys are placeable that were so before and are not bound by now. -/
theorem placeable_later_iff (hE : Extended h D h') :
    h'.Placeable n p x ↔ h.Placeable n p x ∧ h'.lookup p x = none :=
  ⟨fun hPlaceable => ⟨hE.placeable_before hPlaceable, hPlaceable.unbound⟩,
    fun hBoth => hE.placeable_after hBoth.1 hBoth.2⟩

/-- Where a key is not bound by now, it belongs where it did. -/
theorem rootMost_later_iff (hE : Extended h D h') (hNone : h'.lookup n x = none) :
    h'.RootMost n x p ↔ h.RootMost n x p := by
  have hR' := hE.wellFormed.rooted
  have hSame : ∀ {q}, h'.Placeable n q x ↔ h.Placeable n q x := by
    intro q
    rw [hE.placeable_later_iff]
    refine ⟨fun hBoth => hBoth.1, fun hPlaceable => ⟨hPlaceable, ?_⟩⟩
    exact lookup_eq_none_of_mem_path hR' ((hE.shape.path n).symm ▸ hPlaceable.onPath) hNone
  unfold RootMost
  rw [hSame, hE.shape.lineage]
  exact and_congr_right fun _ => forall₂_congr fun q _ => not_congr hSame

/-- What is needed later was needed before, and what was needed before is needed later unless it is bound. -/
theorem needs_later_iff (hE : Extended h D h') {first second : InjectorId × Key} :
    h'.Needs n first second ↔ h.Needs n first second ∧ h'.lookup first.1 second.2 = none := by
  have hR' := hE.wellFormed.rooted
  have hR := hR'.of_sameShape hE.shape.symm
  have hRoot : second.1 ∈ h.path first.1 → h'.lookup first.1 second.2 = none →
      (h'.RootMost n second.2 second.1 ↔ h.RootMost n second.2 second.1) := by
    intro hPath hNone
    have hSelf := lookup_eq_none_of_mem_path hR' ((hE.shape.path first.1).symm ▸ hPath) hNone
    rw [rootMost_iff_self hR', rootMost_iff_self hR, hE.shape.path, hE.rootMost_later_iff hSelf]
  constructor
  · rintro ⟨declaration, hDeclared, hDependency, hNone, hPath, hSecond⟩
    rw [hE.shape.path] at hPath
    rw [hE.shape.declaration?] at hDeclared
    exact ⟨⟨declaration, hDeclared, hDependency, hE.lookup_eq_none hNone, hPath,
      (hRoot hPath hNone).mp hSecond⟩, hNone⟩
  · rintro ⟨⟨declaration, hDeclared, hDependency, -, hPath, hSecond⟩, hNone⟩
    refine ⟨declaration, ?_, hDependency, hNone, ?_, (hRoot hPath hNone).mpr hSecond⟩
    · rw [hE.shape.declaration?]
      exact hDeclared
    · rw [hE.shape.path]
      exact hPath

/-- Marks do not matter. -/
theorem marks (hE : Extended h D h') (hM : Marked h'' h') : Extended h D h'' where
  wellFormed := hM.wellFormed
  shape := hM.core.sameShape.trans hE.shape
  kept hOld := by
    rw [hM.core.binding?]
    exact hE.kept hOld
  added hNew := by
    rw [hM.core.binding?] at hNew
    exact hE.added hNew
  owned hMem := by
    rw [hM.core.binding?]
    exact hE.owned hMem
  belongs := hE.belongs
  closed := hE.closed

/-- With a pair, the set has all that the pair needs in turn. -/
theorem closed_of_needs (hE : Extended h D h') {first second : InjectorId × Key} (hMem : first ∈ D)
    (hNeeds : Relation.ReflTransGen (h.Needs n) first second) : second ∈ D := by
  have hR := hE.wellFormed.rooted.of_sameShape hE.shape.symm
  induction hNeeds with
  | refl => exact hMem
  | tail _ hStep ih => exact hE.closed ih (hStep.of_path hR self_mem_path)

/-- Who owns what later. -/
theorem binding?_isSome_iff (hE : Extended h D h') :
    (h'.binding? m x).isSome = true ↔ (h.binding? m x).isSome = true ∨ (m, x) ∈ D := by
  constructor
  · intro hSome
    obtain ⟨new, hNew⟩ := Option.isSome_iff_exists.mp hSome
    rcases hE.added hNew with hOld | ⟨hMem, -⟩
    · exact Or.inl (by rw [hOld]; rfl)
    · exact Or.inr hMem
  · rintro (hSome | hMem)
    · obtain ⟨old, hOld⟩ := Option.isSome_iff_exists.mp hSome
      rw [hE.kept hOld]
      rfl
    · exact hE.owned hMem

end Extended

end InjectorTree.Hierarchy
