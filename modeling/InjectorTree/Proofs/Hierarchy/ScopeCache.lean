import InjectorTree.Proofs.Hierarchy.Invariant

/-!
# Remembered scopes

The search for a scope ends early where an injector remembers what was found before. It finds the same as the
plain walk, and what it remembers in turn is sound.

* `findScope_fst`: the search finds what the walk to the root finds.
* `wellFormed_findScope`: the search keeps the hierarchy well-formed.
* `Marked`: what a search leaves behind, whether or not it finds anything.
-/

namespace InjectorTree.Hierarchy

variable {h : Hierarchy} {n p : InjectorId} {tag : ScopeTag}

/-- A search for a scope changes nothing but injectors. -/
theorem findScopeOn_snd (tag : ScopeTag) (ns : List InjectorId) (h : Hierarchy) :
    ∃ injectors, (findScopeOn tag ns h).2 = { h with injectors } := by
  induction ns with
  | nil => exact ⟨h.injectors, rfl⟩
  | cons n above ih =>
    obtain ⟨injectors, hAbove⟩ := ih
    unfold findScopeOn
    split
    · exact ⟨h.injectors, rfl⟩
    · split
      · exact ⟨h.injectors, rfl⟩
      · split
        · next h' hEq =>
          rw [hEq] at hAbove
          exact ⟨injectors, hAbove⟩
        · next registration h' hEq =>
          rw [hEq] at hAbove
          subst hAbove
          exact ⟨_, rfl⟩

theorem nextBinding_findScope (h : Hierarchy) (n : InjectorId) (tag : ScopeTag) :
    (h.findScope n tag).2.nextBinding = h.nextBinding := by
  obtain ⟨injectors, hEq⟩ := findScopeOn_snd tag (h.path n) h
  rw [findScope, hEq]

theorem user_findScope (h : Hierarchy) (n : InjectorId) (tag : ScopeTag) : (h.findScope n tag).2.user = h.user := by
  obtain ⟨injectors, hEq⟩ := findScopeOn_snd tag (h.path n) h
  rw [findScope, hEq]

/-- Remembering for an injector what is nearest to it keeps the remembered scopes sound. -/
theorem CachesSound.remember (hC : h.CachesSound) {registration : ScopeRegistration}
    (hNearest : h.nearestScope n tag = some registration) :
    (h.modify n fun injector =>
      { injector with scopeCache := injector.scopeCache.insertNew tag registration }).CachesSound where
  nearest {m injector tag' registration'} hm hTag := by
    rw [(sameCore_modify h n (f := fun injector =>
      { injector with scopeCache := injector.scopeCache.insertNew tag registration })
      fun _ => rfl).sameShape.nearestScope]
    rw [injector?_modify] at hm
    by_cases hEq : n = m
    · rw [if_pos hEq] at hm
      obtain ⟨before, hBefore, rfl⟩ := Option.map_eq_some_iff.mp hm
      simp only [Table.get?_insertNew] at hTag
      by_cases hTags : tag = tag'
      · -- what was remembered for the tag before is kept, and was sound already
        subst hEq hTags
        rw [if_pos rfl, Option.some.injEq] at hTag
        cases hOld : before.scopeCache.get? tag with
        | none =>
          rw [hOld, Option.getD_none] at hTag
          rw [← hTag, hNearest]
        | some old =>
          rw [hOld, Option.getD_some] at hTag
          rw [← hTag]
          exact hC.nearest hBefore hOld
      · rw [if_neg hTags] at hTag
        exact hC.nearest hBefore hTag
    · rw [if_neg hEq] at hm
      exact hC.nearest hm hTag

/-- What is searched on a path is the nearest registration, and what is remembered stays sound. -/
theorem findScopeOn_path (hR : h.Rooted) (hC : h.CachesSound) (n : InjectorId) (tag : ScopeTag) :
    (findScopeOn tag (h.path n) h).1 = h.nearestScope n tag ∧
      (findScopeOn tag (h.path n) h).2.CachesSound := by
  -- the walk up: the path of the parent is the rest of the path
  induction hl : h.lineage n generalizing n with
  | nil =>
    rw [path, hl, nearestScope, nearest, path, hl]
    unfold findScopeOn
    cases hn : h.injector? n with
    | none => exact ⟨by simp [hn], hC⟩
    | some injector =>
      simp only [List.findSome?_cons, hn, Option.bind_some, List.findSome?_nil]
      cases hOwn : injector.scopes.get? tag with
      | some registration => exact ⟨rfl, hC⟩
      | none =>
        cases hOld : injector.scopeCache.get? tag with
        | none => exact ⟨rfl, hC⟩
        | some registration =>
          refine ⟨?_, hC⟩
          have hNearest := hC.nearest hn hOld
          rw [nearestScope, nearest, path, hl] at hNearest
          simp [hn, hOwn] at hNearest
  | cons p rest ih =>
    obtain ⟨injector, hn⟩ := isLive_iff.mp (isLive_of_mem_lineage (hl ▸ List.mem_cons_self : p ∈ h.lineage n))
    obtain ⟨-, -, hRest, -⟩ := hR.parent hl
    have hPath : h.path n = n :: h.path p := by rw [path, path, hRest, hl]
    have hUp : h.nearestScope n tag = (injector.scopes.get? tag).or (h.nearestScope p tag) := by
      rw [nearestScope, nearest_of_lineage hR hl, hn, Option.bind_some]
      rfl
    obtain ⟨hFound, hSound⟩ := ih p hRest
    rw [hPath]
    unfold findScopeOn
    simp only [hn]
    cases hOwn : injector.scopes.get? tag with
    | some registration => exact ⟨by rw [hUp, hOwn]; rfl, hC⟩
    | none =>
      rw [hOwn, Option.none_or] at hUp
      cases hOld : injector.scopeCache.get? tag with
      | some registration => exact ⟨(hC.nearest hn hOld).symm, hC⟩
      | none =>
        rw [← hUp] at hFound
        simp only [Option.or_none]
        split
        · next h' hEq =>
          rw [hEq] at hFound hSound
          exact ⟨hFound, hSound⟩
        · -- found further up, so it is nearest to this injector too
          next registration h' hEq =>
          have hSame := sameCore_findScopeOn tag (h.path p) h
          rw [hEq] at hFound hSound hSame
          refine ⟨hFound, hSound.remember ?_⟩
          rw [hSame.sameShape.nearestScope, ← hFound]

/-- The search finds what the walk to the root finds. -/
theorem findScope_fst (hR : h.Rooted) (hC : h.CachesSound) (n : InjectorId) (tag : ScopeTag) :
    (h.findScope n tag).1 = h.nearestScope n tag :=
  (findScopeOn_path hR hC n tag).1

theorem wellFormed_findScope (hW : h.WellFormed) (n : InjectorId) (tag : ScopeTag) :
    (h.findScope n tag).2.WellFormed :=
  hW.of_sameCore (sameCore_findScope h n tag) (Nat.le_of_eq (nextBinding_findScope h n tag).symm)
    (findScopeOn_path hW.rooted hW.caches n tag).2

/-- A number is used up, whether or not the binding comes to be owned. -/
theorem wellFormed_makeBinding (hW : h.WellFormed) (key : Key) (strategy : Strategy)
    (scope : Option (ScopeTag × Scope)) (source : Source) (origin : Origin) (owner : InjectorId) :
    (h.makeBinding key strategy scope source origin owner).2.WellFormed :=
  hW.of_injectors rfl rfl rfl (Nat.le_succ _)

-- ---------------------------------------------------------------------------
-- Marks
-- ---------------------------------------------------------------------------

/-- A well-formed hierarchy that differs from another one in marks only, as after a search in it. -/
structure Marked (h' h : Hierarchy) : Prop where
  core : SameCore h' h
  wellFormed : h'.WellFormed
  nextBinding : h.nextBinding ≤ h'.nextBinding

variable {h' h'' : Hierarchy}

protected theorem Marked.refl (hW : h.WellFormed) : Marked h h :=
  ⟨SameCore.refl h, hW, Nat.le_refl _⟩

protected theorem Marked.trans (hM' : Marked h'' h') (hM : Marked h' h) : Marked h'' h :=
  ⟨hM'.core.trans hM.core, hM'.wellFormed, Nat.le_trans hM.nextBinding hM'.nextBinding⟩

theorem marked_findScope (hW : h.WellFormed) (n : InjectorId) (tag : ScopeTag) :
    Marked (h.findScope n tag).2 h :=
  ⟨sameCore_findScope h n tag, wellFormed_findScope hW n tag,
    Nat.le_of_eq (nextBinding_findScope h n tag).symm⟩

theorem marked_makeBinding (hW : h.WellFormed) (key : Key) (strategy : Strategy)
    (scope : Option (ScopeTag × Scope)) (source : Source) (origin : Origin) (owner : InjectorId) :
    Marked (h.makeBinding key strategy scope source origin owner).2 h :=
  ⟨sameCore_makeBinding h key strategy scope source origin owner,
    wellFormed_makeBinding hW key strategy scope source origin owner, Nat.le_succ _⟩

end InjectorTree.Hierarchy
