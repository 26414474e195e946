import InjectorTree.Proofs.BothOrders

/-!
# What happens elsewhere

What happens to injectors that are neither on the path of an injector nor below it cannot take a key away from
that injector: at most, it changes where on the path a binding is created. Somebody elsewhere who binds a key
closes the ancestors that they share to it, and to everything that needs it there. But all of that can still be
placed in the injector itself, since nobody below it binds anything more, and it sees every declaration and every
scope that its ancestors see.

* `Placeable.here`: what could be placed on the path before can be placed in the injector itself after.
* `Placeable.of_noneAdded`: as long as nobody gets a binding below the path, what could be placed still can be.
* `placement_moves`: whoever is created or dropped elsewhere, a key that was resolved can be resolved, from the same
  declaration. A creation can only move it down, a drop can only move it up.
-/

namespace InjectorTree.Hierarchy

variable {h h' : Hierarchy} {n m p q : InjectorId} {key : Key} {binding binding' : Binding}

/-- Whether the injector itself implicitly declares the key. -/
def declares (h : Hierarchy) (n : InjectorId) (key : Key) : Bool :=
  ((h.injector? n).bind (·.implicit.get? key)).isSome

/-- No key is implicitly declared by two injectors of the path. -/
def DeclaredOnce (h : Hierarchy) (n : InjectorId) : Prop :=
  ∀ p ∈ h.path n, ∀ q ∈ h.path n, ∀ key, h.declares p key = true → h.declares q key = true → p = q

-- ---------------------------------------------------------------------------
-- What is seen on the path
-- ---------------------------------------------------------------------------

/-- On a path where a key is declared once, every injector that sees a declaration of it sees the same one. -/
theorem declaration?_of_mem_path (hR : h.Rooted) (hOnce : h.DeclaredOnce n) (hp : p ∈ h.path n)
    {declaration : Declaration} (hDeclared : h.declaration? p key = some declaration) :
    h.declaration? n key = some declaration := by
  obtain ⟨q, hq, injector, hInjector, hGet⟩ := exists_of_nearest hDeclared
  have hq := hR.mem_path_trans hp hq
  have hOwn : (h.injector? q).bind (·.implicit.get? key) = some declaration := by
    rw [hInjector, Option.bind_some, hGet]
  cases hNearest : h.declaration? n key with
  | none =>
    have hNone := nearest_eq_none_iff.mp hNearest q hq
    rw [hOwn] at hNone
    cases hNone
  | some other =>
    obtain ⟨q', hq', injector', hInjector', hGet'⟩ := exists_of_nearest hNearest
    have hOwn' : (h.injector? q').bind (·.implicit.get? key) = some other := by
      rw [hInjector', Option.bind_some, hGet']
    have hSame : q' = q := hOnce q' hq' q hq key (Option.isSome_iff_exists.mpr ⟨other, hOwn'⟩)
      (Option.isSome_iff_exists.mpr ⟨declaration, hOwn⟩)
    rw [← hOwn', hSame, hOwn]

theorem nearestScope_isSome_of_mem_path (hR : h.Rooted) (hp : p ∈ h.path n) {tag : ScopeTag}
    (hFound : (h.nearestScope p tag).isSome = true) : (h.nearestScope n tag).isSome = true := by
  rw [Option.isSome_iff_ne_none] at hFound ⊢
  intro hNone
  exact hFound (nearest_eq_none_iff.mpr fun q hq => nearest_eq_none_iff.mp hNone q (hR.mem_path_trans hp hq))

/-- A key that is placeable on a path is bound nowhere on it. -/
theorem Placeable.lookup_eq_none (hR : h.Rooted) (hP : h.Placeable n p key) : h.lookup n key = none := by
  obtain ⟨S, hS, hMem⟩ := hP
  refine lookup_eq_none_iff.mpr fun q hq => ?_
  rcases hR.mem_path_or_mem_lineage hq (hS.onPath hMem) with hAbove | hBelow
  · rcases mem_path_iff.mp hAbove with hEq | hAbove
    · rw [← hEq]
      exact lookup_eq_none_iff.mp (hS.unbound hMem) p self_mem_path
    · exact hS.unowned hMem q hAbove
  · exact lookup_eq_none_iff.mp (hS.unbound hMem) q (mem_path_of_mem_lineage hBelow)

/-- The root-most injector for a key is on the path of every other one in which the key is placeable. -/
theorem RootMost.mem_path (hR : h.Rooted) (hFirst : h.RootMost n key p) (hSecond : h.Placeable n q key) :
    p ∈ h.path q := by
  rcases hR.mem_path_or_mem_lineage hSecond.onPath hFirst.1.onPath with hAbove | hBelow
  · exact hAbove
  · exact absurd hSecond (hFirst.2 q hBelow)

-- ---------------------------------------------------------------------------
-- Changes elsewhere
-- ---------------------------------------------------------------------------

/-- What an injector sees on its path is the same in both states. -/
structure SamePath (h h' : Hierarchy) (n : InjectorId) : Prop where
  shape : SameShapeOn (· ∈ h.path n) h' h
  binding? : ∀ {p : InjectorId} (key : Key), p ∈ h.path n → h'.binding? p key = h.binding? p key

/-- Whoever is below the injector and owns a key now was below it and owned the key before. -/
def NoneAdded (h h' : Hierarchy) (n : InjectorId) : Prop :=
  ∀ m key, n ∈ h'.lineage m → h'.binding? m key ≠ none → n ∈ h.lineage m ∧ h.binding? m key ≠ none

namespace SamePath

protected theorem symm (hs : SamePath h h' n) : SamePath h' h n := by
  have hPath := hs.shape.path self_mem_path
  refine ⟨⟨fun {m p} hm hp => ?_, fun {m} hm => ?_⟩, fun {p} key hp => ?_⟩
  · rw [hPath] at hm ⊢
    rw [hs.shape.lineage hm] at hp
    exact hs.shape.closed hm hp
  · rw [hPath] at hm
    exact (hs.shape.injector? hm).symm
  · rw [hPath] at hp
    exact (hs.binding? key hp).symm

theorem lookup (hs : SamePath h h' n) (hp : p ∈ h.path n) (key : Key) : h'.lookup p key = h.lookup p key :=
  hs.shape.nearest_congr (f := (·.binding? key)) (fun _ hq => hs.binding? key hq) hp

end SamePath

/-- A set that supports itself on the path of an injector still does when all of it is moved down to the injector,
where what is bound above is seen as well, and whoever is below is below all of the path. -/
theorem Placeable.here (hR : h.Rooted) (hOnce : h.DeclaredOnce n) (hs : SamePath h h' n) (hNone : NoneAdded h h' n)
    (hP : h.Placeable n p key) : h'.Placeable n n key := by
  obtain ⟨S, hS, hMem⟩ := hP
  refine ⟨{pair | pair.1 = n ∧ ∃ q, (q, pair.2) ∈ S}, ⟨?_, ?_, ?_, ?_⟩, rfl, p, hMem⟩
  · rintro _ x ⟨rfl, -⟩
    exact self_mem_path
  · rintro _ x ⟨rfl, q, hq⟩
    rw [hs.lookup self_mem_path]
    exact Placeable.lookup_eq_none hR ⟨S, hS, hq⟩
  · rintro _ x ⟨rfl, q, hq⟩ m hm
    by_contra hOwned
    obtain ⟨hm, hOwned⟩ := hNone m x hm hOwned
    exact hOwned (hS.unowned hq m (hR.mem_lineage_of_lineage hm (hS.onPath hq)))
  · rintro _ x ⟨rfl, q, hq⟩
    have hPath := hS.onPath hq
    obtain ⟨declaration, hDeclared, hSound, hRegistered, hDependencies⟩ := hS.declared hq
    refine ⟨declaration, ?_, hSound, fun tag hTag => ?_, fun dependency hDependency => ?_⟩
    · rw [hs.shape.declaration? self_mem_path]
      exact declaration?_of_mem_path hR hOnce hPath hDeclared
    · rw [hs.shape.nearestScope self_mem_path]
      exact nearestScope_isSome_of_mem_path hR hPath (hRegistered tag hTag)
    · rcases hDependencies dependency hDependency with hFound | ⟨r, -, hr⟩
      · obtain ⟨r, hr, hBound⟩ := lookup_isSome_iff.mp hFound
        rw [hs.lookup self_mem_path, lookup_isSome_iff]
        exact Or.inl ⟨r, hR.mem_path_trans hPath hr, hBound⟩
      · exact Or.inr ⟨_, self_mem_path, rfl, r, hr⟩

/-- The same set supports itself where nobody got a binding below its injectors. -/
theorem Placeable.of_noneAdded (hs : SamePath h h' n) (hNone : ∀ p ∈ h.path n, NoneAdded h h' p)
    (hP : h.Placeable n p key) : h'.Placeable n p key := by
  obtain ⟨S, hS, hMem⟩ := hP
  refine ⟨S, ⟨fun hq => ?_, fun hq => ?_, fun {q x} hq m hm => ?_, fun {q x} hq => ?_⟩, hMem⟩
  · rw [hs.shape.path self_mem_path]
    exact hS.onPath hq
  · rw [hs.lookup (hS.onPath hq)]
    exact hS.unbound hq
  · by_contra hOwned
    obtain ⟨hm, hOwned⟩ := hNone q (hS.onPath hq) m x hm hOwned
    exact hOwned (hS.unowned hq m hm)
  · have hPath := hS.onPath hq
    obtain ⟨declaration, hDeclared, hSound, hRegistered, hDependencies⟩ := hS.declared hq
    refine ⟨declaration, ?_, hSound, fun tag hTag => ?_, fun dependency hDependency => ?_⟩
    · rw [hs.shape.declaration? hPath, hDeclared]
    · rw [hs.shape.nearestScope hPath]
      exact hRegistered tag hTag
    · rw [hs.lookup hPath, hs.shape.path hPath]
      exact hDependencies dependency hDependency

-- ---------------------------------------------------------------------------
-- Resolving
-- ---------------------------------------------------------------------------

/-- The bindings are from one declaration: they are one, or each was created where its key belonged. -/
structure Moved (h : Hierarchy) (n : InjectorId) (key : Key) (binding : Binding) (h' : Hierarchy)
    (binding' : Binding) : Prop where
  strategy : binding'.strategy = binding.strategy
  source : binding'.source = binding.source
  placed : binding' = binding ∨ h.RootMost n key binding.owner ∧ h'.RootMost n key binding'.owner

/-- What was resolved can be resolved after something happened elsewhere. -/
theorem resolve_elsewhere (hW : h.WellFormed) (hW' : h'.WellFormed) (hn : h.isLive n = true)
    (hNoConverters : h.converters n = []) (hOnly : h.isExplicitOnly n = false) (hOnce : h.DeclaredOnce n)
    (hs : SamePath h h' n) (hNone : NoneAdded h h' n) {after : Hierarchy}
    (hRun : h.resolve n key = some (.ok binding, after)) :
    ∃ binding' after', h'.resolve n key = some (.ok binding', after') ∧ Moved h n key binding h' binding' := by
  have hSame := hs.lookup self_mem_path key
  cases hLookup : h.lookup n key with
  | some found =>
    rw [resolve_of_lookup hLookup] at hRun
    cases hRun
    exact ⟨binding, h', resolve_of_lookup (hSame.trans hLookup), rfl, rfl, Or.inl rfl⟩
  | none =>
    have hn' : h'.isLive n = true := (hs.shape.isLive self_mem_path).trans hn
    have hNoConverters' : h'.converters n = [] := (hs.shape.converters self_mem_path).trans hNoConverters
    have hOnly' : h'.isExplicitOnly n = false := (hs.shape.isExplicitOnly self_mem_path).trans hOnly
    have hPlaced := placed_of_resolve hW hn hNoConverters hOnly hLookup hRun
    have hHere := hPlaced.rootMost.1.here hW.rooted hOnce hs hNone
    obtain ⟨⟨outcome, after'⟩, hEnds⟩ := resolve_ends hW' n key
    cases outcome with
    | error report => exact absurd hHere (not_placeable_of_resolve hW' hn' hNoConverters' hOnly' hEnds n)
    | ok binding' =>
      have hPlaced' := placed_of_resolve hW' hn' hNoConverters' hOnly' (hSame.trans hLookup) hEnds
      obtain ⟨declaration, hDeclared, hBuilt⟩ := hPlaced.built hLookup
      obtain ⟨declaration', hDeclared', hBuilt'⟩ := hPlaced'.built (hSame.trans hLookup)
      -- both owners see the declaration that the requester sees
      have hPath' : binding'.owner ∈ h.path n := hs.shape.path self_mem_path ▸ hPlaced'.rootMost.1.onPath
      rw [hs.shape.declaration? hPath'] at hDeclared'
      have hSeen := declaration?_of_mem_path hW.rooted hOnce hPlaced.rootMost.1.onPath hDeclared
      rw [declaration?_of_mem_path hW.rooted hOnce hPath' hDeclared', Option.some.injEq] at hSeen
      subst hSeen
      exact ⟨binding', after', hEnds, hBuilt'.strategy.trans hBuilt.strategy.symm,
        hBuilt'.source.trans hBuilt.source.symm, Or.inr ⟨hPlaced.rootMost, hPlaced'.rootMost⟩⟩

/-- As long as nobody loses a binding below the path, a binding can only move down. -/
theorem Moved.down (hR : h.Rooted) (hs : SamePath h h' n) (hNone : ∀ p ∈ h'.path n, NoneAdded h' h p)
    (hM : Moved h n key binding h' binding') : binding.owner ∈ h.path binding'.owner := by
  rcases hM.placed with rfl | ⟨hRootMost, hRootMost'⟩
  · exact self_mem_path
  · exact hRootMost.mem_path hR (hRootMost'.1.of_noneAdded hs.symm hNone)

/-- As long as nobody gets a binding below the path, a binding can only move up. -/
theorem Moved.up (hR' : h'.Rooted) (hs : SamePath h h' n) (hNone : ∀ p ∈ h.path n, NoneAdded h h' p)
    (hM : Moved h n key binding h' binding') : binding'.owner ∈ h'.path binding.owner := by
  rcases hM.placed with rfl | ⟨hRootMost, hRootMost'⟩
  · exact self_mem_path
  · exact hRootMost'.mem_path hR' (hRootMost.1.of_noneAdded hs hNone)

-- ---------------------------------------------------------------------------
-- Creating and dropping
-- ---------------------------------------------------------------------------

section Creating

variable {parent : Option InjectorId} {module : Module} {explicitOnly : Bool} {child : InjectorId}

/-- A creation that is not below an injector leaves its path as it is, and adds nothing below it. Whoever owned
anything below the path still does. -/
theorem create_elsewhere (hW : h.WellFormed) (hn : h.isLive n = true)
    (hParent : ∀ p, parent = some p → h.isLive p = true ∧ n ∉ h.path p)
    (hRun : h.create parent module explicitOnly = (.ok child, h')) :
    SamePath h h' n ∧ NoneAdded h h' n ∧ ∀ p, NoneAdded h' h p := by
  have hLive := fun p hp => (hParent p hp).1
  obtain ⟨hNew, hLineage, hOthers⟩ := create_adds hW hLive hRun
  have hW' := Provision.wellFormed_created hW hLive hRun
  have hC : Continues h (h.create parent module explicitOnly).2 := continues_create hW hLive
  rw [hRun] at hC
  have hOld : ∀ {m}, h.isLive m = true → m ≠ child := fun hm => hNew ▸ Nat.ne_of_lt (hW.rooted.fresh hm)
  have hn' : h'.isLive n = true := isLive_of_binding?_eq hn (hOthers n (hOld hn)).2
  refine ⟨⟨hC.sameShapeOn hW.rooted hW'.rooted hn hn', fun key hp => ?_⟩, fun m key hm hOwned => ?_,
    fun p m key hm hOwned => ?_⟩
  · exact (hOthers _ (hOld (hW.rooted.isLive_of_mem_path hn hp))).2 key
  · rcases eq_or_ne m child with rfl | hNe
    · -- the new injector is not below
      rw [hLineage] at hm
      cases parent with
      | none => cases hm
      | some p => exact absurd hm (hParent p rfl).2
    · rw [(hOthers m hNe).1] at hm
      rw [(hOthers m hNe).2] at hOwned
      exact ⟨hm, hOwned⟩
  · have hNe := hOld (isLive_of_mem_lineage hm)
    rw [(hOthers m hNe).1, (hOthers m hNe).2]
    exact ⟨hm, hOwned⟩

end Creating

/-- A drop that leaves an injector live leaves its path as it is. Nobody gets a binding anywhere. -/
theorem release_elsewhere (hW : h.WellFormed) (hn : h.isLive n = true) (hn' : (h.release m).isLive n = true) :
    SamePath h (h.release m) n ∧ ∀ p, NoneAdded h (h.release m) p := by
  have hW' := wellFormed_release hW m
  have hC := continues_release hW m
  refine ⟨⟨hC.sameShapeOn hW.rooted hW'.rooted hn hn', fun {p} key hp => ?_⟩, fun p q key hq hOwned => ?_⟩
  · have hPath := hC.path (hW.rooted.fresh hn) hn'
    exact binding?_release hW (hW'.rooted.isLive_of_mem_path hn' (hPath ▸ hp)) key
  · have hLive : (h.release m).isLive q = true := isLive_of_mem_lineage hq
    have hWas : h.isLive q = true := isLive_of_binding?_eq hLive fun key => (binding?_release hW hLive key).symm
    rw [hC.lineage (hW.rooted.fresh hWas) hLive] at hq
    rw [binding?_release hW hLive] at hOwned
    exact ⟨hq, hOwned⟩

/-- Without converters on the path of an injector, where bindings may be created, and where no key is implicitly
declared twice, let a key be resolvable at the injector.

* After somebody is created, a new root or a child of any injector but this one and those below it, the key is
  resolvable still. The binding comes from the same declaration and is owned where it would have been or below.
* After somebody is dropped and the injector is live still, the key is resolvable still. The binding comes from the
  same declaration and is owned where it would have been or above.
* An injector that is held stays live whoever else is dropped. -/
theorem placement_moves (hReach : Reachable h) (hn : h.isLive n = true) (hNoConverters : h.converters n = [])
    (hOnly : h.isExplicitOnly n = false)
    (hOnce : ∀ p ∈ h.path n, ∀ q ∈ h.path n, ∀ x, h.declares p x = true → h.declares q x = true → p = q)
    {after : Hierarchy} (hRun : h.resolve n key = some (.ok binding, after)) :
    (∀ parent module explicitOnly child h', (∀ p, parent = some p → h.isLive p = true ∧ n ∉ h.path p) →
      h.create parent module explicitOnly = (.ok child, h') →
        ∃ binding' after', h'.resolve n key = some (.ok binding', after') ∧
          binding'.strategy = binding.strategy ∧ binding'.source = binding.source ∧
          binding.owner ∈ h.path binding'.owner) ∧
    (∀ m, (h.release m).isLive n = true →
      ∃ binding' after', (h.release m).resolve n key = some (.ok binding', after') ∧
        binding'.strategy = binding.strategy ∧ binding'.source = binding.source ∧
        binding'.owner ∈ (h.release m).path binding.owner) ∧
    ∀ m ≠ n, n ∈ h.holds → (h.release m).isLive n = true := by
  have hW := hReach.wellFormed
  refine ⟨fun parent module explicitOnly child h' hParent hCreated => ?_, fun m hn' => ?_, fun m hm hHeld => ?_⟩
  · obtain ⟨hs, hBelow, hNone⟩ := create_elsewhere hW hn hParent hCreated
    have hW' := Provision.wellFormed_created hW (fun p hp => (hParent p hp).1) hCreated
    obtain ⟨binding', after', hRun', hM⟩ := resolve_elsewhere hW hW' hn hNoConverters hOnly hOnce hs hBelow hRun
    exact ⟨binding', after', hRun', hM.strategy, hM.source, hM.down hW.rooted hs fun p _ => hNone p⟩
  · obtain ⟨hs, hNone⟩ := release_elsewhere hW hn hn'
    have hW' := wellFormed_release hW m
    obtain ⟨binding', after', hRun', hM⟩ := resolve_elsewhere hW hW' hn hNoConverters hOnly hOnce hs (hNone n) hRun
    exact ⟨binding', after', hRun', hM.strategy, hM.source, hM.up hW'.rooted hs fun p _ => hNone p⟩
  · have hStill : n ∈ h.holds.erase m := (List.mem_erase_of_ne (Ne.symm hm)).mpr hHeld
    exact (wellFormed_release hW m).rooted.held (holds_release hW m ▸ hStill)

/-- A sibling binds one of two keys that need each other: the other one is created in the requester itself, and no
longer in the root. -/
theorem placement_moves_in_circle :
    let first := Key.of .text
    let second := Key.of .singleton
    let h := circle first second
    let module : Module := ⟨[⟨second, .fixed (.handle none), none, .builtin⟩], [], [], [], []⟩
    let h' := (h.create (some 0) module false).2
    Reachable h ∧ h.isLive 1 = true ∧ h.converters 1 = [] ∧ h.isExplicitOnly 1 = false ∧ h.DeclaredOnce 1 ∧
      1 ∉ h.path 0 ∧ h.create (some 0) module false = (.ok 2, h') ∧
      ((h.resolve 1 first).bind fun result => result.1.toOption.map (·.owner)) = some 0 ∧
      ((h'.resolve 1 first).bind fun result => result.1.toOption.map (·.owner)) = some 1 ∧
      ∃ binding binding' after', h.resolve 1 first = some (.ok binding, (resolve 1 first).after h) ∧
        h'.resolve 1 first = some (.ok binding', after') ∧ binding.owner ∈ h.path binding'.owner := by
  intro first second h module h'
  have hReach := reachable_circle first second
  have hOnce : h.DeclaredOnce 1 := by
    have hEmpty : ∀ key, h.declares 1 key = false := fun _ => rfl
    have hRoot : ∀ {p key}, p ∈ h.path 1 → h.declares p key = true → p = 0 := by
      intro p key hp hDeclares
      rcases List.mem_cons.mp hp with rfl | hp
      · rw [hEmpty] at hDeclares
        cases hDeclares
      · exact List.mem_singleton.mp hp
    exact fun p hp q hq key hp' hq' => (hRoot hp hp').trans (hRoot hq hq').symm
  have hCreated : h.create (some 0) module false = (.ok 2, h') := rfl
  have hParent : ∀ p, some 0 = some p → h.isLive p = true ∧ 1 ∉ h.path p := by
    rintro p ⟨⟩
    exact ⟨rfl, by decide⟩
  obtain ⟨binding, hRun⟩ : ∃ binding, h.resolve 1 first = some (.ok binding, (resolve 1 first).after h) :=
    Run.exists_ok_after (by decide)
  obtain ⟨binding', after', hRun', -, -, hMoved⟩ :=
    (placement_moves hReach rfl rfl rfl hOnce hRun).1 (some 0) module false 2 h' hParent hCreated
  exact ⟨hReach, rfl, rfl, rfl, hOnce, by decide, hCreated, by decide, by decide +kernel, binding, binding', after', hRun,
    hRun', hMoved⟩

end InjectorTree.Hierarchy
