import InjectorTree.Proofs.Permanence
import InjectorTree.Proofs.Placement.Alike
import InjectorTree.Proofs.Reports

/-!
# A request and a creation in either order

An injector may create a binding for a key on demand, or a child of it may be created that binds the key, but not
both. Whichever comes first, the other one is refused, and says why. When the child is gone, nothing stands in the
way of the request any more.

* `conflict_of_owned`: what is reported about a declaration if its key was bound on demand.
* `resolve_blocked`: what is reported about a request if the key is bound below.
* `created_stays`: what is known of the child as long as it is live.
* `release_restores`, `alikeOn_release`: a child that was created and dropped leaves nothing that a resolution could
  find.
* `conflict_in_both_orders`: all of it together.
-/

namespace InjectorTree.Hierarchy

open Placement Admission Run

variable {h h' h'' h₁ h₂ : Hierarchy} {n m a p child : InjectorId} {key : Key} {binding : Binding}
  {module : Module} {explicitOnly : Bool} {declaration : Declaration}
  {locate : InjectorId → Key → Run Draft Binding} {d : Draft}

-- ---------------------------------------------------------------------------
-- The request first
-- ---------------------------------------------------------------------------

/-- A declaration of a key for which a binding was created on demand is refused, and told where that came from. -/
theorem conflict_of_owned (hW : h.WellFormed) (hBuiltin : declaration.key.isBuiltin = false)
    (hO : h.Owned n declaration.key binding) (hOrigin : binding.origin ≠ .explicit) :
    conflict h (some n) declaration =
      some (.of (.parentBlocksChild declaration.key binding.source declaration.source)) := by
  have hFound := (hW.lookup_eq_some_iff (ne_injector_of_isBuiltin hBuiltin)).mpr ⟨_, hO.onPath, hO.bound⟩
  rw [conflict_eq hW, hBuiltin, if_neg Bool.false_ne_true, Option.bind_some, hFound, Option.map_some, if_neg hOrigin]

/-- What was resolved by creating a binding is not explicit. -/
theorem origin_of_resolve (hW : h.WellFormed) (hNone : h.lookup n key = none)
    (hRun : h.resolve n key = some (.ok binding, h')) : binding.origin ≠ .explicit := by
  rcases resolve_ok hW hRun with ⟨hFound, -⟩ | ⟨-, d, -, hF, -, hStaged, -, -⟩
  · rw [hNone] at hFound
    cases hFound
  · intro hExplicit
    have hOrigin := (hF.made binding hStaged).origin
    rw [hExplicit] at hOrigin
    rcases hOrigin with hOrigin | hOrigin <;> cases hOrigin

/-- After a resolution that created a binding of a key, a module that declares the key once is refused below. -/
theorem create_after_resolve (hW : h.WellFormed) (hn : h.isLive n = true) (hBuiltin : key.isBuiltin = false)
    (hNone : h.lookup n key = none) (hOnce : module.bindings.filter (·.key = key) = [declaration])
    (explicitOnly : Bool) (hRun : h.resolve n key = some (.ok binding, h')) :
    ∃ reports h'', h'.create (some n) module explicitOnly = (.error reports, h'') ∧
      about key reports = [.of (.parentBlocksChild key binding.source declaration.source)] := by
  have hW' := (wellFormed_resolve hW hn hRun).1
  have hMem : declaration ∈ module.bindings.filter (·.key = key) := hOnce ▸ List.mem_singleton_self declaration
  obtain rfl : declaration.key = key := of_decide_eq_true (List.mem_filter.mp hMem).2
  have hConflict := conflict_of_owned hW' hBuiltin (owned_of_resolve hW hn hRun) (origin_of_resolve hW hNone hRun)
  have hAbout : about declaration.key (reportsFor h' (some n) module) =
      [.of (.parentBlocksChild declaration.key binding.source declaration.source)] := by
    rw [about_reportsFor _ _ (hOnce ▸ List.cons_ne_nil _ _), hOnce, keyReports, hConflict]
    exact List.filter_cons_of_pos (decide_eq_true rfl)
  have hSome : reportsFor h' (some n) module ≠ [] := by
    intro hNil
    rw [hNil] at hAbout
    cases hAbout
  obtain ⟨h'', hRefused⟩ := create_refused hW' explicitOnly hSome
  exact ⟨_, h'', hRefused, hAbout⟩

-- ---------------------------------------------------------------------------
-- The creation first
-- ---------------------------------------------------------------------------

/-- An attempt to create a binding of a key that is claimed fails at once. -/
theorem attempt_claimed (hStaged : d.staged = []) (hClaimed : d.hierarchy.claimants p key ≠ []) :
    attempt locate p key d =
      some (.error (.of (.childBlocksParent key (d.hierarchy.claimants p key))),
        { d with failed := (p, key) :: d.failed }) := by
  have hCreate : createAt locate p key d =
      some (.error (.of (.childBlocksParent key (d.hierarchy.claimants p key))), d) :=
    Run.bind_eq_error_iff.mpr (Or.inl (checkUnclaimed_of_claimed hStaged hClaimed))
  simp only [attempt, hCreate, List.take_length, if_true]

/-- Where the key is claimed at all candidates, all attempts fail at once. -/
theorem place_claimed (locate : InjectorId → Key → Run Draft Binding) (candidates : List InjectorId)
    (hStaged : d.staged = []) (hCandidates : ∀ candidate ∈ candidates, d.hierarchy.claimants candidate key ≠ [])
    (hClaimed : d.hierarchy.claimants n key ≠ []) :
    ∃ failed, place locate n key candidates d =
      some (.error (.of (.childBlocksParent key (d.hierarchy.claimants n key))), { d with failed }) := by
  induction candidates generalizing d with
  | nil => exact ⟨_, attempt_claimed hStaged hClaimed⟩
  | cons candidate rest ih =>
    have hRest := fun other hMem => hCandidates other (List.mem_cons_of_mem candidate hMem)
    simp only [place]
    split
    · exact ih hStaged hRest hClaimed
    · rw [attempt_claimed hStaged (hCandidates candidate List.mem_cons_self)]
      obtain ⟨failed, hPlace⟩ :=
        ih (d := { d with failed := (candidate, key) :: d.failed }) hStaged hRest hClaimed
      exact ⟨failed, hPlace⟩

/-- A key that is owned below an injector is not resolved there: the report names all that own it below. -/
theorem resolve_blocked (hW : h.WellFormed) (hNoConverters : h.converters a = [])
    (hOnly : h.isExplicitOnly a = false) (hKey : key ≠ .injector) (ha : a ∈ h.lineage m)
    (hb : h.binding? m key = some binding) :
    h.resolve a key = some (.error (.of (.childBlocksParent key (h.claimants a key))), h) := by
  have hAbove : ∀ q ∈ h.path a, q ∈ h.lineage m := fun q hq => hW.rooted.mem_lineage_of_lineage ha hq
  have hNone := hW.lookup_above hKey ha hb
  have hClaimed : ∀ q ∈ h.path a, h.claimants q key ≠ [] := by
    intro q hq hNil
    have hFree := (hW.claimants_eq_nil_iff hKey).mp hNil m (hAbove q hq)
    rw [hb] at hFree
    cases hFree
  obtain ⟨failed, hPlace⟩ := place_claimed (locate ((h.path a).length * (declaredKeys h a).length))
    (d := { hierarchy := h }) (n := a) (h.lineage a).reverse rfl
    (fun q hq => hClaimed q (mem_path_of_mem_lineage (List.mem_reverse.mp hq))) (hClaimed a self_mem_path)
  refine (resolve_of_lookup_eq_none hNone).mpr ⟨{ hierarchy := h, failed }, ?_, rfl⟩
  have hUnstaged : Draft.lookup { hierarchy := h } a key = none :=
    List.findSome?_eq_none_iff.mpr fun _ _ => rfl
  simp only [depthBound, Placement.locate, hNone, hUnstaged, Option.none_or, createOnDemand,
    conversion?_eq_none hW.rooted hNoConverters self_mem_path, hOnly, Bool.false_eq_true, if_false]
  exact hPlace

theorem step_create (hn : h.isLive n = true) (hRun : h.create (some n) module explicitOnly = (.ok child, h')) :
    Step h h' :=
  step_of_create (fun p hp => by cases hp; exact hn) hRun

/-- A child that was created is below its parent, and nobody else owns anything else than before. -/
theorem created_below (hW : h.WellFormed) (hn : h.isLive n = true)
    (hRun : h.create (some n) module explicitOnly = (.ok child, h')) :
    child = h.nextInjector ∧ h'.isLive child = true ∧ h'.lineage child = h.path n ∧
      ∀ m ≠ child, ∀ key, h'.binding? m key = h.binding? m key := by
  obtain ⟨hNew, hLineage, hOthers⟩ := create_adds hW (fun p hp => by cases hp; exact hn) hRun
  refine ⟨hNew, isLive_of_mem_lineage (a := n) ?_, hLineage, fun m hm => (hOthers m hm).2⟩
  rw [hLineage]
  exact self_mem_path

/-- As long as the child is live, it is below its parent and owns what its module declared, and the path of the
parent has the shape that it had. -/
theorem created_stays (hW : h.WellFormed) (hn : h.isLive n = true)
    (hCreated : h.create (some n) module explicitOnly = (.ok child, h₁)) (hDeclared : declaration ∈ module.bindings)
    (hSteps : Steps h₁ h₂) (hChild : h₂.isLive child = true) :
    h₂.lineage child = h.path n ∧ SameShapeOn (· ∈ h.path n) h₂ h ∧
      ∃ own, h₂.binding? child declaration.key = some own ∧ own.source = declaration.source := by
  have hCreate := step_create hn hCreated
  have hW₁ := hCreate.wellFormed hW
  have hW₂ := hSteps.wellFormed hW₁
  obtain ⟨-, hChild₁, hLineage₁, -⟩ := created_below hW hn hCreated
  have hC₂ := hSteps.continues hW₁
  have hLineage₂ : h₂.lineage child = h.path n := by
    rw [hC₂.lineage (hW₁.rooted.fresh hChild₁) hChild, hLineage₁]
  obtain ⟨own, hOwn, hFrom⟩ := created_declared hW (fun p hp => by cases hp; exact hn) hCreated hDeclared
  refine ⟨hLineage₂, ⟨fun hm hp => ?_, fun {m} hm => ?_⟩, own, hC₂.binding? hChild hOwn, hFrom.source⟩
  · exact hW.rooted.mem_path_trans hm (mem_path_of_mem_lineage hp)
  · have hm₂ : h₂.isLive m = true := hW₂.rooted.isLive_ancestor (n := child) (hLineage₂ ▸ hm)
    have hC := (hCreate.continues hW).trans hW.rooted hC₂
    exact hC.shape (hW.rooted.fresh (hW.rooted.isLive_of_mem_path hn hm)) hm₂

-- ---------------------------------------------------------------------------
-- The child created and dropped
-- ---------------------------------------------------------------------------

/-- Who owns what below an injector decides what is claimed there. -/
theorem claimants_congr (hW : h.WellFormed) (hW' : h'.WellFormed)
    (hOwned : ∀ binding, h'.OwnedBelow a key binding ↔ h.OwnedBelow a key binding) :
    h'.claimants a key = h.claimants a key := by
  obtain ⟨bindings, hClaims, hOrder, hMem⟩ := hW.claims a key
  obtain ⟨bindings', hClaims', hOrder', hMem'⟩ := hW'.claims a key
  have hSame : bindings' = bindings := eq_of_ids hOrder' hOrder fun binding => by rw [hMem', hMem, hOwned]
  rw [hW.claimants_eq, hW'.claimants_eq, hClaims, hClaims', hSame]

/-- If a child is created and dropped, while nobody else comes, goes, or gets a binding, everybody owns what it owned,
under the ancestors that it had. -/
theorem release_restores (hW : h.WellFormed) (hn : h.isLive n = true)
    (hCreated : h.create (some n) module explicitOnly = (.ok child, h₁)) (hSteps : Steps h₁ h₂)
    (hSame : ∀ m key, h₂.binding? m key = h₁.binding? m key)
    (hAlone : ∀ m, (h₂.release child).isLive m = true ↔ h₂.isLive m = true ∧ m ≠ child) (m : InjectorId) :
    (h₂.release child).isLive m = h.isLive m ∧ (h₂.release child).lineage m = h.lineage m ∧
      ∀ key, (h₂.release child).binding? m key = h.binding? m key := by
  obtain ⟨hNew, -, -, hOthers⟩ := created_below hW hn hCreated
  have hCreate := step_create hn hCreated
  have hW₂ : h₂.WellFormed := hSteps.wellFormed (hCreate.wellFormed hW)
  have hC : Continues h (h₂.release child) :=
    Steps.continues hW (.head hCreate (.tail hSteps (.release child)))
  -- whoever was live is live, and whoever is live owns what it owned
  have hOwns : (h₂.release child).isLive m = true → ∀ key, (h₂.release child).binding? m key = h.binding? m key := by
    intro hm key
    rw [binding?_release hW₂ hm, hSame, hOthers m ((hAlone m).mp hm).2]
  have hStill : h.isLive m = true → (h₂.release child).isLive m = true := by
    intro hm
    have hOld : m ≠ child := hNew ▸ Nat.ne_of_lt (hW.rooted.fresh hm)
    have hLive : h₂.isLive m = true :=
      isLive_of_binding?_eq hm fun key => by rw [hSame, hOthers m hOld]
    exact (hAlone m).mpr ⟨hLive, hOld⟩
  have hWas : (h₂.release child).isLive m = true → h.isLive m = true := fun hm =>
    isLive_of_binding?_eq hm fun key => (hOwns hm key).symm
  have hLive : (h₂.release child).isLive m = h.isLive m := Bool.eq_iff_iff.mpr ⟨hWas, hStill⟩
  refine ⟨hLive, ?_⟩
  cases hm : h.isLive m with
  | true => exact ⟨hC.lineage (hW.rooted.fresh hm) (hStill hm), hOwns (hStill hm)⟩
  | false =>
    -- who is not live has no ancestors and owns nothing
    rw [hm] at hLive
    have hGone := Option.not_isSome_iff_eq_none.mp (Bool.not_eq_true _ ▸ hLive)
    have hNone := Option.not_isSome_iff_eq_none.mp (Bool.not_eq_true _ ▸ hm)
    refine ⟨?_, fun key => ?_⟩
    · rw [lineage, lineage, hGone, hNone]
    · rw [Hierarchy.binding?, Hierarchy.binding?, hGone, hNone]

/-- Then the path of the parent is as it was. -/
theorem alikeOn_release (hW : h.WellFormed) (hn : h.isLive n = true) (hNoConverters : h.converters n = [])
    (hCreated : h.create (some n) module explicitOnly = (.ok child, h₁)) (hSteps : Steps h₁ h₂)
    (hSame : ∀ m key, h₂.binding? m key = h₁.binding? m key)
    (hAlone : ∀ m, (h₂.release child).isLive m = true ↔ h₂.isLive m = true ∧ m ≠ child) :
    AlikeOn (· ∈ h.path n) h (h₂.release child) := by
  have hRestored := release_restores hW hn hCreated hSteps hSame hAlone
  have hCreate := step_create hn hCreated
  have hW₃ : (h₂.release child).WellFormed := wellFormed_release (hSteps.wellFormed (hCreate.wellFormed hW)) child
  have hC : Continues h (h₂.release child) :=
    Steps.continues hW (.head hCreate (.tail hSteps (.release child)))
  refine
    { wellFormed := hW
      wellFormed' := hW₃
      shape := ⟨fun hm hp => hW.rooted.mem_path_trans hm (mem_path_of_mem_lineage hp), fun {m} hm => ?_⟩
      binding? := fun {m} _ => (hRestored m).2.2
      claimants := fun {m} hm key => claimants_congr hW hW₃ fun binding => ?_
      steady := fun {m} hm key conversion hConversion => ?_ }
  · have hm := hW.rooted.isLive_of_mem_path hn hm
    exact hC.shape (hW.rooted.fresh hm) ((hRestored m).1.trans hm)
  · simp only [OwnedBelow, (hRestored _).2.1, (hRestored _).2.2]
  · rw [conversion?_eq_none hW.rooted hNoConverters hm] at hConversion
    cases hConversion

-- ---------------------------------------------------------------------------
-- Both orders
-- ---------------------------------------------------------------------------

/-- Where there are no converters, what a resolution creates is built from a declaration. -/
theorem strategy_of_matches {binding' : Binding} (hW : h.WellFormed) (hNoConverters : h.converters n = [])
    (hNone : h.lookup n key = none) (hRun : h.resolve n key = some (.ok binding, h'))
    (hM : binding.Matches binding') : binding'.strategy = binding.strategy := by
  refine hM.strategy.resolve_right ?_
  rintro ⟨hConverted, -⟩
  rcases resolve_ok hW hRun with ⟨hFound, -⟩ | ⟨-, d, -, hF, -, hStaged, -, -⟩
  · rw [hNone] at hFound
    cases hFound
  · rcases hF.made binding hStaged with ⟨declaration, -, hBuilt⟩ | ⟨conversion, hConversion, -⟩
    · rw [hBuilt.origin] at hConverted
      cases hConverted
    · rw [conversion?_eq_none hW.rooted hNoConverters (hF.onPath binding hStaged)] at hConversion
      cases hConversion

/-- As long as the child is live, the key is not resolved at the parent, nor above: the report names all that own it
below where it is made, the child among them. -/
theorem blocked_by_child (hW : h.WellFormed) (hn : h.isLive n = true) (hNoConverters : h.converters n = [])
    (hOnly : h.isExplicitOnly n = false) (hKey : declaration.key ≠ .injector)
    (hCreated : h.create (some n) module explicitOnly = (.ok child, h₁)) (hDeclared : declaration ∈ module.bindings)
    (hSteps : Steps h₁ h₂) (hChild : h₂.isLive child = true) (ha : a ∈ h₂.path n) :
    ∃ bindings : List Binding, (bindings.map (·.owner)).Nodup ∧
      (∀ m binding, (binding ∈ bindings ∧ binding.owner = m) ↔
        a ∈ h₂.lineage m ∧ h₂.binding? m declaration.key = some binding) ∧
      (∃ own ∈ bindings, own.owner = child ∧ own.source = declaration.source) ∧
      h₂.resolve a declaration.key =
        some (.error (.of (.childBlocksParent declaration.key (bindings.map (·.source)))), h₂) := by
  have hW₂ := hSteps.wellFormed ((step_create hn hCreated).wellFormed hW)
  obtain ⟨hLineage, hShape, own, hOwn, hSource⟩ := created_stays hW hn hCreated hDeclared hSteps hChild
  rw [hShape.path self_mem_path] at ha
  have hBelow : a ∈ h₂.lineage child := hLineage ▸ ha
  -- what is declared on the path is what was declared on it
  have hNoConverters₂ : h₂.converters a = [] := by
    rw [hShape.converters ha]
    exact converters_eq_nil hW.rooted hNoConverters ha
  have hOnly₂ : h₂.isExplicitOnly a = false := by
    rw [hShape.isExplicitOnly ha]
    exact hW.rooted.isExplicitOnly_eq_false ha hOnly
  have hBlocked := resolve_blocked hW₂ hNoConverters₂ hOnly₂ hKey hBelow hOwn
  obtain ⟨bindings, hSources, hNodup, hExact⟩ := exists_claimants hW₂ hKey a
  rw [hSources] at hBlocked
  obtain ⟨hMine, hOwner⟩ := (hExact child own).mpr ⟨hBelow, hOwn⟩
  exact ⟨bindings, hNodup, hExact, ⟨own, hMine, hOwner, hSource⟩, hBlocked⟩

/-- Without converters on the path of an injector, and where bindings may be created, let a child of the injector
be possible whose module declares a key once.

* Once the key was resolved at the injector, the child is refused. What it is told about the key names where the
  binding and the declaration come from, and is all that it is told about the key. If the key cannot be resolved,
  the child is possible still.
* If the child is created first, and as long as it is live, every request for the key at the injector or above is
  refused. It is told of exactly the bindings of the key that are owned below where it is made, of the child's among
  them.
* If the child alone is dropped after that, and nobody got another binding, then the key is resolved as it would
  have been without the child: to a binding from the same declaration with the same owner, or with the same report. -/
theorem conflict_in_both_orders (hReach : Reachable h) (hLive : h.isLive n = true)
    (hNoConverters : h.converters n = []) (hOnly : h.isExplicitOnly n = false)
    (hOnce : module.bindings.filter (·.key = key) = [declaration])
    (hCreated : h.create (some n) module explicitOnly = (.ok child, h₁)) :
    (∃ outcome h', h.resolve n key = some (outcome, h')) ∧
    (∀ binding h', h.resolve n key = some (.ok binding, h') →
      ∃ reports h'', h'.create (some n) module explicitOnly = (.error reports, h'') ∧
        reports.filter (fun report => report.problem.key? = some key) =
          [.of (.parentBlocksChild key binding.source declaration.source)]) ∧
    (∀ report h', h.resolve n key = some (.error report, h') →
      ∃ child' h'', h'.create (some n) module explicitOnly = (.ok child', h'')) ∧
    (∀ h₂, Steps h₁ h₂ → h₂.isLive child = true → ∀ a ∈ h₂.path n, ∃ bindings : List Binding,
      (bindings.map (·.owner)).Nodup ∧
      (∀ m binding, (binding ∈ bindings ∧ binding.owner = m) ↔
        a ∈ h₂.lineage m ∧ h₂.binding? m key = some binding) ∧
      (∃ own ∈ bindings, own.owner = child ∧ own.source = declaration.source) ∧
      let report := Report.of (.childBlocksParent key (bindings.map (·.source)))
      h₂.resolve a key = some (.error report, h₂) ∧
      (∀ interface, getHandle a key interface h₂ = some (.error (report.within (.locating key)), h₂)) ∧
      ∀ fuel, getInstance (fuel + 1) a key h₂ = some (.error (report.within (.locating key)), h₂)) ∧
    ∀ h₂, Steps h₁ h₂ → (∀ m x, h₂.binding? m x = h₁.binding? m x) →
      (∀ m, (h₂.release child).isLive m = true ↔ h₂.isLive m = true ∧ m ≠ child) →
        (∀ binding h', h.resolve n key = some (.ok binding, h') →
          ∃ binding' h'', (h₂.release child).resolve n key = some (.ok binding', h'') ∧
            binding.Matches binding' ∧ binding'.strategy = binding.strategy) ∧
        ∀ report h', h.resolve n key = some (.error report, h') →
          ∃ h'', (h₂.release child).resolve n key = some (.error report, h'') := by
  have hW := hReach.wellFormed
  have hMem : declaration ∈ module.bindings.filter (·.key = key) := hOnce ▸ List.mem_singleton_self declaration
  obtain ⟨hDeclared, hKeyEq⟩ := List.mem_filter.mp hMem
  obtain rfl : declaration.key = key := of_decide_eq_true hKeyEq
  -- the checks found nothing against the declaration
  have hNothing := reportsFor_of_create hW hCreated
  have hConflict := conflict_eq_none hNothing hOnce
  have hBuiltin := isBuiltin_of_conflict hConflict
  have hKey := ne_injector_of_isBuiltin hBuiltin
  have hNone := lookup_of_conflict hConflict
  obtain ⟨⟨outcome, after⟩, hEnds⟩ := resolve_ends hW n declaration.key
  refine ⟨⟨outcome, after, hEnds⟩, fun binding h' hRun => ?_, fun report h' hRun => ?_, ?_, ?_⟩
  · exact create_after_resolve hW hLive hBuiltin hNone hOnce explicitOnly hRun
  · have hMarked := (resolve_error hW hRun).2
    refine create_admitted hMarked.wellFormed explicitOnly ?_
    rw [reportsFor_of_sameCore hMarked.core]
    exact hNothing
  · intro h₂ hSteps hChild a ha
    obtain ⟨bindings, hNodup, hExact, hOwn, hBlocked⟩ :=
      blocked_by_child hW hLive hNoConverters hOnly hKey hCreated hDeclared hSteps hChild ha
    exact ⟨bindings, hNodup, hExact, hOwn, hBlocked, fun _ => Provision.getHandle_error hBlocked,
      fun fuel => Provision.getInstance_error fuel hBlocked⟩
  · intro h₂ hSteps hSame hAlone
    have hAlike := alikeOn_release hW hLive hNoConverters hCreated hSteps hSame hAlone
    have hMatch := resolve_match hAlike (n := n) self_mem_path declaration.key
    refine ⟨fun binding h' hRun => ?_, fun report h' hRun => ?_⟩
    · rw [hRun] at hMatch
      obtain ⟨binding', h'', hRun', hM⟩ := hMatch.exists_ok
      exact ⟨binding', h'', hRun', hM, strategy_of_matches hW hNoConverters hNone hRun hM⟩
    · rw [hRun] at hMatch
      exact hMatch.exists_error

/-- A child that binds a key for which its parent can create a binding. -/
theorem conflict_in_both_orders_in_circle :
    let key := Key.of .text
    let h := circle key (.of .singleton)
    let declaration : Declaration := ⟨key, .fixed (.handle none), none, .builtin⟩
    let module : Module := ⟨[declaration], [], [], [], []⟩
    let h₁ := (h.create (some 1) module false).2
    Reachable h ∧ h.isLive 1 = true ∧ h.converters 1 = [] ∧ h.isExplicitOnly 1 = false ∧
      module.bindings.filter (·.key = key) = [declaration] ∧ h.create (some 1) module false = (.ok 2, h₁) ∧
      (∃ binding reports h'', h.resolve 1 key = some (.ok binding, (resolve 1 key).after h) ∧
        ((resolve 1 key).after h).create (some 1) module false = (.error reports, h'') ∧
        reports.filter (fun report => report.problem.key? = some key) =
          [.of (.parentBlocksChild key binding.source .builtin)]) ∧
      (∃ sources, h₁.resolve 0 key = some (.error (.of (.childBlocksParent key sources)), h₁)) ∧
      ∃ binding h'', (h₁.release 2).resolve 1 key = some (.ok binding, h'') := by
  intro key h declaration module h₁
  have hReach := reachable_circle key (.of .singleton)
  have hOnce : module.bindings.filter (·.key = key) = [declaration] :=
    List.filter_cons_of_pos (decide_eq_true rfl)
  have hCreated : h.create (some 1) module false = (.ok 2, h₁) := rfl
  obtain ⟨-, hRefused, -, hBlocked, hReleased⟩ := conflict_in_both_orders hReach rfl rfl rfl hOnce hCreated
  obtain ⟨binding, hRun⟩ : ∃ binding, h.resolve 1 key = some (.ok binding, (resolve 1 key).after h) :=
    Run.exists_ok_after (by decide)
  obtain ⟨reports, h'', hReports, hAbout⟩ := hRefused binding _ hRun
  obtain ⟨bindings, -, -, -, hBlocked, -⟩ := hBlocked h₁ .refl (by decide) 0 (by decide)
  have hAlone : ∀ m, (h₁.release 2).isLive m = true ↔ h₁.isLive m = true ∧ m ≠ 2 := by
    intro m
    have hLeft : (h₁.release 2).injectors.keys = [0, 1] := by decide
    have hThere : h₁.injectors.keys = [0, 1, 2] := by decide
    rw [isLive, isLive, injector?, injector?, Table.isSome_get?_iff, Table.isSome_get?_iff, hLeft, hThere]
    simp only [List.mem_cons, List.not_mem_nil, or_false]
    constructor
    · rintro (rfl | rfl)
      · exact ⟨Or.inl rfl, by decide⟩
      · exact ⟨Or.inr (Or.inl rfl), by decide⟩
    · rintro ⟨rfl | rfl | rfl, hNe⟩
      · exact Or.inl rfl
      · exact Or.inr rfl
      · exact absurd rfl hNe
  obtain ⟨binding', h''', hAgain, -⟩ := (hReleased h₁ .refl (fun _ _ => rfl) hAlone).1 binding _ hRun
  exact ⟨hReach, rfl, rfl, rfl, hOnce, hCreated, ⟨binding, reports, h'', hRun, hReports, hAbout⟩, ⟨_, hBlocked⟩,
    binding', h''', hAgain⟩

end InjectorTree.Hierarchy
