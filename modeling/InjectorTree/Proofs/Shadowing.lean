import InjectorTree.Proofs.Verdict

/-!
# Which problems are told together

A declaration can be at fault in several ways. Its faults are looked for in stages: whether the key is declared once
only, whether it may be bound at all, whether an ancestor binds it, and what the declaration itself says. The first
stage that finds something is the last one for the key, so a fault is told if none of an earlier stage hides it. In the
same way, the sources that are told of a key which is declared several times are those of the module alone, even if an
ancestor declares the key too.

* `Fault.Holds`, `Fault.Told`: what it means to have a fault, and to be told of it.
* `told_of_least`: faults of the earliest stage are told.
* `eq_declaredSources`: which sources are told of a key.
* `create_tells`: what a creation tells of every declaration. `create_hides`: what it does not.
-/

namespace InjectorTree

namespace Admission

open Hierarchy

/-- What can be wrong with a declaration. -/
inductive Fault
  /-- Its key is declared several times. -/
  | repeated
  /-- Its key is that of injectors. -/
  | builtin
  /-- An ancestor declares its key. -/
  | declaredAbove
  /-- An ancestor has created a binding of its key on demand. -/
  | createdAbove
  /-- It gives a scope to an instance. -/
  | scopedInstance
  /-- It binds its key to itself. -/
  | selfBinding
  /-- Its scope is not visible from the new injector. -/
  | unresolvedScope
deriving DecidableEq

/-- The stage at which a fault is looked for. -/
def Fault.stage : Fault → Nat
  | .repeated => 0
  | .builtin => 1
  | .declaredAbove | .createdAbove => 2
  | .scopedInstance | .selfBinding | .unresolvedScope => 3

/-- Whether a declaration of a module has the fault. -/
def Fault.Holds (h : Hierarchy) (parent : Option InjectorId) (module : Module) (declaration : Declaration) :
    Fault → Prop
  | .repeated => 1 < (module.bindings.filter (·.key = declaration.key)).length
  | .builtin => declaration.key.type = .injector
  | .declaredAbove => ∃ above ∈ boundAbove h parent declaration.key, above.origin = .explicit
  | .createdAbove => ∃ above ∈ boundAbove h parent declaration.key, isCreated above = true
  | .scopedInstance => (∃ value, declaration.strategy = .fixed value) ∧ declaration.scope.isSome = true
  | .selfBinding => declaration.strategy = .linked declaration.key
  | .unresolvedScope =>
    ∃ tag, declaration.scope = some tag ∧ isVisible h parent (ownScopes parent.isNone module) tag = false

/-- Whether there is a report of the fault that names the declaration. -/
def Fault.Told (reports : List Report) (declaration : Declaration) : Fault → Prop
  | .repeated | .declaredAbove =>
    ∃ sources, Report.of (.duplicateBinding declaration.key sources) ∈ reports ∧ declaration.source ∈ sources
  | .builtin => Report.within (.of (.builtinKey declaration.key)) (.at declaration.source) ∈ reports
  | .createdAbove =>
    ∃ created, Report.of (.parentBlocksChild declaration.key created declaration.source) ∈ reports
  | .scopedInstance => Report.within (.of (.scopedInstance declaration.key)) (.at declaration.source) ∈ reports
  | .selfBinding => Report.within (.of (.selfBinding declaration.key)) (.at declaration.source) ∈ reports
  | .unresolvedScope => ∃ tag, declaration.scope = some tag ∧
      Report.within (.of (.unresolvedScope tag)) (.at declaration.source) ∈ reports

/-- Where a key is declared on the path of a new injector, outermost first. -/
def declaredSources (h : Hierarchy) (parent : Option InjectorId) (module : Module) (key : Key) : List Source :=
  ((boundAbove h parent key).filter (·.origin = .explicit)).map (·.source) ++
    (module.bindings.filter (·.key = key)).map (·.source)

variable {h : Hierarchy} {parent : Option InjectorId} {scopes : List ScopeRegistration} {module : Module}
  {declarations : List Declaration} {declaration : Declaration} {key : Key} {above : Binding} {fault : Fault}

-- ---------------------------------------------------------------------------
-- The verdict, stage by stage
-- ---------------------------------------------------------------------------

theorem keyVerdict_of_repeated (hMany : 1 < (declarations.filter (·.key = key)).length) :
    keyVerdict h parent scopes declarations key =
      [.of (.duplicateBinding key ((declarations.filter (·.key = key)).map (·.source)))] := by
  unfold keyVerdict
  generalize declarations.filter (·.key = key) = same at hMany ⊢
  match same with
  | [] => cases hMany
  | [_] => exact absurd hMany (Nat.lt_irrefl 1)
  | _ :: _ :: _ => rfl

theorem filter_eq_singleton (hMem : declaration ∈ declarations)
    (hOnce : ¬1 < (declarations.filter (·.key = declaration.key)).length) :
    declarations.filter (·.key = declaration.key) = [declaration] := by
  have hOf : declaration ∈ declarations.filter (·.key = declaration.key) :=
    List.mem_filter.mpr ⟨hMem, decide_eq_true rfl⟩
  generalize declarations.filter (·.key = declaration.key) = same at hOf hOnce ⊢
  match same with
  | [] => cases hOf
  | [_] => rw [List.mem_singleton.mp hOf]
  | _ :: _ :: _ => exact absurd (Nat.succ_lt_succ (Nat.succ_pos _)) hOnce

theorem keyVerdict_of_once (hMem : declaration ∈ declarations)
    (hOnce : ¬1 < (declarations.filter (·.key = declaration.key)).length) :
    keyVerdict h parent scopes declarations declaration.key = loneVerdict h parent scopes declaration := by
  rw [keyVerdict, filter_eq_singleton hMem hOnce]

theorem loneVerdict_of_builtin (hBuiltin : declaration.key.type = .injector) :
    loneVerdict h parent scopes declaration =
      [Report.within (.of (.builtinKey declaration.key)) (.at declaration.source)] :=
  if_pos hBuiltin

/-- An ancestor that binds the key is the only one. -/
theorem loneVerdict_of_mem_boundAbove (hW : h.WellFormed) (hBuiltin : declaration.key.type ≠ .injector)
    (hAbove : above ∈ boundAbove h parent declaration.key) :
    loneVerdict h parent scopes declaration =
      [.of (if above.origin = .explicit then .duplicateBinding declaration.key [above.source, declaration.source]
        else .parentBlocksChild declaration.key above.source declaration.source)] := by
  have hKey := ne_injector_of_isBuiltin (decide_eq_false hBuiltin)
  have hOrigin := origin_of_mem_boundAbove hW hKey hAbove
  rw [boundAbove_eq hW hKey, Option.mem_toList] at hAbove
  rw [loneVerdict, if_neg hBuiltin, boundAbove_eq hW hKey, hAbove]
  by_cases hExplicit : above.origin = .explicit
  · simp [hExplicit]
  · simp [hExplicit, hOrigin.resolve_left hExplicit]

theorem loneVerdict_of_unbound (hBuiltin : declaration.key.type ≠ .injector)
    (hNone : boundAbove h parent declaration.key = []) :
    loneVerdict h parent scopes declaration = wordVerdict declaration ++ scopeVerdict h parent scopes declaration := by
  rw [loneVerdict, if_neg hBuiltin, hNone]
  rfl

/-- What is said of a key that is declared is part of the verdict. -/
theorem keyVerdict_subset (hMem : declaration ∈ module.bindings) :
    keyVerdict h parent (ownScopes parent.isNone module) module.bindings declaration.key ⊆ verdict h parent module := by
  intro report hReport
  have hKey : declaration.key ∈ (module.bindings.map (·.key)).eraseDups :=
    List.mem_eraseDups.mpr (List.mem_map_of_mem hMem)
  exact List.mem_append_right _ (List.mem_flatMap.mpr ⟨declaration.key, hKey, hReport⟩)

-- ---------------------------------------------------------------------------
-- What is told
-- ---------------------------------------------------------------------------

/-- The fault is of the earliest stage at which something is wrong with the declaration. -/
def Fault.Least (h : Hierarchy) (parent : Option InjectorId) (module : Module) (declaration : Declaration)
    (fault : Fault) : Prop :=
  fault.Holds h parent module declaration ∧
    ∀ other : Fault, other.Holds h parent module declaration → fault.stage ≤ other.stage

/-- A fault of a later stage has none of an earlier one before it. -/
theorem Fault.Least.not_holds (hLeast : fault.Least h parent module declaration) (other : Fault)
    (hStage : other.stage < fault.stage) : ¬other.Holds h parent module declaration :=
  fun hOther => Nat.not_lt.mpr (hLeast.2 other hOther) hStage

theorem Fault.Told.mono {reports reports' : List Report} (hTold : fault.Told reports declaration)
    (hSubset : reports ⊆ reports') : fault.Told reports' declaration := by
  cases fault with
  | repeated | declaredAbove =>
    obtain ⟨sources, hMem, hSource⟩ := hTold
    exact ⟨sources, hSubset hMem, hSource⟩
  | createdAbove =>
    obtain ⟨created, hMem⟩ := hTold
    exact ⟨created, hSubset hMem⟩
  | unresolvedScope =>
    obtain ⟨tag, hTag, hMem⟩ := hTold
    exact ⟨tag, hTag, hSubset hMem⟩
  | builtin | scopedInstance | selfBinding => exact hSubset hTold

theorem Fault.Told.ne_nil {reports : List Report} (hTold : fault.Told reports declaration) : reports ≠ [] := by
  rintro rfl
  cases fault <;> simp [Fault.Told] at hTold

/-- What the last stage finds is told together. -/
theorem keyVerdict_of_last (hW : h.WellFormed) (hMem : declaration ∈ module.bindings)
    (hLeast : fault.Least h parent module declaration) (hLast : fault.stage = 3) :
    keyVerdict h parent scopes module.bindings declaration.key =
      wordVerdict declaration ++ scopeVerdict h parent scopes declaration := by
  have hEarlier : ∀ other : Fault, other.stage < 3 → ¬other.Holds h parent module declaration := fun other hStage =>
    hLeast.not_holds other (hLast ▸ hStage)
  have hBuiltin := hEarlier .builtin (by decide)
  rw [keyVerdict_of_once hMem (hEarlier .repeated (by decide)), loneVerdict_of_unbound hBuiltin]
  refine List.eq_nil_iff_forall_not_mem.mpr fun above hAbove => ?_
  rcases origin_of_mem_boundAbove hW (ne_injector_of_isBuiltin (decide_eq_false hBuiltin)) hAbove with
    hExplicit | hCreated
  · exact hEarlier .declaredAbove (by decide) ⟨above, hAbove, hExplicit⟩
  · exact hEarlier .createdAbove (by decide) ⟨above, hAbove, hCreated⟩

/-- Faults of the earliest stage are told. -/
theorem told_of_least (hW : h.WellFormed) (hMem : declaration ∈ module.bindings)
    (hLeast : fault.Least h parent module declaration) : fault.Told (verdict h parent module) declaration := by
  refine Fault.Told.mono ?_ (keyVerdict_subset hMem)
  cases fault with
  | repeated =>
    rw [keyVerdict_of_repeated hLeast.1]
    have hOf : declaration ∈ module.bindings.filter (·.key = declaration.key) :=
      List.mem_filter.mpr ⟨hMem, decide_eq_true rfl⟩
    exact ⟨_, List.mem_singleton_self _, List.mem_map_of_mem hOf⟩
  | builtin =>
    have hOnce := hLeast.not_holds .repeated (by decide)
    rw [keyVerdict_of_once hMem hOnce, loneVerdict_of_builtin hLeast.1]
    exact List.mem_singleton_self _
  | declaredAbove =>
    have hOnce := hLeast.not_holds .repeated (by decide)
    have hBuiltin := hLeast.not_holds .builtin (by decide)
    obtain ⟨above, hAbove, hOrigin⟩ := hLeast.1
    rw [keyVerdict_of_once hMem hOnce, loneVerdict_of_mem_boundAbove hW hBuiltin hAbove, if_pos hOrigin]
    exact ⟨_, List.mem_singleton_self _, List.mem_cons_of_mem _ (List.mem_singleton_self _)⟩
  | createdAbove =>
    have hOnce := hLeast.not_holds .repeated (by decide)
    have hBuiltin := hLeast.not_holds .builtin (by decide)
    obtain ⟨above, hAbove, hCreated⟩ := hLeast.1
    have hNot : above.origin ≠ .explicit := fun hExplicit => by simp [isCreated, hExplicit] at hCreated
    rw [keyVerdict_of_once hMem hOnce, loneVerdict_of_mem_boundAbove hW hBuiltin hAbove, if_neg hNot]
    exact ⟨_, List.mem_singleton_self _⟩
  | scopedInstance =>
    rw [keyVerdict_of_last hW hMem hLeast rfl]
    obtain ⟨⟨value, hStrategy⟩, hScope⟩ := hLeast.1
    obtain ⟨tag, hTag⟩ := Option.isSome_iff_exists.mp hScope
    refine List.mem_append_left _ ?_
    simp [wordVerdict, hStrategy, hTag]
  | selfBinding =>
    rw [keyVerdict_of_last hW hMem hLeast rfl]
    have hStrategy : declaration.strategy = .linked declaration.key := hLeast.1
    refine List.mem_append_left _ ?_
    simp [wordVerdict, hStrategy]
  | unresolvedScope =>
    rw [keyVerdict_of_last hW hMem hLeast rfl]
    obtain ⟨tag, hTag, hHidden⟩ := hLeast.1
    refine ⟨tag, hTag, List.mem_append_right _ ?_⟩
    simp [scopeVerdict, hTag, hHidden]

/-- Of the faults of a declaration, some are of the earliest stage. -/
theorem exists_least (hHolds : fault.Holds h parent module declaration) :
    ∃ first : Fault, first.stage ≤ fault.stage ∧ first.Least h parent module declaration := by
  induction hStage : fault.stage using Nat.strong_induction_on generalizing fault with
  | _ stage ih =>
    subst hStage
    by_cases hLeast : ∀ other : Fault, other.Holds h parent module declaration → fault.stage ≤ other.stage
    · exact ⟨fault, Nat.le_refl _, hHolds, hLeast⟩
    · simp only [Classical.not_forall, Nat.not_le] at hLeast
      obtain ⟨other, hOther, hEarlier⟩ := hLeast
      obtain ⟨first, hFirst, hRest⟩ := ih other.stage hEarlier hOther rfl
      exact ⟨first, Nat.le_trans hFirst (Nat.le_of_lt hEarlier), hRest⟩

-- ---------------------------------------------------------------------------
-- Which sources are told
-- ---------------------------------------------------------------------------

/-- What is said of the words of a declaration and of its scope points at it. -/
theorem trail_of_mem_words {report : Report}
    (hMem : report ∈ wordVerdict declaration ++ scopeVerdict h parent scopes declaration) :
    report.trail = [.at declaration.source] := by
  rcases List.mem_append.mp hMem with hWord | hScope
  · unfold wordVerdict at hWord
    split at hWord
    · rw [List.mem_singleton.mp hWord]
      rfl
    · split at hWord
      · rw [List.mem_singleton.mp hWord]
        rfl
      · cases hWord
    · cases hWord
  · unfold scopeVerdict at hScope
    split at hScope
    · split at hScope
      · cases hScope
      · rw [List.mem_singleton.mp hScope]
        rfl
    · cases hScope

/-- A single declaration is told together with that of an ancestor. -/
theorem eq_of_mem_loneVerdict (hW : h.WellFormed) {sources : List Source}
    (hTold : Report.of (.duplicateBinding key sources) ∈ loneVerdict h parent scopes declaration) :
    key = declaration.key ∧
      sources = ((boundAbove h parent key).filter (·.origin = .explicit)).map (·.source) ++ [declaration.source] := by
  by_cases hBuiltin : declaration.key.type = .injector
  · rw [loneVerdict_of_builtin hBuiltin, List.mem_singleton] at hTold
    cases hTold
  · cases hBound : boundAbove h parent declaration.key with
    | nil =>
      rw [loneVerdict_of_unbound hBuiltin hBound] at hTold
      cases trail_of_mem_words hTold
    | cons above rest =>
      have hAbove : above ∈ boundAbove h parent declaration.key := hBound ▸ List.mem_cons_self
      rw [loneVerdict_of_mem_boundAbove hW hBuiltin hAbove, List.mem_singleton, Report.of, Report.of,
        Report.mk.injEq] at hTold
      split at hTold
      · next hOrigin =>
        rw [Problem.duplicateBinding.injEq] at hTold
        obtain ⟨⟨hKey, hSources⟩, -⟩ := hTold
        -- there is no ancestor but this one that binds the key
        have hOnly : boundAbove h parent declaration.key = [above] := by
          have hKey := ne_injector_of_isBuiltin (decide_eq_false hBuiltin)
          rw [boundAbove_eq hW hKey, Option.mem_toList] at hAbove
          rw [boundAbove_eq hW hKey, hAbove, Option.toList_some]
        refine ⟨hKey, ?_⟩
        rw [hKey, hOnly, hSources]
        simp [hOrigin]
      · cases hTold.1

/-- The sources that are told of a key are all there are on the path, unless the module declares the key several times
and an ancestor declares it too. -/
theorem eq_declaredSources (hW : h.WellFormed) {sources : List Source}
    (hTold : Report.of (.duplicateBinding key sources) ∈ verdict h parent module)
    (hApart : (module.bindings.filter (·.key = key)).length ≤ 1 ∨
      ∀ above ∈ boundAbove h parent key, above.origin ≠ .explicit) :
    sources = declaredSources h parent module key := by
  rcases List.mem_append.mp hTold with hTags | hKeys
  · obtain ⟨tag, -, hTag⟩ := List.mem_flatMap.mp hTags
    simp only [tagVerdict] at hTag
    split at hTag
    · cases List.mem_singleton.mp hTag
    · cases hTag
  · obtain ⟨other, hOther, hTold⟩ := List.mem_flatMap.mp hKeys
    obtain ⟨declaration, hMem, rfl⟩ := List.mem_map.mp (List.mem_eraseDups.mp hOther)
    by_cases hMany : 1 < (module.bindings.filter (·.key = declaration.key)).length
    · rw [keyVerdict_of_repeated hMany, List.mem_singleton] at hTold
      cases hTold
      have hNone := hApart.resolve_left (Nat.not_le.mpr hMany)
      rw [declaredSources, List.filter_eq_nil_iff.mpr fun above hAbove hOrigin =>
        hNone above hAbove (of_decide_eq_true hOrigin)]
      rfl
    · rw [keyVerdict_of_once hMem hMany] at hTold
      obtain ⟨rfl, hSources⟩ := eq_of_mem_loneVerdict hW hTold
      rw [hSources, declaredSources, filter_eq_singleton hMem hMany]
      rfl

end Admission

namespace Hierarchy

open Admission

variable {h : Hierarchy}

/-- If something is wrong with a declaration, the creation fails. Whatever is wrong with it at the earliest stage at
which anything is, is told; so no declaration with a fault goes without a report that names it. Of a key that is
declared several times, all declarations on the path of the new injector are told, outermost first, unless there are
several in the module and one on an ancestor. -/
theorem create_tells (hReach : Reachable h) (parent : Option InjectorId) (module : Module) (explicitOnly : Bool) :
    (∀ declaration ∈ module.bindings, ∀ fault : Fault, fault.Holds h parent module declaration →
      ∃ reports h', h.create parent module explicitOnly = (.error reports, h') ∧
        (fault.Least h parent module declaration → fault.Told reports declaration) ∧
        ∃ first : Fault, first.stage ≤ fault.stage ∧ first.Least h parent module declaration ∧
          first.Told reports declaration) ∧
    ∀ reports h', h.create parent module explicitOnly = (.error reports, h') →
      ∀ key sources, Report.of (.duplicateBinding key sources) ∈ reports →
        ((module.bindings.filter (·.key = key)).length ≤ 1 ∨
          ∀ above ∈ boundAbove h parent key, above.origin ≠ .explicit) →
        sources = declaredSources h parent module key := by
  have hW := hReach.wellFormed
  constructor
  · intro declaration hMem fault hHolds
    obtain ⟨first, hEarlier, hLeast⟩ := exists_least hHolds
    have hTold := told_of_least hW hMem hLeast
    have hSome : reportsFor h parent module ≠ [] := reportsFor_eq hW parent module ▸ hTold.ne_nil
    obtain ⟨h', hRun⟩ := create_refused hW explicitOnly hSome
    rw [reportsFor_eq hW] at hRun
    exact ⟨_, h', hRun, told_of_least hW hMem, first, hEarlier, hLeast, hTold⟩
  · intro reports h' hRun key sources hTold hApart
    rw [reports_eq_verdict hW hRun] at hTold
    exact eq_declaredSources hW hTold hApart

/-- A root that declares `A` and `B`. -/
def declaring : Hierarchy :=
  (create none
    ⟨[⟨.of ⟨10, "A"⟩, .fixed (.handle none), none, .type "1"⟩,
      ⟨.of ⟨11, "B"⟩, .fixed (.handle none), none, .type "2"⟩], [], [], [], []⟩ false {}).2

theorem reachable_declaring : Reachable declaring :=
  .single (.create fun _ hp => nomatch hp)

/-- A declaration that binds `B` to itself. -/
def bindingItself : Declaration :=
  ⟨.of ⟨11, "B"⟩, .linked (.of ⟨11, "B"⟩), none, .type "5"⟩

/-- A module that declares `A` twice, and binds `B` to itself. -/
def declaringAgain : Module :=
  ⟨[⟨.of ⟨10, "A"⟩, .fixed (.handle none), none, .type "3"⟩, ⟨.of ⟨10, "A"⟩, .fixed (.handle none), none, .type "4"⟩,
    bindingItself], [], [], [], []⟩

theorem bindingItself_mem : bindingItself ∈ declaringAgain.bindings :=
  List.mem_cons_of_mem _ (List.mem_cons_of_mem _ (List.mem_singleton_self _))

/-- Below the root, it is told of `B` that the root declares it. -/
theorem create_tells_below_declaring :
    Reachable declaring ∧ bindingItself ∈ declaringAgain.bindings ∧
      Fault.selfBinding.Holds declaring (some 0) declaringAgain bindingItself ∧
      ∃ reports h', declaring.create (some 0) declaringAgain false = (.error reports, h') ∧
        (Fault.selfBinding.Least declaring (some 0) declaringAgain bindingItself →
          Fault.selfBinding.Told reports bindingItself) ∧
        ∃ first : Fault, first.stage ≤ Fault.selfBinding.stage ∧
          first.Least declaring (some 0) declaringAgain bindingItself ∧ first.Told reports bindingItself :=
  ⟨reachable_declaring, bindingItself_mem, rfl,
    (create_tells reachable_declaring (some 0) declaringAgain false).1 _ bindingItself_mem .selfBinding rfl⟩

/-- It is not told that the module binds `B` to itself, nor where the root declares `A`. -/
theorem create_hides :
    let reports : List Report :=
      [.of (.duplicateBinding (.of ⟨10, "A"⟩) [.type "3", .type "4"]),
        .of (.duplicateBinding (.of ⟨11, "B"⟩) [.type "2", .type "5"])]
    Reachable declaring ∧ (∃ h', declaring.create (some 0) declaringAgain false = (.error reports, h')) ∧
      bindingItself ∈ declaringAgain.bindings ∧
      Fault.selfBinding.Holds declaring (some 0) declaringAgain bindingItself ∧
      ¬Fault.selfBinding.Told reports bindingItself ∧
      declaredSources declaring (some 0) declaringAgain (.of ⟨10, "A"⟩) = [.type "1", .type "3", .type "4"] := by
  intro reports
  refine ⟨reachable_declaring, ?_, bindingItself_mem, rfl, ?_, by decide +kernel⟩
  · exact ⟨_, rfl⟩
  · have hUntold : Report.within (.of (.selfBinding bindingItself.key)) (.at bindingItself.source) ∉ reports := by
      decide
    exact hUntold

end Hierarchy

end InjectorTree
