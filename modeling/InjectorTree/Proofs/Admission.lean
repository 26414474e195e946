import Mathlib.Data.List.Basic
import InjectorTree.Admission
import InjectorTree.Proofs.Hierarchy.Adoption

/-!
# Creating injectors

Checking a module only leaves marks on a hierarchy. What passes the checks can be added: its keys are
distinct, and none of them is bound on the path of the parent.

* `create_error`: a creation that fails leaves marks only.
* `create_ok`: a creation that succeeds adds one injector, with bindings that are newer than all others.
* `wellFormed_create`: creating keeps the hierarchy well-formed, whether it succeeds or fails.
-/

namespace InjectorTree

namespace Admission

open Hierarchy

variable {h h' : Hierarchy} {n p : InjectorId} {parent : Option InjectorId}

-- ---------------------------------------------------------------------------
-- The checks
-- ---------------------------------------------------------------------------

theorem conflict_of_sameCore (hs : SameCore h' h) (parent : Option InjectorId) (declaration : Declaration) :
    conflict h' parent declaration = conflict h parent declaration := by
  unfold conflict
  cases parent with
  | none => rfl
  | some p =>
    simp only [hs.sameShape.explicitBinding?, hs.createdBinding?]

theorem isBuiltin_of_conflict {declaration : Declaration} (hNone : conflict h parent declaration = none) :
    declaration.key.isBuiltin = false := by
  unfold conflict at hNone
  split at hNone
  · cases hNone
  · next hBuiltin => exact Bool.not_eq_true _ ▸ hBuiltin

/-- What nothing stands against is not bound on the path of the parent. -/
theorem lookup_of_conflict {declaration : Declaration} (hNone : conflict h (some p) declaration = none) :
    h.lookup p declaration.key = none := by
  have hKey := ne_injector_of_isBuiltin (isBuiltin_of_conflict hNone)
  unfold conflict at hNone
  split at hNone
  · cases hNone
  · cases hExplicit : h.explicitBinding? p declaration.key with
    | some existing =>
      simp only [hExplicit] at hNone
      cases hNone
    | none =>
      simp only [hExplicit, Option.map_eq_none_iff] at hNone
      -- neither table of anybody on the path has it
      rw [lookup_eq_none_iff]
      intro q hq
      have hNoExplicit := nearest_eq_none_iff.mp hExplicit q hq
      have hNoCreated := nearest_eq_none_iff.mp hNone q hq
      cases hInjector : h.injector? q with
      | none => rw [binding?, hInjector, Option.bind_none]
      | some injector =>
        rw [hInjector, Option.bind_some] at hNoExplicit hNoCreated
        rw [binding?_of_injector? hInjector, Injector.binding?_of_ne hKey, hNoExplicit, hNoCreated,
          Option.or_none]

/-- What stands against a declaration is its own key, or what its key is bound to from the parent. -/
theorem conflict_eq (hW : h.WellFormed) (parent : Option InjectorId) (declaration : Declaration) :
    conflict h parent declaration =
      if declaration.key.isBuiltin then
        some (Report.within (.of (.builtinKey declaration.key)) (.at declaration.source))
      else
        (parent.bind fun p => h.lookup p declaration.key).map fun above =>
          if above.origin = .explicit then .of (.duplicateBinding declaration.key [above.source, declaration.source])
          else .of (.parentBlocksChild declaration.key above.source declaration.source) := by
  unfold conflict
  split
  · rfl
  · next hBuiltin =>
    have hKey := ne_injector_of_isBuiltin (Bool.not_eq_true _ ▸ hBuiltin)
    cases parent with
    | none => rfl
    | some p =>
      simp only [hW.explicitBinding?_eq hKey, hW.createdBinding?_eq hKey, Option.bind_some]
      cases h.lookup p declaration.key with
      | none => rfl
      | some above => by_cases hOrigin : above.origin = .explicit <;> simp [Option.filter_some, hOrigin]

theorem marked_scopeFor (hW : h.WellFormed) (scopes : Table ScopeTag ScopeRegistration)
    (parent : Option InjectorId) (tag : ScopeTag) : Marked (scopeFor scopes parent tag h).2 h := by
  unfold scopeFor
  split
  · exact Marked.refl hW
  · split
    · exact Marked.refl hW
    · exact marked_findScope hW _ tag

theorem marked_resolveScope (hW : h.WellFormed) (scopes : Table ScopeTag ScopeRegistration)
    (parent : Option InjectorId) (declaration : Declaration) :
    Marked (resolveScope scopes parent declaration h).2 h := by
  unfold resolveScope
  split
  · exact Marked.refl hW
  · next tag _ =>
    have hMarked := marked_scopeFor hW scopes parent tag
    split
    · next hFound =>
      rw [hFound] at hMarked
      exact hMarked
    · next hFound =>
      rw [hFound] at hMarked
      exact hMarked

/-- Looking for a scope changes nothing but what injectors remember of scopes. -/
theorem resolveScope_snd (scopes : Table ScopeTag ScopeRegistration) (parent : Option InjectorId)
    (declaration : Declaration) (h : Hierarchy) :
    ∃ injectors, (resolveScope scopes parent declaration h).2 = { h with injectors } := by
  have hScope : ∀ tag, ∃ injectors, (scopeFor scopes parent tag h).2 = { h with injectors } := by
    intro tag
    unfold scopeFor
    split
    · exact ⟨h.injectors, rfl⟩
    · split
      · exact ⟨h.injectors, rfl⟩
      · exact findScopeOn_snd tag _ h
  unfold resolveScope
  split
  · exact ⟨h.injectors, rfl⟩
  · next tag _ =>
    have hFound := hScope tag
    split <;> next hEq =>
      rw [hEq] at hFound
      exact hFound

theorem checkKey_snd (scopes : Table ScopeTag ScopeRegistration) (parent : Option InjectorId) (findings : Findings)
    (h : Hierarchy) (group : List Declaration) :
    ∃ injectors, (checkKey scopes parent findings h group).2 = { h with injectors } := by
  match group with
  | [] => exact ⟨h.injectors, rfl⟩
  | [declaration] =>
    rw [checkKey]
    split
    · exact ⟨h.injectors, rfl⟩
    · exact resolveScope_snd scopes parent declaration h
  | _ :: _ :: _ => exact ⟨h.injectors, rfl⟩

/-- So do all checks: user code is not called. -/
theorem checkBindings_snd (scopes : Table ScopeTag ScopeRegistration) (parent : Option InjectorId)
    (declarations : List Declaration) (h : Hierarchy) :
    ∃ injectors, (checkBindings scopes parent declarations h).2 = { h with injectors } := by
  have hGroups : ∀ (groups : List (List Declaration)) (found : Findings × Hierarchy), ∃ injectors,
      (groups.foldl (fun found group => checkKey scopes parent found.1 found.2 group) found).2 =
        { found.2 with injectors } := by
    intro groups
    induction groups with
    | nil => exact fun found => ⟨found.2.injectors, rfl⟩
    | cons group rest ih =>
      intro found
      obtain ⟨injectors, hFirst⟩ := checkKey_snd scopes parent found.1 found.2 group
      obtain ⟨injectors', hRest⟩ := ih (checkKey scopes parent found.1 found.2 group)
      rw [hFirst] at hRest
      exact ⟨injectors', hRest⟩
  exact hGroups _ ({}, h)

/-- One check leaves marks only, and accepts at most a declaration that stands alone and against which nothing
stands. -/
theorem checkKey_spec (hW : h.WellFormed) (scopes : Table ScopeTag ScopeRegistration)
    (parent : Option InjectorId) (findings : Findings) (group : List Declaration) :
    Marked (checkKey scopes parent findings h group).2 h ∧
      ((checkKey scopes parent findings h group).1.accepted = findings.accepted ∨
        ∃ declaration scope, group = [declaration] ∧ conflict h parent declaration = none ∧
          (checkKey scopes parent findings h group).1.accepted =
            findings.accepted ++ [⟨declaration, scope⟩]) := by
  match group with
  | [] => exact ⟨Marked.refl hW, Or.inl rfl⟩
  | [declaration] =>
    rw [checkKey]
    cases hConflict : conflict h parent declaration with
    | some report => exact ⟨Marked.refl hW, Or.inl rfl⟩
    | none => exact ⟨marked_resolveScope hW scopes parent declaration, Or.inr ⟨declaration, _, rfl, hConflict, rfl⟩⟩
  | _ :: _ :: _ => exact ⟨Marked.refl hW, Or.inl rfl⟩

/-- The checks of several groups of declarations, each group of one key. -/
theorem checkGroups_spec (hW : h.WellFormed) (scopes : Table ScopeTag ScopeRegistration)
    (parent : Option InjectorId) (groups : List (Key × List Declaration))
    (hKeys : ∀ group ∈ groups, ∀ declaration ∈ group.2, declaration.key = group.1) (findings : Findings) :
    ∃ findings' h' accepted,
      (groups.map Prod.snd).foldl
        (fun (findings, h) group => checkKey scopes parent findings h group) (findings, h) = (findings', h') ∧
      Marked h' h ∧ findings'.accepted = findings.accepted ++ accepted ∧
      (accepted.map (·.declaration.key)).Sublist (groups.map Prod.fst) ∧
      ∀ one ∈ accepted, conflict h parent one.declaration = none := by
  induction groups generalizing h findings with
  | nil => exact ⟨findings, h, [], rfl, Marked.refl hW, (List.append_nil _).symm, List.Sublist.refl _,
      fun _ hMem => absurd hMem List.not_mem_nil⟩
  | cons group rest ih =>
    obtain ⟨hMarked, hAccepted⟩ := checkKey_spec hW scopes parent findings group.2
    obtain ⟨findings', h', accepted, hFold, hMarked', hAccepted', hSublist, hConflict⟩ :=
      ih hMarked.wellFormed (fun other hMem => hKeys other (List.mem_cons_of_mem group hMem))
        (checkKey scopes parent findings h group.2).1
    have hConflict' : ∀ one ∈ accepted, conflict h parent one.declaration = none := fun one hMem => by
      rw [← conflict_of_sameCore hMarked.core]
      exact hConflict one hMem
    rcases hAccepted with hSame | ⟨declaration, scope, hGroup, hNone, hOne⟩
    · refine ⟨findings', h', accepted, hFold, hMarked'.trans hMarked, ?_, ?_, hConflict'⟩
      · rw [hAccepted', hSame]
      · exact hSublist.cons _
    · refine ⟨findings', h', ⟨declaration, scope⟩ :: accepted, hFold, hMarked'.trans hMarked, ?_, ?_, ?_⟩
      · rw [hAccepted', hOne, List.append_assoc, List.singleton_append]
      · have hKey := hKeys group List.mem_cons_self declaration (hGroup ▸ List.mem_cons_self)
        rw [List.map_cons, List.map_cons, hKey]
        exact hSublist.cons_cons _
      · intro one hMem
        rcases List.mem_cons.mp hMem with rfl | hMem
        · exact hNone
        · exact hConflict' one hMem

/-- The checks leave marks only. What they accept has distinct keys, and nothing stands against it. -/
theorem checkBindings_spec (hW : h.WellFormed) (scopes : Table ScopeTag ScopeRegistration)
    (parent : Option InjectorId) (declarations : List Declaration) :
    ∃ findings h', checkBindings scopes parent declarations h = (findings, h') ∧ Marked h' h ∧
      (findings.accepted.map (·.declaration.key)).Nodup ∧
      ∀ one ∈ findings.accepted, conflict h parent one.declaration = none := by
  have hNodup := Table.nodup_keys_groupBy (·.key) declarations
  have hKeys : ∀ group ∈ (Table.groupBy (·.key) declarations).entries,
      ∀ declaration ∈ group.2, declaration.key = group.1 := fun _ => Table.key_of_mem_groupBy
  obtain ⟨findings, h', accepted, hFold, hMarked, hAccepted, hSublist, hConflict⟩ :=
    checkGroups_spec hW scopes parent _ hKeys {}
  have hAccepted' : findings.accepted = accepted := hAccepted
  refine ⟨findings, h', hFold, hMarked, ?_, ?_⟩
  · rw [hAccepted']
    exact hNodup.sublist hSublist
  · rw [hAccepted']
    exact hConflict

end Admission

namespace Hierarchy

open Admission

variable {h h' : Hierarchy} {n : InjectorId} {parent : Option InjectorId} {module : Module}
  {explicitOnly : Bool} {reports : List Report}

-- ---------------------------------------------------------------------------
-- Making the bindings
-- ---------------------------------------------------------------------------

/-- The binding has the key, the strategy and the source of the declaration. -/
structure DeclaredBy (declaration : Declaration) (binding : Binding) : Prop where
  key : binding.key = declaration.key
  strategy : binding.strategy = declaration.strategy
  source : binding.source = declaration.source

/-- The bindings are made for the accepted declarations, one for each, with growing numbers below a last one. -/
structure MadeFor (h : Hierarchy) (owner : InjectorId) (accepted : List Accepted) (bindings : List Binding)
    (last : BindingId) : Prop where
  keys : bindings.map (·.key) = accepted.map (·.declaration.key)
  declared : ∀ one ∈ accepted, ∃ binding ∈ bindings, DeclaredBy one.declaration binding
  owner : ∀ binding ∈ bindings, binding.owner = owner
  origin : ∀ binding ∈ bindings, binding.origin = .explicit
  order : bindings.Pairwise fun first second => first.id < second.id
  newer : ∀ binding ∈ bindings, h.nextBinding ≤ binding.id
  numbered : ∀ binding ∈ bindings, binding.id < last
  grows : h.nextBinding ≤ last

/-- Making the bindings of an injector uses up numbers, and lets scopes run. -/
theorem bindAll_spec (owner : InjectorId) (accepted : List Accepted) (h : Hierarchy) :
    ∃ bindings last user, bindAll owner accepted h = (bindings, { h with nextBinding := last, user }) ∧
      MadeFor h owner accepted bindings last := by
  induction accepted generalizing h with
  | nil =>
    refine ⟨[], h.nextBinding, h.user, rfl, ?_⟩
    constructor <;> simp
  | cons one rest ih =>
    let first := h.makeBinding one.declaration.key one.declaration.strategy one.scope one.declaration.source
      .explicit owner
    obtain ⟨others, last, user, hOthers, hMade⟩ := ih first.2
    have hNext : h.nextBinding + 1 ≤ last := hMade.grows
    have hNewer : ∀ binding ∈ others, h.nextBinding + 1 ≤ binding.id := hMade.newer
    refine ⟨first.1 :: others, last, user,
      congrArg (fun made : List Binding × Hierarchy => (first.1 :: made.1, made.2)) hOthers, ?_⟩
    exact
      { keys := congrArg (one.declaration.key :: ·) hMade.keys
        declared := List.forall_mem_cons.mpr ⟨⟨_, List.mem_cons_self, rfl, rfl, rfl⟩, fun other hOther =>
          (hMade.declared other hOther).imp fun binding hBoth => ⟨List.mem_cons_of_mem _ hBoth.1, hBoth.2⟩⟩
        owner := List.forall_mem_cons.mpr ⟨rfl, hMade.owner⟩
        origin := List.forall_mem_cons.mpr ⟨rfl, hMade.origin⟩
        order := List.pairwise_cons.mpr ⟨hNewer, hMade.order⟩
        newer := List.forall_mem_cons.mpr ⟨Nat.le_refl _, fun binding hMem => Nat.le_of_succ_le (hNewer binding hMem)⟩
        numbered := List.forall_mem_cons.mpr ⟨hNext, hMade.numbered⟩
        grows := Nat.le_of_succ_le hNext }

/-- Each of the bindings is made for one of the declarations. -/
theorem MadeFor.exists_declaration {owner : InjectorId} {accepted : List Accepted} {bindings : List Binding}
    {last : BindingId} (hMade : MadeFor h owner accepted bindings last) {binding : Binding}
    (hMem : binding ∈ bindings) : ∃ one ∈ accepted, one.declaration.key = binding.key := by
  have hKey : binding.key ∈ bindings.map (·.key) := List.mem_map_of_mem hMem
  rw [hMade.keys, List.mem_map] at hKey
  exact hKey

-- ---------------------------------------------------------------------------
-- Creating
-- ---------------------------------------------------------------------------

/-- The bindings that are made for a new injector, in order: those that its module declares, and its own. -/
def bindingsFor (h : Hierarchy) (accepted : List Accepted) : List Binding :=
  let (bindings, h') := bindAll h.nextInjector accepted { h with nextInjector := h.nextInjector + 1 }
  bindings ++ [(h'.makeBinding .injector .itself none .builtin .builtin h.nextInjector).1]

/-- The new injector stores its explicit bindings under their keys. -/
theorem MadeFor.explicit_get? {accepted : List Accepted} {owner : InjectorId} {bindings : List Binding} {last : BindingId}
    (hMade : MadeFor h owner accepted bindings last) (hNodup : (accepted.map (·.declaration.key)).Nodup) (key : Key)
    (binding : Binding) :
    (bindings.foldl (fun table binding => table.insert binding.key binding) ∅ : Table Key Binding).get? key =
      some binding ↔ binding ∈ bindings ∧ binding.key = key := by
  have hOwnKeys : (bindings.map Binding.key).Nodup := hMade.keys ▸ hNodup
  rw [Table.get?_foldl_insert bindings hOwnKeys]
  simp

/-- So the new injector is coherent, as no declaration that was accepted is of a key of injectors. -/
theorem coherent_newInjector {explicitOnly : Bool} {module : Module} {scopes : Table ScopeTag ScopeRegistration}
    {accepted : List Accepted} {owner : InjectorId} {bindings : List Binding} {last : BindingId} {itself : Binding}
    {made : Hierarchy} (hMade : MadeFor h owner accepted bindings last)
    (hItself : itself.key = .injector ∧ itself.owner = owner ∧ itself.origin = .builtin)
    (hProvided : itself.strategy = .itself ∧ itself.scope = none) (hNodup : (accepted.map (·.declaration.key)).Nodup)
    (hConflict : ∀ one ∈ accepted, conflict h parent one.declaration = none) :
    (made.newInjector parent explicitOnly module scopes itself bindings).Coherent owner where
  itself := hItself
  explicit {key binding} hGet := by
    obtain ⟨hBinding, rfl⟩ := (hMade.explicit_get? hNodup key binding).mp hGet
    obtain ⟨one, hOne, hKey⟩ := hMade.exists_declaration hBinding
    refine ⟨rfl, hMade.owner binding hBinding, hMade.origin binding hBinding, ?_⟩
    rw [← hKey]
    exact isBuiltin_of_conflict (hConflict one hOne)
  created hGet := nomatch hGet
  disjoint _ := Or.inr rfl
  explicitKeys := Table.nodup_keys_foldl_insert _ ∅ List.nodup_nil
  createdKeys := List.nodup_nil
  claimKeys := List.nodup_nil
  provided := hProvided

/-- What a new injector claims for itself are its own bindings. -/
theorem foldl_claim_bindAll (n : InjectorId) (accepted : List Accepted) (before h : Hierarchy) :
    (bindAll n accepted before).1.foldl (fun h binding => h.claim n binding.key binding.source) h =
      (bindAll n accepted before).1.foldl announce h := by
  obtain ⟨bindings, number, user, hBind, hMade⟩ := bindAll_spec n accepted before
  rw [hBind]
  exact List.foldl_ext _ _ h fun h binding hMem => by rw [announce, hMade.owner binding hMem]

/-- The hierarchy after the bindings of a new injector were made, and the injector, with its bindings. -/
theorem adopt_eq (explicitOnly : Bool) (module : Module) (scopes : Table ScopeTag ScopeRegistration)
    {accepted : List Accepted} (hW : h.WellFormed) (hLive : ∀ p, parent = some p → h.isLive p = true)
    (hNodup : (accepted.map (·.declaration.key)).Nodup)
    (hConflict : ∀ one ∈ accepted, conflict h parent one.declaration = none) :
    ∃ made injector bindings, Marked made h ∧ made.Adoptable parent injector bindings ∧
      (∀ binding ∈ injector.itself :: bindings, h.nextBinding ≤ binding.id) ∧
      (∀ one ∈ accepted, ∃ binding ∈ bindings, DeclaredBy one.declaration binding) ∧
      h.bindingsFor accepted = bindings ++ [injector.itself] ∧
      h.adopt parent explicitOnly module scopes accepted =
        (h.nextInjector, made.adopted injector bindings) := by
  obtain ⟨bindings, number, user, hBind, hMade⟩ :=
    bindAll_spec h.nextInjector accepted { h with nextInjector := h.nextInjector + 1 }
  have hGrows : h.nextBinding ≤ number := hMade.grows
  simp only [adopt, foldl_claim_bindAll]
  simp only [bindingsFor, hBind]
  -- where the numbers of the bindings and of the injector's own binding are used up
  have hMarked : Marked { h with nextBinding := number + 1, user } h :=
    ⟨sameCore_of_injectors rfl rfl rfl, hW.of_injectors rfl rfl rfl (Nat.le_succ_of_le hGrows),
      Nat.le_succ_of_le hGrows⟩
  refine ⟨{ h with nextBinding := number + 1, user }, _, bindings, hMarked, ?_,
    List.forall_mem_cons.mpr ⟨hGrows, hMade.newer⟩, hMade.declared, rfl, rfl⟩
  exact
    { live := hLive
      lineage := rfl
      only := by
        rintro p rfl hOnly
        exact Bool.or_eq_true_iff.mpr (Or.inr hOnly)
      coherent := coherent_newInjector hMade ⟨rfl, rfl, rfl⟩ ⟨rfl, rfl⟩ hNodup hConflict
      created := rfl
      claims := rfl
      caches := rfl
      explicit := hMade.explicit_get? hNodup
      owner := hMade.owner
      origin := hMade.origin
      unbound := by
        -- the checks found the key unbound on the path of the parent
        rintro p rfl binding hBinding
        obtain ⟨one, hOne, hKey⟩ := hMade.exists_declaration hBinding
        rw [← hKey]
        exact lookup_of_conflict (hConflict one hOne)
      order := hMade.order
      newest := fun hOther binding hBinding => Nat.lt_of_lt_of_le (hW.numbered hOther) (hMade.newer binding hBinding)
      numbered := List.forall_mem_cons.mpr ⟨Nat.lt_succ_self number, fun binding hBinding =>
        Nat.lt_succ_of_lt (hMade.numbered binding hBinding)⟩ }

/-- A creation that fails leaves marks only. -/
theorem create_error (hW : h.WellFormed) (hRun : h.create parent module explicitOnly = (.error reports, h')) :
    Marked h' h := by
  obtain ⟨findings, checked, hCheck, hMarked, -, -⟩ := checkBindings_spec hW
    (firstRegistrations (scopeGroups parent.isNone module.scopes)) parent module.bindings
  simp only [create, hCheck] at hRun
  split at hRun
  · cases hRun
  · rw [Prod.mk.injEq] at hRun
    exact hRun.2 ▸ hMarked

/-- A creation that succeeds adopts what the checks have accepted. -/
theorem exists_findings_of_create (hW : h.WellFormed) (hRun : h.create parent module explicitOnly = (.ok n, h')) :
    ∃ findings checked,
      checkBindings (firstRegistrations (scopeGroups parent.isNone module.scopes)) parent module.bindings h =
        (findings, checked) ∧
      Marked checked h ∧ (findings.accepted.map (·.declaration.key)).Nodup ∧
      (∀ one ∈ findings.accepted, conflict checked parent one.declaration = none) ∧
      checked.adopt parent explicitOnly module (firstRegistrations (scopeGroups parent.isNone module.scopes))
        findings.accepted = (n, h') := by
  obtain ⟨findings, checked, hCheck, hMarked, hNodup, hConflict⟩ := checkBindings_spec hW
    (firstRegistrations (scopeGroups parent.isNone module.scopes)) parent module.bindings
  refine ⟨findings, checked, hCheck, hMarked, hNodup, fun one hOne => ?_, ?_⟩
  · rw [conflict_of_sameCore hMarked.core]
    exact hConflict one hOne
  · simp only [create, hCheck] at hRun
    split at hRun
    · rw [Prod.mk.injEq, Except.ok.injEq] at hRun
      exact Prod.ext hRun.1 hRun.2
    · cases hRun

/-- A creation that succeeds adds one injector, with bindings that are newer than all others. -/
theorem create_ok (hW : h.WellFormed) (hLive : ∀ p, parent = some p → h.isLive p = true)
    (hRun : h.create parent module explicitOnly = (.ok n, h')) :
    ∃ made injector bindings, Marked made h ∧ made.Adoptable parent injector bindings ∧
      (∀ binding ∈ injector.itself :: bindings, h.nextBinding ≤ binding.id) ∧
      n = made.nextInjector ∧ h' = made.adopted injector bindings := by
  obtain ⟨findings, checked, -, hMarked, hNodup, hConflict, hAdopted⟩ := exists_findings_of_create hW hRun
  obtain ⟨made, injector, bindings, hMade, hAdoptable, hNumbers, -, -, hAdopt⟩ :=
    adopt_eq explicitOnly module (firstRegistrations (scopeGroups parent.isNone module.scopes)) hMarked.wellFormed
      (fun p hp => by rw [hMarked.core.isLive]; exact hLive p hp) hNodup hConflict
  rw [hAdopt, Prod.mk.injEq] at hAdopted
  refine ⟨made, injector, bindings, hMade.trans hMarked, hAdoptable, fun binding hMem => ?_, ?_, hAdopted.2.symm⟩
  · exact Nat.le_trans hMarked.nextBinding (hNumbers binding hMem)
  · rw [← hAdopted.1, hMade.core.nextInjector]

/-- The new injector is below its parent. Everybody else stays in place, and owns what it owned. -/
theorem create_adds (hW : h.WellFormed) (hLive : ∀ p, parent = some p → h.isLive p = true)
    (hRun : h.create parent module explicitOnly = (.ok n, h')) :
    n = h.nextInjector ∧ h'.lineage n = parent.elim [] h.path ∧
      ∀ m ≠ n, h'.lineage m = h.lineage m ∧ ∀ key, h'.binding? m key = h.binding? m key := by
  obtain ⟨made, injector, bindings, hMarked, hA, -, rfl, rfl⟩ := create_ok hW hLive hRun
  refine ⟨hMarked.core.nextInjector, ?_, fun m hm => ⟨?_, fun key => ?_⟩⟩
  · have hPath : made.path = h.path := funext hMarked.core.path
    rw [lineage_adopted, if_pos rfl, hA.lineage, hPath]
  · rw [lineage_adopted, if_neg hm, hMarked.core.lineage]
  · rw [binding?_adopted hMarked.wellFormed.toConsistent hA, if_neg hm, hMarked.core.binding?]

/-- Creating keeps the hierarchy well-formed, whether it succeeds or fails. -/
theorem wellFormed_create (hW : h.WellFormed) (hLive : ∀ p, parent = some p → h.isLive p = true) :
    (h.create parent module explicitOnly).2.WellFormed := by
  cases hRun : h.create parent module explicitOnly with
  | mk outcome h' =>
    cases outcome with
    | error reports => exact (create_error hW hRun).wellFormed
    | ok n =>
      obtain ⟨made, injector, bindings, hMarked, hAdoptable, -, -, rfl⟩ := create_ok hW hLive hRun
      exact wellFormed_adopted hMarked.wellFormed hAdoptable

end Hierarchy

end InjectorTree
