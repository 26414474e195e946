import InjectorTree.Proofs.Journal.Making
import InjectorTree.Proofs.Placement.Conversions
import InjectorTree.Proofs.Provision
import InjectorTree.Proofs.Verdict

/-!
# Bindings are in the nearest scopes of their owners

A tag is looked up in three ways: when an injector is created, in what its module registers and then from its parent;
when a binding is created on demand, from the injector that is to own it, which may be far above the one that was asked;
and with or without what injectors remember of their ancestors. All of them find the registration that is nearest to the
owner, so a binding is wrapped by the scope that its owner sees, and not by one that only those below it see.

* `Wraps`: how user code is called while bindings are made; no scope is called but the nearest one of an owner.
* `nearestScope_create`: what a tag means for a new injector.
* `wrapsNearest_create`, `wrapsNearest_of_resolve`: what creations and resolutions make is wrapped so.
* `wrapped_in_nearest_scope`: all of it, and that what an injector owns was wrapped so.
-/

namespace InjectorTree

open Placement Admission Run

namespace Hierarchy

/-- The bindings are made one after the other, and user code is led from one state to another by the calls that this
takes: each binding in a scope is wrapped by the one that is nearest to its owner, and in between converters are
called. -/
inductive Wraps (h : Hierarchy) : UserState → List Binding → UserState → Prop
  | nothing (user : UserState) : Wraps h user [] user
  /-- A converter that somebody sees is called first. -/
  | convert {n : InjectorId} {registration : ConverterRegistration} {user user' : UserState} {made : List Binding}
      (hSeen : registration ∈ h.converters n) (text : String) (key : Key)
      (hRest : Wraps h (registration.converter.convert text key user).2 made user') : Wraps h user made user'
  /-- A binding is made first. -/
  | make {binding : Binding} {user user' user'' : UserState} {made : List Binding}
      (hFirst : h.WrappedIn binding user user') (hRest : Wraps h user' made user'') :
      Wraps h user (binding :: made) user''

/-- Between the two states, bindings were made and wrapped by the nearest scopes. Whatever is owned in addition is among
them. -/
def WrapsNearest (h h' : Hierarchy) : Prop :=
  ∃ made, h'.Wraps h.user made h'.user ∧ ∀ m key binding, h'.binding? m key = some binding →
    h.binding? m key = some binding ∨ binding ∈ made

variable {h h' : Hierarchy} {binding : Binding} {user user' user'' : UserState} {made later : List Binding}

-- ---------------------------------------------------------------------------
-- Wrapping
-- ---------------------------------------------------------------------------

theorem Wraps.trans (hWraps : h.Wraps user made user') (hLater : h.Wraps user' later user'') :
    h.Wraps user (made ++ later) user'' := by
  induction hWraps with
  | nothing user => exact hLater
  | convert hSeen text key _ ih => exact .convert hSeen text key (ih hLater)
  | make hFirst _ ih => exact .make hFirst (ih hLater)

/-- What is nearest depends on the shapes of those who are seen. -/
theorem SameShapeOn.wrappedIn {Seen : InjectorId → Prop} (hs : SameShapeOn Seen h' h) (hSeen : Seen binding.owner)
    (hWrapped : h.WrappedIn binding user user') : h'.WrappedIn binding user user' := by
  refine ⟨hWrapped.bare, fun tag hTag => ?_⟩
  rw [hs.nearestScope hSeen]
  exact hWrapped.wrapped tag hTag

theorem SameShape.wraps (hs : SameShape h' h) (hWraps : h.Wraps user made user') : h'.Wraps user made user' := by
  induction hWraps with
  | nothing user => exact .nothing user
  | convert hSeen text key _ ih => exact .convert (hs.converters _ ▸ hSeen) text key ih
  | make hFirst _ ih => exact .make (hs.on.wrappedIn trivial hFirst) ih

/-- Each of the bindings was wrapped. -/
theorem Wraps.exists_wrappedIn (hWraps : h.Wraps user made user') (hMem : binding ∈ made) :
    ∃ before after, h.WrappedIn binding before after := by
  induction hWraps with
  | nothing user => cases hMem
  | convert _ _ _ _ ih => exact ih hMem
  | make hFirst _ ih =>
    rcases List.mem_cons.mp hMem with rfl | hRest
    · exact ⟨_, _, hFirst⟩
    · exact ih hRest

/-- Nothing is made, and user code is not called. -/
theorem WrapsNearest.ofNothing (hUser : h'.user = h.user)
    (hSame : ∀ m key binding, h'.binding? m key = some binding → h.binding? m key = some binding) :
    WrapsNearest h h' :=
  ⟨[], hUser ▸ .nothing _, fun m key binding hb => Or.inl (hSame m key binding hb)⟩

end Hierarchy

open Hierarchy

-- ---------------------------------------------------------------------------
-- What a search makes
-- ---------------------------------------------------------------------------

namespace Placement

/-- From one draft of a search to another, bindings were made and wrapped by the nearest scopes. Whatever is staged in
addition is among them. -/
def WrapsSome (h : Hierarchy) (d d' : Draft) : Prop :=
  Marked d.hierarchy h → Marked d'.hierarchy h ∧ ∃ made,
    h.Wraps d.hierarchy.user made d'.hierarchy.user ∧ d'.staged ⊆ d.staged ++ made

variable {h : Hierarchy} {n : InjectorId} {key : Key} {d d' : Draft}

theorem course_wrapsSome (h : Hierarchy) : Course (fun d => Marked d.hierarchy h) (WrapsSome h) where
  refl d := fun hM => ⟨hM, [], .nothing _, List.subset_append_left _ _⟩
  trans hFirst hSecond := fun hM => by
    obtain ⟨hM', made, hWraps, hStaged⟩ := hFirst hM
    obtain ⟨hM'', later, hWraps', hStaged'⟩ := hSecond hM'
    refine ⟨hM'', made ++ later, hWraps.trans hWraps', fun binding hMem => ?_⟩
    rw [← List.append_assoc]
    exact (List.mem_append.mp (hStaged' hMem)).elim (fun hOld => List.mem_append_left later (hStaged hOld))
      (List.mem_append_right _)
  stays hM hSome := (hSome hM).1

/-- Nothing is made. -/
theorem WrapsSome.ofMarked (hMarked : Marked d'.hierarchy d.hierarchy) (hUser : d'.hierarchy.user = d.hierarchy.user)
    (hStaged : d'.staged ⊆ d.staged) : WrapsSome h d d' := fun hM =>
  ⟨hMarked.trans hM, [], hUser ▸ .nothing _, fun _ hMem => List.mem_append_left [] (hStaged hMem)⟩

theorem leads_start (h : Hierarchy) (n : InjectorId) (key : Key) :
    Leads (fun d => Marked d.hierarchy h) (WrapsSome h) (start n key) := by
  intro d d' outcome hM hRun
  cases outcome with
  | ok binding =>
    have hStarted := start_ok hM hRun
    exact fun hM => ⟨hStarted.marked.trans hM, [binding], .make hStarted.wrapped (.nothing _),
      fun _ hMem => hStarted.staged ▸ hMem⟩
  | error report =>
    have hRefused := start_error hM hRun
    exact .ofMarked hRefused.marked hRefused.user fun _ hMem => hRefused.staged ▸ hMem

theorem leads_runConverter {registration : ConverterRegistration} (hSeen : registration ∈ h.converters n)
    (text : String) (key : Key) :
    Leads (fun d => Marked d.hierarchy h) (WrapsSome h) (runConverter registration text key) := by
  intro d d' outcome _ hRun hM
  obtain ⟨hMarked, hStaged⟩ := marked_runConverter hM.wellFormed hRun
  refine ⟨hMarked.trans hM, [], .convert hSeen text key ?_, ?_⟩
  · simp only [runConverter] at hRun
    split at hRun <;> cases hRun <;> exact .nothing _
  · rw [hStaged, List.append_nil]
    exact List.Subset.refl _

theorem leads_checkUnclaimed (h : Hierarchy) (n : InjectorId) (key : Key) :
    Leads (fun d => Marked d.hierarchy h) (WrapsSome h) (checkUnclaimed n key) := by
  intro d d' outcome hM hRun
  cases outcome with
  | ok =>
    obtain ⟨rfl, -, -⟩ := checkUnclaimed_ok hRun
    exact (course_wrapsSome h).refl d'
  | error report =>
    obtain ⟨rfl, -⟩ := checkUnclaimed_error hRun
    exact .ofMarked (.refl hM.wellFormed) rfl (List.Subset.refl _)

/-- What is staged in no scope is not wrapped. -/
theorem leads_stage_bare (h : Hierarchy) (n : InjectorId) (key : Key) (strategy : Strategy) (source : Source)
    (origin : Origin) :
    Leads (fun d => Marked d.hierarchy h) (WrapsSome h) (stage n key strategy none source origin) := by
  intro d d' outcome hM hRun _
  have hMade := marked_makeBinding hM.wellFormed key strategy none source origin n
  have hWrapped := wrappedIn_makeBinding (foundBy_none (h.nearestScope n)) d.hierarchy key strategy source origin
  cases hRun
  exact ⟨hMade.trans hM, [_], .make hWrapped (.nothing _), Draft.staged_snoc .. ▸ List.Subset.refl _⟩

/-- A conversion calls one converter at most, and what it makes is in no scope. -/
theorem leads_convert {conversion : Conversion} (hConversion : conversion? h n key = some conversion) :
    Leads (fun d => Marked d.hierarchy h) (WrapsSome h) (convert conversion n key) := by
  have hC := course_wrapsSome h
  rcases convert_cases conversion n key with ⟨registration, hOne, hEq⟩ | ⟨report, hEq⟩
  · have hSeen : registration ∈ h.converters n := by
      obtain ⟨-, -, hAccepting, -⟩ := conversion?_eq_some_iff.mp hConversion
      rw [hOne] at hAccepting
      exact List.mem_of_mem_filter (hAccepting ▸ List.mem_singleton_self registration)
    rw [hEq]
    refine (leads_runConverter hSeen conversion.text key).bind hC fun value => ?_
    exact (leads_checkUnclaimed h n key).bind hC fun _ => leads_stage_bare h n key _ _ _
  · rw [hEq]
    exact leads_ofExcept hC (.error report)

theorem searching_wrapsSome (h : Hierarchy) :
    Searching (fun s => Marked s.1.hierarchy h) fun s s' => WrapsSome h s.1 s'.1 where
  refl s := (course_wrapsSome h).refl s.1
  trans := (course_wrapsSome h).trans
  stays := (course_wrapsSome h).stays
  start n key := (leads_iff_of_tells (tells_making (start n key))).mpr (leads_start h n key)
  convert {n key conversion s s' outcome} hM hConversion hRun := by
    rw [hM.core.sameShape.conversion?] at hConversion
    exact leads_convert hConversion s.1 s'.1 outcome hM ((tells_making (convert conversion n key)).run hRun)
  takeBack height failed hSome := fun hM => by
    obtain ⟨hM', made, hWraps, hStaged⟩ := hSome hM
    refine ⟨hM', made, hWraps, fun binding hMem => hStaged ?_⟩
    rw [Draft.staged, List.map_take] at hMem
    exact List.mem_of_mem_take hMem

/-- Whatever a search makes is wrapped by the nearest scopes. -/
theorem leads_locate (h : Hierarchy) (fuel : Nat) (n : InjectorId) (key : Key) :
    Leads (fun d => Marked d.hierarchy h) (WrapsSome h) (locate fuel n key) :=
  (leads_iff_of_tells (tells_locateNoted fuel n key)).mp (leads_locateNoted (searching_wrapsSome h) fuel n key)

end Placement

namespace Hierarchy

variable {h h' : Hierarchy} {n p : InjectorId} {key wanted : Key} {binding : Binding} {outcome : Except Report Binding}
  {parent : Option InjectorId} {module : Module} {explicitOnly : Bool}
  {scopes : Table ScopeTag ScopeRegistration} {accepted : List Accepted}

-- ---------------------------------------------------------------------------
-- What a resolution makes
-- ---------------------------------------------------------------------------

theorem wrapsNearest_of_resolve (hW : h.WellFormed) (hn : h.isLive n = true)
    (hRun : h.resolve n wanted = some (outcome, h')) : WrapsNearest h h' := by
  cases hLookup : h.lookup n wanted with
  | some found =>
    rw [resolve_of_lookup hLookup] at hRun
    cases hRun
    exact .ofNothing rfl fun _ _ _ hb => hb
  | none =>
    have hShape := (wellFormed_resolve hW hn hRun).2.1
    obtain ⟨d, hLocate, rfl⟩ := (resolve_of_lookup_eq_none hLookup).mp hRun
    obtain ⟨hMarked, made, hWraps, hStaged⟩ :=
      leads_locate h _ n wanted { hierarchy := h } d outcome (.refl hW) hLocate (.refl hW)
    refine ⟨made, ?_, fun m key binding hb => ?_⟩
    · have hUser : (settle outcome d).user = d.hierarchy.user := by
        cases outcome with
        | error report => rfl
        | ok result =>
          obtain ⟨injectors, hEq⟩ := publish_eq d
          rw [settle, hEq]
      rw [hUser]
      exact hShape.wraps hWraps
    · cases outcome with
      | error report =>
        rw [settle, hMarked.core.binding?] at hb
        exact Or.inl hb
      | ok result =>
        obtain ⟨hF, -⟩ := (locates hW.rooted n _).ok self_mem_path (fits_start hW n) hLocate
        obtain ⟨-, -, -, hBindings⟩ := publish_spec hW hn hF
        exact ((hBindings m key binding).mp hb).imp_right fun hNew => hStaged hNew.1

-- ---------------------------------------------------------------------------
-- What a tag means for a new injector
-- ---------------------------------------------------------------------------

/-- A new injector has the scopes with which it is adopted. -/
theorem scopes_adopt (h : Hierarchy) (parent : Option InjectorId) (explicitOnly : Bool) (module : Module)
    (scopes : Table ScopeTag ScopeRegistration) (accepted : List Accepted) (tag : ScopeTag) :
    ((h.adopt parent explicitOnly module scopes accepted).2.injector? h.nextInjector).bind (·.scopes.get? tag) =
      scopes.get? tag := by
  simp only [adopt, foldl_claim_bindAll]
  refine ((sameShape_foldl_announce _ _).bind (f := (·.scopes.get? tag)) (fun _ => rfl) _).trans ?_
  rw [injector?, Table.get?_insert_self, Option.bind_some, newInjector]

/-- For a new injector, a tag means the first registration of its module, or else what it means for the parent. A root
has the singleton before all others. -/
theorem nearestScope_create (hW : h.WellFormed) (hLive : ∀ p, parent = some p → h.isLive p = true)
    (hRun : h.create parent module explicitOnly = (.ok n, h')) (tag : ScopeTag) :
    h'.nearestScope n tag =
      ((ownScopes parent.isNone module).find? (·.tag = tag)).or (parent.bind fun p => h.nearestScope p tag) := by
  obtain ⟨findings, checked, -, -, -, -, hAdopted⟩ := exists_findings_of_create hW hRun
  have hOwn : (h'.injector? n).bind (·.scopes.get? tag) = (ownScopes parent.isNone module).find? (·.tag = tag) := by
    have hScopes := scopes_adopt checked parent explicitOnly module
      (firstRegistrations (scopeGroups parent.isNone module.scopes)) findings.accepted tag
    have hNext : n = checked.nextInjector := (congrArg Prod.fst hAdopted).symm
    rw [hAdopted, ← hNext] at hScopes
    rw [hScopes, scopeGroups_eq, get?_firstRegistrations]
  obtain ⟨-, hLineage, -⟩ := create_adds hW hLive hRun
  have hStep := step_of_create hLive hRun
  have hW' := hStep.wellFormed hW
  rw [nearestScope]
  cases parent with
  | none =>
    rw [nearest, path, hLineage, Option.elim_none, List.findSome?_singleton, hOwn, Option.bind_none, Option.or_none]
  | some p =>
    have hUp := nearest_of_lineage (f := (·.scopes.get? tag)) hW'.rooted hLineage
    have hKept := (hStep.continues hW).sameShapeOn hW.rooted hW'.rooted (hLive p rfl)
      (hW'.rooted.isLive_ancestor (hLineage ▸ List.mem_cons_self : p ∈ h'.lineage n))
    rw [hUp, hOwn, Option.bind_some, ← hKept.nearestScope self_mem_path]
    rfl

-- ---------------------------------------------------------------------------
-- What a creation makes
-- ---------------------------------------------------------------------------

/-- What is found for a declaration is registered by the module, or above it. -/
theorem foundBy_resolveScope (hW : h.WellFormed) (scopes : Table ScopeTag ScopeRegistration)
    (parent : Option InjectorId) (declaration : Declaration) :
    FoundBy (fun tag => (scopes.get? tag).or (parent.bind fun p => h.nearestScope p tag))
      (resolveScope scopes parent declaration h).1.2 := by
  intro pair hMem
  unfold resolveScope at hMem
  split at hMem
  · cases hMem
  · next tag _ =>
    have hFound := scopeFor_fst hW scopes parent tag
    split at hMem
    · next registration _ hScope =>
      rw [hScope] at hFound
      cases hMem
      exact ⟨registration, hFound.symm, rfl⟩
    · cases hMem

/-- The scopes of what is accepted were found so. -/
theorem foundBy_checkKey {find : ScopeTag → Option ScopeRegistration} (hW : h.WellFormed)
    (hFind : ∀ tag, find tag = (scopes.get? tag).or (parent.bind fun p => h.nearestScope p tag)) {findings : Findings}
    (hFound : ∀ one ∈ findings.accepted, FoundBy find one.scope) (group : List Declaration) :
    ∀ one ∈ (checkKey scopes parent findings h group).1.accepted, FoundBy find one.scope := by
  match group with
  | [] => exact hFound
  | [declaration] =>
    rw [checkKey]
    cases conflict h parent declaration with
    | some report => exact hFound
    | none =>
      intro one hOne
      rcases List.mem_append.mp hOne with hOld | hNew
      · exact hFound one hOld
      · obtain rfl := List.mem_singleton.mp hNew
        rw [funext hFind]
        exact foundBy_resolveScope hW scopes parent declaration
  | _ :: _ :: _ => exact hFound

theorem foundBy_checkBindings (hW : h.WellFormed) (scopes : Table ScopeTag ScopeRegistration)
    (parent : Option InjectorId) (declarations : List Declaration) :
    ∀ one ∈ (checkBindings scopes parent declarations h).1.accepted,
      FoundBy (fun tag => (scopes.get? tag).or (parent.bind fun p => h.nearestScope p tag)) one.scope := by
  generalize hFind : (fun tag => (scopes.get? tag).or (parent.bind fun p => h.nearestScope p tag)) = find
  -- the checks leave marks, which do not matter for what is found next
  have hGroups : ∀ (groups : List (List Declaration)) (found : Findings × Hierarchy), Marked found.2 h →
      (∀ one ∈ found.1.accepted, FoundBy find one.scope) →
      ∀ one ∈ (groups.foldl (fun found group => checkKey scopes parent found.1 found.2 group) found).1.accepted,
        FoundBy find one.scope := by
    intro groups
    induction groups with
    | nil => exact fun _ _ hFound => hFound
    | cons group rest ih =>
      intro found hMarked hFound
      have hSame : ∀ tag, find tag = (scopes.get? tag).or (parent.bind fun p => found.2.nearestScope p tag) :=
        fun tag => by simp only [← hFind, hMarked.core.sameShape.nearestScope]
      exact ih _ ((checkKey_spec hMarked.wellFormed scopes parent found.1 group).1.trans hMarked)
        (foundBy_checkKey hMarked.wellFormed hSame hFound group)
  exact hGroups _ ({}, h) (.refl hW) fun _ hOne => absurd hOne List.not_mem_nil

theorem user_checkBindings (scopes : Table ScopeTag ScopeRegistration) (parent : Option InjectorId)
    (declarations : List Declaration) (h : Hierarchy) : (checkBindings scopes parent declarations h).2.user = h.user := by
  obtain ⟨injectors, hEq⟩ := checkBindings_snd scopes parent declarations h
  rw [hEq]

/-- Bindings that are made in the nearest scopes of their owner are wrapped by them, one after the other. -/
theorem wraps_bindAll (hFound : ∀ one ∈ accepted, FoundBy (h.nearestScope n) one.scope) (h₀ : Hierarchy) :
    h.Wraps h₀.user (bindAll n accepted h₀).1 (bindAll n accepted h₀).2.user := by
  induction accepted generalizing h₀ with
  | nil => exact .nothing _
  | cons one rest ih =>
    refine .make (wrappedIn_makeBinding (hFound one List.mem_cons_self) h₀ _ _ _ _) ?_
    exact ih (fun other hMem => hFound other (List.mem_cons_of_mem one hMem)) _

/-- Adopting an injector calls user code only to make its bindings. -/
theorem user_adopt (h : Hierarchy) (parent : Option InjectorId) (explicitOnly : Bool) (module : Module)
    (scopes : Table ScopeTag ScopeRegistration) (accepted : List Accepted) :
    (h.adopt parent explicitOnly module scopes accepted).2.user =
      (bindAll h.nextInjector accepted { h with nextInjector := h.nextInjector + 1 }).2.user := by
  simp only [adopt, foldl_claim_bindAll, hold]
  generalize bindAll h.nextInjector accepted { h with nextInjector := h.nextInjector + 1 } = made
  obtain ⟨bindings, h₁⟩ := made
  dsimp only
  obtain ⟨injectors, hEq⟩ := foldl_eq_of_injectors announce_eq bindings _
  rw [hEq]
  rfl

/-- All that is made for a new injector is wrapped, but for its own binding, which is in no scope. -/
theorem wraps_bindingsFor (hFound : ∀ one ∈ accepted, FoundBy (h'.nearestScope h.nextInjector) one.scope) :
    h'.Wraps h.user (h.bindingsFor accepted)
      (bindAll h.nextInjector accepted { h with nextInjector := h.nextInjector + 1 }).2.user := by
  refine (wraps_bindAll hFound { h with nextInjector := h.nextInjector + 1 }).trans (.make ?_ (.nothing _))
  exact wrappedIn_makeBinding (foundBy_none _) _ _ _ _ _

theorem wrapsNearest_of_create_ok (hW : h.WellFormed) (hLive : ∀ p, parent = some p → h.isLive p = true)
    (hRun : h.create parent module explicitOnly = (.ok n, h')) : WrapsNearest h h' := by
  obtain ⟨findings, checked, hCheck, hMarked, hNodup, hConflict, hAdopted⟩ := exists_findings_of_create hW hRun
  have hFound := foundBy_checkBindings hW (firstRegistrations (scopeGroups parent.isNone module.scopes)) parent
    module.bindings
  have hUser := user_adopt checked parent explicitOnly module
    (firstRegistrations (scopeGroups parent.isNone module.scopes)) findings.accepted
  obtain ⟨made, injector, bindings, hMade, hA, -, -, hBindings, hAdopt⟩ :=
    adopt_eq explicitOnly module (firstRegistrations (scopeGroups parent.isNone module.scopes)) hMarked.wellFormed
      (fun p hp => by rw [hMarked.core.isLive]; exact hLive p hp) hNodup hConflict
  have hBefore := user_checkBindings (firstRegistrations (scopeGroups parent.isNone module.scopes)) parent
    module.bindings h
  rw [hCheck] at hFound hBefore
  rw [hAdopted] at hUser
  have hNext : n = checked.nextInjector := (congrArg Prod.fst hAdopted).symm
  have hNearest : h'.nearestScope checked.nextInjector = fun tag =>
      ((firstRegistrations (scopeGroups parent.isNone module.scopes)).get? tag).or
        (parent.bind fun p => h.nearestScope p tag) := by
    funext tag
    rw [← hNext, nearestScope_create hW hLive hRun, scopeGroups_eq, get?_firstRegistrations]
  refine ⟨checked.bindingsFor findings.accepted, ?_, fun m key binding hb => ?_⟩
  · rw [hUser, ← hBefore]
    refine wraps_bindingsFor fun one hOne => ?_
    rw [hNearest]
    exact hFound one hOne
  · rw [hAdopted, Prod.mk.injEq] at hAdopt
    rw [hAdopt.2, binding?_adopted hMade.wellFormed.toConsistent hA, hMade.core.binding?, hMarked.core.binding?] at hb
    split at hb
    · rw [hBindings]
      exact Or.inr ((hA.binding?_iff binding).mp hb).1
    · exact Or.inl hb

/-- Whether it succeeds or fails, a creation wraps nothing but by the nearest scopes. -/
theorem wrapsNearest_create (hW : h.WellFormed) (hLive : ∀ p, parent = some p → h.isLive p = true) :
    WrapsNearest h (h.create parent module explicitOnly).2 := by
  cases hRun : h.create parent module explicitOnly with
  | mk outcome h' =>
    cases outcome with
    | ok n => exact wrapsNearest_of_create_ok hW hLive hRun
    | error reports =>
      have hMarked := create_error hW hRun
      refine .ofNothing ?_ fun m key binding hb => hMarked.core.binding? m key ▸ hb
      simp only [create] at hRun
      split at hRun
      · cases hRun
      · rw [Prod.mk.injEq] at hRun
        rw [← hRun.2, user_checkBindings]

-- ---------------------------------------------------------------------------
-- What is owned in the course of time
-- ---------------------------------------------------------------------------

/-- Whatever an injector owns was wrapped by the nearest scope. -/
def AllWrapped (h : Hierarchy) : Prop :=
  ∀ p key binding, h.binding? p key = some binding → ∃ before after, h.WrappedIn binding before after

theorem WrapsNearest.exists_wrappedIn (hWraps : WrapsNearest h h') (hb : h'.binding? p key = some binding) :
    h.binding? p key = some binding ∨ ∃ before after, h'.WrappedIn binding before after := by
  obtain ⟨made, hMade, hOwned⟩ := hWraps
  exact (hOwned p key binding hb).imp_right hMade.exists_wrappedIn

/-- What an injector owns after a step it has owned before, or it is wrapped. -/
theorem Step.exists_wrappedIn (hW : h.WellFormed) (hStep : Step h h') (hb : h'.binding? p key = some binding) :
    h.binding? p key = some binding ∨ ∃ before after, h'.WrappedIn binding before after := by
  cases hStep with
  | create hLive => exact (wrapsNearest_create hW hLive).exists_wrappedIn hb
  | resolve hLive hRun => exact (wrapsNearest_of_resolve hW hLive hRun).exists_wrappedIn hb
  | act user => exact Or.inl hb
  | keep number height value => exact Or.inl hb
  | findScope n tag =>
    rw [(marked_findScope hW n tag).core.binding?] at hb
    exact Or.inl hb
  | make key strategy scope source origin n => exact Or.inl hb
  | hold hLive => exact Or.inl hb
  | release n =>
    rw [binding?_release hW (isLive_of_binding? hb)] at hb
    exact Or.inl hb
  | holdBinding number => exact Or.inl hb

theorem Step.allWrapped (hW : h.WellFormed) (hAll : h.AllWrapped) (hStep : Step h h') : h'.AllWrapped := by
  intro p key binding hb
  rcases hStep.exists_wrappedIn hW hb with hOld | hNew
  · -- an owner that lives on sees the scopes that it has seen
    have hW' := hStep.wellFormed hW
    obtain rfl := (hW.binding? hOld).2.1
    obtain ⟨before, after, hWrapped⟩ := hAll _ key binding hOld
    have hShape := (hStep.continues hW).sameShapeOn hW.rooted hW'.rooted (isLive_of_binding? hOld)
      (isLive_of_binding? hb)
    exact ⟨before, after, hShape.wrappedIn self_mem_path hWrapped⟩
  · exact hNew

theorem Reachable.allWrapped (hReach : Reachable h) : h.AllWrapped := by
  induction hReach with
  | refl =>
    intro p key binding hb
    cases hb
  | tail hBefore hStep ih => exact hStep.allWrapped (Reachable.wellFormed hBefore) ih

/-- What a tag means for an injector, it means as long as the injector lives. -/
theorem nearestScope_steps (hW : h.WellFormed) (hSteps : Steps h h') (hn : h.isLive n = true)
    (hn' : h'.isLive n = true) (tag : ScopeTag) : h'.nearestScope n tag = h.nearestScope n tag :=
  ((hSteps.continues hW).sameShapeOn hW.rooted (hSteps.wellFormed hW).rooted hn hn').nearestScope self_mem_path tag

/-- In every reachable state, whatever injectors remember of their ancestors:

* the search for a scope finds what the walk along the path finds;
* a binding that an injector owns in a scope was wrapped by the one that is nearest to the injector;
* a creation wraps by the nearest scopes only, and for the injector that it creates, a tag means what its module
  registers first, or else what it means for the parent, as long as the injector lives;
* a resolution wraps by the nearest scopes only, each time by that of the injector that is to own the binding, wherever
  the key was asked for. -/
theorem wrapped_in_nearest_scope (hReach : Reachable h) :
    (∀ n tag, (h.findScope n tag).1 = h.nearestScope n tag) ∧
    (∀ p tag, ∀ binding ∈ h.bindings p, binding.scope = some tag → ∃ registration before after,
      h.nearestScope p tag = some registration ∧
        registration.scope.wrap binding.key before = (binding.layers, after)) ∧
    (∀ parent module explicitOnly, (∀ p, parent = some p → h.isLive p = true) →
      WrapsNearest h (h.create parent module explicitOnly).2 ∧
      ∀ n h₁ h₂ tag, h.create parent module explicitOnly = (.ok n, h₁) → Steps h₁ h₂ → h₂.isLive n = true →
        h₂.nearestScope n tag =
          ((ownScopes parent.isNone module).find? (·.tag = tag)).or (parent.bind fun p => h.nearestScope p tag)) ∧
    ∀ n key outcome h', h.isLive n = true → h.resolve n key = some (outcome, h') → WrapsNearest h h' := by
  have hW := hReach.wellFormed
  refine ⟨findScope_fst hW.rooted hW.caches, fun p tag binding hMem hTag => ?_,
    fun parent module explicitOnly hLive => ⟨wrapsNearest_create hW hLive, ?_⟩,
    fun n key outcome h' hn hRun => wrapsNearest_of_resolve hW hn hRun⟩
  · obtain ⟨injector, hp, hOwn⟩ := exists_of_mem_bindings hMem
    have hb := hW.binding?_of_mem_bindings hp hOwn
    obtain rfl := (hW.binding? hb).2.1
    obtain ⟨before, after, hWrapped⟩ := hReach.allWrapped _ _ _ hb
    obtain ⟨registration, hNearest, hWrap⟩ := hWrapped.wrapped tag hTag
    exact ⟨registration, before, after, hNearest, hWrap⟩
  · intro n h₁ h₂ tag hRun hSteps hn
    have hW₁ := (step_of_create hLive hRun).wellFormed hW
    have hCreated : h₁.isLive n = true := hW₁.rooted.held (Provision.holds_create hW hLive hRun ▸ List.mem_cons_self)
    rw [nearestScope_steps hW₁ hSteps hCreated hn, nearestScope_create hW hLive hRun]

/-- A root and a child that register a scope for the same tag. The root declares `A` in the scope, and the child binds
`B` in it. Each of the scopes logs that it is applied. -/
def overlap : Hierarchy :=
  let tag := ScopeTag.named "s"
  let logging (name : String) : Scope := ⟨name, fun key user => ([.once], user.log (name ++ " " ++ key.inspect))⟩
  let declare (name : String) (code : Nat) : Declaration :=
    ⟨.of ⟨code, name⟩, .constructed ⟨[], fun _ => .finish (.ok (.made 0 ⟨code, name⟩ (.primitive "")))⟩, some tag,
      .builtin⟩
  let root := create none ⟨[], [declare "A" 10], [⟨tag, logging "outer", .builtin⟩], [], []⟩ false {}
  (root.2.create (some 0) ⟨[declare "B" 11], [], [⟨tag, logging "inner", .builtin⟩], [], []⟩ false).2

theorem reachable_overlap : Reachable overlap := by
  refine .tail (.single (.create ?_)) (.create ?_) <;> rintro p ⟨⟩
  rfl

/-- The child asks for `A`, which is created in the root: by the outer scope, though a tag means the inner one where it
was asked for. `B` is in the inner scope. -/
theorem wrapped_in_nearest_scope_in_overlap :
    let a := Key.of ⟨10, "A"⟩
    let b := Key.of ⟨11, "B"⟩
    let tag := ScopeTag.named "s"
    let h := overlap
    let h' := (resolve 1 a).after h
    Reachable h' ∧ (h'.nearestScope 0 tag).map (·.scope.name) = some "outer" ∧
      (h'.nearestScope 1 tag).map (·.scope.name) = some "inner" ∧
      (h'.findScope 1 tag).1 = h'.nearestScope 1 tag ∧ WrapsNearest h h' ∧
      (∃ binding ∈ h'.bindings 0, binding.key = a ∧ binding.origin = .justInTime ∧ binding.scope = some tag ∧
        ∃ registration before after, h'.nearestScope 0 tag = some registration ∧
          registration.scope.wrap a before = (binding.layers, after)) ∧
      h'.user.events = ["inner " ++ b.inspect, "outer " ++ a.inspect] := by
  intro a b tag h h'
  have hLive : h.isLive 1 = true := by decide +kernel
  obtain ⟨result, hRun⟩ : ∃ result, h.resolve 1 a = some (.ok result, h') := Run.exists_ok_after (by decide +kernel)
  have hReach : Reachable h' := reachable_overlap.tail (.resolve hLive hRun)
  have hThere : (a, Origin.justInTime, some tag) ∈
      (h'.bindings 0).map fun binding => (binding.key, binding.origin, binding.scope) := by decide +kernel
  obtain ⟨binding, hMem, hBinding⟩ := List.mem_map.mp hThere
  simp only [Prod.mk.injEq] at hBinding
  obtain ⟨hKey, hOrigin, hScope⟩ := hBinding
  obtain ⟨hFound, hWrapped, -⟩ := wrapped_in_nearest_scope hReach
  refine ⟨hReach, by decide +kernel, by decide +kernel, hFound 1 tag, ?_, ⟨binding, hMem, hKey, hOrigin, hScope, ?_⟩,
    by decide +kernel⟩
  · exact (wrapped_in_nearest_scope reachable_overlap).2.2.2 1 a (.ok result) h' hLive hRun
  · rw [← hKey]
    exact hWrapped 0 tag binding hMem hScope

end Hierarchy

end InjectorTree
