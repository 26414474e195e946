import InjectorTree.Proofs.Continuity
import InjectorTree.Proofs.Journal.Notes
import InjectorTree.Proofs.Leading
import InjectorTree.Proofs.Reports

/-!
# Bindings that are made

A search makes bindings as it goes, and takes some of them back; what it publishes in the end belongs to its owners. A
creation makes bindings when nothing stands against the module any more, and all of them belong to the new injector.

* `Placement.locateNoted`, `Hierarchy.resolveNoted`, `Hierarchy.createNoted`: searches, resolutions and creations with
  notes of the bindings they make, and of those that come to belong to their owners.
* `Placement.Searching`: what has to be shown of a relation, so that searches lead along it;
  `Placement.leads_locateNoted` says that this is enough, by induction on how deeply attempts are nested.
* `Placement.Stages`: what a search notes.
* `Hierarchy.resolveNoted_spec`, `Hierarchy.createNoted_spec`: what resolutions and creations note, and how that agrees
  with the bindings that there are afterwards.
-/

namespace InjectorTree

open Hierarchy Run

-- ---------------------------------------------------------------------------
-- Searches with notes
-- ---------------------------------------------------------------------------

namespace Placement

/-- The run, with an entry about the binding that it has made at its end. -/
def making (x : Run Draft Binding) : Run (Draft × Journal) Binding := do
  let binding ← quietly x
  note (.made binding)
  return binding

variable (locate' : InjectorId → Key → Run (Draft × Journal) Binding)

/-- `supply` with notes. -/
def supplyNoted (binding : Binding) : Run (Draft × Journal) (List Binding) :=
  forEach
    (fun dependency =>
      within (.at binding.source) (within (.locating dependency) (locate' binding.owner dependency)))
    binding.strategy.dependencies

/-- `createAt` with notes. The binding is made before what it depends on is located. -/
def createAtNoted (n : InjectorId) (key : Key) : Run (Draft × Journal) Binding := do
  let binding ← making (start n key)
  let _ ← supplyNoted locate' binding
  return binding

/-- `attempt` with notes. What is taken back was made all the same. -/
def attemptNoted (n : InjectorId) (key : Key) : Run (Draft × Journal) Binding := fun s =>
  match createAtNoted locate' n key s with
  | none => none
  | some (.ok binding, s') => some (.ok binding, s')
  | some (.error report, d', journal) =>
    some (.error report,
      { d' with
        pending := d'.pending.take s.1.pending.length
        failed := if d'.conflicts = s.1.conflicts then (n, key) :: d'.failed else d'.failed }, journal)

/-- `place` with notes. -/
def placeNoted (n : InjectorId) (key : Key) : List InjectorId → Run (Draft × Journal) Binding
  | [] => attemptNoted locate' n key
  | candidate :: candidates => fun s =>
    if s.1.failed.contains (candidate, key) then placeNoted n key candidates s
    else
      match attemptNoted locate' candidate key s with
      | none => none
      | some (.ok binding, s) => some (.ok binding, s)
      | some (.error _, s) => placeNoted n key candidates s

/-- `createOnDemand` with notes. -/
def createOnDemandNoted (n : InjectorId) (key : Key) : Run (Draft × Journal) Binding := fun s =>
  match conversion? s.1.hierarchy n key with
  | some conversion => making (convert conversion n key) s
  | none =>
    if s.1.hierarchy.isExplicitOnly n then some (.error (.of (.jitDisabled key)), s)
    else placeNoted locate' n key (s.1.hierarchy.lineage n).reverse s

/-- `locate` with notes. -/
def locateNoted : Nat → InjectorId → Key → Run (Draft × Journal) Binding
  | 0, _, _ => exhausted
  | fuel + 1, n, key => fun s =>
    match (s.1.hierarchy.lookup n key).or (s.1.lookup n key) with
    | some binding => some (.ok binding, s)
    | none => createOnDemandNoted (locateNoted fuel) n key s

section Telling

variable {locate : InjectorId → Key → Run Draft Binding} {locate' : InjectorId → Key → Run (Draft × Journal) Binding}

theorem tells_making (x : Run Draft Binding) : Tells (making x) x := by
  have hNoted := (tells_quietly x).bind fun binding => (tells_pure binding).noted (.made binding)
  rwa [bind_pure] at hNoted

variable (hLocate : ∀ n key, Tells (locate' n key) (locate n key)) (n : InjectorId) (key : Key)

include hLocate

theorem tells_createAtNoted : Tells (createAtNoted locate' n key) (createAt locate n key) := by
  rw [createAt_eq]
  refine (tells_making (start n key)).bind fun binding => ?_
  refine (tells_forEach (fun dependency => ?_) binding.strategy.dependencies).bind fun _ => tells_pure binding
  exact ((hLocate binding.owner dependency).within _).within _

theorem tells_attemptNoted : Tells (attemptNoted locate' n key) (attempt locate n key) := by
  intro d journal
  have hMatch := tells_createAtNoted hLocate n key d journal
  unfold attempt attemptNoted
  generalize createAt locate n key d = ends at hMatch ⊢
  generalize createAtNoted locate' n key (d, journal) = ends' at hMatch ⊢
  cases hMatch with
  | endless => exact .endless
  | error hSame =>
    cases hSame
    exact .error rfl
  | ok hValue hSame =>
    cases hValue
    exact .ok rfl hSame

theorem tells_placeNoted (candidates : List InjectorId) :
    Tells (placeNoted locate' n key candidates) (place locate n key candidates) := by
  induction candidates with
  | nil => exact tells_attemptNoted hLocate n key
  | cons candidate rest ih =>
    intro d journal
    have hMatch := tells_attemptNoted hLocate candidate key d journal
    unfold place placeNoted
    by_cases hFailed : (candidate, key) ∈ d.failed
    · rw [if_pos hFailed, if_pos (List.contains_iff_mem.mpr hFailed)]
      exact ih d journal
    · rw [if_neg hFailed, if_neg (mt List.contains_iff_mem.mp hFailed)]
      generalize attempt locate candidate key d = ends at hMatch ⊢
      generalize attemptNoted locate' candidate key (d, journal) = ends' at hMatch ⊢
      cases hMatch with
      | endless => exact .endless
      | @error report d₁ s₁ hSame =>
        obtain ⟨d₁, journal₁⟩ := s₁
        cases hSame
        exact ih d₁ journal₁
      | ok hValue hSame =>
        cases hValue
        exact .ok rfl hSame

theorem tells_createOnDemandNoted : Tells (createOnDemandNoted locate' n key) (createOnDemand locate n key) := by
  intro d journal
  unfold createOnDemand createOnDemandNoted
  dsimp only
  cases conversion? d.hierarchy n key with
  | some conversion => exact tells_making (convert conversion n key) d journal
  | none =>
    dsimp only
    split
    · exact .error rfl
    · exact tells_placeNoted hLocate n key _ d journal

end Telling

/-- A search with notes is the search. -/
theorem tells_locateNoted (fuel : Nat) (n : InjectorId) (key : Key) :
    Tells (locateNoted fuel n key) (locate fuel n key) := by
  induction fuel generalizing n key with
  | zero => exact fun _ _ => .endless
  | succ fuel ih =>
    intro d journal
    unfold locate locateNoted
    dsimp only
    cases (d.hierarchy.lookup n key).or (d.lookup n key) with
    | some binding => exact .ok rfl rfl
    | none => exact tells_createOnDemandNoted ih n key d journal

-- ---------------------------------------------------------------------------
-- Where searches lead
-- ---------------------------------------------------------------------------

/-- A run with notes leads as the run does, where notes do not matter. -/
theorem leads_iff_of_tells {σ α : Type} {G : σ → Prop} {R : σ → σ → Prop} {x : Run σ α} {x' : Run (σ × Journal) α}
    (hx : Tells x' x) : Leads (fun s => G s.1) (fun s s' => R s.1 s'.1) x' ↔ Leads G R x := by
  constructor
  · intro hLeads s s' outcome hG hRun
    obtain ⟨journal, hNoted⟩ := hx.exists_run hRun []
    exact hLeads (s, []) (s', journal) outcome hG hNoted
  · intro hLeads s s' outcome hG hRun
    exact hLeads s.1 s'.1 outcome hG (hx.run hRun)

/-- What has to be shown of a relation, so that searches with notes lead along it: it can be followed, bindings are
started and converted along it, and what was staged may be taken back. -/
structure Searching (G : Draft × Journal → Prop) (R : Draft × Journal → Draft × Journal → Prop) : Prop
    extends Course G R where
  start : ∀ n key, Leads G R (making (start n key))
  convert : ∀ {n key conversion s s' outcome}, G s → conversion? s.1.hierarchy n key = some conversion →
    making (convert conversion n key) s = some (outcome, s') → R s s'
  takeBack : ∀ {s s'} (height : Nat) (failed : List (InjectorId × Key)), R s s' →
    R s ({ s'.1 with pending := s'.1.pending.take height, failed }, s'.2)

section Search

variable {G : Draft × Journal → Prop} {R : Draft × Journal → Draft × Journal → Prop}
  {locate' : InjectorId → Key → Run (Draft × Journal) Binding}
  (hS : Searching G R) (hLocate : ∀ n key, Leads G R (locate' n key))

include hS hLocate

theorem leads_attemptNoted (n : InjectorId) (key : Key) : Leads G R (attemptNoted locate' n key) := by
  have hC := hS.toCourse
  have hCreate : Leads G R (createAtNoted locate' n key) := by
    refine (hS.start n key).bind hC fun binding => ?_
    refine Leads.bind hC ?_ fun _ => leads_pure hC binding
    exact leads_forEach hC (fun dependency => ((hLocate binding.owner dependency).within _).within _)
      binding.strategy.dependencies
  intro s s' outcome hG hRun
  unfold attemptNoted at hRun
  split at hRun
  · cases hRun
  · next binding s₁ hOk =>
    cases hRun
    exact hCreate s s' _ hG hOk
  · next report d₁ journal₁ hFailed =>
    cases hRun
    exact hS.takeBack _ _ (hCreate s _ _ hG hFailed)

theorem leads_placeNoted (n : InjectorId) (key : Key) (candidates : List InjectorId) :
    Leads G R (placeNoted locate' n key candidates) := by
  induction candidates with
  | nil => exact leads_attemptNoted hS hLocate n key
  | cons candidate rest ih =>
    have hAttempt := leads_attemptNoted hS hLocate candidate key
    intro s s' outcome hG hRun
    unfold placeNoted at hRun
    split at hRun
    · exact ih s s' outcome hG hRun
    · split at hRun
      · cases hRun
      · next binding s₁ hOk =>
        cases hRun
        exact hAttempt s s' _ hG hOk
      · next report s₁ hFailed =>
        have hFirst := hAttempt s s₁ _ hG hFailed
        exact hS.trans hFirst (ih s₁ s' outcome (hS.stays hG hFirst) hRun)

theorem leads_createOnDemandNoted (n : InjectorId) (key : Key) : Leads G R (createOnDemandNoted locate' n key) := by
  intro s s' outcome hG hRun
  unfold createOnDemandNoted at hRun
  split at hRun
  · next conversion hConversion => exact hS.convert hG hConversion hRun
  · split at hRun
    · cases hRun
      exact hS.refl s
    · exact leads_placeNoted hS hLocate n key _ s s' outcome hG hRun

end Search

/-- A search with notes leads along the relation, by induction on how deeply attempts are nested. -/
theorem leads_locateNoted {G : Draft × Journal → Prop} {R : Draft × Journal → Draft × Journal → Prop}
    (hS : Searching G R) (fuel : Nat) (n : InjectorId) (key : Key) : Leads G R (locateNoted fuel n key) := by
  induction fuel generalizing n key with
  | zero =>
    intro s s' outcome _ hRun
    cases hRun
  | succ fuel ih =>
    intro s s' outcome hG hRun
    unfold locateNoted at hRun
    split at hRun
    · cases hRun
      exact hS.refl s
    · exact leads_createOnDemandNoted hS ih n key s s' outcome hG hRun

-- ---------------------------------------------------------------------------
-- What a search notes
-- ---------------------------------------------------------------------------

/-- The binding was created on demand, or it was converted, and then it is in no scope. -/
def OnDemand (binding : Binding) : Prop :=
  binding.origin = .justInTime ∨ binding.origin = .converted ∧ binding.scope = none

/-- The search has made the bindings, in the order of their numbers, and noted nothing else. Whatever it has staged in
addition is among them, in that order. -/
structure Stages (s : Draft × Journal) (made : List Binding) (s' : Draft × Journal) : Prop where
  entries : s'.2 = s.2 ++ made.map .made
  marked : Marked s'.1.hierarchy s.1.hierarchy
  staged : s'.1.staged.Sublist (s.1.staged ++ made)
  order : made.Pairwise fun first second => first.id < second.id
  older : ∀ binding ∈ made, s.1.hierarchy.nextBinding ≤ binding.id
  newer : ∀ binding ∈ made, binding.id < s'.1.hierarchy.nextBinding
  onDemand : ∀ binding ∈ made, OnDemand binding

namespace Stages

variable {s s' s'' : Draft × Journal} {made later : List Binding}

/-- Nothing was made. -/
theorem ofMarked (hMarked : Marked s'.1.hierarchy s.1.hierarchy) (hStaged : s'.1.staged.Sublist s.1.staged)
    (hSame : s'.2 = s.2) : Stages s [] s' where
  entries := by rw [hSame, List.map_nil, List.append_nil]
  marked := hMarked
  staged := by rwa [List.append_nil]
  order := List.Pairwise.nil
  older _ hMem := absurd hMem List.not_mem_nil
  newer _ hMem := absurd hMem List.not_mem_nil
  onDemand _ hMem := absurd hMem List.not_mem_nil

protected theorem trans (hS : Stages s made s') (hS' : Stages s' later s'') : Stages s (made ++ later) s'' where
  entries := by rw [hS'.entries, hS.entries, List.map_append, List.append_assoc]
  marked := hS'.marked.trans hS.marked
  staged := by
    rw [← List.append_assoc]
    exact hS'.staged.trans (hS.staged.append_right later)
  order := List.pairwise_append.mpr ⟨hS.order, hS'.order, fun first hFirst second hSecond =>
    Nat.lt_of_lt_of_le (hS.newer first hFirst) (hS'.older second hSecond)⟩
  older binding hMem := (List.mem_append.mp hMem).elim (hS.older binding) fun hLater =>
    Nat.le_trans hS.marked.nextBinding (hS'.older binding hLater)
  newer binding hMem := (List.mem_append.mp hMem).elim
    (fun hMade => Nat.lt_of_lt_of_le (hS.newer binding hMade) hS'.marked.nextBinding) (hS'.newer binding)
  onDemand binding hMem := (List.mem_append.mp hMem).elim (hS.onDemand binding) (hS'.onDemand binding)

end Stages

/-- The search stages bindings and notes that it has made them, or takes bindings back. -/
def StagesSome (s s' : Draft × Journal) : Prop :=
  s.1.hierarchy.WellFormed → ∃ made, Stages s made s'

/-- What was made is staged last, or nothing was made. -/
structure Makes (x : Run Draft Binding) : Prop where
  ok : ∀ {d d' : Draft} {binding : Binding}, d.hierarchy.WellFormed → x d = some (.ok binding, d') →
    Marked d'.hierarchy d.hierarchy ∧ d'.staged = d.staged ++ [binding] ∧ d.hierarchy.nextBinding ≤ binding.id ∧
      binding.id < d'.hierarchy.nextBinding ∧ OnDemand binding
  error : ∀ {d d' : Draft} {report : Report}, d.hierarchy.WellFormed → x d = some (.error report, d') →
    Marked d'.hierarchy d.hierarchy ∧ d'.staged = d.staged

theorem makes_start (n : InjectorId) (key : Key) : Makes (start n key) where
  ok hW hRun := by
    have hStarted := start_ok (.refl hW) hRun
    obtain ⟨declaration, -, hBuilt⟩ := hStarted.declaration
    exact ⟨hStarted.marked, hStarted.staged, hStarted.older, hStarted.newer, Or.inl hBuilt.origin⟩
  error hW hRun :=
    have hRefused := start_error (.refl hW) hRun
    ⟨hRefused.marked, hRefused.staged⟩

theorem makes_convert (conversion : Conversion) (n : InjectorId) (key : Key) :
    Makes (convert conversion n key) where
  ok {d d' binding} hW hRun := by
    rcases convert_cases conversion n key with ⟨registration, -, hEq⟩ | ⟨report, hEq⟩
    · rw [hEq] at hRun
      obtain ⟨value, d₁, hConvert, hRest⟩ := Run.bind_eq_ok_iff.mp hRun
      obtain ⟨_, d₂, hUnclaimed, hStage⟩ := Run.bind_eq_ok_iff.mp hRest
      obtain ⟨hMarked, hStaged⟩ := marked_runConverter hW hConvert
      obtain ⟨rfl, -, -⟩ := checkUnclaimed_ok hUnclaimed
      have hMade := marked_makeBinding hMarked.wellFormed key (.fixed value) none conversion.source .converted n
      cases hStage
      exact ⟨hMade.trans hMarked, by rw [Draft.staged_snoc, hStaged], hMarked.nextBinding, Nat.lt_succ_self _, Or.inr ⟨rfl, rfl⟩⟩
    · rw [hEq] at hRun
      cases hRun
  error {d d' report} hW hRun := by
    rcases convert_cases conversion n key with ⟨registration, -, hEq⟩ | ⟨report', hEq⟩
    · rw [hEq] at hRun
      rcases Run.bind_eq_error_iff.mp hRun with hConvert | ⟨value, d₁, hConvert, hRest⟩
      · exact marked_runConverter hW hConvert
      · obtain ⟨hMarked, hStaged⟩ := marked_runConverter hW hConvert
        rcases Run.bind_eq_error_iff.mp hRest with hUnclaimed | ⟨_, d₂, -, hStage⟩
        · obtain ⟨rfl, -⟩ := checkUnclaimed_error hUnclaimed
          exact ⟨hMarked, hStaged⟩
        · cases hStage
    · rw [hEq] at hRun
      cases hRun
      exact ⟨.refl hW, rfl⟩

theorem Makes.leads {x : Run Draft Binding} (hx : Makes x) :
    Leads (fun s => s.1.hierarchy.WellFormed) StagesSome (making x) := by
  rintro ⟨d, journal⟩ ⟨d', journal'⟩ outcome hW hRun -
  rcases Run.bind_eq_some_iff.mp hRun with ⟨binding, ⟨d₁, journal₁⟩, hQuiet, hRest⟩ | ⟨report, s₁, hQuiet, hEq⟩
  · obtain ⟨hMade, hSame⟩ := quietly_eq_some_iff.mp hQuiet
    cases hSame
    cases hRest
    obtain ⟨hMarked, hStaged, hOlder, hNewer, hOnDemand⟩ := hx.ok hW hMade
    refine ⟨[binding], rfl, hMarked, hStaged ▸ .refl _, List.pairwise_singleton _ _, ?_, ?_, ?_⟩
    · exact List.forall_mem_singleton.mpr hOlder
    · exact List.forall_mem_singleton.mpr hNewer
    · exact List.forall_mem_singleton.mpr hOnDemand
  · cases hEq
    obtain ⟨hMade, hSame⟩ := quietly_eq_some_iff.mp hQuiet
    obtain ⟨hMarked, hStaged⟩ := hx.error hW hMade
    exact ⟨[], .ofMarked hMarked (hStaged ▸ .refl _) hSame⟩

theorem searching_stagesSome : Searching (fun s => s.1.hierarchy.WellFormed) StagesSome where
  refl _ := fun hW => ⟨[], .ofMarked (.refl hW) (.refl _) rfl⟩
  trans hFirst hSecond := fun hW => by
    obtain ⟨made, hS⟩ := hFirst hW
    obtain ⟨later, hS'⟩ := hSecond hS.marked.wellFormed
    exact ⟨made ++ later, hS.trans hS'⟩
  stays hW hSome := by
    obtain ⟨made, hS⟩ := hSome hW
    exact hS.marked.wellFormed
  start n key := (makes_start n key).leads
  convert {n key conversion s s' outcome} hW _ hRun := (makes_convert conversion n key).leads s s' outcome hW hRun
  takeBack {s s'} height failed hSome := fun hW => by
    -- what was made stays in the journal, and what is staged becomes less
    obtain ⟨made, hS⟩ := hSome hW
    exact ⟨made, hS.entries, hS.marked, ((List.take_sublist _ _).map _).trans hS.staged, hS.order, hS.older, hS.newer,
      hS.onDemand⟩

end Placement

-- ---------------------------------------------------------------------------
-- Resolutions and creations with notes
-- ---------------------------------------------------------------------------

namespace Hierarchy

open Admission

/-- `resolve` with notes. What is published belongs to its owners from then on. -/
def resolveNoted (n : InjectorId) (key : Key) : Run (Hierarchy × Journal) Binding := fun s =>
  match s.1.lookup n key with
  | some binding => some (.ok binding, s)
  | none =>
    match Placement.locateNoted (Placement.depthBound s.1 n) n key ({ hierarchy := s.1 }, s.2) with
    | none => none
    | some (.ok binding, d, journal) => some (.ok binding, d.publish, journal ++ d.staged.map .owned)
    | some (.error report, d, journal) => some (.error report, d.hierarchy, journal)

/-- `create` with notes. All bindings that are made belong to the new injector. -/
def createNoted (parent : Option InjectorId) (module : Module) (explicitOnly : Bool) (s : Hierarchy × Journal) :
    Except (List Report) InjectorId × Hierarchy × Journal :=
  let groups := scopeGroups parent.isNone module.scopes
  let scopes := firstRegistrations groups
  let (findings, h) := checkBindings scopes parent module.bindings s.1
  let reports := scopeReports groups ++ findings.reports
  if reports.isEmpty then
    let made := h.bindingsFor findings.accepted
    let (n, h) := h.adopt parent explicitOnly module scopes findings.accepted
    (.ok n, h, s.2 ++ made.map .made ++ made.map .owned)
  else (.error reports, h, s.2)

theorem tells_resolveNoted (n : InjectorId) (key : Key) : Tells (resolveNoted n key) (fun h => resolve n key h) := by
  intro h journal
  have hMatch := Placement.tells_locateNoted (Placement.depthBound h n) n key { hierarchy := h } journal
  unfold resolve resolveNoted
  dsimp only
  cases h.lookup n key with
  | some binding => exact .ok rfl rfl
  | none =>
    dsimp only
    generalize Placement.locate (Placement.depthBound h n) n key { hierarchy := h } = ends at hMatch ⊢
    generalize Placement.locateNoted (Placement.depthBound h n) n key ({ hierarchy := h }, journal) = ends'
      at hMatch ⊢
    cases hMatch with
    | endless => exact .endless
    | error hSame =>
      cases hSame
      exact .error rfl
    | ok hValue hSame =>
      cases hSame
      exact .ok hValue rfl

/-- A creation with notes is the creation. -/
theorem create_of_noted {parent : Option InjectorId} {module : Module} {explicitOnly : Bool}
    {s s' : Hierarchy × Journal} {outcome : Except (List Report) InjectorId}
    (hRun : createNoted parent module explicitOnly s = (outcome, s')) :
    s.1.create parent module explicitOnly = (outcome, s'.1) := by
  unfold createNoted at hRun
  unfold create
  dsimp only at hRun ⊢
  split at hRun
  · next hNone =>
    rw [if_pos hNone]
    cases hRun
    rfl
  · next hSome =>
    rw [if_neg hSome]
    cases hRun
    rfl

-- ---------------------------------------------------------------------------
-- What they note
-- ---------------------------------------------------------------------------

/-- Some bindings were made, in the order of their numbers, and some of these belong to their owners from then on. What
does not was made on demand. -/
structure Adds (h : Hierarchy) (made owned : List Binding) (h' : Hierarchy) : Prop where
  nextBinding : h.nextBinding ≤ h'.nextBinding
  order : made.Pairwise fun first second => first.id < second.id
  older : ∀ binding ∈ made, h.nextBinding ≤ binding.id
  newer : ∀ binding ∈ made, binding.id < h'.nextBinding
  sublist : owned.Sublist made
  takenBack : ∀ binding ∈ made, binding ∈ owned ∨ Placement.OnDemand binding
  binding? : ∀ (m : InjectorId) (key : Key) (binding : Binding),
    h'.binding? m key = some binding ↔
      h.binding? m key = some binding ∨ binding ∈ owned ∧ binding.owner = m ∧ binding.key = key

variable {s s' : Hierarchy × Journal} {n : InjectorId} {key : Key}

/-- A resolution notes what it makes on demand, and then what it publishes; one that fails publishes nothing. -/
theorem resolveNoted_spec {outcome : Except Report Binding} (hW : s.1.WellFormed) (hn : s.1.isLive n = true)
    (hRun : resolveNoted n key s = some (outcome, s')) :
    ∃ made owned, s'.2 = s.2 ++ made.map .made ++ owned.map .owned ∧ Adds s.1 made owned s'.1 ∧
      (∀ binding ∈ made, Placement.OnDemand binding) ∧ ∀ report, outcome = .error report → owned = [] := by
  obtain ⟨h, journal⟩ := s
  have hTells := Placement.tells_locateNoted (Placement.depthBound h n) n key
  have hLeads := Placement.leads_locateNoted Placement.searching_stagesSome (Placement.depthBound h n) n key
    ({ hierarchy := h }, journal)
  have hLocates := Placement.locates hW.rooted n (Placement.depthBound h n)
  simp only [resolveNoted] at hRun
  split at hRun
  · cases hRun
    have hNothing : ∀ {P : Binding → Prop}, ∀ binding ∈ ([] : List Binding), P binding :=
      fun _ hMem => absurd hMem List.not_mem_nil
    exact ⟨[], [], by simp, ⟨Nat.le_refl _, .nil, hNothing, hNothing, .refl _, hNothing, by simp⟩, hNothing,
      fun _ _ => rfl⟩
  · split at hRun
    · cases hRun
    · next binding d journal' hLocate =>
      cases hRun
      obtain ⟨made, hS⟩ := hLeads _ _ hW hLocate hW
      obtain ⟨hF, -, -⟩ := hLocates.ok self_mem_path (fits_start hW n) (hTells.run hLocate)
      obtain ⟨-, -, hNext, hBindings⟩ := publish_spec hW hn hF
      refine ⟨made, d.staged, congrArg (· ++ d.staged.map .owned) hS.entries,
        ⟨hNext, hS.order, hS.older, ?_, hS.staged, fun other hMem => Or.inr (hS.onDemand other hMem), hBindings⟩,
        hS.onDemand, fun _ hError => nomatch hError⟩
      rw [nextBinding_publish]
      exact hS.newer
    · next report d journal' hLocate =>
      cases hRun
      obtain ⟨made, hS⟩ := hLeads _ _ hW hLocate hW
      refine ⟨made, [], ?_, ⟨hS.marked.nextBinding, hS.order, hS.older, hS.newer, List.nil_sublist _,
        fun other hMem => Or.inr (hS.onDemand other hMem), fun m key other => ?_⟩, hS.onDemand, fun _ _ => rfl⟩
      · rw [List.map_nil, List.append_nil]
        exact hS.entries
      · rw [hS.marked.core.binding?]
        simp

/-- The binding is made as it was declared, for an injector. -/
structure DeclaredFor (n : InjectorId) (declaration : Declaration) (binding : Binding) : Prop
    extends DeclaredBy declaration binding where
  scope : binding.scope = declaration.scope
  owner : binding.owner = n
  origin : binding.origin = .explicit

theorem forall₂_bindAll (owner : InjectorId) {accepted : List Accepted}
    (hScopes : ∀ one ∈ accepted, one.scope.map Prod.fst = one.declaration.scope) (h : Hierarchy) :
    List.Forall₂ (DeclaredFor owner) (accepted.map (·.declaration)) (bindAll owner accepted h).1 := by
  induction accepted generalizing h with
  | nil => exact .nil
  | cons one rest ih =>
    refine .cons ⟨⟨rfl, rfl, rfl⟩, hScopes one List.mem_cons_self, rfl, rfl⟩ ?_
    exact ih (fun other hMem => hScopes other (List.mem_cons_of_mem one hMem)) _

theorem owner_of_declaredFor {declarations : List Declaration} {bindings : List Binding}
    (hDeclared : List.Forall₂ (DeclaredFor n) declarations bindings) : ∀ binding ∈ bindings, binding.owner = n := by
  induction hDeclared with
  | nil => exact fun _ hMem => absurd hMem List.not_mem_nil
  | cons hFirst _ ih => exact List.forall_mem_cons.mpr ⟨hFirst.owner, ih⟩

/-- The bindings for a new injector are made in the order of their numbers. -/
theorem pairwise_bindingsFor (h : Hierarchy) (accepted : List Accepted) :
    (h.bindingsFor accepted).Pairwise fun first second => first.id < second.id := by
  obtain ⟨bindings, last, user, hBind, hMade⟩ :=
    bindAll_spec h.nextInjector accepted { h with nextInjector := h.nextInjector + 1 }
  simp only [bindingsFor, hBind]
  refine List.pairwise_append.mpr ⟨hMade.order, List.pairwise_singleton _ _, fun first hFirst second hSecond => ?_⟩
  rw [List.mem_singleton.mp hSecond]
  exact hMade.numbered first hFirst

section Creation

variable {parent : Option InjectorId} {module : Module} {explicitOnly : Bool}

/-- What the new injector owns are the bindings that were made for it. -/
theorem Adoptable.binding?_iff {h : Hierarchy} {injector : Injector} {bindings : List Binding}
    (hA : h.Adoptable parent injector bindings) (binding : Binding) :
    injector.binding? key = some binding ↔ binding ∈ bindings ++ [injector.itself] ∧ binding.key = key := by
  have hOwn := hA.coherent.itself.1
  rw [List.mem_append, List.mem_singleton]
  by_cases hKey : key = .injector
  · subst hKey
    rw [Injector.binding?_injector, Option.some.injEq]
    constructor
    · rintro rfl
      exact ⟨Or.inr rfl, hOwn⟩
    · rintro ⟨hMem | rfl, hKey⟩
      · -- explicit bindings are of other keys
        have hExplicit := hA.coherent.explicit ((hA.explicit binding.key binding).mpr ⟨hMem, rfl⟩)
        exact absurd hKey (ne_injector_of_isBuiltin hExplicit.2.2.2)
      · rfl
  · rw [hA.binding?_eq_some_iff hKey]
    constructor
    · exact fun ⟨hMem, hSame⟩ => ⟨Or.inl hMem, hSame⟩
    · rintro ⟨hMem | rfl, hSame⟩
      · exact ⟨hMem, hSame⟩
      · exact absurd (hSame.symm.trans hOwn) hKey

/-- Adopting an injector adds the bindings that were made for it. -/
theorem adds_adopted {h made : Hierarchy} {injector : Injector} {bindings : List Binding} (hW : h.WellFormed)
    (hMarked : Marked made h) (hA : made.Adoptable parent injector bindings)
    (hNumbers : ∀ binding ∈ injector.itself :: bindings, h.nextBinding ≤ binding.id)
    (hOrder : (bindings ++ [injector.itself]).Pairwise fun first second => first.id < second.id) :
    Adds h (bindings ++ [injector.itself]) (bindings ++ [injector.itself]) (made.adopted injector bindings) := by
  have hLast : (made.adopted injector bindings).nextBinding = made.nextBinding :=
    nextBinding_foldl_announce bindings (made.planted injector)
  have hAll : ∀ {binding}, binding ∈ bindings ++ [injector.itself] → binding ∈ injector.itself :: bindings :=
    fun hMem => (List.perm_append_singleton injector.itself bindings).mem_iff.mp hMem
  have hOwner : ∀ binding ∈ bindings ++ [injector.itself], binding.owner = made.nextInjector := fun binding hMem =>
    (List.mem_append.mp hMem).elim (hA.owner binding) fun hItself => by
      rw [List.mem_singleton.mp hItself]
      exact hA.coherent.itself.2.1
  have hNobody : ∀ key, h.binding? made.nextInjector key = none := fun key => by
    rw [Hierarchy.binding?, hMarked.core.nextInjector, hW.rooted.injector?_next, Option.bind_none]
  refine ⟨hLast ▸ hMarked.nextBinding, hOrder, fun binding hMem => hNumbers binding (hAll hMem),
    fun binding hMem => hLast ▸ hA.numbered binding (hAll hMem), .refl _, fun _ hMem => Or.inl hMem,
    fun m key binding => ?_⟩
  rw [binding?_adopted hMarked.wellFormed.toConsistent hA, hMarked.core.binding?]
  by_cases hm : m = made.nextInjector
  · subst hm
    rw [if_pos rfl, hNobody, hA.binding?_iff]
    constructor
    · rintro ⟨hMem, hKey⟩
      exact Or.inr ⟨hMem, hOwner binding hMem, hKey⟩
    · rintro (hNone | ⟨hMem, -, hKey⟩)
      · cases hNone
      · exact ⟨hMem, hKey⟩
  · rw [if_neg hm]
    constructor
    · exact Or.inl
    · rintro (hOld | ⟨hMem, hSame, -⟩)
      · exact hOld
      · exact absurd (hSame.symm.trans (hOwner binding hMem)) hm

/-- A creation that fails notes nothing, and calls no user code. -/
theorem createNoted_error {reports : List Report}
    (hRun : createNoted parent module explicitOnly s = (.error reports, s')) :
    s'.2 = s.2 ∧ s'.1.user = s.1.user := by
  obtain ⟨injectors, hChecked⟩ := checkBindings_snd
    (firstRegistrations (scopeGroups parent.isNone module.scopes)) parent module.bindings s.1
  unfold createNoted at hRun
  dsimp only at hRun
  split at hRun
  · cases hRun
  · cases hRun
    rw [hChecked]
    exact ⟨rfl, rfl⟩

/-- A creation that succeeds makes a binding for each declaration, in this order, and then that of the new injector
itself. All of them belong to the new injector. -/
theorem createNoted_ok (hW : s.1.WellFormed) (hLive : ∀ p, parent = some p → s.1.isLive p = true)
    (hRun : createNoted parent module explicitOnly s = (.ok n, s')) :
    ∃ bindings itself, s'.2 = s.2 ++ (bindings ++ [itself]).map .made ++ (bindings ++ [itself]).map .owned ∧
      List.Forall₂ (DeclaredFor n) module.bindings bindings ∧ itself.scope = none ∧
      Adds s.1 (bindings ++ [itself]) (bindings ++ [itself]) s'.1 := by
  have hNothing := reportsFor_of_create hW (create_of_noted hRun)
  rw [reportsFor, List.append_eq_nil_iff, List.flatMap_eq_nil_iff] at hNothing
  obtain ⟨findings, checked, hCheck, hMarked, hNodup, hConflict⟩ := checkBindings_spec hW
    (firstRegistrations (scopeGroups parent.isNone module.scopes)) parent module.bindings
  have hComplete := complete_checkBindings (firstRegistrations (scopeGroups parent.isNone module.scopes)) parent
    module.bindings s.1
  have hAccepted := checkGroups_accepted hW _ hNothing.2 {}
  rw [← checkBindings, hCheck, List.map_nil, List.nil_append, flatten_groups hNothing.2] at hAccepted
  rw [hCheck] at hComplete
  simp only [createNoted, hCheck] at hRun
  split at hRun
  · next hNone =>
    obtain ⟨made, injector, bindings, hMade, hA, hNumbers, -, hBindings, hAdopt⟩ :=
      adopt_eq explicitOnly module (firstRegistrations (scopeGroups parent.isNone module.scopes)) hMarked.wellFormed
        (fun p hp => by rw [hMarked.core.isLive]; exact hLive p hp) hNodup
        fun one hOne => by rw [conflict_of_sameCore hMarked.core]; exact hConflict one hOne
    have hOrder := pairwise_bindingsFor checked findings.accepted
    have hNoReports := (List.append_eq_nil_iff.mp (List.isEmpty_iff.mp hNone)).2
    have hDeclared := forall₂_bindAll checked.nextInjector (hComplete hNoReports)
      { checked with nextInjector := checked.nextInjector + 1 }
    obtain ⟨rfl, hItself⟩ := List.append_inj' (hBindings : _ ++ [_] = _) rfl
    rw [List.cons.injEq] at hItself
    rw [hBindings] at hRun hOrder
    rw [hAdopt] at hRun
    rw [hAccepted] at hDeclared
    cases hRun
    refine ⟨_, injector.itself, rfl, hDeclared, hItself.1 ▸ rfl, ?_⟩
    exact adds_adopted hW (hMade.trans hMarked) hA
      (fun binding hMem => Nat.le_trans hMarked.nextBinding (hNumbers binding hMem)) hOrder
  · cases hRun

end Creation

end Hierarchy

end InjectorTree
