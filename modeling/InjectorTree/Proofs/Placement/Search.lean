import InjectorTree.Proofs.Placement.Draft

/-!
# What a search leaves behind

However deeply attempts are nested, and whatever was staged before, a search keeps its draft fitting. If it
fails it leaves the staged bindings as they were. If it succeeds, the result is bound or staged on the path,
and what was staged in addition is supplied and there for the sake of the result.

* `Locates` says so of a function that locates keys; every part of the search keeps the promise if the function
  does that it is given for the dependencies.
* `locates`: the search keeps the promise.
-/

namespace InjectorTree

open Hierarchy

/-- The key is bound nowhere on the path of an injector on the path of `n`, and staged below at most. -/
structure Vacant (h : Hierarchy) (n : InjectorId) (d : Draft) (p : InjectorId) (key : Key) : Prop where
  onPath : p ∈ h.path n
  unbound : h.lookup p key = none
  unstaged : ∀ other ∈ d.staged, other.key = key → p ∈ h.lineage other.owner

/-- The result of a search: a binding of the hierarchy, or a staged one on the path. -/
def Located (h : Hierarchy) (m : InjectorId) (key : Key) (d d' : Draft) (binding : Binding) : Prop :=
  h.lookup m key = some binding ∧ d'.staged = d.staged ∨
    h.lookup m key = none ∧ binding ∈ d'.staged ∧ binding.key = key ∧ binding.owner ∈ h.path m

/-- What a function that locates keys for the injectors on the path of `n` promises. -/
structure Locates (h : Hierarchy) (n : InjectorId) (locate : InjectorId → Key → Run Draft Binding) :
    Prop where
  ok : ∀ {m : InjectorId} {key : Key} {d d' : Draft} {binding : Binding}, m ∈ h.path n → Fits h n d →
    locate m key d = some (.ok binding, d') →
      Fits h n d' ∧ Grown h d binding d' ∧ Located h m key d d' binding
  error : ∀ {m : InjectorId} {key : Key} {d d' : Draft} {report : Report}, m ∈ h.path n → Fits h n d →
    locate m key d = some (.error report, d') → Fits h n d' ∧ d'.staged = d.staged

variable {h : Hierarchy} {n m p q : InjectorId} {key : Key} {d d' d'' : Draft} {binding result : Binding}
  {report : Report} {locate : InjectorId → Key → Run Draft Binding}

theorem Vacant.up (hR : h.Rooted) (hV : Vacant h n d m key) (hp : p ∈ h.path m) : Vacant h n d p key where
  onPath := hR.mem_path_trans hV.onPath hp
  unbound := lookup_eq_none_of_mem_path hR hp hV.unbound
  unstaged other hMem hKey := hR.mem_lineage_of_lineage (hV.unstaged other hMem hKey) hp

theorem Vacant.of_staged (hV : Vacant h n d p key) (hStaged : d'.staged = d.staged) :
    Vacant h n d' p key where
  onPath := hV.onPath
  unbound := hV.unbound
  unstaged := by
    rw [hStaged]
    exact hV.unstaged

/-- What is located neither in the hierarchy nor in the draft is vacant. -/
theorem vacant_of_lookup (hR : h.Rooted) (hF : Fits h n d) (hm : m ∈ h.path n)
    (hNone : h.lookup m key = none) (hUnstaged : d.lookup m key = none) : Vacant h n d m key where
  onPath := hm
  unbound := hNone
  unstaged other hMem hKey := by
    rcases hR.mem_path_or_mem_lineage hm (hF.onPath other hMem) with hPath | hLineage
    · exact absurd hPath (not_mem_path_of_lookup_draft hF.marked hUnstaged hMem hKey)
    · exact hLineage

/-- A key that is vacant and not staged below is not staged at all. -/
theorem Vacant.fresh (hV : Vacant h n d p key) (hM : Marked d.hierarchy h)
    (hFree : d.stagedBelow p key = []) : ∀ other ∈ d.staged, other.key ≠ key := fun other hMem hKey =>
  (stagedBelow_eq_nil_iff hM).mp hFree other hMem hKey (hV.unstaged other hMem hKey)

/-- What grows for the sake of something used grows for the sake of what uses it. -/
theorem Grown.andThen (hFirst : Grown h d result d') (hUses : d'.staged = d.staged ∨ Uses h d'.staged binding result)
    (hSecond : Grown h d' binding d'') : Grown h d binding d'' where
  grows := hFirst.grows.trans hSecond.grows
  supplied other hMem := by
    rcases hSecond.supplied other hMem with hOld | hSupplied
    · exact (hFirst.supplied other hOld).imp_right fun hSupplied => hSupplied.mono hSecond.grows.subset
    · exact Or.inr hSupplied
  used other hMem := by
    rcases hSecond.used other hMem with hOld | hUsed
    · rcases hUses with hSame | hUses
      · exact Or.inl (hSame ▸ hOld)
      · -- used by the first result, and so by what uses that
        refine (hFirst.used other hOld).imp_right fun hUsed => ?_
        exact .head (hUses.mono hSecond.grows.subset) (reaches_mono hUsed hSecond.grows.subset)
    · exact Or.inr hUsed

theorem Grown.of_staged (hG : Grown h d' result d'') (hStaged : d'.staged = d.staged) :
    Grown h d result d'' where
  grows := by
    rw [← hStaged]
    exact hG.grows
  supplied := by
    rw [← hStaged]
    exact hG.supplied
  used := by
    rw [← hStaged]
    exact hG.used

/-- A binding that depends on nothing is supplied as soon as it is staged. -/
theorem Stageable.grown (hS : Stageable h n d binding d') (hNone : binding.strategy.dependencies = []) :
    Grown h d binding d' := by
  have hStaged : ∀ other ∈ d'.staged, other ∈ d.staged ∨ other = binding := fun other hMem => by
    rw [hS.staged, List.mem_append, List.mem_singleton] at hMem
    exact hMem
  refine ⟨hS.staged ▸ List.prefix_append _ _, fun other hMem => ?_, fun other hMem => ?_⟩
  · rcases hStaged other hMem with hOld | rfl
    · exact Or.inl hOld
    · refine Or.inr fun dependency hDependency => ?_
      rw [hNone] at hDependency
      cases hDependency
  · rcases hStaged other hMem with hOld | rfl
    · exact Or.inl hOld
    · exact Or.inr .refl

namespace Placement

-- ---------------------------------------------------------------------------
-- Supplying
-- ---------------------------------------------------------------------------

/-- One of the keys on which a binding depends is located by the function it is given. -/
theorem supplyOne_eq_ok_iff {dependency : Key} :
    Run.within (.at binding.source) (Run.within (.locating dependency) (locate binding.owner dependency)) d =
        some (.ok result, d') ↔
      locate binding.owner dependency d = some (.ok result, d') := by
  rw [Run.within_eq_ok_iff, Run.within_eq_ok_iff]

/-- If the key cannot be located, the report leads on to the binding. -/
theorem exists_of_supplyOne_error {dependency : Key}
    (hRun : Run.within (.at binding.source)
      (Run.within (.locating dependency) (locate binding.owner dependency)) d = some (.error report, d')) :
    ∃ inner, locate binding.owner dependency d = some (.error inner, d') ∧
      report = (inner.within (.locating dependency)).within (.at binding.source) := by
  obtain ⟨outer, hOuter, rfl⟩ := Run.within_eq_error_iff.mp hRun
  obtain ⟨inner, hInner, rfl⟩ := Run.within_eq_error_iff.mp hOuter
  exact ⟨inner, hInner, rfl⟩

/-- Locating some of the keys on which a binding depends. -/
theorem supplyKeys_ok (hL : Locates h n locate) (hOwner : binding.owner ∈ h.path n) (keys : List Key)
    (hKeys : ∀ dependency ∈ keys, dependency ∈ binding.strategy.dependencies) (hF : Fits h n d)
    {located : List Binding}
    (hRun : Run.forEach (fun dependency => Run.within (.at binding.source)
      (Run.within (.locating dependency) (locate binding.owner dependency))) keys d =
        some (.ok located, d')) :
    Fits h n d' ∧ Grown h d binding d' ∧
      ∀ dependency ∈ keys, (h.lookup binding.owner dependency).isSome = true ∨
        ∃ other ∈ d'.staged, other.key = dependency ∧ other.owner ∈ h.path binding.owner := by
  induction keys generalizing d located with
  | nil =>
    rw [Run.forEach, Run.pure, Option.some.injEq, Prod.mk.injEq] at hRun
    rw [← hRun.2]
    exact ⟨hF, Grown.refl h d binding, fun _ hMem => absurd hMem List.not_mem_nil⟩
  | cons dependency rest ih =>
    -- what the first key brought in is there for the binding, and stays while the others are located
    obtain ⟨first, d₁, hFirst, hRest⟩ := Run.bind_eq_ok_iff.mp hRun
    obtain ⟨others, d₂, hOthers, hPure⟩ := Run.bind_eq_ok_iff.mp hRest
    cases hPure
    obtain ⟨hF₁, hGrown, hLocated⟩ := hL.ok hOwner hF (supplyOne_eq_ok_iff.mp hFirst)
    obtain ⟨hF₂, hGrown', hSupplied⟩ :=
      ih (fun other hMem => hKeys other (List.mem_cons_of_mem dependency hMem)) hF₁ hOthers
    refine ⟨hF₂, hGrown.andThen ?_ hGrown', fun other hMem => ?_⟩
    · rcases hLocated with ⟨-, hSame⟩ | ⟨-, hStaged, hKey, hPath⟩
      · exact Or.inl hSame
      · exact Or.inr ⟨hStaged, hKey ▸ hKeys dependency List.mem_cons_self, hPath⟩
    · rcases List.mem_cons.mp hMem with rfl | hMem
      · rcases hLocated with ⟨hFound, -⟩ | ⟨-, hStaged, hKey, hPath⟩
        · exact Or.inl (Option.isSome_iff_exists.mpr ⟨first, hFound⟩)
        · exact Or.inr ⟨first, hGrown'.grows.subset hStaged, hKey, hPath⟩
      · exact hSupplied other hMem

theorem supply_ok (hL : Locates h n locate) (hOwner : binding.owner ∈ h.path n) (hF : Fits h n d)
    {located : List Binding} (hRun : supply locate binding d = some (.ok located, d')) :
    Fits h n d' ∧ Grown h d binding d' ∧ Supplied h d'.staged binding :=
  supplyKeys_ok hL hOwner binding.strategy.dependencies (fun _ hMem => hMem) hF hRun

/-- If a key cannot be located, what was staged for others before remains for now. -/
theorem supply_error (hL : Locates h n locate) (hOwner : binding.owner ∈ h.path n) (hF : Fits h n d)
    (hRun : supply locate binding d = some (.error report, d')) :
    Fits h n d' ∧ d.staged <+: d'.staged := by
  have hKeeps : ∀ dependency d₁ first d₂, Fits h n d₁ ∧ d.staged <+: d₁.staged →
      Run.within (.at binding.source)
        (Run.within (.locating dependency) (locate binding.owner dependency)) d₁ = some (.ok first, d₂) →
      Fits h n d₂ ∧ d.staged <+: d₂.staged := by
    intro dependency d₁ first d₂ hBefore hFirst
    obtain ⟨hF₂, hGrown, -⟩ := hL.ok hOwner hBefore.1 (supplyOne_eq_ok_iff.mp hFirst)
    exact ⟨hF₂, hBefore.2.trans hGrown.grows⟩
  obtain ⟨dependency, -, d₁, ⟨hF₁, hGrows⟩, hFailed⟩ :=
    Run.exists_mem_of_forEach_error hKeeps ⟨hF, List.prefix_refl _⟩ hRun
  obtain ⟨inner, hLocate, -⟩ := exists_of_supplyOne_error hFailed
  obtain ⟨hF', hStaged⟩ := hL.error hOwner hF₁ hLocate
  exact ⟨hF', hStaged ▸ hGrows⟩

-- ---------------------------------------------------------------------------
-- Attempts
-- ---------------------------------------------------------------------------

theorem attempt_eq_ok_iff :
    attempt locate p key d = some (.ok binding, d') ↔
      ∃ d₁ located, start p key d = some (.ok binding, d₁) ∧
        supply locate binding d₁ = some (.ok located, d') := by
  have hCreate : attempt locate p key d = some (.ok binding, d') ↔
      createAt locate p key d = some (.ok binding, d') := by
    unfold attempt
    rcases createAt locate p key d with _ | ⟨report | other, d₁⟩ <;> simp
  rw [hCreate, createAt_eq, Run.bind_eq_ok_iff]
  constructor
  · rintro ⟨started, d₁, hStart, hRest⟩
    obtain ⟨located, d₂, hSupply, hPure⟩ := Run.bind_eq_ok_iff.mp hRest
    cases hPure
    exact ⟨d₁, located, hStart, hSupply⟩
  · rintro ⟨d₁, located, hStart, hSupply⟩
    exact ⟨binding, d₁, hStart, Run.bind_eq_ok_iff.mpr ⟨located, d', hSupply, rfl⟩⟩

/-- An attempt that fails was refused, or some key could not be located. What it staged is taken back, and it is
remembered if it ran into no staged binding. -/
theorem exists_of_attempt_error (hRun : attempt locate p key d = some (.error report, d')) :
    ∃ d₁, d'.hierarchy = d₁.hierarchy ∧ d'.staged = d₁.staged.take d.staged.length ∧
      d'.conflicts = d₁.conflicts ∧
      (∀ pair ∈ d'.failed, d₁.conflicts = d.conflicts ∧ pair = (p, key) ∨ pair ∈ d₁.failed) ∧
      (start p key d = some (.error report, d₁) ∨
        ∃ binding d₂, start p key d = some (.ok binding, d₂) ∧
          supply locate binding d₂ = some (.error report, d₁)) := by
  unfold attempt at hRun
  rcases hCreate : createAt locate p key d with _ | ⟨report' | other, d₁⟩
  · rw [hCreate] at hRun
    cases hRun
  · rw [hCreate] at hRun
    simp only [Option.some.injEq, Prod.mk.injEq, Except.error.injEq] at hRun
    obtain ⟨rfl, rfl⟩ := hRun
    refine ⟨d₁, rfl, Draft.staged_take .., rfl, fun pair hMem => ?_, ?_⟩
    · split at hMem
      · next hSame => exact (List.mem_cons.mp hMem).imp_left fun hEq => ⟨hSame, hEq⟩
      · exact Or.inr hMem
    · rw [createAt_eq] at hCreate
      refine (Run.bind_eq_error_iff.mp hCreate).imp_right ?_
      rintro ⟨binding, d₂, hStart, hRest⟩
      rcases Run.bind_eq_error_iff.mp hRest with hSupply | ⟨located, d₃, -, hPure⟩
      · exact ⟨binding, d₂, hStart, hSupply⟩
      · cases hPure
  · rw [hCreate] at hRun
    cases hRun

/-- A binding that is started for a vacant key is staged as the invariant asks for. -/
theorem Started.stageable (hF : Fits h n d) (hV : Vacant h n d p key)
    (hS : Started h p key d binding d') : Stageable h n d binding d' := by
  obtain ⟨declaration, hStartable, hBuilt⟩ := hS.declaration
  obtain rfl := hS.owner
  obtain rfl := hS.key
  exact
    { marked := hS.marked
      staged := hS.staged
      onPath := hV.onPath
      unbound := hV.unbound
      unclaimed := hStartable.unclaimed
      made := Or.inl ⟨declaration, hStartable, hBuilt⟩
      fresh := hV.fresh hF.marked hS.free
      older := hS.older
      newer := hS.newer }

theorem attempt_ok (hL : Locates h n locate) (hF : Fits h n d) (hV : Vacant h n d p key)
    (hRun : attempt locate p key d = some (.ok binding, d')) :
    Fits h n d' ∧ Grown h d binding d' ∧ binding ∈ d'.staged ∧ binding.key = key ∧ binding.owner = p := by
  obtain ⟨d₁, located, hStart, hSupply⟩ := attempt_eq_ok_iff.mp hRun
  have hStarted := start_ok hF.marked hStart
  have hF₁ := hF.snoc (hStarted.stageable hF hV)
  have hOwner : binding.owner ∈ h.path n := hStarted.owner ▸ hV.onPath
  obtain ⟨hF', hGrown, hSupplied⟩ := supply_ok hL hOwner hF₁ hSupply
  have hStaged : ∀ other ∈ d₁.staged, other ∈ d.staged ∨ other = binding := fun other hMem => by
    rw [hStarted.staged, List.mem_append, List.mem_singleton] at hMem
    exact hMem
  have hSelf : binding ∈ d₁.staged := by
    rw [hStarted.staged]
    exact List.mem_append_right _ (List.mem_singleton_self binding)
  refine ⟨hF', ⟨?_, fun other hMem => ?_, fun other hMem => ?_⟩, hGrown.grows.subset hSelf,
    hStarted.key, hStarted.owner⟩
  · exact (hStarted.staged ▸ List.prefix_append _ _ : d.staged <+: d₁.staged).trans hGrown.grows
  · rcases hGrown.supplied other hMem with hOld | hOther
    · rcases hStaged other hOld with hOld | rfl
      · exact Or.inl hOld
      · -- the binding itself was staged first, and is supplied in the end
        exact Or.inr hSupplied
    · exact Or.inr hOther
  · rcases hGrown.used other hMem with hOld | hUsed
    · rcases hStaged other hOld with hOld | rfl
      · exact Or.inl hOld
      · exact Or.inr .refl
    · exact Or.inr hUsed

theorem attempt_error (hL : Locates h n locate) (hF : Fits h n d) (hV : Vacant h n d p key)
    (hRun : attempt locate p key d = some (.error report, d')) : Fits h n d' ∧ d'.staged = d.staged := by
  obtain ⟨d₁, hHierarchy, hStaged, -, -, hReason⟩ := exists_of_attempt_error hRun
  have hBefore : Fits h n d₁ ∧ d.staged <+: d₁.staged := by
    rcases hReason with hStart | ⟨binding, d₂, hStart, hSupply⟩
    · have hRefused := start_error hF.marked hStart
      exact ⟨hF.marks hRefused.marked hRefused.staged, hRefused.staged ▸ List.prefix_refl _⟩
    · have hStarted := start_ok hF.marked hStart
      have hF₂ := hF.snoc (hStarted.stageable hF hV)
      obtain ⟨hF₁, hGrows⟩ := supply_error hL (hStarted.owner ▸ hV.onPath) hF₂ hSupply
      exact ⟨hF₁, (hStarted.staged ▸ List.prefix_append _ _ : d.staged <+: d₂.staged).trans hGrows⟩
  -- taking as many as there were leaves those that there were
  refine ⟨hBefore.1.sublist hHierarchy (hStaged ▸ List.take_sublist _ _), ?_⟩
  rw [hStaged, ← List.prefix_iff_eq_take.mp hBefore.2]

-- ---------------------------------------------------------------------------
-- The choice of the injector
-- ---------------------------------------------------------------------------

/-- The first candidate is remembered to have failed, or gets the binding, or fails. -/
theorem exists_of_place_cons {candidate : InjectorId} {rest : List InjectorId}
    {outcome : Except Report Binding} (hRun : place locate m key (candidate :: rest) d = some (outcome, d')) :
    ((candidate, key) ∈ d.failed ∧ place locate m key rest d = some (outcome, d')) ∨
      (∃ binding, outcome = .ok binding ∧ attempt locate candidate key d = some (.ok binding, d')) ∨
        ∃ report d₁, attempt locate candidate key d = some (.error report, d₁) ∧
          place locate m key rest d₁ = some (outcome, d') := by
  simp only [place] at hRun
  split at hRun
  · next hFailed => exact Or.inl ⟨hFailed, hRun⟩
  · split at hRun
    · cases hRun
    · next binding d₁ hAttempt =>
      cases hRun
      exact Or.inr (Or.inl ⟨binding, rfl, hAttempt⟩)
    · next report d₁ hAttempt => exact Or.inr (Or.inr ⟨report, d₁, hAttempt, hRun⟩)

theorem place_ok (hR : h.Rooted) (hL : Locates h n locate) (candidates : List InjectorId)
    (hPath : ∀ candidate ∈ candidates, candidate ∈ h.path m) (hF : Fits h n d) (hV : Vacant h n d m key)
    (hRun : place locate m key candidates d = some (.ok binding, d')) :
    Fits h n d' ∧ Grown h d binding d' ∧ binding ∈ d'.staged ∧ binding.key = key ∧
      binding.owner ∈ h.path m := by
  induction candidates generalizing d with
  | nil =>
    obtain ⟨hF', hGrown, hStaged, hKey, hOwner⟩ := attempt_ok hL hF hV hRun
    exact ⟨hF', hGrown, hStaged, hKey, hOwner ▸ self_mem_path⟩
  | cons candidate rest ih =>
    have hRest := fun other hMem => hPath other (List.mem_cons_of_mem candidate hMem)
    have hUp := hV.up hR (hPath candidate List.mem_cons_self)
    rcases exists_of_place_cons hRun with ⟨-, hRun⟩ | ⟨other, hOutcome, hAttempt⟩ | ⟨report, d₁, hAttempt, hRun⟩
    · exact ih hRest hF hV hRun
    · cases hOutcome
      obtain ⟨hF', hGrown, hStaged, hKey, hOwner⟩ := attempt_ok hL hF hUp hAttempt
      exact ⟨hF', hGrown, hStaged, hKey, hOwner ▸ hPath candidate List.mem_cons_self⟩
    · obtain ⟨hF₁, hStaged⟩ := attempt_error hL hF hUp hAttempt
      obtain ⟨hF', hGrown, hFound⟩ := ih hRest hF₁ (hV.of_staged hStaged) hRun
      exact ⟨hF', hGrown.of_staged hStaged, hFound⟩

theorem place_error (hR : h.Rooted) (hL : Locates h n locate) (candidates : List InjectorId)
    (hPath : ∀ candidate ∈ candidates, candidate ∈ h.path m) (hF : Fits h n d) (hV : Vacant h n d m key)
    (hRun : place locate m key candidates d = some (.error report, d')) :
    Fits h n d' ∧ d'.staged = d.staged := by
  induction candidates generalizing d with
  | nil => exact attempt_error hL hF hV hRun
  | cons candidate rest ih =>
    have hRest := fun other hMem => hPath other (List.mem_cons_of_mem candidate hMem)
    have hUp := hV.up hR (hPath candidate List.mem_cons_self)
    rcases exists_of_place_cons hRun with ⟨-, hRun⟩ | ⟨other, hOutcome, -⟩ | ⟨report, d₁, hAttempt, hRun⟩
    · exact ih hRest hF hV hRun
    · cases hOutcome
    · obtain ⟨hF₁, hStaged⟩ := attempt_error hL hF hUp hAttempt
      obtain ⟨hF', hStaged'⟩ := ih hRest hF₁ (hV.of_staged hStaged) hRun
      exact ⟨hF', hStaged'.trans hStaged⟩

-- ---------------------------------------------------------------------------
-- Conversions
-- ---------------------------------------------------------------------------

theorem marked_runConverter (hW : d.hierarchy.WellFormed) {registration : ConverterRegistration} {text : String}
    {outcome : Except Report Instance}
    (hRun : runConverter registration text key d = some (outcome, d')) :
    Marked d'.hierarchy d.hierarchy ∧ d'.staged = d.staged := by
  simp only [runConverter] at hRun
  split at hRun
  · cases hRun
    exact ⟨marked_user hW _, rfl⟩
  · cases hRun
    exact ⟨marked_user hW _, rfl⟩

/-- Either there is one converter to run, or the conversion is refused. -/
theorem convert_cases (conversion : Conversion) (m : InjectorId) (key : Key) :
    (∃ registration, conversion.converters = [registration] ∧ convert conversion m key = do
      let value ← runConverter registration conversion.text key
      checkUnclaimed m key
      stage m key (.fixed value) none conversion.source .converted) ∨
    ∃ report, convert conversion m key = .fail report := by
  unfold convert
  rcases conversion.converters with _ | ⟨first, _ | ⟨second, rest⟩⟩
  · exact Or.inr ⟨_, rfl⟩
  · exact Or.inl ⟨first, rfl, rfl⟩
  · exact Or.inr ⟨_, rfl⟩

theorem convert_ok {conversion : Conversion} (hF : Fits h n d) (hV : Vacant h n d m key)
    (hConversion : conversion? h m key = some conversion)
    (hRun : convert conversion m key d = some (.ok binding, d')) :
    Stageable h n d binding d' ∧ binding.strategy.dependencies = [] ∧ binding.key = key ∧
      binding.owner = m := by
  rcases convert_cases conversion m key with ⟨registration, -, hEq⟩ | ⟨report, hEq⟩
  · rw [hEq] at hRun
    obtain ⟨value, d₁, hConvert, hRest⟩ := Run.bind_eq_ok_iff.mp hRun
    obtain ⟨_, d₂, hUnclaimed, hStage⟩ := Run.bind_eq_ok_iff.mp hRest
    obtain ⟨hMarked, hStaged⟩ := marked_runConverter hF.marked.wellFormed hConvert
    obtain ⟨rfl, hClaimants, hFree⟩ := checkUnclaimed_ok hUnclaimed
    have hF₁ := hF.marks hMarked hStaged
    have hFresh := (hV.of_staged hStaged).fresh hF₁.marked hFree
    have hMade := marked_makeBinding hMarked.wellFormed key (.fixed value) none conversion.source .converted m
    simp only [stage, Option.some.injEq, Prod.mk.injEq, Except.ok.injEq] at hStage
    obtain ⟨rfl, rfl⟩ := hStage
    rw [hF₁.marked.core.claimants] at hClaimants
    refine ⟨?_, rfl, rfl, rfl⟩
    exact
      { marked := hMade.trans hMarked
        staged := by rw [Draft.staged_snoc, hStaged]
        onPath := hV.onPath
        unbound := hV.unbound
        unclaimed := hClaimants
        made := Or.inr ⟨conversion, hConversion, ⟨value, rfl⟩, rfl, rfl, rfl, rfl⟩
        fresh := fun other hMem => hFresh other (hStaged ▸ hMem)
        older := hMarked.nextBinding
        newer := Nat.lt_succ_self _ }
  · rw [hEq] at hRun
    cases hRun

theorem convert_error {conversion : Conversion} (hF : Fits h n d)
    (hRun : convert conversion m key d = some (.error report, d')) : Fits h n d' ∧ d'.staged = d.staged := by
  rcases convert_cases conversion m key with ⟨registration, -, hEq⟩ | ⟨report', hEq⟩
  · rw [hEq] at hRun
    rcases Run.bind_eq_error_iff.mp hRun with hConvert | ⟨value, d₁, hConvert, hRest⟩
    · obtain ⟨hMarked, hStaged⟩ := marked_runConverter hF.marked.wellFormed hConvert
      exact ⟨hF.marks hMarked hStaged, hStaged⟩
    · obtain ⟨hMarked, hStaged⟩ := marked_runConverter hF.marked.wellFormed hConvert
      rcases Run.bind_eq_error_iff.mp hRest with hUnclaimed | ⟨_, d₂, -, hStage⟩
      · obtain ⟨rfl, -⟩ := checkUnclaimed_error hUnclaimed
        exact ⟨hF.marks hMarked hStaged, hStaged⟩
      · cases hStage
  · rw [hEq] at hRun
    cases hRun
    exact ⟨hF, rfl⟩

-- ---------------------------------------------------------------------------
-- The search
-- ---------------------------------------------------------------------------

theorem createOnDemand_ok (hR : h.Rooted) (hL : Locates h n locate) (hF : Fits h n d) (hV : Vacant h n d m key)
    (hRun : createOnDemand locate m key d = some (.ok binding, d')) :
    Fits h n d' ∧ Grown h d binding d' ∧ binding ∈ d'.staged ∧ binding.key = key ∧
      binding.owner ∈ h.path m := by
  unfold createOnDemand at hRun
  rw [hF.marked.core.sameShape.conversion?, hF.marked.core.lineage] at hRun
  split at hRun
  · next conversion hConversion =>
    obtain ⟨hStageable, hNone, hKey, hOwner⟩ := convert_ok hF hV hConversion hRun
    refine ⟨hF.snoc hStageable, hStageable.grown hNone, ?_, hKey, hOwner ▸ self_mem_path⟩
    rw [hStageable.staged]
    exact List.mem_append_right _ (List.mem_singleton_self binding)
  · split at hRun
    · cases hRun
    · exact place_ok hR hL _ (fun _ hMem => mem_path_of_mem_lineage (List.mem_reverse.mp hMem)) hF hV hRun

theorem createOnDemand_error (hR : h.Rooted) (hL : Locates h n locate) (hF : Fits h n d)
    (hV : Vacant h n d m key) (hRun : createOnDemand locate m key d = some (.error report, d')) :
    Fits h n d' ∧ d'.staged = d.staged := by
  unfold createOnDemand at hRun
  rw [hF.marked.core.sameShape.conversion?, hF.marked.core.lineage] at hRun
  split at hRun
  · exact convert_error hF hRun
  · split at hRun
    · cases hRun
      exact ⟨hF, rfl⟩
    · exact place_error hR hL _ (fun _ hMem => mem_path_of_mem_lineage (List.mem_reverse.mp hMem)) hF hV hRun

/-- What is located without a search is there. -/
theorem located_of_lookup (hF : Fits h n d)
    (hFound : (d.hierarchy.lookup m key).or (d.lookup m key) = some binding) :
    Located h m key d d binding := by
  rw [hF.marked.core.lookup] at hFound
  rcases Option.or_eq_some_iff.mp hFound with hLookup | ⟨hNone, hStaged⟩
  · exact Or.inl ⟨hLookup, rfl⟩
  · obtain ⟨hMem, hKey, hOwner⟩ := exists_of_lookup_draft hF.marked hStaged
    exact Or.inr ⟨hNone, hMem, hKey, hOwner⟩

/-- The search keeps its promise, by induction on how deeply attempts may be nested. -/
theorem locates (hR : h.Rooted) (n : InjectorId) (fuel : Nat) : Locates h n (Placement.locate fuel) := by
  induction fuel with
  | zero =>
    -- without fuel there is no outcome
    constructor
    · intro m key d d' binding _ _ hRun
      cases hRun
    · intro m key d d' report _ _ hRun
      cases hRun
  | succ fuel ih =>
    constructor
    · intro m key d d' binding hm hF hRun
      simp only [locate] at hRun
      split at hRun
      · next found hFound =>
        cases hRun
        exact ⟨hF, Grown.refl h _ binding, located_of_lookup hF hFound⟩
      · next hNone =>
        rw [Option.or_eq_none_iff, hF.marked.core.lookup] at hNone
        obtain ⟨hF', hGrown, hFound⟩ :=
          createOnDemand_ok hR ih hF (vacant_of_lookup hR hF hm hNone.1 hNone.2) hRun
        exact ⟨hF', hGrown, Or.inr ⟨hNone.1, hFound⟩⟩
    · intro m key d d' report hm hF hRun
      simp only [locate] at hRun
      split at hRun
      · cases hRun
      · next hNone =>
        rw [Option.or_eq_none_iff, hF.marked.core.lookup] at hNone
        exact createOnDemand_error hR ih hF (vacant_of_lookup hR hF hm hNone.1 hNone.2) hRun

end Placement

end InjectorTree
