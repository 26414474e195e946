import InjectorTree.Proofs.Placement.Obtainable
import InjectorTree.Proofs.Placement.Fuel

/-!
# What a search remembers

Where conversions are settled, an attempt that ran into no staged binding and failed was for a key that cannot be
obtained in the injector at all. So what a search remembers stays true for the rest of the resolution, whatever is
staged or taken back later.

That needs to know the converse for some of what is staged: what is staged *above* the injector whose dependencies
are being located can be obtained where it is. It does not hold of what is staged there or below, which may turn out
to lack something yet.

* `Sound`: the invariant.
* `Remembers`: what a search promises about it; `remembers` says that the search does keep the promise.
* `attempt_obtainable`: an attempt that succeeds, above all that is unfinished, stages what can be obtained.
-/

namespace InjectorTree

open Hierarchy Placement

/-- What made the binding is there: a conversion that succeeds, or a declaration where there is nothing to convert. -/
def Hierarchy.Genuine (h : Hierarchy) (binding : Binding) : Prop :=
  (∃ conversion, conversion? h binding.owner binding.key = some conversion ∧ conversion.Succeeds binding.key) ∨
    conversion? h binding.owner binding.key = none ∧
      ∃ declaration, h.Startable binding.owner binding.key declaration ∧ h.BuiltFrom declaration binding

/-- What is remembered cannot be obtained, and what is staged above the injector can. -/
structure Sound (h : Hierarchy) (m : InjectorId) (d : Draft) : Prop where
  failed : ∀ {p : InjectorId} {key : Key}, (p, key) ∈ d.failed → ¬h.Obtainable p key
  above : ∀ binding ∈ d.staged, binding.owner ∈ h.lineage m → h.Obtainable binding.owner binding.key
  genuine : ∀ binding ∈ d.staged, h.Genuine binding

/-- What a search promises about its memory. If it fails without running into a staged binding, the key cannot be
had. -/
structure Remembers (h : Hierarchy) (n : InjectorId) (locate : InjectorId → Key → Run Draft Binding) : Prop where
  ok : ∀ {m : InjectorId} {key : Key} {d d' : Draft} {binding : Binding}, m ∈ h.path n → Fits h n d →
    Sound h m d → locate m key d = some (.ok binding, d') → Sound h m d' ∧ d.conflicts ≤ d'.conflicts
  error : ∀ {m : InjectorId} {key : Key} {d d' : Draft} {report : Report}, m ∈ h.path n → Fits h n d →
    Sound h m d → locate m key d = some (.error report, d') →
      Sound h m d' ∧ d.conflicts ≤ d'.conflicts ∧
        (d'.conflicts = d.conflicts → h.lookup m key = none ∧ ∀ q ∈ h.path m, ¬h.Obtainable q key)

variable {h : Hierarchy} {n m p : InjectorId} {key : Key} {d d' : Draft} {binding : Binding} {report : Report}
  {locate : InjectorId → Key → Run Draft Binding}

theorem sound_start (h : Hierarchy) (m : InjectorId) : Sound h m { hierarchy := h } where
  failed hMem := absurd hMem List.not_mem_nil
  above _ hMem := absurd hMem List.not_mem_nil
  genuine _ hMem := absurd hMem List.not_mem_nil

namespace Sound

/-- Above an injector on the path there is less to know. -/
theorem up (hR : h.Rooted) (hS : Sound h m d) (hp : p ∈ h.path m) : Sound h p d where
  failed := hS.failed
  above binding hMem hAbove := by
    refine hS.above binding hMem ?_
    rcases mem_path_iff.mp hp with rfl | hp
    · exact hAbove
    · exact hR.mem_lineage_of_lineage hp (mem_path_of_mem_lineage hAbove)
  genuine := hS.genuine

theorem of_staged (hS : Sound h m d) (hStaged : d'.staged = d.staged)
    (hFailed : ∀ {p : InjectorId} {key : Key}, (p, key) ∈ d'.failed → ¬h.Obtainable p key) : Sound h m d' where
  failed := hFailed
  above binding hMem := hS.above binding (hStaged ▸ hMem)
  genuine binding hMem := hS.genuine binding (hStaged ▸ hMem)

/-- One more binding is staged, in the injector itself. -/
theorem snoc (hR : h.Rooted) (hS : Sound h m d) (hStaged : d'.staged = d.staged ++ [binding])
    (hFailed : d'.failed = d.failed) (hOwner : binding.owner = m) (hGenuine : h.Genuine binding) :
    Sound h m d' where
  failed hMem := hS.failed (hFailed ▸ hMem)
  above other hMem hAbove := by
    rw [hStaged, List.mem_append, List.mem_singleton] at hMem
    rcases hMem with hMem | rfl
    · exact hS.above other hMem hAbove
    · exact absurd (hOwner ▸ hAbove) hR.not_mem_lineage_self
  genuine other hMem := by
    rw [hStaged, List.mem_append, List.mem_singleton] at hMem
    rcases hMem with hMem | rfl
    · exact hS.genuine other hMem
    · exact hGenuine

end Sound

namespace Placement

theorem Started.genuine (hS : Started h p key d binding d') (hNone : conversion? h p key = none) :
    h.Genuine binding := by
  obtain rfl := hS.owner
  obtain rfl := hS.key
  exact Or.inr ⟨hNone, hS.declaration⟩

-- ---------------------------------------------------------------------------
-- Supplying
-- ---------------------------------------------------------------------------

/-- Locating a key on which a binding depends keeps what is known. -/
theorem supplyOne_sound (hL : Locates h n locate) (hM : Remembers h n locate) (hOwner : binding.owner ∈ h.path n)
    (count : Nat) :
    ∀ dependency d first d', Fits h n d ∧ Sound h binding.owner d ∧ count ≤ d.conflicts →
      Run.within (.at binding.source)
        (Run.within (.locating dependency) (locate binding.owner dependency)) d = some (.ok first, d') →
      Fits h n d' ∧ Sound h binding.owner d' ∧ count ≤ d'.conflicts := by
  rintro dependency d first d' ⟨hF, hS, hCount⟩ hFirst
  have hLocate := supplyOne_eq_ok_iff.mp hFirst
  obtain ⟨hS', hLe⟩ := hM.ok hOwner hF hS hLocate
  exact ⟨(hL.ok hOwner hF hLocate).1, hS', Nat.le_trans hCount hLe⟩

theorem supply_sound (hL : Locates h n locate) (hM : Remembers h n locate) (hOwner : binding.owner ∈ h.path n)
    (hF : Fits h n d) (hS : Sound h binding.owner d) {located : List Binding}
    (hRun : supply locate binding d = some (.ok located, d')) :
    Sound h binding.owner d' ∧ d.conflicts ≤ d'.conflicts :=
  (Run.forEach_ok (supplyOne_sound hL hM hOwner d.conflicts) ⟨hF, hS, Nat.le_refl _⟩ hRun).2

/-- If a binding cannot be supplied, and not for a staged binding, some key on which it depends cannot be had. -/
theorem supply_hopeless (hL : Locates h n locate) (hM : Remembers h n locate) (hOwner : binding.owner ∈ h.path n)
    (hF : Fits h n d) (hS : Sound h binding.owner d)
    (hRun : supply locate binding d = some (.error report, d')) :
    Sound h binding.owner d' ∧ d.conflicts ≤ d'.conflicts ∧
      (d'.conflicts = d.conflicts → ∃ dependency ∈ binding.strategy.dependencies,
        h.lookup binding.owner dependency = none ∧ ∀ q ∈ h.path binding.owner, ¬h.Obtainable q dependency) := by
  obtain ⟨dependency, hMem, d₁, ⟨hF₁, hS₁, hCount⟩, hFailed⟩ :=
    Run.exists_mem_of_forEach_error (supplyOne_sound hL hM hOwner d.conflicts) ⟨hF, hS, Nat.le_refl _⟩ hRun
  obtain ⟨inner, hLocate, -⟩ := exists_of_supplyOne_error hFailed
  obtain ⟨hS', hLe, hHopeless⟩ := hM.error hOwner hF₁ hS₁ hLocate
  refine ⟨hS', Nat.le_trans hCount hLe, fun hSame => ⟨dependency, hMem, hHopeless ?_⟩⟩
  exact Nat.le_antisymm (hSame ▸ hCount) hLe

-- ---------------------------------------------------------------------------
-- Attempts
-- ---------------------------------------------------------------------------

theorem attempt_sound (hR : h.Rooted) (hL : Locates h n locate) (hM : Remembers h n locate) (hF : Fits h n d)
    (hV : Vacant h n d p key) (hS : Sound h p d) (hNone : conversion? h p key = none)
    (hRun : attempt locate p key d = some (.ok binding, d')) : Sound h p d' ∧ d.conflicts ≤ d'.conflicts := by
  obtain ⟨d₁, located, hStart, hSupply⟩ := attempt_eq_ok_iff.mp hRun
  have hStarted := start_ok hF.marked hStart
  have hS₁ : Sound h p d₁ :=
    hS.snoc hR hStarted.staged hStarted.failed hStarted.owner (hStarted.genuine hNone)
  rw [← hStarted.conflicts]
  obtain rfl := hStarted.owner
  exact supply_sound hL hM hV.onPath (hF.snoc (hStarted.stageable hF hV)) hS₁ hSupply

/-- An attempt that fails, and not for a staged binding, was for a key that cannot be had in the injector. -/
theorem attempt_hopeless (hW : h.WellFormed) (hn : h.isLive n = true) (hL : Locates h n locate)
    (hM : Remembers h n locate) (hF : Fits h n d) (hV : Vacant h n d p key) (hS : Sound h p d)
    (hNone : conversion? h p key = none) (hRun : attempt locate p key d = some (.error report, d')) :
    Sound h p d' ∧ d.conflicts ≤ d'.conflicts ∧ (d'.conflicts = d.conflicts → ¬h.Obtainable p key) := by
  have hLive := hW.rooted.isLive_of_mem_path hn hV.onPath
  obtain ⟨-, hStaged⟩ := attempt_error hL hF hV hRun
  obtain ⟨d₁, -, -, hCount, hFailed, hReason⟩ := exists_of_attempt_error hRun
  have hBefore : Sound h p d₁ ∧ d.conflicts ≤ d₁.conflicts ∧
      (d₁.conflicts = d.conflicts → ¬h.Obtainable p key) := by
    rcases hReason with hStart | ⟨binding, d₂, hStart, hSupply⟩
    · -- refused: what is staged below would have been counted
      have hRefused := start_error hF.marked hStart
      refine ⟨hS.of_staged hRefused.staged fun hMem => hS.failed (hRefused.failed ▸ hMem), ?_, fun hSame => ?_⟩
      · rw [hRefused.conflicts]
        split
        · exact Nat.le_refl _
        · exact Nat.le_succ _
      · intro hObtainable
        obtain ⟨declaration, hStartable, -⟩ := hObtainable.startable hW hLive hNone
        have hBelow := hRefused.reason.resolve_right fun hNever => hNever declaration hStartable
        rw [hRefused.conflicts, if_neg hBelow] at hSame
        exact Nat.succ_ne_self _ hSame
    · -- started: a key on which it depends cannot be had
      have hStarted := start_ok hF.marked hStart
      have hS₂ : Sound h p d₂ :=
        hS.snoc hW.rooted hStarted.staged hStarted.failed hStarted.owner (hStarted.genuine hNone)
      rw [← hStarted.conflicts]
      have hF₂ := hF.snoc (hStarted.stageable hF hV)
      obtain ⟨declaration, hStartable, hBuilt⟩ := hStarted.declaration
      obtain rfl := hStarted.owner
      obtain ⟨hS₁, hLe, hHopeless⟩ := supply_hopeless hL hM hV.onPath hF₂ hS₂ hSupply
      refine ⟨hS₁, hLe, fun hSame hObtainable => ?_⟩
      obtain ⟨dependency, hMem, hUnbound, hNowhere⟩ := hHopeless hSame
      obtain ⟨declaration', hStartable', hDependencies⟩ := hObtainable.startable hW hLive hNone
      have hEq := hStartable'.declared
      rw [hStartable.declared, Option.some.injEq] at hEq
      subst hEq
      rw [hBuilt.strategy] at hMem
      rcases hDependencies dependency hMem with hFound | ⟨q, hq, hOther⟩
      · rw [hUnbound] at hFound
        cases hFound
      · exact hNowhere q hq hOther
  rw [hCount]
  refine ⟨hS.of_staged hStaged fun {q x} hMem => ?_, hBefore.2⟩
  rcases hFailed (q, x) hMem with ⟨hSame, hEq⟩ | hOld
  · cases hEq
    exact hBefore.2.2 hSame
  · exact hBefore.1.failed hOld

/-- What an attempt stages that succeeds can be obtained, if that holds of all that was staged on the path. -/
theorem attempt_obtainable (hW : h.WellFormed) (hn : h.isLive n = true) (hL : Locates h n locate)
    (hM : Remembers h n locate) (hF : Fits h n d) (hV : Vacant h n d p key) (hS : Sound h p d)
    (hNone : conversion? h p key = none)
    (hStaged : ∀ other ∈ d.staged, other.owner ∈ h.path p → h.Obtainable other.owner other.key)
    (hRun : attempt locate p key d = some (.ok binding, d')) :
    ∀ other ∈ d'.staged, other ∈ d.staged ∨ h.Obtainable other.owner other.key := by
  obtain ⟨hF', hGrown, -, -, hOwner⟩ := attempt_ok hL hF hV hRun
  obtain ⟨hS', -⟩ := attempt_sound hW.rooted hL hM hF hV hS hNone hRun
  -- what is new is there for the sake of the result, and so it is staged on the path
  have hPath : ∀ other ∈ d'.staged, other ∈ d.staged ∨ other.owner ∈ h.path p := by
    intro other hMem
    refine (hGrown.used other hMem).imp_right fun hUsed => ?_
    clear hMem
    induction hUsed with
    | refl => exact hOwner ▸ self_mem_path
    | tail _ hUses ih => exact hW.rooted.mem_path_trans ih hUses.2.2
  intro other hMem
  refine or_iff_not_imp_left.mpr fun hNew => ?_
  -- the new pairs support each other, with those that were there before
  refine obtainable_of_support
    (fun q x => ∃ other ∈ d'.staged, other ∉ d.staged ∧ other.owner = q ∧ other.key = x) ?_
    ⟨other, hMem, hNew, rfl, rfl⟩
  rintro _ _ ⟨new, hMem, hNew, rfl, rfl⟩
  have hLive := hW.rooted.isLive_of_mem_path hn (hF'.onPath new hMem)
  have hUnbound := hF'.unbound new hMem
  have hKey := key_ne_injector_of_lookup hLive hUnbound
  refine ⟨hUnbound, (hW.claimants_eq_nil_iff hKey).mp (hF'.unclaimed new hMem), ?_⟩
  refine (hS'.genuine new hMem).imp_right ?_
  rintro ⟨hNothing, declaration, hStartable, hBuilt⟩
  refine ⟨hNothing, declaration, hStartable.declared, hStartable.sound, hStartable.registered, ?_⟩
  intro dependency hDependency
  rw [← hBuilt.strategy] at hDependency
  refine ((hGrown.supplied new hMem).resolve_left hNew dependency hDependency).imp_right ?_
  rintro ⟨used, hUsed, rfl, hOnPath⟩
  refine ⟨used.owner, hOnPath, or_iff_not_imp_right.mpr fun hNot => ⟨used, hUsed, fun hOld => hNot ?_, rfl, rfl⟩⟩
  have hNewPath := (hPath new hMem).resolve_left hNew
  exact hStaged used hOld (hW.rooted.mem_path_trans hNewPath hOnPath)

-- ---------------------------------------------------------------------------
-- The choice of the injector
-- ---------------------------------------------------------------------------

/-- An attempt above the requesting injector keeps what is known there. -/
theorem attempt_sound_below (hW : h.WellFormed) (hn : h.isLive n = true) (hL : Locates h n locate)
    (hM : Remembers h n locate) (hF : Fits h n d) (hV : Vacant h n d p key) (hS : Sound h m d)
    (hp : p ∈ h.lineage m) (hNone : conversion? h p key = none)
    (hRun : attempt locate p key d = some (.ok binding, d')) : Sound h m d' ∧ d.conflicts ≤ d'.conflicts := by
  have hUp := hS.up hW.rooted (mem_path_of_mem_lineage hp)
  obtain ⟨hS', hLe⟩ := attempt_sound hW.rooted hL hM hF hV hUp hNone hRun
  have hAll := attempt_obtainable hW hn hL hM hF hV hUp hNone
    (fun other hMem hOwner => hS.above other hMem (hW.rooted.mem_lineage_of_lineage hp hOwner)) hRun
  refine ⟨⟨hS'.failed, fun other hMem hAbove => ?_, hS'.genuine⟩, hLe⟩
  rcases hAll other hMem with hOld | hNew
  · exact hS.above other hOld hAbove
  · exact hNew

/-- Trying the candidates keeps what is known. If none of them ran into a staged binding, the key can be had at
none of them. -/
theorem place_remembers (hW : h.WellFormed) (hn : h.isLive n = true) (hL : Locates h n locate)
    (hM : Remembers h n locate) (candidates : List InjectorId)
    (hAbove : ∀ candidate ∈ candidates, candidate ∈ h.lineage m)
    (hNone : ∀ q ∈ h.path m, conversion? h q key = none) (hF : Fits h n d) (hV : Vacant h n d m key)
    (hS : Sound h m d) {outcome : Except Report Binding}
    (hRun : place locate m key candidates d = some (outcome, d')) :
    Sound h m d' ∧ d.conflicts ≤ d'.conflicts ∧
      (outcome.toOption = none → d'.conflicts = d.conflicts →
        ∀ q ∈ m :: candidates, ¬h.Obtainable q key) := by
  induction candidates generalizing d with
  | nil =>
    cases outcome with
    | ok binding =>
      obtain ⟨hS', hLe⟩ := attempt_sound hW.rooted hL hM hF hV hS (hNone m self_mem_path) hRun
      exact ⟨hS', hLe, fun hFailed => nomatch hFailed⟩
    | error report =>
      obtain ⟨hS', hLe, hHopeless⟩ := attempt_hopeless hW hn hL hM hF hV hS (hNone m self_mem_path) hRun
      refine ⟨hS', hLe, fun _ hSame q hq => ?_⟩
      rw [List.mem_singleton.mp hq]
      exact hHopeless hSame
  | cons candidate rest ih =>
    have hFirst := hAbove candidate List.mem_cons_self
    have hRest := fun other hMem => hAbove other (List.mem_cons_of_mem candidate hMem)
    have hUp := hV.up hW.rooted (mem_path_of_mem_lineage hFirst)
    have hNothing := hNone candidate (mem_path_of_mem_lineage hFirst)
    -- what holds of the candidate and of what is tried after it holds of all
    have hAll : ¬h.Obtainable candidate key → (∀ q ∈ m :: rest, ¬h.Obtainable q key) →
        ∀ q ∈ m :: candidate :: rest, ¬h.Obtainable q key := by
      intro hCandidate hOthers q hq
      rcases List.mem_cons.mp hq with rfl | hq
      · exact hOthers q List.mem_cons_self
      rcases List.mem_cons.mp hq with rfl | hq
      · exact hCandidate
      · exact hOthers q (List.mem_cons_of_mem m hq)
    rcases exists_of_place_cons hRun with ⟨hFailed, hRun⟩ | ⟨other, rfl, hAttempt⟩ | ⟨report, d₁, hAttempt, hRun⟩
    · obtain ⟨hS', hLe, hHopeless⟩ := ih hRest hF hV hS hRun
      exact ⟨hS', hLe, fun hNo hSame => hAll (hS.failed hFailed) (hHopeless hNo hSame)⟩
    · obtain ⟨hS', hLe⟩ := attempt_sound_below hW hn hL hM hF hUp hS hFirst hNothing hAttempt
      exact ⟨hS', hLe, fun hNo => nomatch hNo⟩
    · obtain ⟨hF₁, hStaged⟩ := attempt_error hL hF hUp hAttempt
      obtain ⟨hS₁, hLe₁, hHopeless₁⟩ := attempt_hopeless hW hn hL hM hF hUp
        (hS.up hW.rooted (mem_path_of_mem_lineage hFirst)) hNothing hAttempt
      obtain ⟨hS', hLe, hHopeless⟩ :=
        ih hRest hF₁ (hV.of_staged hStaged) (hS.of_staged hStaged hS₁.failed) hRun
      refine ⟨hS', Nat.le_trans hLe₁ hLe, fun hNo hSame => ?_⟩
      -- none was counted in all, so none was counted in either part
      have hSame₁ : d₁.conflicts = d.conflicts := Nat.le_antisymm (hSame ▸ hLe) hLe₁
      exact hAll (hHopeless₁ hSame₁) (hHopeless hNo (hSame.trans hSame₁.symm))

-- ---------------------------------------------------------------------------
-- Conversions
-- ---------------------------------------------------------------------------

variable {conversion : Conversion}

theorem exists_of_runConverter {registration : ConverterRegistration} {text : String}
    {outcome : Except Report Instance} (hRun : runConverter registration text key d = some (outcome, d')) :
    d'.staged = d.staged ∧ d'.failed = d.failed ∧ d'.conflicts = d.conflicts ∧
      ∃ user, (registration.converter.convert text key user).1.toOption = outcome.toOption := by
  simp only [runConverter] at hRun
  split at hRun
  · next value hValue =>
    cases hRun
    exact ⟨rfl, rfl, rfl, d.hierarchy.user, by rw [hValue]; rfl⟩
  · next reason hReason =>
    cases hRun
    exact ⟨rfl, rfl, rfl, d.hierarchy.user, by rw [hReason]; rfl⟩

/-- A conversion that succeeds does so in every state of user code, if it is steady. -/
theorem convert_succeeds (hSteady : conversion.Steady key)
    (hRun : convert conversion m key d = some (.ok binding, d')) :
    conversion.Succeeds key ∧ d'.failed = d.failed ∧ d'.conflicts = d.conflicts := by
  unfold convert at hRun
  rcases hOne : conversion.converters with _ | ⟨registration, _ | ⟨second, rest⟩⟩
  · rw [hOne] at hRun
    cases hRun
  · rw [hOne] at hRun
    obtain ⟨value, d₁, hConvert, hRest⟩ := Run.bind_eq_ok_iff.mp hRun
    obtain ⟨_, d₂, hUnclaimed, hStage⟩ := Run.bind_eq_ok_iff.mp hRest
    obtain ⟨-, hFailed, hCount, user, hValue⟩ := exists_of_runConverter hConvert
    obtain ⟨rfl, -, -⟩ := checkUnclaimed_ok hUnclaimed
    cases hStage
    refine ⟨⟨registration, hOne, ?_⟩, hFailed, hCount⟩
    rcases hSteady registration hOne with hAlways | ⟨reason, hNever⟩
    · exact hAlways
    · rw [hNever user] at hValue
      cases hValue
  · rw [hOne] at hRun
    cases hRun

/-- A conversion that fails, and not for a staged binding, does not always succeed, or the key is claimed. -/
theorem convert_hopeless (hRun : convert conversion m key d = some (.error report, d')) :
    d'.failed = d.failed ∧ d.conflicts ≤ d'.conflicts ∧
      (d'.conflicts = d.conflicts → ¬conversion.Succeeds key ∨ d'.hierarchy.claimants m key ≠ []) := by
  have hMany : (∀ registration, conversion.converters ≠ [registration]) → ¬conversion.Succeeds key := by
    rintro hNotOne ⟨registration, hOne, -⟩
    exact hNotOne registration hOne
  unfold convert at hRun
  rcases hOne : conversion.converters with _ | ⟨registration, _ | ⟨second, rest⟩⟩
  · rw [hOne] at hRun hMany
    cases hRun
    exact ⟨rfl, Nat.le_refl _, fun _ => Or.inl (hMany fun _ hEq => nomatch hEq)⟩
  · rw [hOne] at hRun
    rcases Run.bind_eq_error_iff.mp hRun with hConvert | ⟨value, d₁, hConvert, hRest⟩
    · obtain ⟨-, hFailed, hCount, user, hNo⟩ := exists_of_runConverter hConvert
      refine ⟨hFailed, Nat.le_of_eq hCount.symm, fun _ => Or.inl fun hSucceeds => ?_⟩
      obtain ⟨value, hValue⟩ := hSucceeds.converts hOne user
      rw [hValue] at hNo
      cases hNo
    · obtain ⟨-, hFailed, hCount, -⟩ := exists_of_runConverter hConvert
      rcases Run.bind_eq_error_iff.mp hRest with hUnclaimed | ⟨_, d₂, -, hStage⟩
      · obtain ⟨rfl, hReason⟩ := checkUnclaimed_error hUnclaimed
        refine ⟨hFailed, ?_⟩
        simp only [← hCount]
        split
        · next hFree => exact ⟨Nat.le_refl _, fun _ => Or.inr (hReason.resolve_left fun hSome => hSome hFree)⟩
        · exact ⟨Nat.le_succ _, fun hSame => absurd hSame (Nat.succ_ne_self _)⟩
      · cases hStage
  · rw [hOne] at hRun hMany
    cases hRun
    exact ⟨rfl, Nat.le_refl _, fun _ => Or.inl (hMany fun _ hEq => nomatch hEq)⟩

-- ---------------------------------------------------------------------------
-- The search
-- ---------------------------------------------------------------------------

theorem createOnDemand_remembers (hW : h.WellFormed) (hn : h.isLive n = true) (hOnly : h.isExplicitOnly n = false)
    (hSettled : h.Settled n) (hL : Locates h n locate) (hM : Remembers h n locate) (hF : Fits h n d)
    (hV : Vacant h n d m key) (hS : Sound h m d) {outcome : Except Report Binding}
    (hRun : createOnDemand locate m key d = some (outcome, d')) :
    Sound h m d' ∧ d.conflicts ≤ d'.conflicts ∧
      (outcome.toOption = none → d'.conflicts = d.conflicts → ∀ q ∈ h.path m, ¬h.Obtainable q key) := by
  have hLive := hW.rooted.isLive_of_mem_path hn hV.onPath
  unfold createOnDemand at hRun
  rw [hF.marked.core.sameShape.conversion?, hF.marked.core.lineage, hF.marked.core.sameShape.isExplicitOnly,
    hW.rooted.isExplicitOnly_eq_false hV.onPath hOnly] at hRun
  split at hRun
  · next conversion hConversion =>
    cases outcome with
    | ok binding =>
      obtain ⟨hStageable, -, hKey, hOwner⟩ := convert_ok hF hV hConversion hRun
      obtain ⟨hSucceeds, hFailed, hCount⟩ :=
        convert_succeeds (hSettled.steady m hV.onPath key conversion hConversion) hRun
      refine ⟨?_, Nat.le_of_eq hCount.symm, fun hNo => nomatch hNo⟩
      refine hS.snoc hW.rooted hStageable.staged hFailed hOwner (Or.inl ⟨conversion, ?_, hKey ▸ hSucceeds⟩)
      rw [hKey, hOwner]
      exact hConversion
    | error report =>
      obtain ⟨hF', hStaged⟩ := convert_error hF hRun
      obtain ⟨hFailed, hLe, hReason⟩ := convert_hopeless hRun
      refine ⟨hS.of_staged hStaged fun hMem => hS.failed (hFailed ▸ hMem), hLe, fun _ hSame => ?_⟩
      rw [hF'.marked.core.claimants] at hReason
      exact hSettled.not_obtainable hW hV.onPath hLive hConversion hV.unbound (hReason hSame)
  · next hNothing =>
    rw [if_neg Bool.false_ne_true] at hRun
    obtain ⟨hS', hLe, hHopeless⟩ := place_remembers hW hn hL hM _ (fun _ hMem => List.mem_reverse.mp hMem)
      (fun q hq => conversion?_eq_none_of_mem_path hW hq hNothing) hF hV hS hRun
    refine ⟨hS', hLe, fun hNo hSame q hq => hHopeless hNo hSame q ?_⟩
    rcases mem_path_iff.mp hq with rfl | hAbove
    · exact List.mem_cons_self
    · exact List.mem_cons_of_mem m (List.mem_reverse.mpr hAbove)

/-- The search keeps its promise, by induction on how deeply attempts may be nested. -/
theorem remembers (hW : h.WellFormed) (hn : h.isLive n = true) (hOnly : h.isExplicitOnly n = false)
    (hSettled : h.Settled n) (fuel : Nat) : Remembers h n (Placement.locate fuel) := by
  induction fuel with
  | zero =>
    -- without fuel there is no outcome
    constructor
    · intro m key d d' binding _ _ _ hRun
      cases hRun
    · intro m key d d' report _ _ _ hRun
      cases hRun
  | succ fuel ih =>
    have hLocates := locates hW.rooted n fuel
    constructor
    · intro m key d d' binding hm hF hS hRun
      simp only [Placement.locate] at hRun
      split at hRun
      · cases hRun
        exact ⟨hS, Nat.le_refl _⟩
      · next hNone =>
        rw [Option.or_eq_none_iff, hF.marked.core.lookup] at hNone
        have hV := vacant_of_lookup hW.rooted hF hm hNone.1 hNone.2
        obtain ⟨hS', hLe, -⟩ := createOnDemand_remembers hW hn hOnly hSettled hLocates ih hF hV hS hRun
        exact ⟨hS', hLe⟩
    · intro m key d d' report hm hF hS hRun
      simp only [Placement.locate] at hRun
      split at hRun
      · cases hRun
      · next hNone =>
        rw [Option.or_eq_none_iff, hF.marked.core.lookup] at hNone
        have hV := vacant_of_lookup hW.rooted hF hm hNone.1 hNone.2
        obtain ⟨hS', hLe, hHopeless⟩ := createOnDemand_remembers hW hn hOnly hSettled hLocates ih hF hV hS hRun
        exact ⟨hS', hLe, fun hSame => ⟨hNone.1, hHopeless rfl hSame⟩⟩

end Placement

end InjectorTree
