import InjectorTree.Proofs.Ownership
import InjectorTree.Proofs.Placement.Conversions
import InjectorTree.Proofs.Runs

/-!
# Why a key cannot be resolved

A search fails in many places before it gives up. Only the attempt at the requesting injector counts, and within it,
the first dependency that cannot be located there. So the report follows a chain of keys, each declared for the
requesting injector and listed by the declaration of the one before, down to a key with which something is wrong at
that very injector. What failed elsewhere, and what was staged for a while, is not told.

* `Chain`: the keys that lead from the one that was asked for to the one that is missing, and the frames they leave.
* `Cause`: what can be wrong with a key at an injector, with the place that is named for it.
* `explained_locate`: a search that fails is explained.
* `error_names_cause`: what the report of a resolution says that fails.
-/

namespace InjectorTree

/-- One step from a key to another one: where it was declared, and the key on which it depends. -/
structure Link where
  source : Source
  key : Key
deriving DecidableEq, Repr

/-- The frames that steps leave on a trail, innermost first. -/
def Link.frames : List Link → List Frame
  | [] => []
  | link :: rest => frames rest ++ [.locating link.key, .at link.source]

theorem Link.frames_append (links others : List Link) : frames (links ++ others) = frames others ++ frames links := by
  induction links with
  | nil => rw [List.nil_append, frames, List.append_nil]
  | cons link rest ih => rw [List.cons_append, frames, frames, ih, List.append_assoc]

namespace Hierarchy

open Placement

/-- A binding of the key could be begun in the injector, and its declaration lists the dependency. -/
structure Lists (h : Hierarchy) (n : InjectorId) (key : Key) (declaration : Declaration) (dependency : Key) :
    Prop where
  unbound : h.lookup n key = none
  startable : h.Startable n key declaration
  dependency : dependency ∈ declaration.strategy.dependencies

/-- The links lead from one key to another one, all of them declared for one injector. -/
inductive Chain (h : Hierarchy) (n : InjectorId) : Key → List Link → Key → Prop
  | here {key : Key} : Chain h n key [] key
  | deeper {key dependency last : Key} {declaration : Declaration} {links : List Link}
      (hLists : h.Lists n key declaration dependency) (hRest : Chain h n dependency links last) :
      Chain h n key (⟨declaration.source, dependency⟩ :: links) last

/-- What is wrong with a key at an injector, the place that is named for it, and the state of user code when the
failure is told. -/
inductive Cause (h : Hierarchy) (n : InjectorId) (key : Key) : Problem → Option Source → UserState → Prop
  /-- The key is not declared on the path. -/
  | undeclared {user : UserState} (hNone : h.declaration? n key = none) :
      Cause h n key (.unresolvableDependency key) none user
  /-- Strict descendants own the key: these are all of them. -/
  | blocked {user : UserState} {bindings : List Binding} (hSome : bindings ≠ [])
      (hOnce : (bindings.map (·.owner)).Nodup)
      (hOwned : ∀ m binding, (binding ∈ bindings ∧ binding.owner = m) ↔
        n ∈ h.lineage m ∧ h.binding? m key = some binding) :
      Cause h n key (.childBlocksParent key (bindings.map (·.source))) none user
  /-- The tag of the nearest declaration is registered nowhere on the path. -/
  | unregistered {user : UserState} {declaration : Declaration} {tag : ScopeTag}
      (hDeclared : h.declaration? n key = some declaration) (hTag : declaration.scope = some tag)
      (hNowhere : ∀ p ∈ h.path n, ∀ injector, h.injector? p = some injector → injector.scopes.get? tag = none) :
      Cause h n key (.unresolvedScope tag) (some declaration.source) user
  /-- The nearest declaration gives a scope to a single instance. -/
  | scoped {user : UserState} {declaration : Declaration} {value : Instance}
      (hDeclared : h.declaration? n key = some declaration) (hFixed : declaration.strategy = .fixed value)
      (hScope : declaration.scope ≠ none) : Cause h n key (.scopedInstance key) (some declaration.source) user
  /-- The nearest declaration links the key to itself. -/
  | linkedToItself {user : UserState} {declaration : Declaration}
      (hDeclared : h.declaration? n key = some declaration) (hLinked : declaration.strategy = .linked key) :
      Cause h n key (.selfBinding key) (some declaration.source) user
  /-- There is nothing to convert, and nothing is created on demand at the injector. -/
  | explicitOnly {user : UserState} (hNothing : conversion? h n key = none) (hOnly : h.isExplicitOnly n = true) :
      Cause h n key (.jitDisabled key) none user
  /-- There is something to convert, and several converters accept the key. -/
  | ambiguous {user : UserState} {conversion : Conversion} {first second : ConverterRegistration}
      {others : List ConverterRegistration} (hConversion : conversion? h n key = some conversion)
      (hMany : conversion.converters = first :: second :: others) :
      Cause h n key (.converterConflict key (conversion.converters.map (·.source))) none user
  /-- The only converter has refused the text just now. -/
  | refused {user before : UserState} {conversion : Conversion} {registration : ConverterRegistration} {reason : String}
      (hConversion : conversion? h n key = some conversion) (hOne : conversion.converters = [registration])
      (hRefused : registration.converter.convert conversion.text key before = (.error reason, user)) :
      Cause h n key (.conversionFailed key conversion.text reason) (some registration.source) user

/-- The report follows the links to a key that is not bound, and names a cause that this key has. -/
structure Explains (h : Hierarchy) (n : InjectorId) (key : Key) (links : List Link) (last : Key)
    (place : Option Source) (report : Report) (user : UserState) : Prop where
  chain : h.Chain n key links last
  unbound : h.lookup n last = none
  cause : h.Cause n last report.problem place user
  trail : report.trail = place.toList.map Frame.at ++ Link.frames links

/-- The report is explained by some chain of keys and some cause. -/
def Explained (h : Hierarchy) (n : InjectorId) (key : Key) (report : Report) (user : UserState) : Prop :=
  ∃ links last place, h.Explains n key links last place report user

variable {h h' : Hierarchy} {n : InjectorId} {key dependency : Key} {declaration : Declaration} {report : Report}
  {user : UserState} {problem : Problem} {place : Option Source}

/-- A cause that the key itself has. -/
theorem Explained.of_cause (hNone : h.lookup n key = none) (hCause : h.Cause n key problem place user) :
    h.Explained n key ⟨problem, place.toList.map Frame.at⟩ user :=
  ⟨[], key, place, .here, hNone, hCause, (List.append_nil _).symm⟩

/-- What explains that a key cannot be located explains that nothing can be made that depends on it. -/
theorem Explained.deeper (hLists : h.Lists n key declaration dependency)
    (hInner : h.Explained n dependency report user) :
    h.Explained n key ((report.within (.locating dependency)).within (.at declaration.source)) user := by
  obtain ⟨links, last, place, hChain, hNone, hCause, hTrail⟩ := hInner
  refine ⟨⟨declaration.source, dependency⟩ :: links, last, place, .deeper hLists hChain, hNone, hCause, ?_⟩
  rw [Report.within_trail, Report.within_trail, hTrail, Link.frames, List.append_assoc, List.append_assoc]
  rfl

/-- Those who own a key below an injector block it. -/
theorem WellFormed.blocked (hW : h.WellFormed) (hKey : key ≠ .injector) (hClaimed : h.claimants n key ≠ []) :
    h.Cause n key (.childBlocksParent key (h.claimants n key)) none user := by
  obtain ⟨bindings, hSources, hOnce, hOwned⟩ := exists_claimants hW hKey n
  rw [hSources] at hClaimed ⊢
  exact .blocked (fun hNil => hClaimed (hNil ▸ rfl)) hOnce hOwned

/-- A strategy is objected to for two reasons. -/
theorem cause_of_objection (hDeclared : h.declaration? n key = some declaration)
    (hObjection : declaration.strategy.objection key declaration.scope = some problem) :
    h.Cause n key problem (some declaration.source) user := by
  cases hStrategy : declaration.strategy with
  | fixed value =>
    rw [hStrategy, Strategy.objection] at hObjection
    split at hObjection
    · next hScope =>
      cases hObjection
      exact .scoped hDeclared hStrategy (Option.isSome_iff_ne_none.mp hScope)
    · cases hObjection
  | linked target =>
    rw [hStrategy, Strategy.objection] at hObjection
    split at hObjection
    · next hSelf =>
      cases hObjection
      exact .linkedToItself hDeclared (hSelf ▸ hStrategy)
    · cases hObjection
  | provided run =>
    rw [hStrategy] at hObjection
    cases hObjection
  | constructed constructor =>
    rw [hStrategy] at hObjection
    cases hObjection

end Hierarchy

namespace Placement

open Hierarchy

variable {h : Hierarchy} {n : InjectorId} {key : Key} {d d' : Draft} {declaration : Declaration} {report : Report}
  {conversion : Conversion} {locate : InjectorId → Key → Run Draft Binding}

-- ---------------------------------------------------------------------------
-- One attempt
-- ---------------------------------------------------------------------------

/-- Nothing is staged below the requesting injector. -/
theorem stagedBelow_eq_nil (hR : h.Rooted) (hF : Fits h n d) (key : Key) : d.stagedBelow n key = [] := by
  refine (stagedBelow_eq_nil_iff hF.marked).mpr fun other hMem _ hBelow => ?_
  exact hR.not_mem_lineage_self (hR.mem_lineage_of_lineage hBelow (hF.onPath other hMem))

/-- At the requesting injector, only descendants that own the key stand in the way. -/
theorem checkUnclaimed_told (hW : h.WellFormed) (hKey : key ≠ .injector) (hF : Fits h n d)
    (hNone : h.lookup n key = none) (hRun : checkUnclaimed n key d = some (.error report, d')) :
    h.Explained n key report d'.hierarchy.user := by
  have hBelow := stagedBelow_eq_nil hW.rooted hF key
  have hClaimants := hF.marked.core.claimants n key
  unfold checkUnclaimed at hRun
  simp only [hBelow, List.append_nil, hClaimants] at hRun
  split at hRun
  · cases hRun
  · next hSome =>
    cases hRun
    rw [List.isEmpty_iff] at hSome
    exact .of_cause hNone (hW.blocked hKey hSome)

theorem visibleDeclaration_told (hF : Fits h n d) (hNone : h.lookup n key = none)
    (hRun : visibleDeclaration n key d = some (.error report, d')) : h.Explained n key report d'.hierarchy.user := by
  obtain ⟨-, hUndeclared⟩ := visibleDeclaration_error hRun
  simp only [visibleDeclaration, hUndeclared] at hRun
  rw [hF.marked.core.sameShape.declaration?] at hUndeclared
  cases hRun
  exact .of_cause hNone (.undeclared hUndeclared)

theorem checkObjection_told (hDeclared : h.declaration? n key = some declaration) (hNone : h.lookup n key = none)
    (hRun : checkObjection key declaration d = some (.error report, d')) :
    h.Explained n key (report.within (.at declaration.source)) d'.hierarchy.user := by
  rw [checkObjection] at hRun
  cases hObjection : declaration.strategy.objection key declaration.scope with
  | some problem =>
    rw [hObjection] at hRun
    cases hRun
    exact .of_cause hNone (cause_of_objection hDeclared hObjection)
  | none =>
    rw [hObjection] at hRun
    cases hRun

theorem visibleScope_told (hF : Fits h n d) (hDeclared : h.declaration? n key = some declaration)
    (hNone : h.lookup n key = none) (hRun : visibleScope n declaration d = some (.error report, d')) :
    h.Explained n key (report.within (.at declaration.source)) d'.hierarchy.user := by
  obtain ⟨-, tag, hTag, hNearest⟩ := visibleScope_error hF.marked.wellFormed hRun
  rw [hF.marked.core.sameShape.nearestScope] at hNearest
  have hNowhere : ∀ p ∈ h.path n, ∀ injector, h.injector? p = some injector → injector.scopes.get? tag = none := by
    intro p hp injector hInjector
    have hp := nearest_eq_none_iff.mp hNearest p hp
    rwa [hInjector] at hp
  unfold visibleScope at hRun
  simp only [hTag] at hRun
  split at hRun
  · cases hRun
  · cases hRun
    exact .of_cause hNone (.unregistered hDeclared hTag hNowhere)

/-- If a binding cannot even be started at the requesting injector, the key itself is to blame. -/
theorem start_told (hW : h.WellFormed) (hKey : key ≠ .injector) (hF : Fits h n d) (hNone : h.lookup n key = none)
    (hRun : start n key d = some (.error report, d')) : h.Explained n key report d'.hierarchy.user := by
  rcases Run.bind_eq_error_iff.mp hRun with hUnclaimed | ⟨_, d₁, hUnclaimed, hFree⟩
  · exact checkUnclaimed_told hW hKey hF hNone hUnclaimed
  obtain ⟨rfl, -, -⟩ := checkUnclaimed_ok hUnclaimed
  rcases Run.bind_eq_error_iff.mp hFree with hVisible | ⟨declaration, d₂, hVisible, hFound⟩
  · exact visibleDeclaration_told hF hNone hVisible
  obtain ⟨rfl, hDeclared⟩ := visibleDeclaration_ok hVisible
  rw [hF.marked.core.sameShape.declaration?] at hDeclared
  rcases Run.bind_eq_error_iff.mp hFound with hWithin | ⟨scope, d₃, -, hStage⟩
  · obtain ⟨inner, hInner, rfl⟩ := Run.within_eq_error_iff.mp hWithin
    rcases Run.bind_eq_error_iff.mp hInner with hObjection | ⟨_, d₃, hObjection, hScope⟩
    · exact checkObjection_told hDeclared hNone hObjection
    · obtain ⟨rfl, -⟩ := checkObjection_ok hObjection
      exact visibleScope_told hF hDeclared hNone hScope
  · cases hStage

/-- The attempt at the requesting injector either fails for the key itself, or for a key that is listed. -/
theorem attempt_told (hW : h.WellFormed) (hn : h.isLive n = true) (hL : Locates h n locate)
    (hTold : ∀ {key d d' report}, Fits h n d → locate n key d = some (.error report, d') →
      h.Explained n key report d'.hierarchy.user)
    (hF : Fits h n d) (hV : Vacant h n d n key) (hRun : attempt locate n key d = some (.error report, d')) :
    h.Explained n key report d'.hierarchy.user := by
  have hKey := key_ne_injector_of_lookup hn hV.unbound
  obtain ⟨d₁, hHierarchy, -, -, -, hReason⟩ := exists_of_attempt_error hRun
  rw [hHierarchy]
  rcases hReason with hStart | ⟨binding, d₂, hStart, hSupply⟩
  · exact start_told hW hKey hF hV.unbound hStart
  · have hStarted := start_ok hF.marked hStart
    obtain ⟨declaration, hStartable, hBuilt⟩ := hStarted.declaration
    have hFits : ∀ dependency d₃ first d₄, Fits h n d₃ →
        Run.within (.at binding.source)
          (Run.within (.locating dependency) (locate binding.owner dependency)) d₃ = some (.ok first, d₄) →
        Fits h n d₄ := fun dependency d₃ first d₄ hF₃ hFirst =>
      (hL.ok (hStarted.owner ▸ self_mem_path) hF₃ (supplyOne_eq_ok_iff.mp hFirst)).1
    obtain ⟨dependency, hMem, d₃, hF₃, hFailed⟩ :=
      Run.exists_mem_of_forEach_error hFits (hF.snoc (hStarted.stageable hF hV)) hSupply
    obtain ⟨inner, hLocate, rfl⟩ := exists_of_supplyOne_error hFailed
    rw [hStarted.owner] at hLocate
    rw [hBuilt.source]
    exact (hTold hF₃ hLocate).deeper ⟨hV.unbound, hStartable, hBuilt.strategy ▸ hMem⟩

/-- When all candidates above have failed, the report is that of the attempt at the requesting injector. -/
theorem exists_attempt_of_place_error (hR : h.Rooted) (hL : Locates h n locate) (candidates : List InjectorId)
    (hPath : ∀ candidate ∈ candidates, candidate ∈ h.path n) (hF : Fits h n d) (hV : Vacant h n d n key)
    (hRun : place locate n key candidates d = some (.error report, d')) :
    ∃ d₁, Fits h n d₁ ∧ Vacant h n d₁ n key ∧ attempt locate n key d₁ = some (.error report, d') := by
  induction candidates generalizing d with
  | nil => exact ⟨d, hF, hV, hRun⟩
  | cons candidate rest ih =>
    have hRest := fun other hMem => hPath other (List.mem_cons_of_mem candidate hMem)
    rcases exists_of_place_cons hRun with ⟨-, hRun⟩ | ⟨other, hOutcome, -⟩ | ⟨_, d₁, hAttempt, hRun⟩
    · exact ih hRest hF hV hRun
    · cases hOutcome
    · obtain ⟨hF₁, hStaged⟩ := attempt_error hL hF (hV.up hR (hPath candidate List.mem_cons_self)) hAttempt
      exact ih hRest hF₁ (hV.of_staged hStaged) hRun

-- ---------------------------------------------------------------------------
-- Conversions
-- ---------------------------------------------------------------------------

theorem runConverter_told {registration : ConverterRegistration} (hNone : h.lookup n key = none)
    (hConversion : conversion? h n key = some conversion) (hOne : conversion.converters = [registration])
    (hRun : runConverter registration conversion.text key d = some (.error report, d')) :
    h.Explained n key report d'.hierarchy.user := by
  simp only [runConverter] at hRun
  split at hRun
  · cases hRun
  · next reason hRefused =>
    cases hRun
    exact .of_cause hNone (.refused hConversion hOne (Prod.ext hRefused rfl))

theorem convert_told (hW : h.WellFormed) (hKey : key ≠ .injector) (hF : Fits h n d) (hNone : h.lookup n key = none)
    (hConversion : conversion? h n key = some conversion)
    (hRun : convert conversion n key d = some (.error report, d')) : h.Explained n key report d'.hierarchy.user := by
  unfold convert at hRun
  rcases hConverters : conversion.converters with _ | ⟨registration, _ | ⟨second, others⟩⟩
  · exact absurd hConverters (conversion?_eq_some_iff.mp hConversion).2.2.2
  · rw [hConverters] at hRun
    rcases Run.bind_eq_error_iff.mp hRun with hConvert | ⟨value, d₁, hConvert, hRest⟩
    · exact runConverter_told hNone hConversion hConverters hConvert
    · obtain ⟨hMarked, hStaged⟩ := marked_runConverter hF.marked.wellFormed hConvert
      rcases Run.bind_eq_error_iff.mp hRest with hUnclaimed | ⟨_, d₂, -, hStage⟩
      · exact checkUnclaimed_told hW hKey (hF.marks hMarked hStaged) hNone hUnclaimed
      · cases hStage
  · rw [hConverters] at hRun
    cases hRun
    rw [← hConverters]
    exact .of_cause hNone (.ambiguous hConversion hConverters)

-- ---------------------------------------------------------------------------
-- The search
-- ---------------------------------------------------------------------------

theorem createOnDemand_told (hW : h.WellFormed) (hn : h.isLive n = true) (hL : Locates h n locate)
    (hTold : ∀ {key d d' report}, Fits h n d → locate n key d = some (.error report, d') →
      h.Explained n key report d'.hierarchy.user)
    (hF : Fits h n d) (hV : Vacant h n d n key) (hRun : createOnDemand locate n key d = some (.error report, d')) :
    h.Explained n key report d'.hierarchy.user := by
  have hKey := key_ne_injector_of_lookup hn hV.unbound
  unfold createOnDemand at hRun
  rw [hF.marked.core.sameShape.conversion?, hF.marked.core.lineage, hF.marked.core.sameShape.isExplicitOnly] at hRun
  split at hRun
  · next conversion hConversion => exact convert_told hW hKey hF hV.unbound hConversion hRun
  · next hNothing =>
    split at hRun
    · next hOnly =>
      cases hRun
      exact .of_cause hV.unbound (.explicitOnly hNothing hOnly)
    · have hAbove : ∀ p ∈ (h.lineage n).reverse, p ∈ h.path n := fun p hp =>
        mem_path_of_mem_lineage (List.mem_reverse.mp hp)
      obtain ⟨d₁, hF₁, hV₁, hAttempt⟩ := exists_attempt_of_place_error hW.rooted hL _ hAbove hF hV hRun
      exact attempt_told hW hn hL hTold hF₁ hV₁ hAttempt

/-- A search that fails for the requesting injector is explained there, by induction on how deeply attempts may be
nested: the attempts that count are all at that injector. -/
theorem explained_locate (hW : h.WellFormed) (hn : h.isLive n = true) (fuel : Nat) :
    ∀ {key d d' report}, Fits h n d → Placement.locate fuel n key d = some (.error report, d') →
      h.Explained n key report d'.hierarchy.user := by
  induction fuel with
  | zero =>
    intro key d d' report _ hRun
    cases hRun
  | succ fuel ih =>
    intro key d d' report hF hRun
    simp only [Placement.locate] at hRun
    split at hRun
    · cases hRun
    · next hNone =>
      rw [Option.or_eq_none_iff, hF.marked.core.lookup] at hNone
      exact createOnDemand_told hW hn (locates hW.rooted n fuel) ih hF
        (vacant_of_lookup hW.rooted hF self_mem_path hNone.1 hNone.2) hRun

end Placement

namespace Hierarchy

open Placement

variable {h h' : Hierarchy} {n : InjectorId} {key : Key} {report : Report}

/-- A resolution that fails is explained. -/
theorem explained_resolve (hW : h.WellFormed) (hn : h.isLive n = true)
    (hRun : h.resolve n key = some (.error report, h')) : h.Explained n key report h'.user := by
  obtain ⟨hNone, -⟩ := resolve_error hW hRun
  obtain ⟨d, hLocate, rfl⟩ := (resolve_of_lookup_eq_none hNone).mp hRun
  exact explained_locate hW hn _ (fits_start hW n) hLocate

/-- In every reachable state, the report of a resolution that fails follows a chain of keys, from the one that was asked
for to one that is not bound. Each key but the last has a nearest declaration for the injector that was asked, which
lists the next key, and the trail names it after that key. The problem is one that the last key has at this very
injector, in the state in which it was asked and which is left as far as bindings go; if a declaration or a converter
is at fault, the trail begins with it. -/
theorem error_names_cause (hReach : Reachable h) (hLive : h.isLive n = true)
    (hRun : h.resolve n key = some (.error report, h')) :
    ∃ links last place,
      h.Chain n key links last ∧ h.lookup n last = none ∧ h.Cause n last report.problem place h'.user ∧
      report.trail = place.toList.map Frame.at ++ Link.frames links ∧
      ∀ m x, h'.binding? m x = h.binding? m x := by
  have hW := hReach.wellFormed
  obtain ⟨links, last, place, hExplains⟩ := explained_resolve hW hLive hRun
  have hSame := (resolve_error hW hRun).2.core.binding?
  exact ⟨links, last, place, hExplains.chain, hExplains.unbound, hExplains.cause, hExplains.trail, hSame⟩

/-- A root that links `A` to `B`, a child that links `B` to `C`, and a grandchild that binds `C`. -/
def detour : Hierarchy :=
  let a := Key.of ⟨10, "A"⟩
  let b := Key.of ⟨11, "B"⟩
  let c := Key.of ⟨12, "C"⟩
  let root := create none ⟨[], [⟨a, .linked b, none, .type "A"⟩], [], [], []⟩ false {}
  let child := root.2.create (some 0) ⟨[], [⟨b, .linked c, none, .type "B"⟩], [], [], []⟩ false
  (child.2.create (some 1)
    ⟨[⟨c, .fixed (.made 0 c.type (.primitive "")), none, .type "C"⟩], [], [], [], []⟩ false).2

theorem reachable_detour : Reachable detour := by
  refine .tail (.tail (.single (.create ?_)) (.create ?_)) (.create ?_) <;> rintro p ⟨⟩ <;> rfl

/-- The root fails for `B`, which is not declared there, but what is told is that the child cannot have `C`. -/
theorem error_names_cause_in_detour :
    let a := Key.of ⟨10, "A"⟩
    let b := Key.of ⟨11, "B"⟩
    let c := Key.of ⟨12, "C"⟩
    let h := detour
    Reachable h ∧ h.isLive 1 = true ∧ ∃ report h', h.resolve 1 a = some (.error report, h') ∧
      report = ⟨.childBlocksParent c [.type "C"],
        [.locating c, .at (.type "B"), .locating b, .at (.type "A")]⟩ ∧
      ∃ links last place,
        h.Chain 1 a links last ∧ h.lookup 1 last = none ∧ h.Cause 1 last report.problem place h'.user ∧
        report.trail = place.toList.map Frame.at ++ Link.frames links ∧
        ∀ m x, h'.binding? m x = h.binding? m x := by
  intro a b c h
  have hLive : h.isLive 1 = true := by decide +kernel
  obtain ⟨report, hRun⟩ := Run.exists_error_after (x := resolve 1 a) (s := h) (by decide +kernel)
  have hTold : (h.resolve 1 a).map (fun result => result.1.map fun _ => ()) = some (.error
      ⟨.childBlocksParent c [.type "C"], [.locating c, .at (.type "B"), .locating b, .at (.type "A")]⟩) := by
    decide +kernel
  rw [hRun, Option.map_some, Option.some.injEq, Except.map, Except.error.injEq] at hTold
  exact ⟨reachable_detour, hLive, report, _, hRun, hTold, error_names_cause reachable_detour hLive hRun⟩

end Hierarchy

end InjectorTree
