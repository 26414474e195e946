import InjectorTree.Proofs.Converting
import InjectorTree.Proofs.Equipped

/-!
# Conversions come before declarations

A key is converted if there is something to convert for it at the injector that was asked, and placed from a
declaration only if there is not. The injectors above are tried without another look at what there is to convert. That
is right, since what there is to convert above there is to convert below: where a conversion does not apply, it applies
nowhere above.

* `ConversionApplies`: what it takes for a conversion.
* `ConvertsExactly`: what a resolution comes to, depending on whether a conversion applies.
* `Defers`: a search places nothing where a conversion applies; `defers` says so of every search.
* `conversion_takes_precedence`: all of it, and that no injector ever owns a binding that was placed where a conversion
  applies.
-/

namespace InjectorTree

open Placement

namespace Hierarchy

/-- The converters on the path that accept the key, nearest injector first. -/
def accepting (h : Hierarchy) (n : InjectorId) (key : Key) : List ConverterRegistration :=
  (h.converters n).filter (·.converter.accepts key)

/-- There is a text to be converted for the key: the nearest explicit binding of text under its qualifier is for a
constant one, and some converter accepts the key. -/
structure Convertible (h : Hierarchy) (n : InjectorId) (key : Key) (constant : Binding) (text : String) : Prop where
  qualified : key.qualifier.isSome = true
  nearest : h.explicitBinding? n (key.withType .text) = some constant
  text : constant.text? = some text
  accepted : h.accepting n key ≠ []

/-- There is something to convert for the key at the injector. -/
def ConversionApplies (h : Hierarchy) (n : InjectorId) (key : Key) : Prop :=
  ∃ constant text, h.Convertible n key constant text

/-- Where the binding was placed from a declaration, there was nothing to convert. -/
def PlacedDuly (h : Hierarchy) (binding : Binding) : Prop :=
  binding.origin = .justInTime → conversion? h binding.owner binding.key = none

variable {h h' : Hierarchy} {n m p : InjectorId} {key wanted : Key} {binding result : Binding} {d d' : Draft}
  {conversion : Conversion} {report : Report} {locate : InjectorId → Key → Run Draft Binding}

-- ---------------------------------------------------------------------------
-- Where a conversion applies
-- ---------------------------------------------------------------------------

theorem conversion?_eq_some_iff_convertible :
    conversion? h n key = some conversion ↔
      ∃ constant, h.Convertible n key constant conversion.text ∧ constant.source = conversion.source ∧
        h.accepting n key = conversion.converters := by
  rw [conversion?_eq_some_iff]
  constructor
  · rintro ⟨hQualified, ⟨constant, hNearest, hText, hSource⟩, hAccepting, hSome⟩
    exact ⟨constant, ⟨hQualified, hNearest, hText, fun hNil => hSome (hAccepting ▸ hNil)⟩, hSource, hAccepting⟩
  · rintro ⟨constant, hConvertible, hSource, hAccepting⟩
    exact ⟨hConvertible.qualified, ⟨constant, hConvertible.nearest, hConvertible.text, hSource⟩, hAccepting,
      hAccepting ▸ hConvertible.accepted⟩

theorem conversionApplies_iff : h.ConversionApplies n key ↔ ∃ conversion, conversion? h n key = some conversion := by
  constructor
  · rintro ⟨constant, text, hConvertible⟩
    exact ⟨⟨text, constant.source, h.accepting n key⟩,
      conversion?_eq_some_iff_convertible.mpr ⟨constant, hConvertible, rfl, rfl⟩⟩
  · rintro ⟨conversion, hConversion⟩
    obtain ⟨constant, hConvertible, -⟩ := conversion?_eq_some_iff_convertible.mp hConversion
    exact ⟨constant, conversion.text, hConvertible⟩

theorem not_conversionApplies_iff : ¬h.ConversionApplies n key ↔ conversion? h n key = none := by
  rw [conversionApplies_iff, Option.eq_none_iff_forall_ne_some, not_exists]

end Hierarchy

open Hierarchy

-- ---------------------------------------------------------------------------
-- What a search places
-- ---------------------------------------------------------------------------

/-- Nothing is staged from a declaration where there is something to convert. -/
def Draft.Duly (h : Hierarchy) (d : Draft) : Prop :=
  ∀ binding ∈ d.staged, h.PlacedDuly binding

/-- What a search promises about what it places. -/
def Defers (h : Hierarchy) (n : InjectorId) (locate : InjectorId → Key → Run Draft Binding) : Prop :=
  ∀ {m : InjectorId} {key : Key} {d d' : Draft} {binding : Binding}, m ∈ h.path n → Fits h n d → d.Duly h →
    locate m key d = some (.ok binding, d') → d'.Duly h

namespace Placement

variable {h : Hierarchy} {n m p : InjectorId} {key : Key} {binding : Binding} {d d' : Draft}
  {locate : InjectorId → Key → Run Draft Binding}

theorem duly_snoc (hD : d.Duly h) (hStaged : d'.staged = d.staged ++ [binding]) (hNew : h.PlacedDuly binding) :
    d'.Duly h := by
  intro other hMem
  rw [hStaged, List.mem_append, List.mem_singleton] at hMem
  rcases hMem with hOld | rfl
  · exact hD other hOld
  · exact hNew

theorem attempt_duly (hL : Locates h n locate) (hS : Defers h n locate) (hF : Fits h n d) (hV : Vacant h n d p key)
    (hD : d.Duly h) (hNothing : conversion? h p key = none)
    (hRun : attempt locate p key d = some (.ok binding, d')) : d'.Duly h := by
  obtain ⟨d₁, located, hStart, hSupply⟩ := attempt_eq_ok_iff.mp hRun
  have hStarted := start_ok hF.marked hStart
  have hOwner : binding.owner ∈ h.path n := hStarted.owner ▸ hV.onPath
  have hD₁ : d₁.Duly h := by
    refine duly_snoc hD hStarted.staged fun _ => ?_
    rw [hStarted.owner, hStarted.key]
    exact hNothing
  -- what is located for the binding is placed duly in turn
  have hKeeps : ∀ dependency d₂ first d₃, Fits h n d₂ ∧ d₂.Duly h →
      Run.within (.at binding.source)
        (Run.within (.locating dependency) (locate binding.owner dependency)) d₂ = some (.ok first, d₃) →
      Fits h n d₃ ∧ d₃.Duly h := by
    rintro dependency d₂ first d₃ ⟨hF₂, hD₂⟩ hFirst
    have hLocate := supplyOne_eq_ok_iff.mp hFirst
    exact ⟨(hL.ok hOwner hF₂ hLocate).1, hS hOwner hF₂ hD₂ hLocate⟩
  exact (Run.forEach_ok hKeeps ⟨hF.snoc (hStarted.stageable hF hV), hD₁⟩ hSupply).2

/-- The candidates are all on the path, where there is nothing to convert either. -/
theorem place_duly (hR : h.Rooted) (hL : Locates h n locate) (hS : Defers h n locate) (candidates : List InjectorId)
    (hPath : ∀ candidate ∈ candidates, candidate ∈ h.path m)
    (hNothing : ∀ q ∈ h.path m, conversion? h q key = none) (hF : Fits h n d) (hV : Vacant h n d m key)
    (hD : d.Duly h) (hRun : place locate m key candidates d = some (.ok binding, d')) : d'.Duly h := by
  induction candidates generalizing d with
  | nil => exact attempt_duly hL hS hF hV hD (hNothing m self_mem_path) hRun
  | cons candidate rest ih =>
    have hFirst := hPath candidate List.mem_cons_self
    have hRest := fun other hMem => hPath other (List.mem_cons_of_mem candidate hMem)
    rcases exists_of_place_cons hRun with ⟨-, hRun⟩ | ⟨other, hOutcome, hAttempt⟩ | ⟨report, d₁, hAttempt, hRun⟩
    · exact ih hRest hF hV hD hRun
    · cases hOutcome
      exact attempt_duly hL hS hF (hV.up hR hFirst) hD (hNothing candidate hFirst) hAttempt
    · obtain ⟨hF₁, hStaged⟩ := attempt_error hL hF (hV.up hR hFirst) hAttempt
      have hD₁ : d₁.Duly h := fun other hMem => hD other (hStaged ▸ hMem)
      exact ih hRest hF₁ (hV.of_staged hStaged) hD₁ hRun

/-- What a conversion makes is marked as converted. -/
theorem origin_of_convert {conversion : Conversion} (hRun : convert conversion m key d = some (.ok binding, d')) :
    binding.origin = .converted := by
  rcases convert_cases conversion m key with ⟨registration, -, hEq⟩ | ⟨report, hEq⟩
  · rw [hEq] at hRun
    obtain ⟨value, d₁, -, hRest⟩ := Run.bind_eq_ok_iff.mp hRun
    obtain ⟨_, d₂, -, hStage⟩ := Run.bind_eq_ok_iff.mp hRest
    cases hStage
    rfl
  · rw [hEq] at hRun
    cases hRun

theorem createOnDemand_duly (hW : h.WellFormed) (hL : Locates h n locate) (hS : Defers h n locate) (hF : Fits h n d)
    (hV : Vacant h n d m key) (hD : d.Duly h) (hRun : createOnDemand locate m key d = some (.ok binding, d')) :
    d'.Duly h := by
  unfold createOnDemand at hRun
  rw [hF.marked.core.sameShape.conversion?, hF.marked.core.lineage] at hRun
  split at hRun
  · next conversion hConversion =>
    obtain ⟨hStageable, -⟩ := convert_ok hF hV hConversion hRun
    refine duly_snoc hD hStageable.staged fun hOrigin => ?_
    rw [origin_of_convert hRun] at hOrigin
    cases hOrigin
  · next hNothing =>
    split at hRun
    · cases hRun
    · exact place_duly hW.rooted hL hS _ (fun _ hMem => mem_path_of_mem_lineage (List.mem_reverse.mp hMem))
        (fun q hq => conversion?_eq_none_of_mem_path hW hq hNothing) hF hV hD hRun

/-- A search places nothing where a conversion applies, by induction on how deeply attempts may be nested. -/
theorem defers (hW : h.WellFormed) (n : InjectorId) (fuel : Nat) : Defers h n (Placement.locate fuel) := by
  induction fuel with
  | zero =>
    intro m key d d' binding _ _ _ hRun
    cases hRun
  | succ fuel ih =>
    intro m key d d' binding hm hF hD hRun
    simp only [Placement.locate] at hRun
    split at hRun
    · cases hRun
      exact hD
    · next hNone =>
      rw [Option.or_eq_none_iff, hF.marked.core.lookup] at hNone
      exact createOnDemand_duly hW (locates hW.rooted n fuel) ih hF
        (vacant_of_lookup hW.rooted hF hm hNone.1 hNone.2) hD hRun

end Placement

namespace Hierarchy

variable {h h' : Hierarchy} {n m p : InjectorId} {key wanted : Key} {binding result : Binding} {report : Report}
  {conversion : Conversion} {outcome : Except Report Binding}

-- ---------------------------------------------------------------------------
-- What is placed in the course of time
-- ---------------------------------------------------------------------------

/-- Whatever was placed from a declaration was placed duly. -/
def AllDuly (h : Hierarchy) : Prop :=
  ∀ p key binding, h.binding? p key = some binding → h.PlacedDuly binding

/-- What there is to convert at an injector stays, as long as it lives. -/
theorem PlacedDuly.continues (hDuly : h.PlacedDuly binding) (hC : Continues h h') (hR : h.Rooted) (hR' : h'.Rooted)
    (hLive : h.isLive binding.owner = true) (hLive' : h'.isLive binding.owner = true) : h'.PlacedDuly binding := by
  intro hOrigin
  rw [(hC.sameShapeOn hR hR' hLive hLive').conversion? self_mem_path]
  exact hDuly hOrigin

theorem allDuly_of_resolve (hW : h.WellFormed) (hn : h.isLive n = true) (hAll : h.AllDuly)
    (hRun : h.resolve n wanted = some (.ok result, h')) : h'.AllDuly := by
  cases hNone : h.lookup n wanted with
  | some found =>
    rw [resolve_of_lookup hNone] at hRun
    cases hRun
    exact hAll
  | none =>
    obtain ⟨d, hLocate, rfl⟩ := (resolve_of_lookup_eq_none hNone).mp hRun
    obtain ⟨hF, -⟩ := (locates hW.rooted n _).ok self_mem_path (fits_start hW n) hLocate
    have hStart : Draft.Duly h { hierarchy := h } := fun _ hMem => nomatch hMem
    have hDuly := defers hW n _ self_mem_path (fits_start hW n) hStart hLocate
    obtain ⟨-, hShape, -, hBindings⟩ := publish_spec hW hn hF
    intro p key binding hb hOrigin
    rw [settle, hShape.conversion?]
    rcases (hBindings p key binding).mp hb with hOld | ⟨hMem, -, -⟩
    · exact hAll p key binding hOld hOrigin
    · exact hDuly binding hMem hOrigin

theorem Step.allDuly (hW : h.WellFormed) (hAll : h.AllDuly) (hStep : Step h h') : h'.AllDuly := by
  intro p key binding hb hOrigin
  rcases hStep.exists_resolve hW hb (Or.inl hOrigin) with hOld | ⟨n, wanted, result, hn, hRun⟩
  · have hW' := hStep.wellFormed hW
    obtain rfl := (hW.binding? hOld).2.1
    exact (hAll _ key binding hOld).continues (hStep.continues hW) hW.rooted hW'.rooted
      (isLive_of_binding? hOld) (isLive_of_binding? hb) hOrigin
  · exact allDuly_of_resolve hW hn hAll hRun p key binding hb hOrigin

theorem Reachable.allDuly (hReach : Reachable h) : h.AllDuly := by
  induction hReach with
  | refl =>
    intro p key binding hb
    cases hb
  | tail hBefore hStep ih => exact hStep.allDuly (Reachable.wellFormed hBefore) ih

-- ---------------------------------------------------------------------------
-- What a resolution comes to
-- ---------------------------------------------------------------------------

/-- What the resolution of a key comes to at an injector on whose path it is not bound. -/
structure ConvertsExactly (h : Hierarchy) (n : InjectorId) (key : Key) : Prop where
  /-- The injector gets a converted binding exactly if a conversion applies, there is one converter, it makes a value of
  the text, and nobody below owns the key. The binding holds the value, and comes from where the text was declared. -/
  converts : ∀ value source,
    (∃ binding h', h.resolve n key = some (.ok binding, h') ∧ h'.binding? n key = some binding ∧
      binding.origin = .converted ∧ binding.strategy = .fixed value ∧ binding.source = source) ↔
    ∃ constant text registration user, h.Convertible n key constant text ∧ h.accepting n key = [registration] ∧
      registration.converter.convert text key h.user = (.ok value, user) ∧ constant.source = source ∧
      ∀ m, n ∈ h.lineage m → h.binding? m key = none
  /-- Several converters are one too many. The report lists them all. -/
  ambiguous : ∀ first second others, h.ConversionApplies n key → h.accepting n key = first :: second :: others →
    h.resolve n key =
      some (.error (.of (.converterConflict key ((first :: second :: others).map (·.source)))), h)
  /-- Where a conversion applies, nothing but the key is bound, and nobody but the injector gets it. -/
  alone : ∀ binding h', h.ConversionApplies n key → h.resolve n key = some (.ok binding, h') →
    binding.origin = .converted ∧ binding.owner = n ∧
      ∀ m x new, h'.binding? m x = some new → h.binding? m x = some new ∨ new = binding
  /-- And what it fails for is the conversion. -/
  fails : ∀ report h', h.ConversionApplies n key → h.resolve n key = some (.error report, h') →
    (∃ sources, report.problem = .converterConflict key sources) ∨
      (∃ text reason, report.problem = .conversionFailed key text reason) ∨
        ∃ sources, report.problem = .childBlocksParent key sources
  /-- Where no conversion applies, nothing is created at an injector that has explicit bindings only. -/
  refuses : ¬h.ConversionApplies n key → h.isExplicitOnly n = true →
    h.resolve n key = some (.error (.of (.jitDisabled key)), h)
  /-- At others, the key is placed: the candidates are tried from the root downwards. -/
  places : ¬h.ConversionApplies n key → h.isExplicitOnly n = false → ∃ fuel, ∀ outcome h',
    h.resolve n key = some (outcome, h') ↔
      ∃ d, place (Placement.locate fuel) n key (h.lineage n).reverse { hierarchy := h } = some (outcome, d) ∧
        h' = settle outcome d
  /-- What is created for the key is placed exactly if no conversion applies. -/
  origin : ∀ binding h', h.resolve n key = some (.ok binding, h') →
    (binding.origin = .justInTime ↔ ¬h.ConversionApplies n key)

/-- Whoever is led on to from a binding without dependencies is that binding itself. -/
theorem eq_of_reaches {staged : List Binding} {other : Binding} (hNone : binding.strategy.dependencies = [])
    (hReaches : Relation.ReflTransGen (Uses h staged) binding other) : other = binding := by
  cases Relation.ReflTransGen.cases_head hReaches with
  | inl hSame => exact hSame.symm
  | inr hFirst =>
    obtain ⟨next, ⟨-, hUses, -⟩, -⟩ := hFirst
    rw [hNone] at hUses
    cases hUses

/-- A conversion creates nothing but the one binding. -/
theorem alone_of_resolve (hW : h.WellFormed) (hn : h.isLive n = true) (hNone : h.lookup n key = none)
    (hConversion : conversion? h n key = some conversion) (hRun : h.resolve n key = some (.ok binding, h')) :
    binding.origin = .converted ∧ binding.owner = n ∧
      ∀ m x new, h'.binding? m x = some new → h.binding? m x = some new ∨ new = binding := by
  obtain ⟨hFrom, registration, value, user, hOne, hValue, hFree⟩ := converts_of_resolve hNone hConversion hRun
  obtain ⟨converted, h₁, hConverted, -, hOwner, -⟩ := resolve_converts hNone hConversion hOne hValue hFree
  rw [hRun] at hConverted
  cases hConverted
  refine ⟨hFrom.origin, hOwner, fun m x new hNew => ?_⟩
  rcases exists_draft_of_resolve hW hn hRun hNew with hOld | ⟨d, -, -, hGrown, hMem⟩
  · exact Or.inl hOld
  · have hReaches := (hGrown.used new hMem).resolve_left List.not_mem_nil
    obtain ⟨value', hFixed⟩ := hFrom.strategy
    exact Or.inr (eq_of_reaches (by rw [hFixed]; rfl) hReaches)

/-- Where there is nothing to convert, the search places the key, unless nothing may be created. -/
theorem locate_of_unconverted (hNone : h.lookup n key = none) (hNothing : conversion? h n key = none) :
    Placement.locate (depthBound h n) n key { hierarchy := h } =
      if h.isExplicitOnly n then some (.error (.of (.jitDisabled key)), { hierarchy := h })
      else place (Placement.locate ((h.path n).length * (declaredKeys h n).length)) n key (h.lineage n).reverse
        { hierarchy := h } := by
  have hUnstaged : Draft.lookup { hierarchy := h } n key = none :=
    List.findSome?_eq_none_iff.mpr fun _ _ => rfl
  simp only [depthBound, Placement.locate, hNone, hUnstaged, Option.none_or, createOnDemand, hNothing]

/-- What an attempt makes is marked as just-in-time. -/
theorem origin_of_place {locate : InjectorId → Key → Run Draft Binding} {candidates : List InjectorId} {d d' : Draft}
    (hRun : place locate n key candidates d = some (.ok binding, d')) : binding.origin = .justInTime := by
  have hAttempt : ∀ {p d d' other}, attempt locate p key d = some (.ok other, d') → other.origin = .justInTime := by
    intro p d d' other hRun
    obtain ⟨d₁, located, hStart, -⟩ := attempt_eq_ok_iff.mp hRun
    obtain ⟨_, d₂, -, hRest⟩ := Run.bind_eq_ok_iff.mp hStart
    obtain ⟨declaration, d₃, -, hRest⟩ := Run.bind_eq_ok_iff.mp hRest
    obtain ⟨scope, d₄, -, hStage⟩ := Run.bind_eq_ok_iff.mp hRest
    cases hStage
    rfl
  induction candidates generalizing d with
  | nil => exact hAttempt hRun
  | cons candidate rest ih =>
    rcases exists_of_place_cons hRun with ⟨-, hRun⟩ | ⟨other, hOutcome, hFound⟩ | ⟨report, d₁, -, hRun⟩
    · exact ih hRun
    · cases hOutcome
      exact hAttempt hFound
    · exact ih hRun

/-- A converted binding is made exactly if one converter makes a value of the text, and nobody below owns the key. -/
theorem converted_iff (hW : h.WellFormed) (hn : h.isLive n = true) (hNone : h.lookup n key = none) (value : Instance)
    (source : Source) :
    (∃ binding h', h.resolve n key = some (.ok binding, h') ∧ h'.binding? n key = some binding ∧
      binding.origin = .converted ∧ binding.strategy = .fixed value ∧ binding.source = source) ↔
    ∃ constant text registration user, h.Convertible n key constant text ∧ h.accepting n key = [registration] ∧
      registration.converter.convert text key h.user = (.ok value, user) ∧ constant.source = source ∧
      ∀ m, n ∈ h.lineage m → h.binding? m key = none := by
  have hUnowned := hW.claimants_eq_nil_iff (a := n) (key_ne_injector_of_lookup hn hNone)
  constructor
  · rintro ⟨binding, h', hRun, -, hOrigin, hFixed, rfl⟩
    obtain ⟨conversion, hConversion⟩ := exists_conversion_of_resolve hW hNone hRun hOrigin
    obtain ⟨hFrom, registration, value', user, hOne, hValue, hFree⟩ := converts_of_resolve hNone hConversion hRun
    -- what the converter makes is what the binding holds
    obtain ⟨converted, h₁, hConverted, -, -, hHolds⟩ := resolve_converts hNone hConversion hOne hValue hFree
    rw [hRun] at hConverted
    cases hConverted
    rw [hFixed, Strategy.fixed.injEq] at hHolds
    obtain ⟨constant, hConvertible, hSource, hAccepting⟩ := conversion?_eq_some_iff_convertible.mp hConversion
    exact ⟨constant, conversion.text, registration, user, hConvertible, hAccepting.trans hOne, hHolds ▸ hValue,
      hSource.trans hFrom.source.symm, hUnowned.mp hFree⟩
  · rintro ⟨constant, text, registration, user, hConvertible, hOne, hValue, rfl, hFree⟩
    have hConversion : conversion? h n key = some ⟨text, constant.source, [registration]⟩ :=
      conversion?_eq_some_iff_convertible.mpr ⟨constant, hConvertible, rfl, hOne⟩
    obtain ⟨converted, h', hConverted, hFrom, hOwner, hHolds⟩ :=
      resolve_converts hNone hConversion rfl hValue (hUnowned.mpr hFree)
    have hOwned := (owned_of_resolve hW hn hConverted).bound
    rw [hOwner] at hOwned
    exact ⟨converted, h', hConverted, hOwned, hFrom.origin, hHolds, hFrom.source⟩

/-- A conversion fails for want of a single converter, for the text, or for those who own the key below. -/
theorem problem_of_conversion (hNone : h.lookup n key = none) (hConversion : conversion? h n key = some conversion)
    (hRun : h.resolve n key = some (.error report, h')) :
    (∃ sources, report.problem = .converterConflict key sources) ∨
      (∃ text reason, report.problem = .conversionFailed key text reason) ∨
        ∃ sources, report.problem = .childBlocksParent key sources := by
  by_cases hMany : conversion.converters.length = 1
  · obtain ⟨registration, hOne⟩ := List.length_eq_one_iff.mp hMany
    rcases hConvert : registration.converter.convert conversion.text key h.user with ⟨reason | value, user⟩
    · rw [resolve_refused hNone hConversion hOne hConvert] at hRun
      cases hRun
      exact Or.inr (Or.inl ⟨_, _, rfl⟩)
    · by_cases hFree : h.claimants n key = []
      · obtain ⟨converted, h₁, hConverted, -⟩ := resolve_converts hNone hConversion hOne hConvert hFree
        rw [hRun] at hConverted
        cases hConverted
      · rw [resolve_claimed hNone hConversion hOne hConvert hFree] at hRun
        cases hRun
        exact Or.inr (Or.inr ⟨_, rfl⟩)
  · rw [resolve_ambiguous hNone hConversion hMany] at hRun
    cases hRun
    exact Or.inl ⟨_, rfl⟩

/-- Without a conversion, nothing is created at an injector that has explicit bindings only. -/
theorem resolve_of_explicitOnly (hNone : h.lookup n key = none) (hNothing : conversion? h n key = none)
    (hOnly : h.isExplicitOnly n = true) : h.resolve n key = some (.error (.of (.jitDisabled key)), h) := by
  refine (resolve_of_lookup_eq_none hNone).mpr ⟨{ hierarchy := h }, ?_, rfl⟩
  rw [locate_of_unconverted hNone hNothing, if_pos hOnly]

/-- At others, a key is resolved by placing it. -/
theorem resolve_iff_place (hNone : h.lookup n key = none) (hNothing : conversion? h n key = none)
    (hOnly : h.isExplicitOnly n = false) :
    h.resolve n key = some (outcome, h') ↔
      ∃ d, place (Placement.locate ((h.path n).length * (declaredKeys h n).length)) n key (h.lineage n).reverse
        { hierarchy := h } = some (outcome, d) ∧ h' = settle outcome d := by
  rw [resolve_of_lookup_eq_none hNone, locate_of_unconverted hNone hNothing, hOnly]
  rfl

theorem convertsExactly (hW : h.WellFormed) (hn : h.isLive n = true) (hNone : h.lookup n key = none) :
    h.ConvertsExactly n key where
  converts := converted_iff hW hn hNone
  ambiguous first second others hApplies hMany := by
    obtain ⟨conversion, hConversion⟩ := conversionApplies_iff.mp hApplies
    obtain ⟨-, -, -, hAccepting⟩ := conversion?_eq_some_iff_convertible.mp hConversion
    rw [← hMany, hAccepting]
    refine resolve_ambiguous hNone hConversion ?_
    rw [← hAccepting, hMany]
    exact fun hLength => nomatch hLength
  alone binding h' hApplies hRun := by
    obtain ⟨conversion, hConversion⟩ := conversionApplies_iff.mp hApplies
    exact alone_of_resolve hW hn hNone hConversion hRun
  fails report h' hApplies hRun := by
    obtain ⟨conversion, hConversion⟩ := conversionApplies_iff.mp hApplies
    exact problem_of_conversion hNone hConversion hRun
  refuses hNot hOnly := resolve_of_explicitOnly hNone (not_conversionApplies_iff.mp hNot) hOnly
  places hNot hOnly :=
    ⟨_, fun _ _ => resolve_iff_place hNone (not_conversionApplies_iff.mp hNot) hOnly⟩
  origin binding h' hRun := by
    by_cases hApplies : h.ConversionApplies n key
    · obtain ⟨conversion, hConversion⟩ := conversionApplies_iff.mp hApplies
      rw [(alone_of_resolve hW hn hNone hConversion hRun).1]
      exact ⟨fun hOrigin => (nomatch hOrigin), fun hNot => absurd hApplies hNot⟩
    · refine ⟨fun _ => hApplies, fun _ => ?_⟩
      have hNothing := not_conversionApplies_iff.mp hApplies
      cases hOnly : h.isExplicitOnly n with
      | true =>
        rw [resolve_of_explicitOnly hNone hNothing hOnly] at hRun
        cases hRun
      | false =>
        obtain ⟨d, hPlace, -⟩ := (resolve_iff_place hNone hNothing hOnly).mp hRun
        exact origin_of_place hPlace

/-- In every reachable state:

* at a live injector, a key that is not bound on its path is converted exactly if a conversion applies, and otherwise
  placed from declarations, unless nothing may be created;
* where no conversion applies, none applies above;
* whatever was placed from a declaration belongs to an injector at which no conversion applies. -/
theorem conversion_takes_precedence (hReach : Reachable h) :
    (∀ n key, h.isLive n = true → h.lookup n key = none → h.ConvertsExactly n key) ∧
    (∀ n p key, p ∈ h.lineage n → ¬h.ConversionApplies n key → ¬h.ConversionApplies p key) ∧
    ∀ p key binding, h.binding? p key = some binding → binding.origin = .justInTime → ¬h.ConversionApplies p key := by
  have hW := hReach.wellFormed
  refine ⟨fun n key hLive hNone => convertsExactly hW hLive hNone, fun n p key hp hNot => ?_, ?_⟩
  · rw [not_conversionApplies_iff] at hNot ⊢
    exact conversion?_eq_none_of_mem_path hW (mem_path_of_mem_lineage hp) hNot
  · intro p key binding hb hOrigin
    obtain ⟨rfl, rfl, -⟩ := hW.binding? hb
    exact not_conversionApplies_iff.mpr (hReach.allDuly _ _ _ hb hOrigin)

/-- A root that declares a port and can read ports from texts, a child, and a grandchild that binds such a text. -/
def harbour : Hierarchy :=
  let port := Key.named ⟨20, "u16"⟩ "port"
  let make : Constructor := ⟨[], fun _ => .finish (.ok (.made 0 port.type (.primitive "8080")))⟩
  let root := create none ⟨[], [⟨port, .constructed make, none, .builtin⟩], [], [], [reader port.type]⟩ false {}
  let child := root.2.create (some 0) .empty false
  (child.2.create (some 1)
    ⟨[⟨.named .text "port", .fixed (.made 0 .text (.primitive "80")), none, .builtin⟩], [], [], [], []⟩ false).2

theorem reachable_harbour : Reachable harbour := by
  refine .tail (.tail (.single (.create ?_)) (.create ?_)) (.create ?_) <;> rintro p ⟨⟩ <;> rfl

/-- The grandchild converts its text. Neither of those above can, so what is placed for the child, in the root, is
placed duly. -/
theorem conversion_takes_precedence_in_harbour :
    let port := Key.named ⟨20, "u16"⟩ "port"
    let h := harbour
    let h' := (resolve 1 port).after h
    Reachable h ∧ h.isLive 2 = true ∧ h.lookup 2 port = none ∧ h.ConversionApplies 2 port ∧ h.ConvertsExactly 2 port ∧
      0 ∈ h.lineage 1 ∧ ¬h.ConversionApplies 1 port ∧ ¬h.ConversionApplies 0 port ∧
      Reachable h' ∧ ∃ binding, h'.binding? 0 port = some binding ∧ binding.origin = .justInTime ∧
        ¬h'.ConversionApplies 0 port := by
  intro port h h'
  have hReach := reachable_harbour
  have hNone : h.lookup 2 port = none :=
    Option.not_isSome_iff_eq_none.mp (Bool.eq_false_iff.mp (by decide +kernel))
  have hApplies : h.ConversionApplies 2 port :=
    conversionApplies_iff.mpr (Option.isSome_iff_exists.mp (by decide +kernel))
  have hNot : ¬h.ConversionApplies 1 port :=
    not_conversionApplies_iff.mpr (Option.not_isSome_iff_eq_none.mp (Bool.eq_false_iff.mp (by decide +kernel)))
  have hLive : h.isLive 2 = true := by decide +kernel
  have hAbove : 0 ∈ h.lineage 1 := by decide +kernel
  obtain ⟨hConverts, hUp, -⟩ := conversion_takes_precedence hReach
  have hChild : h.isLive 1 = true := by decide +kernel
  obtain ⟨result, hRun⟩ : ∃ result, h.resolve 1 port = some (.ok result, h') :=
    Run.exists_ok_after (by decide +kernel)
  have hReach' : Reachable h' := hReach.tail (.resolve hChild hRun)
  have hPlaced : (h'.binding? 0 port).map (·.origin) = some .justInTime := by decide +kernel
  obtain ⟨binding, hBinding, hOrigin⟩ := Option.map_eq_some_iff.mp hPlaced
  exact ⟨hReach, hLive, hNone, hApplies, hConverts 2 port hLive hNone, hAbove, hNot, hUp 1 0 port hAbove hNot, hReach',
    binding, hBinding, hOrigin, (conversion_takes_precedence hReach').2.2 0 port binding hBinding hOrigin⟩

end Hierarchy

end InjectorTree
