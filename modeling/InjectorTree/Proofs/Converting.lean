import InjectorTree.Proofs.Ownership
import InjectorTree.Proofs.Permanence
import InjectorTree.Proofs.Placement.Afresh

/-!
# A conversion below another one

A converted binding belongs to the injector that was asked, not to the root-most one that could convert the text, and
it is claimed on all ancestors as any other binding is. So an ancestor that could have converted the text itself cannot
do so any more once a descendant has.

* `resolve_converts`, `resolve_claimed`, `resolve_refused`, `resolve_ambiguous`: what a resolution comes to where there
  is something to convert.
* `resolve_above_converted`: what a descendant has converted is lost for its ancestors.
* `request_below_conversion`: what a request leaves of the conversion of an ancestor.
-/

namespace InjectorTree.Hierarchy

open Placement Provision

variable {h h' h₁ h₂ : Hierarchy} {n m : InjectorId} {key : Key} {binding converted : Binding} {report : Report}
  {conversion : Conversion} {registration : ConverterRegistration} {text reason : String} {value : Instance}
  {user : UserState}

-- ---------------------------------------------------------------------------
-- What a resolution comes to
-- ---------------------------------------------------------------------------

/-- Where there is something to convert, the search is a conversion. -/
theorem locate_of_conversion (hNone : h.lookup n key = none) (hConversion : conversion? h n key = some conversion) :
    Placement.locate (depthBound h n) n key { hierarchy := h } = convert conversion n key { hierarchy := h } := by
  have hUnstaged : Draft.lookup { hierarchy := h } n key = none :=
    List.findSome?_eq_none_iff.mpr fun _ _ => rfl
  simp only [depthBound, Placement.locate, hNone, hUnstaged, Option.none_or, createOnDemand, hConversion]

/-- With several converters there is no conversion. -/
theorem resolve_ambiguous (hNone : h.lookup n key = none) (hConversion : conversion? h n key = some conversion)
    (hMany : conversion.converters.length ≠ 1) :
    h.resolve n key = some (.error (.of (.converterConflict key (conversion.converters.map (·.source)))), h) := by
  refine (resolve_of_lookup_eq_none hNone).mpr ⟨{ hierarchy := h }, ?_, rfl⟩
  rw [locate_of_conversion hNone hConversion]
  obtain ⟨_, _, (_ | ⟨first, (_ | ⟨second, rest⟩)⟩)⟩ := conversion
  · rfl
  · exact absurd rfl hMany
  · rfl

theorem convert_of_one (hOne : conversion.converters = [registration]) :
    convert conversion n key = (do
      let value ← runConverter registration conversion.text key
      checkUnclaimed n key
      stage n key (.fixed value) none conversion.source .converted) := by
  unfold convert
  rw [hOne]

theorem runConverter_eq_ok (hValue : registration.converter.convert text key h.user = (.ok value, user)) :
    runConverter registration text key { hierarchy := h } = some (.ok value, { hierarchy := { h with user } }) := by
  simp only [runConverter, hValue]

/-- The converter may refuse the text. -/
theorem resolve_refused (hNone : h.lookup n key = none) (hConversion : conversion? h n key = some conversion)
    (hOne : conversion.converters = [registration])
    (hRefused : registration.converter.convert conversion.text key h.user = (.error reason, user)) :
    h.resolve n key =
      some (.error (Report.within (.of (.conversionFailed key conversion.text reason)) (.at registration.source)),
        { h with user }) := by
  refine (resolve_of_lookup_eq_none hNone).mpr ⟨{ hierarchy := { h with user } }, ?_, rfl⟩
  rw [locate_of_conversion hNone hConversion, convert_of_one hOne]
  refine Run.bind_eq_error_iff.mpr (Or.inl ?_)
  simp only [runConverter, hRefused]

/-- Descendants may bind the key. -/
theorem resolve_claimed (hNone : h.lookup n key = none) (hConversion : conversion? h n key = some conversion)
    (hOne : conversion.converters = [registration])
    (hValue : registration.converter.convert conversion.text key h.user = (.ok value, user))
    (hClaimed : h.claimants n key ≠ []) :
    h.resolve n key = some (.error (.of (.childBlocksParent key (h.claimants n key))), { h with user }) := by
  refine (resolve_of_lookup_eq_none hNone).mpr ⟨{ hierarchy := { h with user } }, ?_, rfl⟩
  rw [locate_of_conversion hNone hConversion, convert_of_one hOne]
  refine Run.bind_eq_error_iff.mpr (Or.inr ⟨value, _, runConverter_eq_ok hValue, ?_⟩)
  exact Run.bind_eq_error_iff.mpr (Or.inl (checkUnclaimed_of_claimed rfl hClaimed))

/-- Otherwise the injector gets the converted binding. -/
theorem resolve_converts (hNone : h.lookup n key = none) (hConversion : conversion? h n key = some conversion)
    (hOne : conversion.converters = [registration])
    (hValue : registration.converter.convert conversion.text key h.user = (.ok value, user))
    (hFree : h.claimants n key = []) :
    ∃ converted h', h.resolve n key = some (.ok converted, h') ∧ ConvertedFrom conversion converted ∧
      converted.owner = n ∧ converted.strategy = .fixed value := by
  let made := ({ h with user } : Hierarchy).makeBinding key (.fixed value) none conversion.source .converted n
  refine ⟨made.1, _, (resolve_of_lookup_eq_none hNone).mpr
    ⟨{ hierarchy := made.2, pending := [⟨n, key, made.1, rfl, rfl⟩] }, ?_, rfl⟩,
    ⟨⟨value, rfl⟩, rfl, rfl, rfl, rfl⟩, rfl, rfl⟩
  rw [locate_of_conversion hNone hConversion, convert_of_one hOne]
  refine Run.bind_eq_ok_iff.mpr ⟨value, _, runConverter_eq_ok hValue, ?_⟩
  exact Run.bind_eq_ok_iff.mpr ⟨(), _, checkUnclaimed_of_free rfl hFree, rfl⟩

/-- Where a conversion has made a binding, one converter has accepted the text, and nobody below had the key. -/
theorem converts_of_resolve (hNone : h.lookup n key = none) (hConversion : conversion? h n key = some conversion)
    (hRun : h.resolve n key = some (.ok binding, h')) :
    ConvertedFrom conversion binding ∧ ∃ registration value user, conversion.converters = [registration] ∧
      registration.converter.convert conversion.text key h.user = (.ok value, user) ∧ h.claimants n key = [] := by
  by_cases hMany : conversion.converters.length = 1
  · obtain ⟨registration, hOne⟩ := List.length_eq_one_iff.mp hMany
    rcases hConvert : registration.converter.convert conversion.text key h.user with ⟨reason | value, user⟩
    · rw [resolve_refused hNone hConversion hOne hConvert] at hRun
      cases hRun
    · by_cases hFree : h.claimants n key = []
      · obtain ⟨converted, h'', hConverted, hFrom, -⟩ := resolve_converts hNone hConversion hOne hConvert hFree
        rw [hRun] at hConverted
        cases hConverted
        exact ⟨hFrom, registration, value, user, hOne, hConvert, hFree⟩
      · rw [resolve_claimed hNone hConversion hOne hConvert hFree] at hRun
        cases hRun
  · rw [resolve_ambiguous hNone hConversion hMany] at hRun
    cases hRun

/-- What was converted was there to be converted for the injector that was asked. -/
theorem exists_conversion_of_resolve (hW : h.WellFormed) (hNone : h.lookup n key = none)
    (hRun : h.resolve n key = some (.ok binding, h')) (hOrigin : binding.origin = .converted) :
    ∃ conversion, conversion? h n key = some conversion := by
  rcases resolve_ok hW hRun with ⟨hFound, -⟩ | ⟨-, d, -, hF, -, hStaged, rfl, hOwner⟩
  · rw [hNone] at hFound
    cases hFound
  · rcases hF.made binding hStaged with ⟨declaration, -, hBuilt⟩ | ⟨conversion, hConversion, -⟩
    · rw [hBuilt.origin] at hOrigin
      cases hOrigin
    · exact Option.isSome_iff_exists.mp (conversion?_isSome_of_mem_path hW hOwner hConversion)

-- ---------------------------------------------------------------------------
-- What is left for an ancestor
-- ---------------------------------------------------------------------------

/-- Where nobody below has the key, nobody below has it further down either. -/
theorem claimants_of_mem_path (hW : h.WellFormed) (hKey : key ≠ .injector) (hm : m ∈ h.path n)
    (hFree : h.claimants m key = []) : h.claimants n key = [] := by
  rw [hW.claimants_eq_nil_iff hKey] at hFree ⊢
  intro p hp
  rcases mem_path_iff.mp hm with rfl | hAbove
  · exact hFree p hp
  · exact hFree p (hW.rooted.mem_lineage_of_lineage hp (mem_path_of_mem_lineage hAbove))

/-- A binding that was created below is the only one that is claimed, if there was none before. -/
theorem claimants_of_resolve (hW : h.WellFormed) (hn : h.isLive n = true) (hNone : h.lookup n key = none)
    (hRun : h.resolve n key = some (.ok converted, h')) (hBelow : m ∈ h.lineage converted.owner)
    (hFree : h.claimants m key = []) : h'.claimants m key = [converted.source] := by
  rcases resolve_ok hW hRun with ⟨hFound, -⟩ | ⟨-, d, rfl, hF, -, hStaged, hOwn, -⟩
  · rw [hNone] at hFound
    cases hFound
  · have hKey := key_ne_injector_of_lookup hn hNone
    obtain ⟨hW', hShape, -, hBindings⟩ := publish_spec hW hn hF
    obtain ⟨bindings, hClaims, hOrder, hOwned⟩ := hW'.claims m key
    have hOnly : bindings = [converted] := by
      refine eq_of_ids hOrder (List.pairwise_singleton _ _) fun other => ?_
      rw [hOwned, List.mem_singleton]
      constructor
      · rintro ⟨p, hp, hb, -⟩
        rw [hShape.lineage] at hp
        rcases (hBindings p key other).mp hb with hOld | ⟨hMem, -, hOther⟩
        · rw [(hW.claimants_eq_nil_iff hKey).mp hFree p hp] at hOld
          cases hOld
        · exact List.inj_on_of_nodup_map hF.keys hMem hStaged (hOther.trans hOwn.symm)
      · rintro rfl
        refine ⟨other.owner, ?_, (hBindings _ _ _).mpr (Or.inr ⟨hStaged, rfl, hOwn⟩), fun hBuiltin => ?_⟩
        · rw [hShape.lineage]
          exact hBelow
        · have hOrigin := (hF.made other hStaged).origin
          rw [hBuiltin] at hOrigin
          rcases hOrigin with hOrigin | hOrigin <;> cases hOrigin
    rw [hW'.claimants_eq, hClaims, hOnly]
    rfl

/-- Suppose that a descendant has converted a text, and that its ancestor could have done so. There is still something
to convert for the ancestor, but now the key is claimed. -/
theorem resolve_above_converted (hW : h.WellFormed) (hm : m ∈ h.lineage n) (hNone : h.lookup n key = none)
    (hRun : h.resolve n key = some (.ok converted, h')) (hOwner : converted.owner = n)
    (hConversion : conversion? h m key = some conversion) (hOne : conversion.converters = [registration])
    (hFree : h.claimants m key = []) :
    ∃ report h'', h'.resolve m key = some (.error report, h'') ∧
      (conversion.Succeeds key → report = .of (.childBlocksParent key [converted.source])) := by
  subst hOwner
  have hn := isLive_of_mem_lineage hm
  obtain ⟨hW', hShape, -⟩ := wellFormed_resolve hW hn hRun
  have hBound := (owned_of_resolve hW hn hRun).bound
  have hAbove : h'.lookup m key = none :=
    hW'.lookup_above (key_ne_injector_of_lookup hn hNone) ((hShape.lineage converted.owner).symm ▸ hm) hBound
  have hStill : conversion? h' m key = some conversion := (hShape.conversion? m key).trans hConversion
  have hClaimed : h'.claimants m key = [converted.source] := claimants_of_resolve hW hn hNone hRun hm hFree
  rcases hAgain : registration.converter.convert conversion.text key h'.user with ⟨reason | value, user⟩
  · refine ⟨_, _, resolve_refused hAbove hStill hOne hAgain, fun hSucceeds => ?_⟩
    obtain ⟨value, hValue⟩ := hSucceeds.converts hOne h'.user
    rw [hAgain] at hValue
    cases hValue
  · refine ⟨_, _, resolve_claimed hAbove hStill hOne hAgain (hClaimed ▸ List.cons_ne_nil _ _), fun _ => ?_⟩
    rw [hClaimed]

/-- A descendant that sees one converter sees that of its ancestor. -/
theorem converters_of_mem_path (hW : h.WellFormed) (hm : m ∈ h.path n)
    (hConversion : conversion? h m key = some conversion) (hOne : conversion.converters = [registration])
    (hOnly : ((h.converters n).filter (·.converter.accepts key)).length = 1) :
    (h.converters n).filter (·.converter.accepts key) = [registration] := by
  have hMem : registration ∈ (h.converters m).filter (·.converter.accepts key) := by
    rw [(conversion?_eq_some_iff.mp hConversion).2.2.1, hOne]
    exact List.mem_singleton_self registration
  have hSeen : registration ∈ (h.converters n).filter (·.converter.accepts key) :=
    List.mem_filter.mpr ⟨hW.rooted.converters_subset hm (List.mem_filter.mp hMem).1, (List.mem_filter.mp hMem).2⟩
  obtain ⟨other, hOther⟩ := List.length_eq_one_iff.mp hOnly
  rw [hOther, List.mem_singleton] at hSeen
  rw [hOther, hSeen]

-- ---------------------------------------------------------------------------
-- Requests
-- ---------------------------------------------------------------------------

/-- A request for a key at an injector, of whatever kind, leads from one state to another one, whether or not it
succeeds. -/
inductive Requested (n : InjectorId) (key : Key) (h h' : Hierarchy) : Prop
  | forHandle {interface : Interface} {outcome : Except Report Handle}
      (hRun : getHandle n key interface h = some (outcome, h'))
  | forInstance {fuel : Nat} {outcome : Except Report Instance}
      (hRun : getInstance fuel n key h = some (outcome, h'))
  | forService {fuel : Nat} {interface : Interface} {outcome : Except Report Instance}
      (hRun : getAs fuel n key interface h = some (outcome, h'))

/-- A constant is provided without further requests. -/
theorem getInstance_of_fixed (fuel : Nat) (hRun : h.resolve n key = some (.ok binding, h'))
    (hLive : h'.isLive binding.owner = true) (hStrategy : binding.strategy = .fixed value)
    (hLayers : binding.layers = []) : getInstance (fuel + 1) n key h = some (.ok value, h') := by
  refine Run.within_eq_ok_iff.mpr (Run.bind_eq_ok_iff.mpr ⟨[] ++ [key], h, rfl, ?_⟩)
  refine Run.bind_eq_ok_iff.mpr ⟨binding, h', hRun, ?_⟩
  simp only [Provision.runBinding, hLive, if_true, hLayers, hStrategy]
  rfl

/-- Receiving an instance through an interface changes nothing. -/
theorem exists_of_getAs {fuel : Nat} {interface : Interface} {outcome : Except Report Instance}
    (hRun : getAs fuel n key interface h = some (outcome, h')) :
    ∃ outcome', getInstance fuel n key h = some (outcome', h') := by
  rw [getAs, Run.bind_apply] at hRun
  rcases hGot : getInstance fuel n key h with _ | ⟨report | value, h''⟩
  · rw [hGot] at hRun
    cases hRun
  · rw [hGot] at hRun
    cases hRun
    exact ⟨_, rfl⟩
  · simp only [hGot, Run.within, Run.ofExcept_apply] at hRun
    cases hReceived : interface.recover value with
    | error report =>
      rw [hReceived] at hRun
      cases hRun
      exact ⟨_, rfl⟩
    | ok received =>
      rw [hReceived] at hRun
      cases hRun
      exact ⟨_, rfl⟩

/-- Whatever is requested, the state is the one that the resolution leaves, if that fails or gives a constant. -/
theorem Requested.eq_of_resolve {outcome : Except Report Binding} (hRequest : Requested n key h h₂)
    (hRun : h.resolve n key = some (outcome, h'))
    (hFixed : ∀ binding, outcome = .ok binding →
      h'.isLive binding.owner = true ∧ (∃ value, binding.strategy = .fixed value) ∧ binding.layers = []) :
    h₂ = h' := by
  have hInstance : ∀ fuel outcome', getInstance fuel n key h = some (outcome', h₂) → h₂ = h' := by
    rintro (_ | fuel) outcome' hGot
    · cases hGot
    · cases outcome with
      | error report =>
        rw [getInstance_error fuel hRun] at hGot
        cases hGot
        rfl
      | ok binding =>
        obtain ⟨hLive, ⟨value, hStrategy⟩, hLayers⟩ := hFixed binding rfl
        rw [getInstance_of_fixed fuel hRun hLive hStrategy hLayers] at hGot
        cases hGot
        rfl
  cases hRequest with
  | forHandle hGot =>
    cases outcome with
    | error report =>
      rw [getHandle_error hRun] at hGot
      cases hGot
      rfl
    | ok binding =>
      rw [getHandle_eq_ok_iff.mpr ⟨binding, hRun, rfl⟩] at hGot
      cases hGot
      rfl
  | forInstance hGot => exact hInstance _ _ hGot
  | forService hGot =>
    obtain ⟨outcome', hGot⟩ := exists_of_getAs hGot
    exact hInstance _ _ hGot

/-- Suppose that an injector could convert a text for a key, and that the key is requested at a descendant instead,
where it is not bound.

* If the descendant sees no other converter for the key, its request is served by a binding of its own. From then on
  every request at the ancestor fails. Unless the converter refuses the text by now, it is told that the descendant has
  the key.
* If the descendant sees more converters, its request fails and changes nothing, so a request at the ancestor succeeds
  as before. -/
theorem request_below_conversion (hReach : Reachable h) (hm : m ∈ h.lineage n) (hNone : h.lookup n key = none)
    (hRun : h.resolve m key = some (.ok binding, h₁)) (hOrigin : binding.origin = .converted)
    (hRequest : Requested n key h h₂) :
    let accepting := (h.converters n).filter (·.converter.accepts key)
    (accepting.length = 1 →
      (∃ converted, h.resolve n key = some (.ok converted, h₂) ∧ converted.origin = .converted ∧
        converted.owner = n ∧ converted.source = binding.source) ∧
      ∃ report h₃, h₂.resolve m key = some (.error report, h₃) ∧
        (∀ interface, getHandle m key interface h₂ = some (.error (report.within (.locating key)), h₃)) ∧
        (∀ fuel, getInstance (fuel + 1) m key h₂ = some (.error (report.within (.locating key)), h₃)) ∧
        ((∀ conversion, conversion? h m key = some conversion → conversion.Succeeds key) →
          report = .of (.childBlocksParent key [binding.source]))) ∧
    (accepting.length ≠ 1 →
      h.resolve n key = some (.error (.of (.converterConflict key (accepting.map (·.source)))), h) ∧ h₂ = h ∧
        h₂.resolve m key = some (.ok binding, h₁)) := by
  intro accepting
  have hW := hReach.wellFormed
  have hn := isLive_of_mem_lineage hm
  have hPath := mem_path_of_mem_lineage hm
  have hAbove := lookup_eq_none_of_mem_path hW.rooted hPath hNone
  obtain ⟨conversion, hConversion⟩ := exists_conversion_of_resolve hW hAbove hRun hOrigin
  have hBelow := conversion?_of_mem_path hW hPath hConversion
  constructor
  · intro hOnly
    obtain ⟨hFromAbove, registration, value, user, hOne, hValue, hFree⟩ :=
      converts_of_resolve hAbove hConversion hRun
    have hSees := converters_of_mem_path hW hPath hConversion hOne hOnly
    have hFreeBelow := claimants_of_mem_path hW (key_ne_injector_of_lookup hn hNone) hPath hFree
    obtain ⟨converted, h', hConverted, hFrom, hOwner, -⟩ := resolve_converts hNone hBelow hSees hValue hFreeBelow
    obtain rfl : h₂ = h' := hRequest.eq_of_resolve hConverted fun _ hOk => by
      cases hOk
      exact ⟨isLive_of_binding? (owned_of_resolve hW hn hConverted).bound, hFrom.strategy, hFrom.layers⟩
    -- both are made from one constant
    have hSource : converted.source = binding.source := hFrom.source.trans hFromAbove.source.symm
    obtain ⟨report, h₃, hFails, hReport⟩ :=
      resolve_above_converted hW hm hNone hConverted hOwner hConversion hOne hFree
    refine ⟨⟨converted, hConverted, hFrom.origin, hOwner, hSource⟩, report, h₃, hFails,
      fun _ => getHandle_error hFails, fun fuel => getInstance_error fuel hFails, fun hSucceeds => ?_⟩
    rw [hReport (hSucceeds conversion hConversion), hSource]
  · intro hMany
    have hAmbiguous := resolve_ambiguous hNone hBelow hMany
    have hSame := hRequest.eq_of_resolve hAmbiguous fun _ hOk => nomatch hOk
    exact ⟨hAmbiguous, hSame, hSame ▸ hRun⟩

/-- The root can read a port, and its child has none. -/
theorem readable_in_readings :
    let port := Key.named ⟨20, "u16"⟩ "port"
    let h := readings false
    0 ∈ h.lineage 1 ∧ h.lookup 1 port = none ∧
      ∃ binding h₁, h.resolve 0 port = some (.ok binding, h₁) ∧ binding.origin = .converted := by
  intro port h
  have hNone : (h.lookup 1 port).isSome = false := by decide +kernel
  obtain ⟨binding, hRun⟩ : ∃ binding, h.resolve 0 port = some (.ok binding, (resolve 0 port).after h) :=
    Run.exists_ok_after (by decide +kernel)
  have hOrigin : ((h.resolve 0 port).bind (·.1.toOption)).map (·.origin) = some .converted := by decide +kernel
  rw [hRun] at hOrigin
  exact ⟨by decide +kernel, Option.not_isSome_iff_eq_none.mp (Bool.eq_false_iff.mp hNone), binding, _, hRun,
    Option.some.inj hOrigin⟩

/-- The child of the root asks for a port. -/
theorem requested_in_readings :
    let port := Key.named ⟨20, "u16"⟩ "port"
    Requested 1 port (readings false) ((getHandle 1 port (.concrete port.type)).after (readings false)) := by
  intro port
  obtain ⟨handle, hHandle⟩ :
      ∃ handle, getHandle 1 port (.concrete port.type) (readings false) =
        some (.ok handle, (getHandle 1 port (.concrete port.type)).after (readings false)) :=
    Run.exists_ok_after (by decide +kernel)
  exact .forHandle hHandle

/-- It gets one of its own. -/
theorem request_below_conversion_in_readings :
    let port := Key.named ⟨20, "u16"⟩ "port"
    let h := readings false
    let h₂ := (getHandle 1 port (.concrete port.type)).after h
    Reachable h ∧ 0 ∈ h.lineage 1 ∧ h.lookup 1 port = none ∧ Requested 1 port h h₂ ∧
      ∃ binding h₁, h.resolve 0 port = some (.ok binding, h₁) ∧ binding.origin = .converted ∧
        ∃ converted, h.resolve 1 port = some (.ok converted, h₂) ∧ converted.origin = .converted ∧
          converted.owner = 1 ∧ converted.source = binding.source := by
  intro port h h₂
  obtain ⟨hBelow, hNone, binding, h₁, hRun, hOrigin⟩ := readable_in_readings
  have hReach := reachable_readings false
  have hConverted :=
    (request_below_conversion hReach hBelow hNone hRun hOrigin requested_in_readings).1 (by decide +kernel)
  exact ⟨hReach, hBelow, hNone, requested_in_readings, binding, h₁, hRun, hOrigin, hConverted.1⟩

/-- Then the root, which could read the port before, cannot read it any more. -/
theorem conversion_lost_in_readings :
    let port := Key.named ⟨20, "u16"⟩ "port"
    let h := readings false
    Reachable h ∧ 0 ∈ h.lineage 1 ∧ port.qualifier.isSome = true ∧ h.lookup 1 port = none ∧
      (∃ binding h₁, h.resolve 0 port = some (.ok binding, h₁) ∧ binding.origin = .converted) ∧
      ∃ h₂, Requested 1 port h h₂ ∧ ∃ report h₃, h₂.resolve 0 port = some (.error report, h₃) := by
  intro port h
  obtain ⟨hBelow, hNone, hReadable⟩ := readable_in_readings
  obtain ⟨report, hRefused⟩ :
      ∃ report, resolve 0 port ((getHandle 1 port (.concrete port.type)).after h) =
        some (.error report, (resolve 0 port).after ((getHandle 1 port (.concrete port.type)).after h)) :=
    Run.exists_error_after (by decide +kernel)
  exact ⟨reachable_readings false, hBelow, rfl, hNone, hReadable, _, requested_in_readings, report, _, hRefused⟩

end InjectorTree.Hierarchy
