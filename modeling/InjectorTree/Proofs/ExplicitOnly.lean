import InjectorTree.Proofs.Converting
import InjectorTree.Proofs.Equipped

/-!
# Injectors that take explicit bindings only

An injector that is created for explicit bindings only stays so, and so does everything below it. Nothing is placed in
such an injector, whoever asks: a search places bindings on the path of the injector that it began with, and if one of
that path takes explicit bindings only, the search ends before it places anything. But it looks for something to
convert first. So such an injector can get converted bindings, and nothing else.

* `resolve_disabled`, `resolve_of_explicitOnly`: what a resolution comes to there.
* `Reachable.sealed`: nothing is placed in an injector that takes explicit bindings only.
* `Reachable.allConverted`: what was converted is still there to be converted.
* `explicitOnly_for_good`: what such an injector owns, and what its requests come to.
-/

namespace InjectorTree.Hierarchy

open Placement Provision

variable {h h' h'' : Hierarchy} {n m p : InjectorId} {key : Key} {binding result : Binding} {report : Report}
  {conversion : Conversion} {parent : Option InjectorId} {module : Module} {outcome : Except Report Binding}

-- ---------------------------------------------------------------------------
-- Resolving
-- ---------------------------------------------------------------------------

/-- Without anything to convert, a key that is not bound is refused, and nothing changes. -/
theorem resolve_disabled (hOnly : h.isExplicitOnly n = true) (hNone : h.lookup n key = none)
    (hNothing : conversion? h n key = none) : h.resolve n key = some (.error (.of (.jitDisabled key)), h) := by
  have hUnstaged : Draft.lookup { hierarchy := h } n key = none :=
    List.findSome?_eq_none_iff.mpr fun _ _ => rfl
  refine (resolve_of_lookup_eq_none hNone).mpr ⟨{ hierarchy := h }, ?_, rfl⟩
  simp only [depthBound, Placement.locate, hNone, hUnstaged, Option.none_or, createOnDemand, hNothing, hOnly, if_true]

/-- A conversion that fails has changed the state of user code at most. -/
theorem exists_user_of_resolve (hNone : h.lookup n key = none) (hConversion : conversion? h n key = some conversion)
    (hRun : h.resolve n key = some (.error report, h')) : ∃ user, h' = { h with user } := by
  by_cases hMany : conversion.converters.length = 1
  · obtain ⟨registration, hOne⟩ := List.length_eq_one_iff.mp hMany
    rcases hConvert : registration.converter.convert conversion.text key h.user with ⟨reason | value, user⟩
    · rw [resolve_refused hNone hConversion hOne hConvert] at hRun
      cases hRun
      exact ⟨user, rfl⟩
    · by_cases hFree : h.claimants n key = []
      · obtain ⟨converted, h'', hConverted, -⟩ := resolve_converts hNone hConversion hOne hConvert hFree
        rw [hRun] at hConverted
        cases hConverted
      · rw [resolve_claimed hNone hConversion hOne hConvert hFree] at hRun
        cases hRun
        exact ⟨user, rfl⟩
  · rw [resolve_ambiguous hNone hConversion hMany] at hRun
    cases hRun
    exact ⟨h.user, rfl⟩

/-- What a conversion leaves is one binding more. -/
theorem binding?_of_converted (hW : h.WellFormed) (hn : h.isLive n = true) (hNone : h.lookup n key = none)
    (hConversion : conversion? h n key = some conversion) (hRun : h.resolve n key = some (.ok result, h')) :
    result.owner = n ∧ result.key = key ∧
      ∀ m wanted binding, h'.binding? m wanted = some binding ↔
        h.binding? m wanted = some binding ∨ binding = result ∧ n = m ∧ key = wanted := by
  obtain ⟨d, hLocate, rfl⟩ := (resolve_of_lookup_eq_none hNone).mp hRun
  have hV : Vacant h n { hierarchy := h } n key := ⟨self_mem_path, hNone, fun _ hMem => absurd hMem List.not_mem_nil⟩
  rw [locate_of_conversion hNone hConversion] at hLocate
  obtain ⟨hStageable, -, hKey, hOwner⟩ := convert_ok (fits_start hW n) hV hConversion hLocate
  obtain ⟨-, -, -, hBindings⟩ := publish_spec hW hn ((fits_start hW n).snoc hStageable)
  refine ⟨hOwner, hKey, fun m wanted binding => (hBindings m wanted binding).trans (or_congr_right ?_)⟩
  rw [hStageable.staged, Draft.staged_start, List.nil_append, List.mem_singleton]
  constructor
  · rintro ⟨rfl, rfl, rfl⟩
    exact ⟨rfl, hOwner.symm, hKey.symm⟩
  · rintro ⟨rfl, rfl, rfl⟩
    exact ⟨rfl, hOwner, hKey⟩

/-- What a resolution adds to the path of an injector that takes explicit bindings only was converted. -/
theorem origin_of_resolve_explicitOnly (hW : h.WellFormed) (hn : h.isLive n = true) (hOnly : h.isExplicitOnly n = true)
    (hRun : h.resolve n key = some (.ok result, h')) {wanted : Key} (hb : h'.binding? p wanted = some binding) :
    h.binding? p wanted = some binding ∨ binding.origin = .converted := by
  cases hLookup : h.lookup n key with
  | some found =>
    rw [resolve_of_lookup hLookup] at hRun
    cases hRun
    exact Or.inl hb
  | none =>
    cases hConversion : conversion? h n key with
    | none =>
      rw [resolve_disabled hOnly hLookup hConversion] at hRun
      cases hRun
    | some conversion =>
      obtain ⟨-, -, hBindings⟩ := binding?_of_converted hW hn hLookup hConversion hRun
      refine ((hBindings p wanted binding).mp hb).imp_right ?_
      rintro ⟨rfl, -, -⟩
      exact (converts_of_resolve hLookup hConversion hRun).1.origin

-- ---------------------------------------------------------------------------
-- What such injectors own
-- ---------------------------------------------------------------------------

/-- Whether an injector takes explicit bindings only does not change. -/
theorem Continues.isExplicitOnly (hC : Continues h h') (hn : n < h.nextInjector) (hLive : h'.isLive n = true) :
    h'.isExplicitOnly n = h.isExplicitOnly n := by
  have hOnly : ∀ h : Hierarchy,
      h.isExplicitOnly n = ((h.injector? n).map Injector.shape).elim false (·.explicitOnly) := by
    intro h
    rw [Hierarchy.isExplicitOnly]
    cases h.injector? n <;> rfl
  rw [hOnly, hOnly, hC.shape hn hLive]

/-- Nothing was placed in injectors that take explicit bindings only. -/
def Sealed (h : Hierarchy) : Prop :=
  ∀ p key binding, h.isExplicitOnly p = true → h.binding? p key = some binding → binding.origin ≠ .justInTime

theorem Step.sealed (hW : h.WellFormed) (hSealed : h.Sealed) (hStep : Step h h') : h'.Sealed := by
  intro p key binding hOnly hb hOrigin
  have hC := hStep.continues hW
  -- what was there before was there in an injector of the same kind
  have hOld : h.binding? p key ≠ some binding := fun hOld => by
    have hFresh := hW.rooted.fresh (isLive_of_binding? hOld)
    rw [hC.isExplicitOnly hFresh (isLive_of_binding? hb)] at hOnly
    exact hSealed p key binding hOnly hOld hOrigin
  obtain ⟨n, wanted, result, hn, hRun⟩ := (hStep.exists_resolve hW hb (Or.inl hOrigin)).resolve_left hOld
  cases hRequester : h.isExplicitOnly n with
  | true =>
    have hConverted := (origin_of_resolve_explicitOnly hW hn hRequester hRun hb).resolve_left hOld
    rw [hOrigin] at hConverted
    cases hConverted
  | false =>
    -- the owner is above the injector that was asked, which takes other bindings too
    obtain ⟨d, rfl, hF, -, hMem⟩ := (exists_draft_of_resolve hW hn hRun hb).resolve_left hOld
    obtain rfl := ((hStep.wellFormed hW).binding? hb).2.1
    rw [(wellFormed_resolve hW hn hRun).2.1.isExplicitOnly,
      hW.rooted.isExplicitOnly_eq_false (hF.onPath binding hMem) hRequester] at hOnly
    cases hOnly

theorem Reachable.sealed (hReach : Reachable h) : h.Sealed := by
  induction hReach with
  | refl =>
    intro p key binding _ hb
    cases hb
  | tail hBefore hStep ih => exact hStep.sealed (Reachable.wellFormed hBefore) ih

/-- What was converted came from something that is there to be converted. -/
def AllConverted (h : Hierarchy) : Prop :=
  ∀ p key binding, h.binding? p key = some binding → binding.origin = .converted →
    ∃ conversion, conversion? h p key = some conversion ∧ ConvertedFrom conversion binding

theorem Step.allConverted (hW : h.WellFormed) (hAll : h.AllConverted) (hStep : Step h h') : h'.AllConverted := by
  intro p key binding hb hOrigin
  have hW' := hStep.wellFormed hW
  rcases hStep.exists_draft hW hb (Or.inr hOrigin) with hOld | ⟨n, result, d, hn, rfl, hF, -, hMem⟩
  · obtain ⟨conversion, hConversion, hFrom⟩ := hAll p key binding hOld hOrigin
    have hShape := (hStep.continues hW).sameShapeOn hW.rooted hW'.rooted (isLive_of_binding? hOld)
      (isLive_of_binding? hb)
    exact ⟨conversion, (hShape.conversion? self_mem_path key).trans hConversion, hFrom⟩
  · obtain ⟨-, hShape, -⟩ := publish_spec hW hn hF
    obtain ⟨rfl, rfl, -⟩ := hW'.binding? hb
    rcases hF.made binding hMem with ⟨declaration, -, hBuilt⟩ | ⟨conversion, hConversion, hFrom⟩
    · rw [hBuilt.origin] at hOrigin
      cases hOrigin
    · exact ⟨conversion, (hShape.conversion? _ _).trans hConversion, hFrom⟩

theorem Reachable.allConverted (hReach : Reachable h) : h.AllConverted := by
  induction hReach with
  | refl =>
    intro p key binding hb
    cases hb
  | tail hBefore hStep ih => exact hStep.allConverted (Reachable.wellFormed hBefore) ih

-- ---------------------------------------------------------------------------
-- From its creation on
-- ---------------------------------------------------------------------------

/-- An injector is created as it was asked for. -/
theorem isExplicitOnly_create (hRun : h.create parent module true = (.ok n, h')) : h'.isExplicitOnly n = true := by
  simp only [create] at hRun
  split at hRun
  · simp only [Prod.mk.injEq, Except.ok.injEq, adopt, foldl_claim_bindAll] at hRun
    obtain ⟨rfl, rfl⟩ := hRun
    refine ((sameShape_foldl_announce _ _).isExplicitOnly _).trans ?_
    exact congrArg (fun found : Option Injector => found.elim false (·.explicitOnly)) (Table.get?_insert_self ..)
  · cases hRun

/-- From then on it takes explicit bindings only, and so does what is below it. -/
theorem isExplicitOnly_below (hW : h.WellFormed) (hParent : ∀ p, parent = some p → h.isLive p = true)
    (hCreate : h.create parent module true = (.ok n, h')) (hSteps : Steps h' h'') (hm : h''.isLive m = true)
    (hBelow : n ∈ h''.path m) : h''.isExplicitOnly m = true := by
  have hW' := wellFormed_created hW hParent hCreate
  have hW'' := hSteps.wellFormed hW'
  have hOnly := isExplicitOnly_create hCreate
  have hn' : h'.isLive n = true := hW'.rooted.held (holds_create hW hParent hCreate ▸ List.mem_cons_self)
  have hn'' := hW''.rooted.isLive_of_mem_path hm hBelow
  refine hW''.rooted.isExplicitOnly_of_mem_path hBelow ?_
  rw [(hSteps.continues hW').isExplicitOnly (hW'.rooted.fresh hn') hn'']
  exact hOnly

/-- An injector that was created for explicit bindings only, and whatever is below it, in every later state: apart from
its explicit bindings and its own, it owns converted bindings at most, each made of a constant that is explicitly bound
on its path. A request there for a key without a binding changes nothing and is told that explicit bindings are
required, be it for an instance, by a link, a constructor or a program, or for a handle, unless there is a constant to
convert for the key. If there is one, the request leads to a converted binding of the injector itself and no other
binding, or to a failure that leaves all bindings as they were. -/
theorem explicitOnly_for_good (hReach : Reachable h) (hParent : ∀ p, parent = some p → h.isLive p = true)
    (hCreate : h.create parent module true = (.ok n, h')) (hSteps : Steps h' h'') (hm : h''.isLive m = true)
    (hBelow : n ∈ h''.path m) :
    (∀ binding ∈ h''.bindings m, binding.origin = .explicit ∨ binding.origin = .builtin ∨
      ∃ conversion, conversion? h'' m binding.key = some conversion ∧ ConvertedFrom conversion binding) ∧
    (∀ key, h''.lookup m key = none → conversion? h'' m key = none →
      h''.resolve m key = some (.error (.of (.jitDisabled key)), h'') ∧
      (∀ interface, getHandle m key interface h'' =
        some (.error (Report.within (.of (.jitDisabled key)) (.locating key)), h'')) ∧
      ∀ fuel path, key ∉ path → obtain (fuel + 1) m key path h'' =
        some (.error (Report.within (.of (.jitDisabled key)) (.locating key)), h'')) ∧
    ∀ key conversion, h''.lookup m key = none → conversion? h'' m key = some conversion →
      (∃ result h₃, h''.resolve m key = some (.ok result, h₃) ∧ ConvertedFrom conversion result ∧
        result.owner = m ∧ result.key = key ∧
        ∀ p wanted binding, h₃.binding? p wanted = some binding ↔
          h''.binding? p wanted = some binding ∨ binding = result ∧ m = p ∧ key = wanted) ∨
      ∃ report user, h''.resolve m key = some (.error report, { h'' with user }) := by
  have hStep : Step h (h.create parent module true).2 := .create hParent
  rw [hCreate] at hStep
  have hReach' : Reachable h' := hReach.tail hStep
  have hReach'' := hReach'.steps hSteps
  have hW'' := hReach''.wellFormed
  have hOnly := isExplicitOnly_below hReach.wellFormed hParent hCreate hSteps hm hBelow
  refine ⟨fun binding hMem => ?_, fun key hNone hNothing => ?_, fun key conversion hNone hConversion => ?_⟩
  · obtain ⟨injector, hInjector, hMem⟩ := exists_of_mem_bindings hMem
    have hb := hW''.binding?_of_mem_bindings hInjector hMem
    have hPlaced := hReach''.sealed m _ binding hOnly hb
    cases hOrigin : binding.origin with
    | explicit => exact Or.inl rfl
    | builtin => exact Or.inr (Or.inl rfl)
    | justInTime => exact absurd hOrigin hPlaced
    | converted => exact Or.inr (Or.inr (hReach''.allConverted m _ binding hb hOrigin))
  · have hDisabled := resolve_disabled hOnly hNone hNothing
    exact ⟨hDisabled, fun interface => getHandle_error hDisabled, fun fuel path => obtain_error hDisabled fuel⟩
  · obtain ⟨⟨outcome, h₃⟩, hRun⟩ := resolve_ends hW'' m key
    cases outcome with
    | ok result =>
      obtain ⟨hOwner, hKey, hBindings⟩ := binding?_of_converted hW'' hm hNone hConversion hRun
      exact Or.inl ⟨result, h₃, hRun, (converts_of_resolve hNone hConversion hRun).1, hOwner, hKey, hBindings⟩
    | error report =>
      obtain ⟨user, rfl⟩ := exists_user_of_resolve hNone hConversion hRun
      exact Or.inr ⟨report, user, hRun⟩

/-- A module that binds a text under the name of a port, declares `A`, and can read ports. -/
def ports : Module :=
  let a := Key.of ⟨10, "A"⟩
  ⟨[⟨.named .text "port", .fixed (.made 0 .text (.primitive "80")), none, .builtin⟩],
    [⟨a, .constructed ⟨[], fun _ => .finish (.ok (.made 0 a.type (.primitive "")))⟩, none, .builtin⟩], [], [],
    [reader ⟨20, "u16"⟩]⟩

/-- A root for explicit bindings only that is made of the module. -/
def strict : Hierarchy :=
  (create none ports true {}).2

theorem reachable_strict : Reachable strict :=
  .single (.create fun _ hp => nomatch hp)

/-- What the root declares is not placed for a child either, which was created without asking for explicit bindings. -/
theorem explicitOnly_for_good_below_strict :
    let a := Key.of ⟨10, "A"⟩
    let h'' := (strict.create (some 0) .empty false).2
    Reachable {} ∧ create none ports true {} = (.ok 0, strict) ∧ Steps strict h'' ∧ h''.isLive 1 = true ∧
      0 ∈ h''.path 1 ∧ (h''.declaration? 1 a).isSome = true ∧ h''.lookup 1 a = none ∧ conversion? h'' 1 a = none ∧
      h''.resolve 1 a = some (.error (.of (.jitDisabled a)), h'') := by
  intro a h''
  have hParent : ∀ p, (none : Option InjectorId) = some p → Hierarchy.isLive {} p = true := fun _ hp => nomatch hp
  have hSteps : Steps strict h'' := .single (.create fun p hp => by cases hp; rfl)
  have hLive : h''.isLive 1 = true := by decide
  have hBelow : 0 ∈ h''.path 1 := by decide
  have hNone : h''.lookup 1 a = none := rfl
  have hReach : Reachable {} := .refl
  have hCreate : create none ports true {} = (.ok 0, strict) := rfl
  have hResolve := (explicitOnly_for_good hReach hParent hCreate hSteps hLive hBelow).2.1 a hNone rfl
  exact ⟨hReach, hCreate, hSteps, hLive, hBelow, by decide, hNone, rfl, hResolve.1⟩

/-- But the root gets a port, which is bound nowhere: it reads the text. -/
theorem converted_in_strict :
    let port := Key.named ⟨20, "u16"⟩ "port"
    create none ports true {} = (.ok 0, strict) ∧ Reachable strict ∧ strict.lookup 0 port = none ∧
      ∃ binding h', strict.resolve 0 port = some (.ok binding, h') ∧ binding.origin = .converted ∧
        h'.binding? 0 port = some binding ∧ strict.binding? 0 port = none :=
  ⟨rfl, reachable_strict, rfl, _, _, rfl, rfl, rfl, rfl⟩

end InjectorTree.Hierarchy
