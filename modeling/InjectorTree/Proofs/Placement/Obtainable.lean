import InjectorTree.Proofs.Placement.Conversions

/-!
# What can be obtained

Where converters are registered, a key can be had in an injector in two ways: there is something to convert for it,
and the conversion succeeds; or there is nothing to convert, and the nearest declaration can be followed, with all
the keys on which it depends bound or to be had on the path. Cycles of dependencies are fine, so this is again a
matter of pairs of an injector and a key that support each other.

* `Obtainable`: the pairs that some self-supporting collection has.
* `obtainable_of_support`, `Obtainable.obtainableFrom`: it is the greatest such collection.
* `Settled`: no conversion on the path fails for a key that can be obtained above.
-/

namespace InjectorTree.Hierarchy

open Placement

/-- The key could be had in the injector, if the keys on which it depends are bound or provided on the path. -/
structure ObtainableFrom (h : Hierarchy) (provided : InjectorId → Key → Prop) (p : InjectorId) (key : Key) :
    Prop where
  unbound : h.lookup p key = none
  unowned : ∀ m, p ∈ h.lineage m → h.binding? m key = none
  made : (∃ conversion, conversion? h p key = some conversion ∧ conversion.Succeeds key) ∨
    conversion? h p key = none ∧ ∃ declaration, h.declaration? p key = some declaration ∧
      declaration.strategy.objection key declaration.scope = none ∧
      (∀ tag, declaration.scope = some tag → (h.nearestScope p tag).isSome = true) ∧
      ∀ dependency ∈ declaration.strategy.dependencies,
        (h.lookup p dependency).isSome = true ∨ ∃ q ∈ h.path p, provided q dependency

/-- The key can be had in the injector: some collection of pairs that support each other has it there. -/
def Obtainable (h : Hierarchy) (p : InjectorId) (key : Key) : Prop :=
  ∃ provided : InjectorId → Key → Prop, (∀ q x, provided q x → h.ObtainableFrom provided q x) ∧ provided p key

/-- Each conversion on the path of an injector succeeds in every state of user code, or fails in every state for
one reason; and if it does not succeed, the key can be obtained nowhere above. -/
structure Settled (h : Hierarchy) (n : InjectorId) : Prop where
  steady : ∀ m ∈ h.path n, ∀ key conversion, conversion? h m key = some conversion → conversion.Steady key
  failing : ∀ m ∈ h.path n, ∀ key conversion, conversion? h m key = some conversion → ¬conversion.Succeeds key →
    ∀ p ∈ h.lineage m, ¬h.Obtainable p key

variable {h : Hierarchy} {n m p q : InjectorId} {key : Key} {conversion : Conversion} {declaration : Declaration}
  {provided provided' : InjectorId → Key → Prop}

theorem ObtainableFrom.mono (hO : h.ObtainableFrom provided p key) (hSub : ∀ q x, provided q x → provided' q x) :
    h.ObtainableFrom provided' p key where
  unbound := hO.unbound
  unowned := hO.unowned
  made := by
    refine hO.made.imp_right ?_
    rintro ⟨hNone, declaration, hDeclared, hSound, hRegistered, hDependencies⟩
    refine ⟨hNone, declaration, hDeclared, hSound, hRegistered, fun dependency hDependency => ?_⟩
    refine (hDependencies dependency hDependency).imp_right ?_
    rintro ⟨q, hq, hProvided⟩
    exact ⟨q, hq, hSub q dependency hProvided⟩

/-- What can be obtained supports itself. -/
theorem Obtainable.obtainableFrom (hO : h.Obtainable p key) : h.ObtainableFrom h.Obtainable p key := by
  obtain ⟨provided, hProvided, hHas⟩ := hO
  exact (hProvided p key hHas).mono fun q x hOther => ⟨provided, hProvided, hOther⟩

/-- Pairs that support each other, together with what can be obtained anyway, can be obtained. -/
theorem obtainable_of_support (provided : InjectorId → Key → Prop)
    (hSupport : ∀ q x, provided q x → h.ObtainableFrom (fun q x => provided q x ∨ h.Obtainable q x) q x)
    (hHas : provided p key) : h.Obtainable p key := by
  refine ⟨fun q x => provided q x ∨ h.Obtainable q x, ?_, Or.inl hHas⟩
  rintro q x (hProvided | hObtainable)
  · exact hSupport q x hProvided
  · exact hObtainable.obtainableFrom.mono fun _ _ => Or.inr

/-- Nobody stands against a key that can be obtained. -/
theorem Obtainable.unclaimed (hW : h.WellFormed) (hp : h.isLive p = true) (hO : h.Obtainable p key) :
    h.claimants p key = [] := by
  have hFrom := hO.obtainableFrom
  exact (hW.claimants_eq_nil_iff (key_ne_injector_of_lookup hp hFrom.unbound)).mpr hFrom.unowned

/-- Without a conversion, what can be obtained could be started, if nothing were staged. -/
theorem Obtainable.startable (hW : h.WellFormed) (hp : h.isLive p = true) (hO : h.Obtainable p key)
    (hNone : conversion? h p key = none) :
    ∃ declaration, h.Startable p key declaration ∧
      ∀ dependency ∈ declaration.strategy.dependencies,
        (h.lookup p dependency).isSome = true ∨ ∃ q ∈ h.path p, h.Obtainable q dependency := by
  rcases hO.obtainableFrom.made with ⟨conversion, hSome, -⟩ | ⟨-, declaration, hDeclared, hSound, hRegistered, hRest⟩
  · rw [hNone] at hSome
    cases hSome
  · exact ⟨declaration, ⟨hO.unclaimed hW hp, hDeclared, hSound, hRegistered⟩, hRest⟩

/-- A key whose conversion fails, or that is claimed, can be obtained nowhere on the path. -/
theorem Settled.not_obtainable (hS : h.Settled n) (hW : h.WellFormed) (hm : m ∈ h.path n) (hLive : h.isLive m = true)
    (hConversion : conversion? h m key = some conversion) (hNone : h.lookup m key = none)
    (hFailed : ¬conversion.Succeeds key ∨ h.claimants m key ≠ []) : ∀ q ∈ h.path m, ¬h.Obtainable q key := by
  intro q hq hObtainable
  have hKey := key_ne_injector_of_lookup hLive hNone
  rcases hFailed with hFailing | hClaimed
  · rcases mem_path_iff.mp hq with rfl | hAbove
    · rcases hObtainable.obtainableFrom.made with ⟨other, hOther, hSucceeds⟩ | ⟨hNothing, -⟩
      · rw [hConversion, Option.some.injEq] at hOther
        exact hFailing (hOther ▸ hSucceeds)
      · rw [hConversion] at hNothing
        cases hNothing
    · exact hS.failing m hm key conversion hConversion hFailing q hAbove hObtainable
  · -- who owns the key below the injector is below all that are above it
    refine hClaimed ((hW.claimants_eq_nil_iff hKey).mpr fun r hr => ?_)
    exact hObtainable.obtainableFrom.unowned r (hW.rooted.mem_lineage_of_lineage hr hq)

/-- Where every conversion succeeds, the path is settled; so it is without converters. -/
theorem settled_of_succeeds
    (hSucceeds : ∀ m ∈ h.path n, ∀ key conversion, conversion? h m key = some conversion → conversion.Succeeds key) :
    h.Settled n where
  steady m hm key conversion hConversion := (hSucceeds m hm key conversion hConversion).steady
  failing m hm key conversion hConversion hFailing :=
    absurd (hSucceeds m hm key conversion hConversion) hFailing

end InjectorTree.Hierarchy
