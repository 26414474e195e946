import InjectorTree.Proofs.Placement.Alike

/-!
# What there is to convert

A conversion takes a text constant that is bound explicitly on the path, and on a line there is one such binding at
most. So what there is to convert at an injector, there is to convert at all injectors below it; but these may see
more converters, and where there are two, the conversion fails.

* `Conversion.Succeeds`: conversions that succeed whatever the state of user code is.
* `conversion?_eq_some_iff`: when there is something to convert.
* `conversion?_of_mem_path`: what there is to convert above, there is to convert below.
-/

namespace InjectorTree

open Hierarchy

/-- There is one converter, and it makes a value in every state of user code. -/
def Placement.Conversion.Succeeds (conversion : Conversion) (key : Key) : Prop :=
  ∃ registration, conversion.converters = [registration] ∧
    ∀ user, ∃ value, (registration.converter.convert conversion.text key user).1 = .ok value

/-- The text, if the binding is for a constant one. -/
def Binding.text? (binding : Binding) : Option String :=
  match binding.strategy with
  | .fixed value => value.text?
  | _ => none

variable {h : Hierarchy} {n m p : InjectorId} {key : Key} {conversion : Conversion} {binding other : Binding}

theorem Placement.Conversion.Succeeds.converts {registration : ConverterRegistration} (hS : conversion.Succeeds key)
    (hOne : conversion.converters = [registration]) (user : UserState) :
    ∃ value, (registration.converter.convert conversion.text key user).1 = .ok value := by
  obtain ⟨other, hOther, hValue⟩ := hS
  rw [hOne, List.cons.injEq] at hOther
  exact hOther.1 ▸ hValue user

theorem Placement.Conversion.Succeeds.steady (hS : conversion.Succeeds key) : conversion.Steady key :=
  fun _ hOne => Or.inl (hS.converts hOne)

-- ---------------------------------------------------------------------------
-- Explicit bindings on a line
-- ---------------------------------------------------------------------------

namespace Hierarchy

theorem exists_of_explicitBinding? (hW : h.WellFormed) (hFound : h.explicitBinding? n key = some binding) :
    key ≠ .injector ∧ h.lookup n key = some binding := by
  obtain ⟨p, hp, injector, hInjector, hExplicit⟩ := exists_of_nearest hFound
  have hKey := ne_injector_of_isBuiltin ((hW.coherent hInjector).explicit hExplicit).2.2.2
  refine ⟨hKey, (hW.lookup_eq_some_iff hKey).mpr ⟨p, hp, ?_⟩⟩
  rw [binding?_of_injector? hInjector, Injector.binding?_of_ne hKey, hExplicit]
  rfl

/-- What is bound explicitly above is the only explicit binding of its key below. -/
theorem explicitBinding?_of_mem_path (hW : h.WellFormed) (hp : p ∈ h.path n)
    (hFound : h.explicitBinding? p key = some binding) : h.explicitBinding? n key = some binding := by
  obtain ⟨hKey, hLookup⟩ := exists_of_explicitBinding? hW hFound
  obtain ⟨q, hq, hBinding⟩ := exists_of_lookup hLookup
  have hBelow := (hW.lookup_eq_some_iff hKey).mpr ⟨q, hW.rooted.mem_path_trans hp hq, hBinding⟩
  rw [hW.explicitBinding?_eq hKey, hLookup] at hFound
  rw [hW.explicitBinding?_eq hKey, hBelow, hFound]

end Hierarchy

-- ---------------------------------------------------------------------------
-- Conversions
-- ---------------------------------------------------------------------------

namespace Placement

theorem conversion?_eq (h : Hierarchy) (n : InjectorId) (key : Key) :
    conversion? h n key =
      key.qualifier.bind fun _ => (h.explicitBinding? n (key.withType .text)).bind fun constant =>
        constant.text?.bind fun text =>
          match (h.converters n).filter (·.converter.accepts key) with
          | [] => none
          | accepting => some ⟨text, constant.source, accepting⟩ := by
  unfold conversion? Binding.text?
  refine congrArg (key.qualifier.bind ·) (funext fun _ => ?_)
  refine congrArg ((h.explicitBinding? n (key.withType .text)).bind ·) (funext fun constant => ?_)
  rcases constant with ⟨_, _, ⟨value⟩ | _ | _ | _⟩ <;> rfl

theorem conversion?_eq_some_iff :
    conversion? h n key = some conversion ↔
      key.qualifier.isSome = true ∧
        (∃ constant, h.explicitBinding? n (key.withType .text) = some constant ∧
          constant.text? = some conversion.text ∧ constant.source = conversion.source) ∧
        (h.converters n).filter (·.converter.accepts key) = conversion.converters ∧
        conversion.converters ≠ [] := by
  simp only [conversion?_eq, Option.bind_eq_some_iff]
  obtain ⟨text, source, converters⟩ := conversion
  constructor
  · rintro ⟨qualifier, hQualifier, constant, hConstant, text', hText, hSome⟩
    refine ⟨Option.isSome_iff_exists.mpr ⟨qualifier, hQualifier⟩, ?_⟩
    split at hSome
    · cases hSome
    · next hAccepting =>
      cases hSome
      exact ⟨⟨constant, hConstant, hText, rfl⟩, rfl, hAccepting⟩
  · rintro ⟨hQualifier, ⟨constant, hConstant, hText, rfl⟩, rfl, hSome⟩
    obtain ⟨qualifier, hQualifier⟩ := Option.isSome_iff_exists.mp hQualifier
    refine ⟨qualifier, hQualifier, constant, hConstant, text, hText, ?_⟩
    split
    · next hNone => exact absurd hNone hSome
    · rfl

/-- What there is to convert above, there is to convert below, with all converters that are seen from there. -/
theorem conversion?_of_mem_path (hW : h.WellFormed) (hp : p ∈ h.path n)
    (hConversion : conversion? h p key = some conversion) :
    conversion? h n key =
      some { conversion with converters := (h.converters n).filter (·.converter.accepts key) } := by
  obtain ⟨hQualifier, ⟨constant, hConstant, hText, hSource⟩, hAccepting, hSome⟩ :=
    conversion?_eq_some_iff.mp hConversion
  obtain ⟨registration, hRegistration⟩ := List.exists_mem_of_ne_nil _ hSome
  rw [← hAccepting, List.mem_filter] at hRegistration
  have hBelow := explicitBinding?_of_mem_path hW hp hConstant
  have hMem : registration ∈ (h.converters n).filter (·.converter.accepts key) :=
    List.mem_filter.mpr ⟨hW.rooted.converters_subset hp hRegistration.1, hRegistration.2⟩
  exact conversion?_eq_some_iff.mpr ⟨hQualifier, ⟨constant, hBelow, hText, hSource⟩, rfl, List.ne_nil_of_mem hMem⟩

theorem conversion?_isSome_of_mem_path (hW : h.WellFormed) (hp : p ∈ h.path n)
    (hConversion : conversion? h p key = some conversion) : (conversion? h n key).isSome = true := by
  rw [conversion?_of_mem_path hW hp hConversion]
  rfl

theorem conversion?_eq_none_of_mem_path (hW : h.WellFormed) (hp : p ∈ h.path n)
    (hNone : conversion? h n key = none) : conversion? h p key = none := by
  refine Option.eq_none_iff_forall_ne_some.mpr fun conversion hConversion => ?_
  have hSome := conversion?_isSome_of_mem_path hW hp hConversion
  rw [hNone] at hSome
  cases hSome

end Placement

end InjectorTree
