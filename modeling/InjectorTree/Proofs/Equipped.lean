import InjectorTree.Proofs.Reachability
import InjectorTree.Proofs.Runs

/-!
# What is created lacks nothing

A binding is staged before what it depends on, and a dependency may be found among bindings that are still in
progress. An attempt that fails takes back all that was staged since it began, what relied on it included, so
nothing stays in a draft whose support is gone. Once published, a binding keeps what it has.

* `Equipped`: everything that a binding depends on is bound on the path of its owner, its scope is registered there,
  and nothing speaks against its declaration.
* `equipped_publish`: a draft that is published equips what was created in it.
* `Equipped.continues`: what is equipped stays so as long as its owner lives.
* `created_equipped`: in every reachable state, whatever was created on demand is equipped.
-/

namespace InjectorTree.Hierarchy

open Placement

/-- A binding has everything on the path of its owner that it needs, and may be declared as it is. -/
structure Equipped (h : Hierarchy) (binding : Binding) : Prop where
  supplied : ∀ dependency ∈ binding.strategy.dependencies, (h.lookup binding.owner dependency).isSome = true
  registered : ∀ tag, binding.scope = some tag → (h.nearestScope binding.owner tag).isSome = true
  sound : binding.strategy.objection binding.key binding.scope = none

variable {h h' : Hierarchy} {n p : InjectorId} {key wanted : Key} {binding result : Binding} {d : Draft}

-- ---------------------------------------------------------------------------
-- What a step adds
-- ---------------------------------------------------------------------------

/-- What was created on demand was there before the step, or the step has resolved a key. -/
theorem Step.exists_resolve (hW : h.WellFormed) (hStep : Step h h') (hb : h'.binding? p key = some binding)
    (hOrigin : binding.origin = .justInTime ∨ binding.origin = .converted) :
    h.binding? p key = some binding ∨
      ∃ n wanted result, h.isLive n = true ∧ h.resolve n wanted = some (.ok result, h') := by
  have hMarks : Marked h' h → h.binding? p key = some binding := fun hM => by
    rw [← hM.core.binding?]
    exact hb
  cases hStep with
  | @create parent module explicitOnly hLive =>
    cases hRun : h.create parent module explicitOnly with
    | mk outcome h' =>
      rw [hRun] at hb hMarks
      cases outcome with
      | error reports => exact Or.inl (hMarks (create_error hW hRun))
      | ok child =>
        obtain ⟨made, injector, bindings, hMarked, hA, -, -, rfl⟩ := create_ok hW hLive hRun
        rw [binding?_adopted hMarked.wellFormed.toConsistent hA, hMarked.core.binding?] at hb
        split at hb
        · -- the new injector has nothing that was created on demand
          have hCreated := (hA.coherent.binding? hb).2.2
          by_cases hKey : key = .injector
          · rw [hCreated.mpr hKey] at hOrigin
            rcases hOrigin with hOrigin | hOrigin <;> cases hOrigin
          · rw [hA.origin binding ((hA.binding?_eq_some_iff hKey).mp hb).1] at hOrigin
            rcases hOrigin with hOrigin | hOrigin <;> cases hOrigin
        · exact Or.inl hb
  | @resolve _ n wanted outcome hLive hRun =>
    cases outcome with
    | error report => exact Or.inl (hMarks (resolve_error hW hRun).2)
    | ok result => exact Or.inr ⟨n, wanted, result, hLive, hRun⟩
  | act user => exact Or.inl hb
  | keep number height value => exact Or.inl hb
  | findScope n tag => exact Or.inl (hMarks (marked_findScope hW n tag))
  | make key strategy scope source origin n => exact Or.inl hb
  | hold hLive => exact Or.inl hb
  | release n =>
    rw [binding?_release hW (isLive_of_binding? hb)] at hb
    exact Or.inl hb
  | holdBinding number => exact Or.inl hb

/-- A resolution that adds a binding has published a draft with it. -/
theorem exists_draft_of_resolve (hW : h.WellFormed) (hn : h.isLive n = true)
    (hRun : h.resolve n wanted = some (.ok result, h')) (hb : h'.binding? p key = some binding) :
    h.binding? p key = some binding ∨
      ∃ d, h' = d.publish ∧ Fits h n d ∧ Grown h { hierarchy := h } result d ∧ binding ∈ d.staged := by
  rcases resolve_ok hW hRun with ⟨-, rfl⟩ | ⟨-, d, rfl, hF, hGrown, -⟩
  · exact Or.inl hb
  · obtain ⟨-, -, -, hBindings⟩ := publish_spec hW hn hF
    exact ((hBindings _ _ _).mp hb).imp_right fun hStaged => ⟨d, rfl, hF, hGrown, hStaged.1⟩

/-- What was created on demand was there before the step, or the step has published a draft with it. -/
theorem Step.exists_draft (hW : h.WellFormed) (hStep : Step h h') (hb : h'.binding? p key = some binding)
    (hOrigin : binding.origin = .justInTime ∨ binding.origin = .converted) :
    h.binding? p key = some binding ∨
      ∃ n result d, h.isLive n = true ∧ h' = d.publish ∧ Fits h n d ∧ Grown h { hierarchy := h } result d ∧
        binding ∈ d.staged := by
  rcases hStep.exists_resolve hW hb hOrigin with hOld | ⟨n, wanted, result, hn, hRun⟩
  · exact Or.inl hOld
  · exact (exists_draft_of_resolve hW hn hRun hb).imp_right fun ⟨d, hDraft⟩ => ⟨n, result, d, hn, hDraft⟩

/-- A draft that is published equips what was created in it: whatever a search has added is supplied, and what it is
supplied with is published too. -/
theorem equipped_publish (hW : h.WellFormed) (hn : h.isLive n = true) (hF : Fits h n d)
    (hGrown : Grown h { hierarchy := h } result d) (hMem : binding ∈ d.staged)
    (hOrigin : binding.origin = .justInTime) : d.publish.Equipped binding := by
  obtain ⟨-, hShape, -, hBindings⟩ := publish_spec hW hn hF
  rcases hF.made binding hMem with ⟨declaration, hStartable, hBuilt⟩ | ⟨conversion, -, hConverted⟩
  · refine ⟨fun dependency hDependency => ?_, fun tag hTag => ?_, ?_⟩
    · have hSupplied := (hGrown.supplied binding hMem).resolve_left List.not_mem_nil
      rw [lookup_isSome_iff, hShape.path]
      rcases hSupplied dependency hDependency with hFound | ⟨other, hOther, hKey, hOwner⟩
      · obtain ⟨p, hp, hSome⟩ := lookup_isSome_iff.mp hFound
        obtain ⟨found, hb⟩ := Option.isSome_iff_exists.mp hSome
        exact ⟨p, hp, Option.isSome_iff_exists.mpr ⟨found, (hBindings _ _ _).mpr (Or.inl hb)⟩⟩
      · have hb := (hBindings other.owner dependency other).mpr (Or.inr ⟨hOther, rfl, hKey⟩)
        exact ⟨other.owner, hOwner, Option.isSome_iff_exists.mpr ⟨other, hb⟩⟩
    · rw [hShape.nearestScope]
      exact hStartable.registered tag (hBuilt.scope ▸ hTag)
    · rw [hBuilt.strategy, hBuilt.scope]
      exact hStartable.sound
  · rw [hConverted.origin] at hOrigin
    cases hOrigin

-- ---------------------------------------------------------------------------
-- What stays
-- ---------------------------------------------------------------------------

/-- What is equipped stays so as long as its owner lives. -/
theorem Equipped.continues (hE : h.Equipped binding) (hC : Continues h h') (hR : h.Rooted) (hR' : h'.Rooted)
    (hLive : h.isLive binding.owner = true) (hLive' : h'.isLive binding.owner = true) : h'.Equipped binding := by
  have hShape := hC.sameShapeOn hR hR' hLive hLive'
  have hPath := hShape.path self_mem_path
  refine ⟨fun dependency hDependency => ?_, fun tag hTag => ?_, hE.sound⟩
  · obtain ⟨p, hp, hSome⟩ := lookup_isSome_iff.mp (hE.supplied dependency hDependency)
    obtain ⟨found, hb⟩ := Option.isSome_iff_exists.mp hSome
    rw [← hPath] at hp
    have hKept := hC.binding? (hR'.isLive_of_mem_path hLive' hp) hb
    exact lookup_isSome_iff.mpr ⟨p, hp, Option.isSome_iff_exists.mpr ⟨found, hKept⟩⟩
  · rw [hShape.nearestScope self_mem_path]
    exact hE.registered tag hTag

/-- Whatever was created on demand is equipped. -/
def AllEquipped (h : Hierarchy) : Prop :=
  ∀ p key binding, h.binding? p key = some binding → binding.origin = .justInTime → h.Equipped binding

theorem Step.allEquipped (hW : h.WellFormed) (hAll : h.AllEquipped) (hStep : Step h h') : h'.AllEquipped := by
  intro p key binding hb hOrigin
  rcases hStep.exists_draft hW hb (Or.inl hOrigin) with hOld | ⟨n, result, d, hn, rfl, hF, hGrown, hMem⟩
  · have hW' := hStep.wellFormed hW
    obtain rfl := (hW.binding? hOld).2.1
    exact (hAll _ key binding hOld hOrigin).continues (hStep.continues hW) hW.rooted hW'.rooted
      (isLive_of_binding? hOld) (isLive_of_binding? hb)
  · exact equipped_publish hW hn hF hGrown hMem hOrigin

theorem Reachable.allEquipped (hReach : Reachable h) : h.AllEquipped := by
  induction hReach with
  | refl =>
    intro p key binding hb
    cases hb
  | tail hBefore hStep ih => exact hStep.allEquipped (Reachable.wellFormed hBefore) ih

/-- In every reachable state, whatever an injector owns that was created on demand lacks nothing. Each key on which
it depends is located on the path of the owner, and to locate it creates nothing; the tag of its scope is registered
there, and is found; and it is declared for its key and scope as it may be. -/
theorem created_equipped (hReach : Reachable h) (hMem : binding ∈ h.bindings p)
    (hOrigin : binding.origin = .justInTime) :
    (∀ dependency ∈ binding.strategy.dependencies, ∃ found,
      h.lookup p dependency = some found ∧ h.resolve p dependency = some (.ok found, h)) ∧
    (∀ tag, binding.scope = some tag → ∃ registration,
      h.nearestScope p tag = some registration ∧ (h.findScope p tag).1 = some registration) ∧
    binding.strategy.objection binding.key binding.scope = none := by
  have hW := hReach.wellFormed
  obtain ⟨injector, hp, hMem⟩ := exists_of_mem_bindings hMem
  have hb := hW.binding?_of_mem_bindings hp hMem
  obtain rfl := (hW.binding? hb).2.1
  have hEquipped := hReach.allEquipped _ _ _ hb hOrigin
  refine ⟨fun dependency hDependency => ?_, fun tag hTag => ?_, hEquipped.sound⟩
  · obtain ⟨found, hFound⟩ := Option.isSome_iff_exists.mp (hEquipped.supplied dependency hDependency)
    exact ⟨found, hFound, resolve_of_lookup hFound⟩
  · obtain ⟨registration, hNearest⟩ := Option.isSome_iff_exists.mp (hEquipped.registered tag hTag)
    exact ⟨registration, hNearest, (findScope_fst hW.rooted hW.caches _ tag).trans hNearest⟩

/-- A root that provides `C`, and a child that declares `A` and `B`. `A` is a singleton that is made of `B` and `C`, and
`B` is linked to `A`. -/
def knot : Hierarchy :=
  let a := Key.of ⟨10, "A"⟩
  let b := Key.of ⟨11, "B"⟩
  let c := Key.of ⟨12, "C"⟩
  let make (dependencies : List Key) : Constructor :=
    ⟨dependencies, fun _ => .finish (.ok (.made 0 a.type (.primitive "")))⟩
  let root := create none ⟨[], [⟨c, .constructed (make []), none, .builtin⟩], [], [], []⟩ false {}
  (root.2.create (some 0)
    ⟨[], [⟨a, .constructed (make [b, c]), some .singleton, .builtin⟩, ⟨b, .linked a, none, .builtin⟩], [], [], []⟩
    false).2

theorem reachable_knot : Reachable knot := by
  refine .tail (.single (.create ?_)) (.create ?_)
  · rintro p ⟨⟩
  · rintro p ⟨⟩
    rfl

/-- Two of the three bindings wait for each other, and the third is one level up. -/
theorem created_equipped_in_knot :
    let a := Key.of ⟨10, "A"⟩
    let h := (resolve 1 a).after knot
    Reachable h ∧ ∃ binding ∈ h.bindings 1, binding.origin = .justInTime ∧ binding.key = a ∧
      binding.strategy.dependencies = [Key.of ⟨11, "B"⟩, Key.of ⟨12, "C"⟩] ∧ binding.scope = some .singleton ∧
      (∀ dependency ∈ binding.strategy.dependencies, ∃ found,
        h.lookup 1 dependency = some found ∧ h.resolve 1 dependency = some (.ok found, h)) ∧
      (∀ tag, binding.scope = some tag → ∃ registration,
        h.nearestScope 1 tag = some registration ∧ (h.findScope 1 tag).1 = some registration) ∧
      binding.strategy.objection binding.key binding.scope = none := by
  intro a h
  have hLive : knot.isLive 1 = true := by decide
  obtain ⟨result, hRun⟩ : ∃ result, knot.resolve 1 a = some (.ok result, h) :=
    Run.exists_ok_after (by decide +kernel)
  have hReach : Reachable h := reachable_knot.tail (.resolve hLive hRun)
  have hThere : (Origin.justInTime, a, [Key.of ⟨11, "B"⟩, Key.of ⟨12, "C"⟩], some ScopeTag.singleton) ∈
      (h.bindings 1).map fun binding =>
        (binding.origin, binding.key, binding.strategy.dependencies, binding.scope) := by decide +kernel
  obtain ⟨binding, hMem, hBinding⟩ := List.mem_map.mp hThere
  simp only [Prod.mk.injEq] at hBinding
  obtain ⟨hOrigin, hKey, hDependencies, hScope⟩ := hBinding
  exact ⟨hReach, binding, hMem, hOrigin, hKey, hDependencies, hScope, created_equipped hReach hMem hOrigin⟩

end InjectorTree.Hierarchy
