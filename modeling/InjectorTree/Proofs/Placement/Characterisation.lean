import InjectorTree.Proofs.Ownership
import InjectorTree.Proofs.Placement.Completeness

/-!
# Where bindings are placed

Without converters, a resolution creates a binding exactly if the key is placeable on the path, and it creates
it where the key belongs: at the root-most injector in which it is placeable. What it publishes besides are the
keys that the binding needs in turn, each where it belongs.

* `placed_of_resolve`: what a resolution that creates a binding publishes.
* `resolve_characterised`: when a resolution succeeds, and what it publishes.
-/

namespace InjectorTree.Hierarchy

open Placement

variable {h h' : Hierarchy} {n p q m : InjectorId} {key : Key} {d : Draft} {binding other : Binding}

-- ---------------------------------------------------------------------------
-- Complete drafts
-- ---------------------------------------------------------------------------

/-- A draft in which everything staged is supplied, and staged where its key belongs. -/
structure Complete (h : Hierarchy) (n : InjectorId) (d : Draft) : Prop where
  fits : Fits h n d
  ruledOut : RuledOut h n d
  supplied : ∀ binding ∈ d.staged, Supplied h d.staged binding
  built : ∀ binding ∈ d.staged, ∃ declaration,
    h.Startable binding.owner binding.key declaration ∧ h.BuiltFrom declaration binding

/-- Nobody below the owner of a staged binding owns its key, nor does anybody above. -/
theorem Complete.unowned (hW : h.WellFormed) (hn : h.isLive n = true) (hC : Complete h n d)
    (hMem : binding ∈ d.staged) (hm : binding.owner ∈ h.lineage m) : h.binding? m binding.key = none := by
  have hLive := hW.rooted.isLive_of_mem_path hn (hC.fits.onPath binding hMem)
  have hKey := key_ne_injector_of_lookup hLive (hC.fits.unbound binding hMem)
  exact (hW.claimants_eq_nil_iff hKey).mp (hC.fits.unclaimed binding hMem) m hm

/-- What is staged in a complete draft supports itself. -/
theorem Complete.selfSupporting (hW : h.WellFormed) (hn : h.isLive n = true) (hC : Complete h n d) :
    h.SelfSupporting n {pair | ∃ binding ∈ d.staged, (binding.owner, binding.key) = pair} where
  onPath := by
    rintro p key ⟨binding, hMem, hEq⟩
    cases hEq
    exact hC.fits.onPath binding hMem
  unbound := by
    rintro p key ⟨binding, hMem, hEq⟩
    cases hEq
    exact hC.fits.unbound binding hMem
  unowned := by
    rintro p key ⟨binding, hMem, hEq⟩ m hm
    cases hEq
    exact hC.unowned hW hn hMem hm
  declared := by
    rintro p key ⟨binding, hMem, hEq⟩
    cases hEq
    obtain ⟨declaration, hStartable, hBuilt⟩ := hC.built binding hMem
    refine ⟨declaration, hStartable.declared, hStartable.sound, hStartable.registered, ?_⟩
    intro dependency hDependency
    rw [← hBuilt.strategy] at hDependency
    refine (hC.supplied binding hMem dependency hDependency).imp_right ?_
    rintro ⟨other, hOther, rfl, hPath⟩
    exact ⟨other.owner, hPath, other, hOther, rfl⟩

theorem Complete.rootMost (hW : h.WellFormed) (hn : h.isLive n = true) (hC : Complete h n d)
    (hMem : binding ∈ d.staged) : h.RootMost n binding.key binding.owner :=
  ⟨⟨_, hC.selfSupporting hW hn, binding, hMem, rfl⟩, hC.ruledOut.above binding hMem⟩

/-- What is staged for a key that another staged binding depends on is where that one needs it. -/
theorem Complete.needs (hW : h.WellFormed) (hn : h.isLive n = true) (hC : Complete h n d)
    (hMem : binding ∈ d.staged) (hUses : Uses h d.staged binding other) :
    h.Needs n (binding.owner, binding.key) (other.owner, other.key) := by
  obtain ⟨hOther, hDependency, hPath⟩ := hUses
  obtain ⟨declaration, hStartable, hBuilt⟩ := hC.built binding hMem
  refine ⟨declaration, hStartable.declared, hBuilt.strategy ▸ hDependency, ?_, hPath,
    hC.rootMost hW hn hOther⟩
  -- on the path, the key is owned neither above the other owner nor below it
  rw [lookup_eq_none_iff]
  intro p hp
  rcases hW.rooted.mem_path_or_mem_lineage hp hPath with hAbove | hBelow
  · rcases mem_path_iff.mp hAbove with hEq | hAbove
    · rw [← hEq]
      exact lookup_eq_none_iff.mp (hC.fits.unbound other hOther) other.owner self_mem_path
    · exact hC.unowned hW hn hOther hAbove
  · exact lookup_eq_none_iff.mp (hC.fits.unbound other hOther) p (mem_path_of_mem_lineage hBelow)

/-- What is staged for the sake of a staged binding is what that one needs, directly or in turn. -/
theorem Complete.needs_of_uses (hW : h.WellFormed) (hn : h.isLive n = true) (hC : Complete h n d)
    (hMem : binding ∈ d.staged) (hUsed : Relation.ReflTransGen (Uses h d.staged) binding other) :
    Relation.ReflTransGen (h.Needs n) (binding.owner, binding.key) (other.owner, other.key) ∧
      other ∈ d.staged := by
  induction hUsed with
  | refl => exact ⟨.refl, hMem⟩
  | tail _ hUses ih => exact ⟨.tail ih.1 (hC.needs hW hn ih.2 hUses), hUses.1⟩

/-- All that a staged binding needs is staged. -/
theorem Complete.exists_of_needs (hW : h.WellFormed) (hn : h.isLive n = true) (hC : Complete h n d)
    (hMem : binding ∈ d.staged) {pair : InjectorId × Key}
    (hNeeds : Relation.ReflTransGen (h.Needs n) (binding.owner, binding.key) pair) :
    ∃ other ∈ d.staged, (other.owner, other.key) = pair := by
  induction hNeeds with
  | refl => exact ⟨binding, hMem, rfl⟩
  | tail _ hStep ih =>
    obtain ⟨other, hOther, rfl⟩ := ih
    obtain ⟨declaration, hDeclared, hDependency, hNone, -, hRootMost⟩ := hStep
    obtain ⟨declaration', hStartable, hBuilt⟩ := hC.built other hOther
    have hSame := hStartable.declared
    rw [hDeclared, Option.some.injEq] at hSame
    subst hSame
    rw [← hBuilt.strategy] at hDependency
    rcases hC.supplied other hOther _ hDependency with hFound | ⟨last, hLast, hKey, -⟩
    · rw [hNone] at hFound
      cases hFound
    · have hLastRoot := hC.rootMost hW hn hLast
      rw [hKey] at hLastRoot
      exact ⟨last, hLast, Prod.ext (hLastRoot.unique hW.rooted hRootMost) hKey⟩

-- ---------------------------------------------------------------------------
-- What a resolution publishes
-- ---------------------------------------------------------------------------

/-- The binding was created, with all it needs: each key where it belongs, built from the nearest declaration,
and nothing else. -/
structure Placed (h : Hierarchy) (n : InjectorId) (key : Key) (binding : Binding) (h' : Hierarchy) : Prop where
  forKey : binding.key = key
  rootMost : h.RootMost n key binding.owner
  owned : h'.binding? binding.owner key = some binding
  kept : ∀ {m : InjectorId} {x : Key} {old : Binding}, h.binding? m x = some old → h'.binding? m x = some old
  added : ∀ {m : InjectorId} {x : Key} {new : Binding}, h'.binding? m x = some new →
    h.binding? m x = some new ∨
      Relation.ReflTransGen (h.Needs n) (binding.owner, key) (m, x) ∧ h.RootMost n x m ∧
        ∃ declaration, h.Startable m x declaration ∧ h.BuiltFrom declaration new
  needed : ∀ {m : InjectorId} {x : Key}, Relation.ReflTransGen (h.Needs n) (binding.owner, key) (m, x) →
    (h'.binding? m x).isSome = true

variable {outcome : Except Report Binding} {report : Report}

/-- The draft of a search that succeeds is complete. -/
theorem complete_of_locate (hW : h.WellFormed) (hn : h.isLive n = true) (hNoConverters : h.converters n = [])
    (hOnly : h.isExplicitOnly n = false) {fuel : Nat}
    (hRun : Placement.locate fuel n key { hierarchy := h } = some (.ok binding, d)) : Complete h n d := by
  obtain ⟨hF, hGrown, -⟩ := (locates hW.rooted n fuel).ok self_mem_path (fits_start hW n) hRun
  have hO := (searches hW hn hNoConverters hOnly fuel).ok self_mem_path (fits_start hW n) (ruledOut_start h n) hRun
  refine ⟨hF, hO, fun binding hMem => ?_, fun binding hMem => ?_⟩
  · exact (hGrown.supplied binding hMem).resolve_left fun hAbsurd => nomatch hAbsurd
  · rcases hF.made binding hMem with hBuilt | ⟨conversion, hConversion, -⟩
    · exact hBuilt
    · -- there is nothing to convert without converters
      rw [conversion?_eq_none hW.rooted hNoConverters (hF.onPath binding hMem)] at hConversion
      cases hConversion

/-- A resolution that creates a binding places it where its key belongs. -/
theorem placed_of_resolve (hW : h.WellFormed) (hn : h.isLive n = true) (hNoConverters : h.converters n = [])
    (hOnly : h.isExplicitOnly n = false) (hNone : h.lookup n key = none)
    (hRun : h.resolve n key = some (.ok binding, h')) : Placed h n key binding h' := by
  obtain ⟨d, hLocate, rfl⟩ := (resolve_of_lookup_eq_none hNone).mp hRun
  have hC := complete_of_locate hW hn hNoConverters hOnly hLocate
  obtain ⟨hF, hGrown, hLocated⟩ := (locates hW.rooted n _).ok self_mem_path (fits_start hW n) hLocate
  rcases hLocated with ⟨hFound, -⟩ | ⟨-, hStaged, rfl, -⟩
  · rw [hNone] at hFound
    cases hFound
  · obtain ⟨-, -, -, hBindings⟩ := publish_spec hW hn hF
    refine
      { forKey := rfl
        rootMost := hC.rootMost hW hn hStaged
        owned := (hBindings _ _ _).mpr (Or.inr ⟨hStaged, rfl, rfl⟩)
        kept := fun hOld => (hBindings _ _ _).mpr (Or.inl hOld)
        added := fun {m x new} hNew => ?_
        needed := fun {m x} hNeeds => ?_ }
    · refine ((hBindings m x new).mp hNew).imp_right ?_
      rintro ⟨hMem, rfl, rfl⟩
      have hUsed := (hGrown.used new hMem).resolve_left fun hAbsurd => nomatch hAbsurd
      exact ⟨(hC.needs_of_uses hW hn hStaged hUsed).1, hC.rootMost hW hn hMem, hC.built new hMem⟩
    · obtain ⟨other, hOther, hEq⟩ := hC.exists_of_needs hW hn hStaged hNeeds
      cases hEq
      exact Option.isSome_iff_exists.mpr ⟨other, (hBindings _ _ _).mpr (Or.inr ⟨hOther, rfl, rfl⟩)⟩

/-- The binding itself is built from the declaration that its owner sees. -/
theorem Placed.built (hP : Placed h n key binding h') (hNone : h.lookup n key = none) :
    ∃ declaration, h.declaration? binding.owner key = some declaration ∧ h.BuiltFrom declaration binding := by
  rcases hP.added hP.owned with hOld | ⟨-, -, declaration, hStartable, hBuilt⟩
  · have hNew := lookup_eq_none_iff.mp hNone binding.owner hP.rootMost.1.onPath
    rw [hOld] at hNew
    cases hNew
  · exact ⟨declaration, hStartable.declared, hBuilt⟩

/-- A resolution that fails was for a key that is placeable nowhere on the path. -/
theorem not_placeable_of_resolve (hW : h.WellFormed) (hn : h.isLive n = true)
    (hNoConverters : h.converters n = []) (hOnly : h.isExplicitOnly n = false)
    (hRun : h.resolve n key = some (.error report, h')) (p : InjectorId) : ¬h.Placeable n p key := by
  obtain ⟨hNone, -⟩ := resolve_error hW hRun
  obtain ⟨d, hLocate, -⟩ := (resolve_of_lookup_eq_none hNone).mp hRun
  obtain ⟨-, -, hNowhere⟩ := (searches hW hn hNoConverters hOnly _).error self_mem_path (fits_start hW n)
    (ruledOut_start h n) hLocate
  exact fun hPlaceable => hNowhere p hPlaceable.onPath hPlaceable

/-- For a key that is not bound yet on the path of an injector, without converters there and where bindings may
be created:

* resolving ends, and it succeeds exactly if some self-supporting set has the key on the path;
* if it succeeds, the binding is owned by the root-most injector for which a self-supporting set has the key,
  and built from the declaration nearest to it; what is owned in addition afterwards is exactly what the binding
  depends on, directly or in turn, as far as it was not bound yet, each key owned and built in the same way;
* if it fails, nobody owns anything else than before. -/
theorem resolve_characterised (hReach : Reachable h) (hLive : h.isLive n = true)
    (hNoConverters : h.converters n = []) (hOnly : h.isExplicitOnly n = false)
    (hNone : h.lookup n key = none) :
    (∃ outcome h', h.resolve n key = some (outcome, h')) ∧
    ((∃ binding h', h.resolve n key = some (.ok binding, h')) ↔
      ∃ p ∈ h.path n, ∃ S, h.SelfSupporting n S ∧ (p, key) ∈ S) ∧
    (∀ binding h', h.resolve n key = some (.ok binding, h') →
      binding.key = key ∧ h.RootMost n key binding.owner ∧
      (∃ declaration, h.declaration? binding.owner key = some declaration ∧ h.BuiltFrom declaration binding) ∧
      h'.binding? binding.owner key = some binding ∧
      (∀ m x old, h.binding? m x = some old → h'.binding? m x = some old) ∧
      (∀ m x new, h'.binding? m x = some new → h.binding? m x = some new ∨
        Relation.ReflTransGen (h.Needs n) (binding.owner, key) (m, x) ∧ h.RootMost n x m ∧
          ∃ declaration, h.declaration? m x = some declaration ∧ h.BuiltFrom declaration new) ∧
      ∀ m x, Relation.ReflTransGen (h.Needs n) (binding.owner, key) (m, x) →
        (h'.binding? m x).isSome = true) ∧
    ∀ report h', h.resolve n key = some (.error report, h') → ∀ m x, h'.binding? m x = h.binding? m x := by
  have hW := hReach.wellFormed
  obtain ⟨⟨outcome, after⟩, hEnds⟩ := resolve_ends hW n key
  refine ⟨⟨outcome, after, hEnds⟩, ⟨?_, ?_⟩, ?_, ?_⟩
  · rintro ⟨binding, h', hRun⟩
    have hPlaced := placed_of_resolve hW hLive hNoConverters hOnly hNone hRun
    exact ⟨binding.owner, hPlaced.rootMost.1.onPath, hPlaced.rootMost.1⟩
  · rintro ⟨p, -, hPlaceable⟩
    cases outcome with
    | ok binding => exact ⟨binding, after, hEnds⟩
    | error report =>
      exact absurd hPlaceable (not_placeable_of_resolve hW hLive hNoConverters hOnly hEnds p)
  · intro binding h' hRun
    have hPlaced := placed_of_resolve hW hLive hNoConverters hOnly hNone hRun
    have hOwn : ∃ declaration, h.declaration? binding.owner key = some declaration ∧
        h.BuiltFrom declaration binding := by
      rcases hPlaced.added hPlaced.owned with hOld | ⟨-, -, declaration, hStartable, hBuilt⟩
      · have hNew := lookup_eq_none_iff.mp hNone binding.owner hPlaced.rootMost.1.onPath
        rw [hOld] at hNew
        cases hNew
      · exact ⟨declaration, hStartable.declared, hBuilt⟩
    refine ⟨hPlaced.forKey, hPlaced.rootMost, hOwn, hPlaced.owned, fun _ _ _ => hPlaced.kept, ?_,
      fun _ _ => hPlaced.needed⟩
    intro m x new hNew
    refine (hPlaced.added hNew).imp_right ?_
    rintro ⟨hNeeds, hRootMost, declaration, hStartable, hBuilt⟩
    exact ⟨hNeeds, hRootMost, declaration, hStartable.declared, hBuilt⟩
  · intro report h' hRun m x
    exact (resolve_error hW hRun).2.core.binding? m x

/-- A root that declares two keys as links to each other, and a child of it. -/
def circle (first second : Key) : Hierarchy :=
  (create (some 0) .empty false
    (create none ⟨[], [⟨first, .linked second, none, .builtin⟩, ⟨second, .linked first, none, .builtin⟩],
      [], [], []⟩ false {}).2).2

theorem reachable_circle (first second : Key) : Reachable (circle first second) := by
  have hRoot : Step {} (create none
      ⟨[], [⟨first, .linked second, none, .builtin⟩, ⟨second, .linked first, none, .builtin⟩], [], [], []⟩
      false {}).2 := .create fun p hp => nomatch hp
  exact .tail (.single hRoot) (.create fun p hp => by cases hp; rfl)

theorem resolve_characterised_in_circle :
    let key := Key.of .text
    let h := circle key (.of .singleton)
    Reachable h ∧ h.isLive 1 = true ∧ h.converters 1 = [] ∧ h.isExplicitOnly 1 = false ∧
      h.lookup 1 key = none ∧ ((h.resolve 1 key).map fun result => result.1.toBool) = some true ∧
      ((∃ binding h', h.resolve 1 key = some (.ok binding, h')) ↔
        ∃ p ∈ h.path 1, ∃ S, h.SelfSupporting 1 S ∧ (p, key) ∈ S) :=
  have hReach := reachable_circle (.of .text) (.of .singleton)
  ⟨hReach, rfl, rfl, rfl, rfl, by decide, (resolve_characterised hReach rfl rfl rfl rfl).2.1⟩

end InjectorTree.Hierarchy
