import Mathlib.Data.Set.Basic
import InjectorTree.Proofs.Placement.Resolve

/-!
# Where bindings could be placed

Which bindings can be created on demand is a matter of the hierarchy alone, and it can be said without a search.
A set of pairs of an injector and a key *supports itself* if each of its pairs has all it takes, but for keys
that other pairs of the set provide; cycles of dependencies are fine. A key is *placeable* in an injector if some
self-supporting set says so.

* `selfSupporting_placeable`: the placeable pairs support themselves.
* `RootMost`: the injector in which a placeable key belongs; there is one at most on a path.
-/

namespace InjectorTree.Hierarchy

/-- Each pair of the set could be placed, as far as the keys on which it depends are bound or provided by other
pairs. -/
structure SelfSupporting (h : Hierarchy) (n : InjectorId) (S : Set (InjectorId × Key)) : Prop where
  onPath : ∀ {p : InjectorId} {key : Key}, (p, key) ∈ S → p ∈ h.path n
  unbound : ∀ {p : InjectorId} {key : Key}, (p, key) ∈ S → h.lookup p key = none
  unowned : ∀ {p : InjectorId} {key : Key}, (p, key) ∈ S →
    ∀ m, p ∈ h.lineage m → h.binding? m key = none
  declared : ∀ {p : InjectorId} {key : Key}, (p, key) ∈ S →
    ∃ declaration, h.declaration? p key = some declaration ∧
      declaration.strategy.objection key declaration.scope = none ∧
      (∀ tag, declaration.scope = some tag → (h.nearestScope p tag).isSome = true) ∧
      ∀ dependency ∈ declaration.strategy.dependencies,
        (h.lookup p dependency).isSome = true ∨ ∃ q ∈ h.path p, (q, dependency) ∈ S

/-- Some self-supporting set has the key in the injector. -/
def Placeable (h : Hierarchy) (n p : InjectorId) (key : Key) : Prop :=
  ∃ S, h.SelfSupporting n S ∧ (p, key) ∈ S

/-- The key is placeable in the injector, and in none above it. -/
def RootMost (h : Hierarchy) (n : InjectorId) (key : Key) (p : InjectorId) : Prop :=
  h.Placeable n p key ∧ ∀ q ∈ h.lineage p, ¬h.Placeable n q key

/-- The second pair is where a key belongs on which the declaration of the first one depends. -/
def Needs (h : Hierarchy) (n : InjectorId) (first second : InjectorId × Key) : Prop :=
  ∃ declaration, h.declaration? first.1 first.2 = some declaration ∧
    second.2 ∈ declaration.strategy.dependencies ∧ h.lookup first.1 second.2 = none ∧
    second.1 ∈ h.path first.1 ∧ h.RootMost n second.2 second.1

variable {h : Hierarchy} {n p q : InjectorId} {key : Key} {declaration : Declaration}

theorem Placeable.onPath (hP : h.Placeable n p key) : p ∈ h.path n := by
  obtain ⟨S, hS, hMem⟩ := hP
  exact hS.onPath hMem

theorem Placeable.unbound (hP : h.Placeable n p key) : h.lookup p key = none := by
  obtain ⟨S, hS, hMem⟩ := hP
  exact hS.unbound hMem

/-- What is placeable could be started, if nothing were staged. -/
theorem Placeable.startable (hW : h.WellFormed) (hn : h.isLive n = true) (hP : h.Placeable n p key) :
    ∃ declaration, h.Startable p key declaration ∧
      ∀ dependency ∈ declaration.strategy.dependencies,
        (h.lookup p dependency).isSome = true ∨ ∃ q ∈ h.path p, h.Placeable n q dependency := by
  obtain ⟨S, hS, hMem⟩ := hP
  obtain ⟨declaration, hDeclared, hSound, hRegistered, hDependencies⟩ := hS.declared hMem
  have hLive := hW.rooted.isLive_of_mem_path hn (hS.onPath hMem)
  have hKey := key_ne_injector_of_lookup hLive (hS.unbound hMem)
  refine ⟨declaration, ⟨?_, hDeclared, hSound, hRegistered⟩, fun dependency hDependency => ?_⟩
  · exact (hW.claimants_eq_nil_iff hKey).mpr (hS.unowned hMem)
  · refine (hDependencies dependency hDependency).imp_right ?_
    rintro ⟨q, hq, hOther⟩
    exact ⟨q, hq, S, hS, hOther⟩

/-- The placeable pairs support themselves. -/
theorem selfSupporting_placeable (h : Hierarchy) (n : InjectorId) :
    h.SelfSupporting n {pair | h.Placeable n pair.1 pair.2} where
  onPath hP := Placeable.onPath hP
  unbound hP := Placeable.unbound hP
  unowned := by
    rintro p key ⟨S, hS, hMem⟩
    exact hS.unowned hMem
  declared := by
    rintro p key ⟨S, hS, hMem⟩
    obtain ⟨declaration, hDeclared, hSound, hRegistered, hDependencies⟩ := hS.declared hMem
    refine ⟨declaration, hDeclared, hSound, hRegistered, fun dependency hDependency => ?_⟩
    refine (hDependencies dependency hDependency).imp_right ?_
    rintro ⟨q, hq, hOther⟩
    exact ⟨q, hq, S, hS, hOther⟩

/-- A path has one root-most injector at most. -/
theorem RootMost.unique (hR : h.Rooted) (hp : h.RootMost n key p) (hq : h.RootMost n key q) : p = q := by
  rcases hR.mem_path_or_mem_lineage hp.1.onPath hq.1.onPath with hAbove | hBelow
  · rcases mem_path_iff.mp hAbove with rfl | hAbove
    · rfl
    · exact absurd hq.1 (hp.2 q hAbove)
  · exact absurd hp.1 (hq.2 p hBelow)

end InjectorTree.Hierarchy
