import InjectorTree.Proofs.Permanence
import InjectorTree.Proofs.Placement.Afresh

/-!
# What injectors store

An injector stores its bindings in two tables and has one more, of itself, in neither. A binding says of itself which
key it is for, who owns it and how it came to exist, and whoever finds it goes by that. So what it says has to agree
with where it is stored, whether it was stored when the injector was created, or in the end of a search that may have
taken back much of what it staged.

* `Injector.Coherent.origins`: each of the three places has the bindings of its own origins.
* `Injector.Coherent.nodup_keys`: no key occurs twice in all of them together.
* `WellFormed.binding?_eq_some_iff`: what is found under a key is what is listed with it.
* `locate_injector`: in the middle of a search, too, an injector finds itself.
* `stores_coherent`: all this holds in every reachable state.
-/

namespace InjectorTree

-- ---------------------------------------------------------------------------
-- One injector
-- ---------------------------------------------------------------------------

namespace Injector.Coherent

variable {n : InjectorId} {injector : Injector} {key : Key} {binding : Binding}

/-- How a binding came to exist tells where it is stored. -/
theorem origins (hC : injector.Coherent n) (hMem : binding ∈ injector.bindings) :
    (binding.origin = .explicit ↔ (binding.key, binding) ∈ injector.explicit.entries) ∧
      (binding.origin = .justInTime ∨ binding.origin = .converted ↔
        (binding.key, binding) ∈ injector.created.entries) ∧
      (binding.origin = .builtin ↔ binding = injector.itself) := by
  have hExplicit : (binding.key, binding) ∈ injector.explicit.entries → binding.origin = .explicit :=
    fun hEntry => (hC.of_mem_explicit hEntry).2.2.1
  have hCreated : (binding.key, binding) ∈ injector.created.entries →
      binding.origin = .justInTime ∨ binding.origin = .converted :=
    fun hEntry => (hC.of_mem_created hEntry).2.2.1
  have hItself : binding = injector.itself → binding.origin = .builtin := fun hEq => hEq ▸ hC.itself.2.2
  -- the three places exhaust what there is, and no two of them have an origin in common
  have hStored := hC.stored hMem
  refine ⟨⟨fun hOrigin => ?_, hExplicit⟩, ⟨fun hOrigin => ?_, hCreated⟩, ⟨fun hOrigin => ?_, hItself⟩⟩
  all_goals grind

/-- The keys of all bindings are that of the injector itself and those of the tables. -/
theorem keys_bindings (hC : injector.Coherent n) :
    injector.bindings.map (·.key) = .injector :: (injector.explicit.keys ++ injector.created.keys) := by
  have hKeys : ∀ table : Table Key Binding, (∀ entry ∈ table.entries, entry.2.key = entry.1) →
      table.values.map (·.key) = table.keys := by
    intro table hTable
    rw [Table.values, Table.keys, List.map_map]
    exact List.map_congr_left hTable
  rw [bindings, List.map_cons, List.map_append, hC.itself.1,
    hKeys injector.explicit fun _ hEntry => (hC.of_mem_explicit hEntry).1,
    hKeys injector.created fun _ hEntry => (hC.of_mem_created hEntry).1]

/-- Neither table has the key under which every injector provides itself. -/
theorem injector_not_mem_keys (hC : injector.Coherent n) :
    Key.injector ∉ injector.explicit.keys ∧ Key.injector ∉ injector.created.keys := by
  constructor
  · intro hMem
    obtain ⟨⟨_, _⟩, hEntry, hKey⟩ := List.mem_map.mp hMem
    exact (hC.of_mem_explicit hEntry).2.2.2 hKey
  · intro hMem
    obtain ⟨⟨_, _⟩, hEntry, hKey⟩ := List.mem_map.mp hMem
    exact (hC.of_mem_created hEntry).2.2.2 hKey

/-- No key occurs twice among all bindings. -/
theorem nodup_keys (hC : injector.Coherent n) : (injector.bindings.map (·.key)).Nodup := by
  rw [hC.keys_bindings, List.nodup_cons, List.mem_append, not_or]
  refine ⟨hC.injector_not_mem_keys, ?_⟩
  refine List.nodup_append.mpr ⟨hC.explicitKeys, hC.createdKeys, fun key hExplicit _ hCreated hEq => ?_⟩
  subst hEq
  rw [← Table.isSome_get?_iff] at hExplicit hCreated
  rcases hC.disjoint key with hNone | hNone
  · rw [hNone] at hExplicit
    cases hExplicit
  · rw [hNone] at hCreated
    cases hCreated

end Injector.Coherent

-- ---------------------------------------------------------------------------
-- All injectors
-- ---------------------------------------------------------------------------

namespace Hierarchy

open Placement

variable {h h' : Hierarchy} {n : InjectorId} {injector : Injector} {key : Key} {binding : Binding} {d : Draft}

theorem bindings_of_injector? (hn : h.injector? n = some injector) : h.bindings n = injector.bindings := by
  rw [bindings, hn]
  rfl

/-- What is found under a key is what is listed with it. -/
theorem WellFormed.binding?_eq_some_iff (hW : h.WellFormed) (hn : h.injector? n = some injector) :
    h.binding? n key = some binding ↔ binding ∈ h.bindings n ∧ binding.key = key := by
  rw [bindings_of_injector? hn]
  constructor
  · intro hb
    rw [binding?_of_injector? hn] at hb
    exact ⟨Injector.mem_bindings_of_binding? hb, ((hW.coherent hn).binding? hb).1⟩
  · rintro ⟨hMem, rfl⟩
    exact hW.binding?_of_mem_bindings hn hMem

theorem lookup_injector (hn : h.injector? n = some injector) : h.lookup n .injector = some injector.itself := by
  refine lookup_of_own ?_
  rw [binding?_of_injector? hn, Injector.binding?_injector]

/-- In the middle of a search, too, an injector finds itself, whatever is declared or staged for its key. -/
theorem locate_injector (hn : h.injector? n = some injector) (hCore : SameCore d.hierarchy h) (fuel : Nat) :
    Placement.locate (fuel + 1) n .injector d = some (.ok injector.itself, d) := by
  have hLookup := (hCore.lookup n .injector).trans (lookup_injector hn)
  simp only [Placement.locate, hLookup, Option.some_or]

/-- In every reachable state, what an injector stores agrees with what its bindings say of themselves:

* a binding that is stored under a key is for that key and belongs to the injector; those in the first table are
  explicit, those in the second one were created or converted on demand, and neither table has the key under which
  every injector provides itself;
* of all bindings of the injector, those in the first table are the explicit ones, those in the second one are those
  created or converted on demand, and the one in neither table is the built-in one;
* no key is listed twice, and what is found under a key is what is listed with it;
* what a key is resolved to is stored under it, by an injector on the path;
* the injector is resolved to its own built-in binding, in the middle of a search, too, and whatever is declared for
  its key. -/
theorem stores_coherent (hReach : Reachable h) (hn : h.injector? n = some injector) :
    (∀ key binding, (key, binding) ∈ injector.explicit.entries →
      binding.key = key ∧ binding.owner = n ∧ binding.origin = .explicit ∧ key ≠ .injector) ∧
    (∀ key binding, (key, binding) ∈ injector.created.entries →
      binding.key = key ∧ binding.owner = n ∧ (binding.origin = .justInTime ∨ binding.origin = .converted) ∧
        key ≠ .injector) ∧
    (∀ binding ∈ h.bindings n,
      (binding.origin = .explicit ↔ (binding.key, binding) ∈ injector.explicit.entries) ∧
        (binding.origin = .justInTime ∨ binding.origin = .converted ↔
          (binding.key, binding) ∈ injector.created.entries) ∧
        (binding.origin = .builtin ↔ binding = injector.itself)) ∧
    ((h.bindings n).map (·.key)).Nodup ∧
    (∀ key binding, h.binding? n key = some binding ↔ binding ∈ h.bindings n ∧ binding.key = key) ∧
    (∀ key binding h', h.resolve n key = some (.ok binding, h') →
      binding.key = key ∧ binding.owner ∈ h'.path n ∧ binding ∈ h'.bindings binding.owner) ∧
    (injector.itself.key = .injector ∧ injector.itself.owner = n ∧ injector.itself.origin = .builtin) ∧
    h.resolve n .injector = some (.ok injector.itself, h) ∧
    ∀ fuel d, SameCore d.hierarchy h → Placement.locate (fuel + 1) n .injector d = some (.ok injector.itself, d) := by
  have hW := hReach.wellFormed
  have hC := hW.coherent hn
  refine ⟨fun _ _ => hC.of_mem_explicit, fun _ _ => hC.of_mem_created, fun binding hMem => ?_, ?_,
    fun _ _ => hW.binding?_eq_some_iff hn, fun key binding h' hRun => ?_, hC.itself, ?_,
    fun fuel d hCore => locate_injector hn hCore fuel⟩
  · rw [bindings_of_injector? hn] at hMem
    exact hC.origins hMem
  · rw [bindings_of_injector? hn]
    exact hC.nodup_keys
  · have hLive := isLive_of_injector? hn
    have hOwned := owned_of_resolve hW hLive hRun
    have hW' := (wellFormed_resolve hW hLive hRun).1
    obtain ⟨owner, hOwner⟩ := isLive_iff.mp (isLive_of_binding? hOwned.bound)
    obtain ⟨hMem, hKey⟩ := (hW'.binding?_eq_some_iff hOwner).mp hOwned.bound
    exact ⟨hKey, hOwned.onPath, hMem⟩
  · exact resolve_of_lookup (lookup_injector hn)

/-- A root that binds a text and can read a port from it. The key `A` is linked to the injector, and both modules
declare, implicitly, that the injector is something else. -/
def estate : Hierarchy :=
  let impostor : Declaration := ⟨.injector, .fixed (.made 0 Key.injector.type (.primitive "")), none, .builtin⟩
  let root := create none ⟨[⟨.named .text "port", .fixed (.made 0 .text (.primitive "80")), none, .builtin⟩],
    [link (Key.of ⟨10, "A"⟩) .injector, impostor], [], [], [reader ⟨20, "u16"⟩]⟩ false {}
  (root.2.create (some 0) ⟨[], [impostor], [], [], []⟩ false).2

theorem reachable_estate : Reachable estate := by
  refine .tail (.single (.create ?_)) (.create ?_)
  · rintro p ⟨⟩
  · rintro p ⟨⟩
    rfl

/-- In the end the root has a binding of each of the four origins. -/
theorem stores_coherent_in_estate :
    let a := Key.of ⟨10, "A"⟩
    let port := Key.named ⟨20, "u16"⟩ "port"
    let placed := (resolve 1 a).after estate
    let h := (resolve 0 port).after placed
    (h.declaration? 1 .injector).isSome = true ∧ ∃ root child, Reachable h ∧
      h.injector? 0 = some root ∧ h.injector? 1 = some child ∧
      (h.bindings 0).map (fun binding => (binding.key, binding.origin)) =
        [(.injector, .builtin), (.named .text "port", .explicit), (a, .justInTime), (port, .converted)] ∧
      ((h.bindings 0).map (·.key)).Nodup ∧
      h.resolve 0 .injector = some (.ok root.itself, h) ∧ h.resolve 1 .injector = some (.ok child.itself, h) := by
  intro a port placed h
  obtain ⟨_, hPlaced⟩ : ∃ binding, estate.resolve 1 a = some (.ok binding, placed) :=
    Run.exists_ok_after (by decide +kernel)
  obtain ⟨_, hConverted⟩ : ∃ binding, placed.resolve 0 port = some (.ok binding, h) :=
    Run.exists_ok_after (by decide +kernel)
  have hReach : Reachable h :=
    (reachable_estate.tail (.resolve (by decide) hPlaced)).tail (.resolve (by decide +kernel) hConverted)
  obtain ⟨root, hRoot⟩ : ∃ root, h.injector? 0 = some root := Option.isSome_iff_exists.mp (by decide +kernel)
  obtain ⟨child, hChild⟩ : ∃ child, h.injector? 1 = some child := Option.isSome_iff_exists.mp (by decide +kernel)
  obtain ⟨-, -, -, hNodup, -, -, -, hItself, -⟩ := stores_coherent hReach hRoot
  obtain ⟨-, -, -, -, -, -, -, hChildItself, -⟩ := stores_coherent hReach hChild
  exact ⟨by decide +kernel, root, child, hReach, hRoot, hChild, by decide +kernel, hNodup, hItself, hChildItself⟩

end Hierarchy

end InjectorTree
