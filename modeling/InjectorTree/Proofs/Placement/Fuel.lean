import Mathlib.Data.List.Perm.Subperm
import InjectorTree.Proofs.Placement.Search

/-!
# The fuel of a search

Attempts are nested, and what holds the nesting in bounds is that each attempt stages a binding before it goes
on: no key is staged twice, and only declared keys are tried. So a search needs no more fuel than there are
keys declared on the path, and one for the key that it began with.

* `locate_ends`: a search with enough fuel ends.
* `enoughFuel_depthBound`: the fuel that resolving is given is enough.
-/

namespace InjectorTree

open Hierarchy

namespace Placement

variable {h : Hierarchy} {n m p : InjectorId} {key : Key} {d d' : Draft} {binding : Binding}
  {locate : InjectorId → Key → Run Draft Binding} {fuel : Nat}

/-- The staged bindings of keys that are declared on the path. -/
def stagedDeclared (h : Hierarchy) (n : InjectorId) (d : Draft) : List Binding :=
  d.staged.filter fun binding => binding.key ∈ declaredKeys h n

/-- The fuel is enough for attempts that are nested in those that staged what there is. -/
def EnoughFuel (h : Hierarchy) (n : InjectorId) (fuel : Nat) (d : Draft) : Prop :=
  (declaredKeys h n).length < fuel + (stagedDeclared h n d).length

theorem EnoughFuel.mono (hE : EnoughFuel h n fuel d) (hGrows : d.staged <+: d'.staged) :
    EnoughFuel h n fuel d' :=
  Nat.lt_of_lt_of_le hE (Nat.add_le_add_left (hGrows.filter _).length_le fuel)

theorem EnoughFuel.of_staged (hE : EnoughFuel h n fuel d) (hStaged : d'.staged = d.staged) :
    EnoughFuel h n fuel d' :=
  hE.mono (hStaged ▸ List.prefix_refl _)

/-- No more bindings are staged for declared keys than there are such keys. -/
theorem length_stagedDeclared_le (hF : Fits h n d) :
    (stagedDeclared h n d).length ≤ (declaredKeys h n).length := by
  have hNodup : ((stagedDeclared h n d).map (·.key)).Nodup :=
    hF.keys.sublist (List.filter_sublist.map _)
  have hSubset : (stagedDeclared h n d).map (·.key) ⊆ declaredKeys h n := by
    intro key hKey
    obtain ⟨binding, hBinding, rfl⟩ := List.mem_map.mp hKey
    exact of_decide_eq_true (List.mem_filter.mp hBinding).2
  have hLe := (hNodup.subperm hSubset).length_le
  rwa [List.length_map] at hLe

theorem mem_declaredKeys (hR : h.Rooted) (hp : p ∈ h.path n) {declaration : Declaration}
    (hDeclared : h.declaration? p key = some declaration) : key ∈ declaredKeys h n := by
  obtain ⟨q, hq, injector, hInjector, hGet⟩ := exists_of_nearest hDeclared
  rw [declaredKeys, List.mem_eraseDups]
  exact mem_collect.mpr ⟨q, hR.mem_path_trans hp hq, injector, hInjector, Table.mem_keys_of_get? hGet⟩

/-- A binding that was started counts as one level of nesting. -/
theorem EnoughFuel.start (hR : h.Rooted) (hp : p ∈ h.path n) (hE : EnoughFuel h n (fuel + 1) d)
    (hS : Started h p key d binding d') : EnoughFuel h n fuel d' := by
  obtain ⟨declaration, hStartable, -⟩ := hS.declaration
  have hKey : binding.key ∈ declaredKeys h n := hS.key ▸ mem_declaredKeys hR hp hStartable.declared
  have hLength : (stagedDeclared h n d').length = (stagedDeclared h n d).length + 1 := by
    rw [stagedDeclared, hS.staged, List.filter_append, List.length_append, List.filter_singleton,
      decide_eq_true hKey]
    rfl
  rw [EnoughFuel, hLength, Nat.add_comm (stagedDeclared h n d).length 1, ← Nat.add_assoc]
  exact hE

-- ---------------------------------------------------------------------------
-- The parts of the search
-- ---------------------------------------------------------------------------

theorem supply_ends (hL : Locates h n locate) (hOwner : binding.owner ∈ h.path n) (hF : Fits h n d)
    (hE : EnoughFuel h n fuel d)
    (hEnds : ∀ key d, Fits h n d → EnoughFuel h n fuel d → ∃ r, locate binding.owner key d = some r) :
    ∃ r, supply locate binding d = some r := by
  have hKeeps : ∀ dependency d first d', Fits h n d ∧ EnoughFuel h n fuel d →
      Run.within (.at binding.source)
        (Run.within (.locating dependency) (locate binding.owner dependency)) d = some (.ok first, d') →
      Fits h n d' ∧ EnoughFuel h n fuel d' := by
    intro dependency d first d' hBefore hFirst
    obtain ⟨hF', hGrown, -⟩ := hL.ok hOwner hBefore.1 (supplyOne_eq_ok_iff.mp hFirst)
    exact ⟨hF', hBefore.2.mono hGrown.grows⟩
  refine Run.forEach_ends hKeeps (fun dependency d hBefore => ?_) binding.strategy.dependencies ⟨hF, hE⟩
  exact Run.within_ends (Run.within_ends (hEnds dependency d hBefore.1 hBefore.2))

theorem attempt_ends (hR : h.Rooted) (hL : Locates h n locate) (hF : Fits h n d) (hV : Vacant h n d p key)
    (hE : EnoughFuel h n (fuel + 1) d)
    (hEnds : ∀ m ∈ h.path n, ∀ key d, Fits h n d → EnoughFuel h n fuel d → ∃ r, locate m key d = some r) :
    ∃ r, attempt locate p key d = some r := by
  have hCreate : ∃ r, createAt locate p key d = some r := by
    rw [createAt_eq]
    refine Run.bind_ends (start_ends p key d) fun binding d₁ hStart => ?_
    have hStarted := start_ok hF.marked hStart
    have hOwner : binding.owner ∈ h.path n := hStarted.owner ▸ hV.onPath
    have hSupply := supply_ends hL hOwner (hF.snoc (hStarted.stageable hF hV))
      (hE.start hR hV.onPath hStarted) (hEnds binding.owner hOwner)
    exact Run.bind_ends hSupply fun _ _ _ => ⟨_, rfl⟩
  unfold attempt
  obtain ⟨⟨report | binding, d'⟩, hRun⟩ := hCreate
  · exact ⟨_, by rw [hRun]⟩
  · exact ⟨_, by rw [hRun]⟩

theorem place_ends (hR : h.Rooted) (hL : Locates h n locate) (candidates : List InjectorId)
    (hPath : ∀ candidate ∈ candidates, candidate ∈ h.path m) (hF : Fits h n d) (hV : Vacant h n d m key)
    (hE : EnoughFuel h n (fuel + 1) d)
    (hEnds : ∀ m ∈ h.path n, ∀ key d, Fits h n d → EnoughFuel h n fuel d → ∃ r, locate m key d = some r) :
    ∃ r, place locate m key candidates d = some r := by
  induction candidates generalizing d with
  | nil => exact attempt_ends hR hL hF hV hE hEnds
  | cons candidate rest ih =>
    have hRest := fun other hMem => hPath other (List.mem_cons_of_mem candidate hMem)
    have hUp := hV.up hR (hPath candidate List.mem_cons_self)
    simp only [place]
    split
    · exact ih hRest hF hV hE
    · obtain ⟨⟨report | binding, d₁⟩, hAttempt⟩ := attempt_ends hR hL hF hUp hE hEnds
      · obtain ⟨hF₁, hStaged⟩ := attempt_error hL hF hUp hAttempt
        rw [hAttempt]
        exact ih hRest hF₁ (hV.of_staged hStaged) (hE.of_staged hStaged)
      · exact ⟨_, by rw [hAttempt]⟩

theorem convert_ends (conversion : Conversion) (m : InjectorId) (key : Key) (d : Draft) :
    ∃ r, convert conversion m key d = some r := by
  rcases convert_cases conversion m key with ⟨registration, -, hEq⟩ | ⟨report, hEq⟩
  · rw [hEq]
    have hConverter : ∃ r, runConverter registration conversion.text key d = some r := by
      simp only [runConverter]
      split
      · exact ⟨_, rfl⟩
      · exact ⟨_, rfl⟩
    refine Run.bind_ends hConverter fun value d₁ _ => Run.bind_ends ?_ fun _ _ _ => ⟨_, rfl⟩
    exact checkUnclaimed_ends m key d₁
  · exact ⟨_, by rw [hEq, Run.fail_apply]⟩

/-- A search with enough fuel ends. -/
theorem locate_ends (hR : h.Rooted) (hm : m ∈ h.path n) (hF : Fits h n d) (hE : EnoughFuel h n fuel d) :
    ∃ r, Placement.locate fuel m key d = some r := by
  induction fuel generalizing m key d with
  | zero =>
    -- more would be staged for declared keys than there are
    have hLe := length_stagedDeclared_le hF
    rw [EnoughFuel, Nat.zero_add] at hE
    exact absurd hE (Nat.not_lt.mpr hLe)
  | succ fuel ih =>
    simp only [Placement.locate]
    split
    · exact ⟨_, rfl⟩
    · next hNone =>
      rw [Option.or_eq_none_iff, hF.marked.core.lookup] at hNone
      have hV := vacant_of_lookup hR hF hm hNone.1 hNone.2
      simp only [createOnDemand, hF.marked.core.lineage]
      split
      · exact convert_ends _ m key d
      · split
        · exact ⟨_, rfl⟩
        · refine place_ends hR (locates hR n fuel) _ ?_ hF hV hE fun m hm key d hF hE => ih hm hF hE
          exact fun _ hMem => mem_path_of_mem_lineage (List.mem_reverse.mp hMem)

/-- The bound on the depth is enough at the start. -/
theorem enoughFuel_depthBound (h : Hierarchy) (n : InjectorId) :
    EnoughFuel h n (depthBound h n) { hierarchy := h } := by
  have hPath : 1 * (declaredKeys h n).length ≤ (h.path n).length * (declaredKeys h n).length :=
    Nat.mul_le_mul_right _ (Nat.succ_pos _)
  rw [Nat.one_mul] at hPath
  exact Nat.lt_of_le_of_lt hPath (Nat.lt_succ_self _)

end Placement

end InjectorTree
