import Mathlib.Data.List.ProdSigma
import InjectorTree.Proofs.Requests.Fuel

/-!
# Chains of attempts

A search that creates a binding makes attempts, and an attempt that has staged its binding searches for what the binding
depends on, so that more attempts are made within it. A chain of them follows one attempt in each of these searches,
outermost first. What is staged along a chain is never taken back while the chain goes on: the draft in which an
attempt is made holds a binding for each attempt around it.

* `Trial` is an attempt that is made, `Attempts` the chains of them that can come up in a search.
* `locate_mono`: more fuel never changes how a search ends.
* `Attempts.distinct`: no two attempts of a chain are for one key at one injector, and all but the last are for keys
  that are declared on the path.
* `resolve_terminates`: every resolution ends, and how deeply its attempts are nested.
-/

namespace InjectorTree

open Hierarchy

namespace Placement

/-- An attempt that is made, or a conversion: for which key, at which injector, and the draft with which it begins. -/
structure Trial where
  injector : InjectorId
  key : Key
  draft : Draft

/-- The injector and the key for which a binding would be staged. -/
def Trial.target (t : Trial) : InjectorId × Key :=
  (t.injector, t.key)

/-- An attempt that is made when candidates are tried in order for an injector. -/
inductive Tries (locate : InjectorId → Key → Run Draft Binding) (m : InjectorId) (key : Key) :
    List InjectorId → Draft → Trial → Prop
  | last {d : Draft} : Tries locate m key [] d ⟨m, key, d⟩
  | skipped {candidate : InjectorId} {candidates : List InjectorId} {d : Draft} {t : Trial}
      (hFailed : (candidate, key) ∈ d.failed) (hLater : Tries locate m key candidates d t) :
      Tries locate m key (candidate :: candidates) d t
  | now {candidate : InjectorId} {candidates : List InjectorId} {d : Draft} (hNew : (candidate, key) ∉ d.failed) :
      Tries locate m key (candidate :: candidates) d ⟨candidate, key, d⟩
  | later {candidate : InjectorId} {candidates : List InjectorId} {d d' : Draft} {report : Report} {t : Trial}
      (hNew : (candidate, key) ∉ d.failed) (hFailed : attempt locate candidate key d = some (.error report, d'))
      (hLater : Tries locate m key candidates d' t) : Tries locate m key (candidate :: candidates) d t

/-- An attempt that a search for a key makes: the key is neither bound nor staged, there is nothing to convert for it,
and bindings may be created. -/
structure Undertakes (locate : InjectorId → Key → Run Draft Binding) (m : InjectorId) (key : Key) (d : Draft)
    (t : Trial) : Prop where
  unfound : (d.hierarchy.lookup m key).or (d.lookup m key) = none
  unconverted : conversion? d.hierarchy m key = none
  allowed : d.hierarchy.isExplicitOnly m = false
  tried : Tries locate m key (d.hierarchy.lineage m).reverse d t

/-- A chain of attempts that comes up in the search for a key: each one is made in the search for a dependency of the
binding that the one before it has staged. A conversion is a chain of its own, since what it makes depends on
nothing. -/
inductive Attempts : Nat → InjectorId → Key → Draft → List Trial → Prop
  | converted {fuel : Nat} {m : InjectorId} {key : Key} {d : Draft}
      (hUnfound : (d.hierarchy.lookup m key).or (d.lookup m key) = none)
      (hConverts : (conversion? d.hierarchy m key).isSome = true) : Attempts (fuel + 1) m key d [⟨m, key, d⟩]
  | innermost {fuel : Nat} {m : InjectorId} {key : Key} {d : Draft} {t : Trial}
      (hTrial : Undertakes (locate fuel) m key d t) : Attempts (fuel + 1) m key d [t]
  | within {fuel : Nat} {m : InjectorId} {key dependency : Key} {d d₁ d₂ : Draft} {t : Trial} {binding : Binding}
      {before after : List Key} {located : List Binding} {trials : List Trial}
      (hTrial : Undertakes (locate fuel) m key d t)
      (hStart : start t.injector t.key t.draft = some (.ok binding, d₁))
      (hKeys : binding.strategy.dependencies = before ++ dependency :: after)
      (hBefore : Run.forEach (fun key => Run.within (.at binding.source)
        (Run.within (.locating key) (locate fuel binding.owner key))) before d₁ = some (.ok located, d₂))
      (hNested : Attempts fuel binding.owner dependency d₂ trials) : Attempts (fuel + 1) m key d (t :: trials)

variable {h : Hierarchy} {n m : InjectorId} {key : Key} {d d' : Draft} {t : Trial} {trials : List Trial}
  {binding : Binding} {fuel fuel' : Nat} {locate locate' : InjectorId → Key → Run Draft Binding}

-- ---------------------------------------------------------------------------
-- More fuel
-- ---------------------------------------------------------------------------

theorem below_attempt (hLocate : ∀ m key, (locate m key).Below (locate' m key)) (m : InjectorId) (key : Key) :
    (attempt locate m key).Below (attempt locate' m key) := by
  have hCreate : (createAt locate m key).Below (createAt locate' m key) := by
    rw [createAt_eq, createAt_eq]
    refine (Run.Below.refl _).bind fun binding => Run.Below.bind ?_ fun _ => Run.Below.refl _
    exact Run.below_forEach (fun key => ((hLocate binding.owner key).within _).within _) _
  intro d r hRun
  unfold attempt at hRun ⊢
  cases hCreated : createAt locate m key d with
  | none =>
    rw [hCreated] at hRun
    cases hRun
  | some created =>
    rw [hCreated] at hRun
    rw [hCreate d created hCreated]
    exact hRun

theorem below_place (hLocate : ∀ m key, (locate m key).Below (locate' m key)) (m : InjectorId) (key : Key)
    (candidates : List InjectorId) : (place locate m key candidates).Below (place locate' m key candidates) := by
  induction candidates with
  | nil => exact below_attempt hLocate m key
  | cons candidate rest ih =>
    intro d r hRun
    simp only [place] at hRun ⊢
    split
    · next hFailed =>
      rw [if_pos hFailed] at hRun
      exact ih d r hRun
    · next hNew =>
      rw [if_neg hNew] at hRun
      cases hAttempt : attempt locate candidate key d with
      | none =>
        rw [hAttempt] at hRun
        cases hRun
      | some attempted =>
        rw [hAttempt] at hRun
        rw [below_attempt hLocate candidate key d attempted hAttempt]
        rcases attempted with ⟨report | binding, d₁⟩
        · exact ih d₁ r hRun
        · exact hRun

theorem locate_succ (fuel : Nat) (m : InjectorId) (key : Key) :
    (Placement.locate fuel m key).Below (Placement.locate (fuel + 1) m key) := by
  induction fuel generalizing m key with
  | zero =>
    intro d r hRun
    cases hRun
  | succ fuel ih =>
    intro d r hRun
    simp only [Placement.locate] at hRun ⊢
    split
    · next binding hFound =>
      simp only [hFound] at hRun
      exact hRun
    · next hNone =>
      simp only [hNone, createOnDemand] at hRun ⊢
      split
      · next conversion hConversion =>
        simp only [hConversion] at hRun
        exact hRun
      · next hConversion =>
        simp only [hConversion] at hRun
        split
        · next hOnly =>
          rw [if_pos hOnly] at hRun
          exact hRun
        · next hOpen =>
          rw [if_neg hOpen] at hRun
          exact below_place ih m key _ d r hRun

/-- A search that ends, ends in the same way with more fuel. -/
theorem locate_mono (hLe : fuel ≤ fuel') (m : InjectorId) (key : Key) :
    (Placement.locate fuel m key).Below (Placement.locate fuel' m key) := by
  induction hLe with
  | refl => exact Run.Below.refl _
  | step _ ih => exact fun d r hRun => locate_succ _ m key d r (ih d r hRun)

-- ---------------------------------------------------------------------------
-- What is staged along a chain
-- ---------------------------------------------------------------------------

/-- The key is vacant where an attempt for it is made, and the draft is the one with which the search began, but for
marks and memories. -/
theorem Tries.vacant (hR : h.Rooted) (hL : Locates h n locate) {candidates : List InjectorId}
    (hPath : ∀ candidate ∈ candidates, candidate ∈ h.path m) (hF : Fits h n d) (hV : Vacant h n d m key)
    (hTries : Tries locate m key candidates d t) :
    Fits h n t.draft ∧ Vacant h n t.draft t.injector t.key ∧ t.draft.staged = d.staged := by
  induction hTries with
  | last => exact ⟨hF, hV, rfl⟩
  | skipped _ _ ih => exact ih (fun other hMem => hPath other (List.mem_cons_of_mem _ hMem)) hF hV
  | now _ => exact ⟨hF, hV.up hR (hPath _ List.mem_cons_self), rfl⟩
  | later _ hFailed _ ih =>
    obtain ⟨hF₁, hStaged⟩ := attempt_error hL hF (hV.up hR (hPath _ List.mem_cons_self)) hFailed
    obtain ⟨hF', hV', hStaged'⟩ :=
      ih (fun other hMem => hPath other (List.mem_cons_of_mem _ hMem)) hF₁ (hV.of_staged hStaged)
    exact ⟨hF', hV', hStaged'.trans hStaged⟩

theorem Undertakes.vacant (hR : h.Rooted) (hL : Locates h n locate) (hm : m ∈ h.path n) (hF : Fits h n d)
    (hTrial : Undertakes locate m key d t) :
    Fits h n t.draft ∧ Vacant h n t.draft t.injector t.key ∧ t.draft.staged = d.staged := by
  obtain ⟨hUnfound, -, -, hTries⟩ := hTrial
  rw [Option.or_eq_none_iff, hF.marked.core.lookup] at hUnfound
  rw [hF.marked.core.lineage] at hTries
  refine hTries.vacant hR hL ?_ hF (vacant_of_lookup hR hF hm hUnfound.1 hUnfound.2)
  exact fun _ hMem => mem_path_of_mem_lineage (List.mem_reverse.mp hMem)

/-- Where a key is vacant, no binding of it is staged. -/
theorem ne_target_of_vacant (hR : h.Rooted) (hV : Vacant h n d m key) {other : Binding} (hMem : other ∈ d.staged) :
    (other.owner, other.key) ≠ (m, key) := by
  rintro hEq
  obtain ⟨hOwner, hKey⟩ := Prod.mk.inj hEq
  exact hR.not_mem_lineage_self (hOwner ▸ hV.unstaged other hMem hKey)

/-- The attempts of a chain are for different keys or at different injectors, and for none that was staged before. All
but the last have staged a binding, so their keys are declared. -/
structure Distinct (h : Hierarchy) (n : InjectorId) (d : Draft) (trials : List Trial) : Prop where
  nonempty : trials ≠ []
  onPath : ∀ t ∈ trials, t.injector ∈ h.path n
  declared : ∀ t ∈ trials.dropLast, t.key ∈ declaredKeys h n
  nodup : (trials.map Trial.target).Nodup
  unstaged : ∀ t ∈ trials, ∀ other ∈ d.staged, (other.owner, other.key) ≠ t.target

/-- A chain of one attempt. -/
theorem distinct_single (hR : h.Rooted) (hV : Vacant h n d t.injector t.key) : Distinct h n d [t] where
  nonempty := List.cons_ne_nil _ _
  onPath _ hMem := List.mem_singleton.mp hMem ▸ hV.onPath
  declared _ hMem := absurd hMem List.not_mem_nil
  nodup := List.nodup_singleton _
  unstaged _ hMem _ hStaged := List.mem_singleton.mp hMem ▸ ne_target_of_vacant hR hV hStaged

/-- What an attempt has staged is staged in all that is attempted within it, so nothing of it is attempted again. -/
theorem Attempts.distinct (hR : h.Rooted) (hm : m ∈ h.path n) (hF : Fits h n d)
    (hChain : Attempts fuel m key d trials) : Distinct h n d trials := by
  induction hChain with
  | converted hUnfound _ =>
    rw [Option.or_eq_none_iff, hF.marked.core.lookup] at hUnfound
    exact distinct_single hR (vacant_of_lookup hR hF hm hUnfound.1 hUnfound.2)
  | @innermost fuel _ _ d t hTrial =>
    obtain ⟨-, hV, hStaged⟩ := hTrial.vacant hR (locates hR n fuel) hm hF
    exact distinct_single hR (hV.of_staged hStaged.symm)
  | @within fuel _ _ dependency d d₁ d₂ t binding before after located trials hTrial hStart hKeys hBefore _ ih =>
    have hL := locates hR n fuel
    obtain ⟨hF', hV, hStaged⟩ := hTrial.vacant hR hL hm hF
    have hStarted := start_ok hF'.marked hStart
    have hOwner : binding.owner ∈ h.path n := hStarted.owner ▸ hV.onPath
    have hSome : ∀ key ∈ before, key ∈ binding.strategy.dependencies := fun key hMem =>
      hKeys ▸ List.mem_append_left _ hMem
    obtain ⟨hF₂, hGrown, -⟩ :=
      supplyKeys_ok hL hOwner before hSome (hF'.snoc (hStarted.stageable hF' hV)) hBefore
    have hInner := ih hOwner hF₂
    -- all that was staged, and the new binding, is staged where the chain goes on
    have hStays : ∀ other, other ∈ d.staged ∨ other = binding → other ∈ d₂.staged := by
      intro other hOther
      refine hGrown.grows.subset ?_
      rw [hStarted.staged, hStaged, List.mem_append, List.mem_singleton]
      exact hOther
    obtain ⟨declaration, hStartable, -⟩ := hStarted.declaration
    have hTarget : (binding.owner, binding.key) = t.target := by
      rw [hStarted.owner, hStarted.key]
      rfl
    refine ⟨List.cons_ne_nil _ _, List.forall_mem_cons.mpr ⟨hV.onPath, hInner.onPath⟩, ?_, ?_, ?_⟩
    · rw [List.dropLast_cons_of_ne_nil hInner.nonempty]
      exact List.forall_mem_cons.mpr ⟨mem_declaredKeys hR hV.onPath hStartable.declared, hInner.declared⟩
    · refine List.nodup_cons.mpr ⟨fun hAgain => ?_, hInner.nodup⟩
      obtain ⟨other, hOther, hSame⟩ := List.mem_map.mp hAgain
      exact hInner.unstaged other hOther binding (hStays binding (Or.inr rfl)) (hTarget.trans hSame.symm)
    · refine List.forall_mem_cons.mpr ⟨fun other hMem => ?_, fun inner hInnerMem other hMem => ?_⟩
      · exact ne_target_of_vacant hR hV (hStaged ▸ hMem)
      · exact hInner.unstaged inner hInnerMem other (hStays other (Or.inl hMem))

/-- All but the last of the attempts are for some of as many pairs as there are injectors on the path and keys declared
on it. -/
theorem Distinct.length_le (hD : Distinct h n d trials) :
    trials.length ≤ (h.path n).length * (declaredKeys h n).length + 1 := by
  have hNodup : (trials.dropLast.map Trial.target).Nodup :=
    hD.nodup.sublist ((List.dropLast_sublist trials).map _)
  have hSubset : trials.dropLast.map Trial.target ⊆ (h.path n) ×ˢ (declaredKeys h n) := by
    intro pair hPair
    obtain ⟨t, ht, rfl⟩ := List.mem_map.mp hPair
    exact List.mem_product.mpr ⟨hD.onPath t (List.dropLast_subset trials ht), hD.declared t ht⟩
  have hLe := (hNodup.subperm hSubset).length_le
  rw [List.length_map, List.length_dropLast, List.length_product] at hLe
  exact Nat.le_add_of_sub_le hLe

end Placement

namespace Hierarchy

open Placement

variable {h : Hierarchy}

/-- In every state, and whatever is declared in it, every resolution ends. The bound on how deeply attempts are nested
is never reached: with any other bound that is not smaller, the search for the key ends in the same way. Along every
chain of attempts that comes up in the search, no binding is staged twice for one key at one injector, and there are no
more attempts than injectors on the path times keys declared on it, and one. -/
theorem resolve_terminates (hReach : Reachable h) (n : InjectorId) (key : Key) :
    (∃ outcome h', h.resolve n key = some (outcome, h')) ∧
      (∃ outcome d, ∀ fuel, depthBound h n ≤ fuel →
        locate fuel n key { hierarchy := h } = some (outcome, d)) ∧
      ∀ fuel trials, Attempts fuel n key { hierarchy := h } trials →
        (trials.map Trial.target).Nodup ∧ trials.length ≤ (h.path n).length * (declaredKeys h n).length + 1 := by
  have hW := hReach.wellFormed
  have hF := fits_start hW n
  obtain ⟨⟨outcome, h'⟩, hResolve⟩ := resolve_ends hW n key
  obtain ⟨⟨located, d⟩, hLocate⟩ : ∃ r, locate (depthBound h n) n key { hierarchy := h } = some r :=
    locate_ends hW.rooted self_mem_path hF (enoughFuel_depthBound h n)
  refine ⟨⟨outcome, h', hResolve⟩, ⟨located, d, fun fuel hLe => ?_⟩, fun fuel trials hChain => ?_⟩
  · exact locate_mono hLe n key _ _ hLocate
  · have hDistinct := hChain.distinct hW.rooted self_mem_path hF
    exact ⟨hDistinct.nodup, hDistinct.length_le⟩

/-- The root begins one key of the circle, and within this attempt the other one. -/
theorem chain_in_circle :
    let key := Key.of .text
    let h := circle key (.of .singleton)
    ∃ first second, Attempts 2 1 key { hierarchy := h } [first, second] ∧ first.target = (0, key) ∧
      second.target = (0, .of .singleton) := by
  intro key h
  have hFirst : Undertakes (locate 1) 1 key { hierarchy := h } ⟨0, key, { hierarchy := h }⟩ :=
    ⟨rfl, rfl, rfl, .now List.not_mem_nil⟩
  have hKeys : (Strategy.linked (.of .singleton)).dependencies = [] ++ .of .singleton :: [] := rfl
  exact ⟨_, _, .within hFirst rfl hKeys rfl (.innermost ⟨rfl, rfl, rfl, .last⟩), rfl, rfl⟩

theorem resolve_terminates_in_circle :
    let key := Key.of .text
    let h := circle key (.of .singleton)
    Reachable h ∧ h.isLive 1 = true ∧ (∃ outcome h', h.resolve 1 key = some (outcome, h')) ∧
      ∃ first second, Attempts 2 1 key { hierarchy := h } [first, second] ∧
        ([first, second].map Trial.target).Nodup := by
  intro key h
  have hReach := reachable_circle key (.of .singleton)
  obtain ⟨first, second, hChain, -⟩ := chain_in_circle
  obtain ⟨hEnds, -, hChains⟩ := resolve_terminates hReach 1 key
  exact ⟨hReach, rfl, hEnds, first, second, hChain, (hChains 2 _ hChain).1⟩

end Hierarchy

end InjectorTree
