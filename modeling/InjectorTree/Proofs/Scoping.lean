import InjectorTree.Proofs.Journal.Histories

/-!
# When scopes are applied

A scope is applied to a key when a binding in it is made, which is user code that cannot be undone. A creation makes
bindings only when nothing stands against it, so its scopes are applied for bindings that come to stay. A search makes
a binding before it knows whether what that depends on can be located, and takes it back if not: the scope has been
applied all the same.

* `wrapped_of_createNoted`: the scopes that a creation applies are those of its declarations, in their order.
* `wrapped_of_resolveNoted`: those that a resolution applies are of what it publishes, and of what it has taken back.
* `wrapped_of_booked`: no scope is applied twice for a binding, none is forgotten, and which are applied in vain.
* `scopes_applied`: all of this together, with a search that applies a scope in vain after it.
-/

namespace InjectorTree

open Hierarchy Provision Run

variable {s s' : Hierarchy × Journal} {n : InjectorId} {key : Key}

namespace Journal

theorem wrapped_append (journal later : Journal) : (journal ++ later).wrapped = journal.wrapped ++ later.wrapped := by
  rw [wrapped, made_append, List.filter_append]
  rfl

/-- What is entered about bindings that are made, and about owners. -/
theorem wrapped_entries (journal : Journal) (made owned : List Binding) :
    (journal ++ made.map Entry.made ++ owned.map Entry.owned).wrapped =
      journal.wrapped ++ made.filter (·.scope.isSome) := by
  rw [wrapped_append, wrapped_append, wrapped, wrapped, wrapped, made_map_made, made_map_owned, List.filter_nil,
    List.append_nil]

end Journal

/-- If all that was made in a scope has come to stay, the two are the same list, and only then. -/
theorem eq_filter_scoped_iff {made owned : List Binding} (hSublist : owned.Sublist made)
    (hOrder : made.Pairwise fun first second => first.id < second.id) :
    made.filter (·.scope.isSome) = owned.filter (·.scope.isSome) ↔
      ∀ binding ∈ made, binding.scope.isSome = true → binding ∈ owned := by
  have hScoped := hSublist.filter (·.scope.isSome)
  constructor
  · intro hEq binding hMem hIn
    have hOwned : binding ∈ owned.filter (·.scope.isSome) := hEq ▸ List.mem_filter.mpr ⟨hMem, hIn⟩
    exact List.mem_of_mem_filter hOwned
  · intro hAll
    have hApart : (made.map (·.id)).Nodup := List.pairwise_map.mpr (hOrder.imp Nat.ne_of_lt)
    have hNodup : made.Nodup := hApart.of_map
    have hSubset : made.filter (·.scope.isSome) ⊆ owned.filter (·.scope.isSome) := fun binding hMem => by
      obtain ⟨hMade, hIn⟩ := List.mem_filter.mp hMem
      exact List.mem_filter.mpr ⟨hAll binding hMade hIn, hIn⟩
    exact (hScoped.eq_of_length_le (List.subperm_of_subset (hNodup.filter _) hSubset).length_le).symm

/-- A creation that succeeds applies the scopes of its declarations, in their order, for bindings that its injector
owns from then on. -/
theorem wrapped_of_createNoted {parent : Option InjectorId} {module : Module} {explicitOnly : Bool}
    (hW : s.1.WellFormed) (hLive : ∀ p, parent = some p → s.1.isLive p = true)
    (hRun : createNoted parent module explicitOnly s = (.ok n, s')) :
    ∃ bindings, List.Forall₂ (DeclaredFor n) module.bindings bindings ∧
      (∀ binding ∈ bindings, s'.1.binding? n binding.key = some binding) ∧
      s'.2.wrapped = s.2.wrapped ++ bindings.filter (·.scope.isSome) := by
  obtain ⟨bindings, itself, hEntries, hDeclared, hNone, hAdds⟩ := createNoted_ok hW hLive hRun
  refine ⟨bindings, hDeclared, fun binding hMem => ?_, ?_⟩
  · have hOwner := owner_of_declaredFor hDeclared binding hMem
    exact (hAdds.binding? n binding.key binding).mpr (Or.inr ⟨List.mem_append_left _ hMem, hOwner, rfl⟩)
  · rw [hEntries, Journal.wrapped_entries, List.filter_append]
    simp [hNone]

/-- What a resolution applies scopes for is created on demand, in the order in which it is made, and among it is what
the resolution publishes. One that fails publishes nothing. -/
theorem wrapped_of_resolveNoted {outcome : Except Report Binding} (hW : s.1.WellFormed) (hn : s.1.isLive n = true)
    (hRun : resolveNoted n key s = some (outcome, s')) :
    ∃ made owned, owned.Sublist made ∧ (∀ report, outcome = .error report → owned = []) ∧
      (∀ m key binding, s'.1.binding? m key = some binding ↔
        s.1.binding? m key = some binding ∨ binding ∈ owned ∧ binding.owner = m ∧ binding.key = key) ∧
      (∀ binding ∈ made, Placement.OnDemand binding) ∧
      s'.2.wrapped = s.2.wrapped ++ made.filter (·.scope.isSome) ∧
      (s'.2.wrapped = s.2.wrapped ++ owned.filter (·.scope.isSome) ↔
        ∀ binding ∈ made, binding.scope.isSome = true → binding ∈ owned) := by
  obtain ⟨made, owned, hEntries, hAdds, hOnDemand, hFailed⟩ := resolveNoted_spec hW hn hRun
  have hWrapped : s'.2.wrapped = s.2.wrapped ++ made.filter (·.scope.isSome) := by
    rw [hEntries, Journal.wrapped_entries]
  refine ⟨made, owned, hAdds.sublist, hFailed, hAdds.binding?, hOnDemand, hWrapped, ?_⟩
  rw [hWrapped, List.append_cancel_left_eq]
  exact eq_filter_scoped_iff hAdds.sublist hAdds.order

/-- In every history, no scope is applied twice for a binding, and the bindings that come to stay are among those for
which their scope was applied, in the same order. -/
theorem wrapped_of_booked (hB : Booked s) :
    s.2.wrapped.Pairwise (fun first second => first.id < second.id) ∧
      (s.2.owned.filter (·.scope.isSome)).Sublist s.2.wrapped ∧
      (∀ binding ∈ s.2.wrapped, binding ∈ s.2.owned ∨ binding.origin = .justInTime) ∧
      (s.2.wrapped = s.2.owned.filter (·.scope.isSome) ↔ ∀ binding ∈ s.2.wrapped, binding ∈ s.2.owned) := by
  refine ⟨hB.order.sublist List.filter_sublist, hB.sublist.filter _, fun binding hMem => ?_, ?_⟩
  · obtain ⟨hMade, hScoped⟩ := List.mem_filter.mp hMem
    refine (hB.takenBack binding hMade).imp_right fun hOnDemand => ?_
    rcases hOnDemand with hCreated | ⟨-, hNone⟩
    · exact hCreated
    · -- what is converted is in no scope
      rw [hNone] at hScoped
      cases hScoped
  · refine (eq_filter_scoped_iff hB.sublist hB.order).trans
      ⟨fun hAll binding hMem => ?_, fun hAll binding hMem hIn => ?_⟩
    · exact hAll binding (List.mem_of_mem_filter hMem) (List.mem_filter.mp hMem).2
    · exact hAll binding (List.mem_filter.mpr ⟨hMem, hIn⟩)

/-- When scopes are applied.

In every history, no scope is applied twice for a binding, the bindings that come to stay are among those for which
their scope was applied, and this in the same order. All that injectors own is among the bindings that came to stay.
Where a scope was applied in vain, the binding was created on demand and taken back. If none was taken back, scopes
were applied for what came to stay, and only then.

Of each creation: one that fails applies no scope, and leaves the state of user code as it was. One that succeeds
applies the scopes of its declarations, in their order, for bindings that its injector owns.

Of each resolution: it applies scopes for what it makes on demand. What it publishes is part of that, which are the
bindings that there are in addition; if it fails, that is nothing. It applies scopes for what it publishes, and only
for that, if it has published all that it has made in a scope. -/
theorem scopes_applied (hReach : Reachable s.1) :
    (∀ handles, History handles s →
      s.2.wrapped.Pairwise (fun first second => first.id < second.id) ∧
      (s.2.owned.filter (·.scope.isSome)).Sublist s.2.wrapped ∧
      (∀ binding ∈ s.2.wrapped, binding ∈ s.2.owned ∨ binding.origin = .justInTime) ∧
      (s.2.wrapped = s.2.owned.filter (·.scope.isSome) ↔ ∀ binding ∈ s.2.wrapped, binding ∈ s.2.owned) ∧
      ∀ n, ∀ binding ∈ s.1.bindings n, binding ∈ s.2.owned) ∧
    (∀ parent module explicitOnly, (∀ p, parent = some p → s.1.isLive p = true) →
      (∀ reports s', createNoted parent module explicitOnly s = (.error reports, s') →
        s'.2 = s.2 ∧ s'.1.user = s.1.user) ∧
      ∀ n s', createNoted parent module explicitOnly s = (.ok n, s') →
        ∃ bindings, List.Forall₂ (DeclaredFor n) module.bindings bindings ∧
          (∀ binding ∈ bindings, s'.1.binding? n binding.key = some binding) ∧
          s'.2.wrapped = s.2.wrapped ++ bindings.filter (·.scope.isSome)) ∧
    ∀ n key outcome s', s.1.isLive n = true → resolveNoted n key s = some (outcome, s') →
      ∃ made owned, owned.Sublist made ∧ (∀ report, outcome = .error report → owned = []) ∧
        (∀ m key binding, s'.1.binding? m key = some binding ↔
          s.1.binding? m key = some binding ∨ binding ∈ owned ∧ binding.owner = m ∧ binding.key = key) ∧
        (∀ binding ∈ made, Placement.OnDemand binding) ∧
        s'.2.wrapped = s.2.wrapped ++ made.filter (·.scope.isSome) ∧
        (s'.2.wrapped = s.2.wrapped ++ owned.filter (·.scope.isSome) ↔
          ∀ binding ∈ made, binding.scope.isSome = true → binding ∈ owned) := by
  have hW := hReach.wellFormed
  refine ⟨fun handles hHistory => ?_, fun parent module explicitOnly hLive => ⟨?_, ?_⟩, ?_⟩
  · have hBooked := hHistory.orderly.booked
    obtain ⟨hOrder, hSublist, hInVain, hExact⟩ := wrapped_of_booked hBooked
    refine ⟨hOrder, hSublist, hInVain, hExact, fun n binding hMem => ?_⟩
    obtain ⟨injector, hn, hOwn⟩ := exists_of_mem_bindings hMem
    exact hBooked.owned (hW.binding?_of_mem_bindings hn hOwn)
  · exact fun reports s' hRun => createNoted_error hRun
  · exact fun n s' hRun => wrapped_of_createNoted hW hLive hRun
  · exact fun n key outcome s' hn hRun => wrapped_of_resolveNoted hW hn hRun

/-- A scope that logs that it is applied, and changes nothing else. -/
def noticing : Scope :=
  ⟨"N", fun key user => ([], user.log ("scope N " ++ key.inspect))⟩

/-- `C` is bound, and `A` is declared, which is made of the dependencies. Both are in the scope that logs. -/
def noticed (dependencies : List Key) : Module :=
  let a := Key.of ⟨10, "A"⟩
  let c := Key.of ⟨12, "C"⟩
  let make (key : Key) (dependencies : List Key) : Strategy :=
    .constructed ⟨dependencies, fun _ => .finish (.ok (.made 0 key.type (.primitive "")))⟩
  ⟨[⟨c, make c [], some (.named "s"), .builtin⟩], [⟨a, make a dependencies, some (.named "s"), .builtin⟩],
    [⟨.named "s", noticing, .builtin⟩], [], []⟩

/-- The root that is created from it, with what was noted. -/
def noticedRoot (dependencies : List Key) : Hierarchy × Journal :=
  (createNoted none (noticed dependencies) false ({}, [])).2

theorem history_noticedRoot (dependencies : List Key) : History [] (noticedRoot dependencies) :=
  .errand .nothing (.create fun _ hp => nomatch hp)

/-- What `A` is made of can be located: both scopes are applied for what comes to stay. -/
theorem scopes_applied_in_noticedRoot :
    let a := Key.of ⟨10, "A"⟩
    let c := Key.of ⟨12, "C"⟩
    let s := noticedRoot []
    let s' := (getInstanceNoted 1 0 a).after s
    History [] s' ∧ createNoted none (noticed []) false ({}, []) = (.ok 0, s) ∧ s.1.isLive 0 = true ∧
      (∃ value, getInstanceNoted 1 0 a s = some (.ok value, s')) ∧
      s.2.wrapped.map (·.key) = [c] ∧ s'.2.wrapped.map (·.key) = [c, a] ∧
      (s'.2.owned.filter (·.scope.isSome)).map (·.key) = [c, a] ∧
      s'.2.wrapped.Pairwise (fun first second => first.id < second.id) ∧
      (∃ bindings, List.Forall₂ (DeclaredFor 0) (noticed []).bindings bindings ∧
        s.2.wrapped = bindings.filter (·.scope.isSome)) ∧
      ∃ (binding : Binding) (s'' : Hierarchy × Journal) (made owned : List Binding),
        resolveNoted 0 a s = some (.ok binding, s'') ∧ owned.Sublist made ∧
        s''.2.wrapped = s.2.wrapped ++ made.filter (·.scope.isSome) := by
  intro a c s s'
  have hHistory : History [] s := history_noticedRoot []
  have hReach : Reachable s.1 := hHistory.orderly.reachable
  have hLive : s.1.isLive 0 = true := by decide +kernel
  obtain ⟨value, hRun⟩ : ∃ value, getInstanceNoted 1 0 a s = some (.ok value, s') := exists_ok_after (by decide +kernel)
  obtain ⟨binding, hResolve⟩ : ∃ binding, resolveNoted 0 a s = some (.ok binding, (resolveNoted 0 a).after s) :=
    exists_ok_after (by decide +kernel)
  have hHeld : 0 ∈ s.1.holds := by decide +kernel
  have hLater : History [] s' := .request hHistory (.getInstance hHeld hRun)
  have hCreate : createNoted none (noticed []) false ({}, []) = (.ok 0, s) := rfl
  have hNothing : Reachable (({}, []) : Hierarchy × Journal).1 := .refl
  obtain ⟨bindings, hDeclared, -, hWrapped⟩ :=
    ((scopes_applied hNothing).2.1 none (noticed []) false fun _ hp => nomatch hp).2 0 s hCreate
  obtain ⟨made, owned, hSublist, -, -, -, hEntered, -⟩ := (scopes_applied hReach).2.2 0 a _ _ hLive hResolve
  have hOrder := ((scopes_applied hLater.orderly.reachable).1 [] hLater).1
  exact ⟨hLater, hCreate, hLive, ⟨value, hRun⟩, by decide +kernel, by decide +kernel, by decide +kernel, hOrder,
    ⟨bindings, hDeclared, hWrapped⟩, binding, _, made, owned, hResolve, hSublist, hEntered⟩

/-- What `A` is made of cannot be located: the request fails and `A` is bound nowhere, but the scope of `A` was
applied, and user code has noticed it. -/
theorem scope_applied_in_vain :
    let a := Key.of ⟨10, "A"⟩
    let b := Key.of ⟨11, "B"⟩
    let c := Key.of ⟨12, "C"⟩
    let s := noticedRoot [b]
    let s' := (getInstanceNoted 1 0 a).after s
    History [] s ∧ (∃ report, getInstanceNoted 1 0 a s = some (.error report, s')) ∧ s'.1.lookup 0 a = none ∧
      s'.2.wrapped.map (·.key) = [c, a] ∧ (s'.2.owned.filter (·.scope.isSome)).map (·.key) = [c] ∧
      s.1.user.events = ["scope N " ++ c.inspect] ∧
      s'.1.user.events = ["scope N " ++ c.inspect, "scope N " ++ a.inspect] := by
  intro a b c s s'
  have hNone : s'.1.lookup 0 a = none := Option.isNone_iff_eq_none.mp (by decide +kernel)
  exact ⟨history_noticedRoot [b], exists_error_after (by decide +kernel), hNone, by decide +kernel, by decide +kernel,
    by decide +kernel, by decide +kernel⟩

end InjectorTree
