import InjectorTree.Proofs.Handles
import InjectorTree.Proofs.Requests.Nesting

/-!
# Cycles

A key that comes up again on the path of keys being provided is refused, although a path has keys only, and one key
can mean different bindings to different injectors. Nothing is lost by that, as long as scopes hand on what they are
given. What is carried from one binding to the next is carried upwards, from an owner to an injector on its path. So
whoever asks for the key again is the owner of the binding that is being provided for it, and means that binding; or is
above the owner, where the key cannot be resolved, since somebody below owns it.

* `Providing`: bindings that are being provided are owned where they were, and whoever asks is on the paths of all
  their owners.
* `OnTrack.asks`: what is asked for in turn carries on what is being provided, or starts anew.
* `refused_only_in_vain`: whenever a key is refused in the course of a call, to resolve it would give the binding that
  is being provided for it, or fail.
* `refused_although_bound`: a scope that makes up a path of its own has a key refused that is not being provided.
-/

namespace InjectorTree.Provision

open Hierarchy

variable {h h' : Hierarchy} {n : InjectorId} {key : Key} {binding : Binding} {bindings : List Binding}
  {c c' : Inquiry} {again : Again} {path : List Key}

-- ---------------------------------------------------------------------------
-- What is being provided
-- ---------------------------------------------------------------------------

/-- The bindings are being provided in turn, no key twice, and the injector is on the paths of all their owners. -/
structure Providing (bindings : List Binding) (n : InjectorId) (h : Hierarchy) : Prop where
  reachable : Reachable h
  anchored : Anchored h n
  distinct : (bindings.map (·.key)).Nodup
  owner : ∀ binding ∈ bindings, Anchored h binding.owner ∧ n ∈ h.path binding.owner
  bound : ∀ binding ∈ bindings, h.binding? binding.owner binding.key = some binding

/-- Nothing is being provided yet. -/
theorem providing_nil (hReach : Reachable h) (hA : Anchored h n) : Providing [] n h where
  reachable := hReach
  anchored := hA
  distinct := List.nodup_nil
  owner := fun _ hMem => nomatch hMem
  bound := fun _ hMem => nomatch hMem

namespace Providing

theorem excursion (hP : Providing bindings n h) (hE : Excursion h h') : Providing bindings n h' := by
  have hW := hP.reachable.wellFormed
  have hC := hE.steps.continues hW
  refine ⟨hP.reachable.steps hE.steps, hE.anchored hW hP.anchored, hP.distinct, fun binding hMem => ?_,
    fun binding hMem => ?_⟩
  all_goals have hA := hE.anchored hW (hP.owner binding hMem).1
  all_goals have hLive := hA.isLive (hE.wellFormed hW)
  · obtain ⟨hOwner, hn⟩ := hP.owner binding hMem
    exact ⟨hA, (hC.path (hW.rooted.fresh (hOwner.isLive hW)) hLive).symm ▸ hn⟩
  · exact hC.binding? hLive (hP.bound binding hMem)

/-- What is owned on the path of the injector can be provided next. -/
theorem provide (hP : Providing bindings n h) (hOwner : binding.owner ∈ h.path n)
    (hBound : h.binding? binding.owner binding.key = some binding)
    (hFresh : binding.key ∉ bindings.map (·.key)) : Providing (bindings ++ [binding]) binding.owner h := by
  have hW := hP.reachable.wellFormed
  have hA := hP.anchored.up hW hOwner
  refine ⟨hP.reachable, hA, ?_, fun other hMem => ?_, fun other hMem => ?_⟩
  · rw [List.map_append]
    exact hP.distinct.append (List.nodup_singleton _) (List.disjoint_singleton.mpr hFresh)
  · rcases List.mem_append.mp hMem with hMem | hMem
    · exact ⟨(hP.owner other hMem).1, hW.rooted.mem_path_trans (hP.owner other hMem).2 hOwner⟩
    · obtain rfl := List.mem_singleton.mp hMem
      exact ⟨hA, self_mem_path⟩
  · rcases List.mem_append.mp hMem with hMem | hMem
    · exact hP.bound other hMem
    · obtain rfl := List.mem_singleton.mp hMem
      exact hBound

/-- What the injector resolves a key to is provided next, if the key is not being provided. -/
theorem resolve (hP : Providing bindings n h) (hRun : h.resolve n key = some (.ok binding, h'))
    (hFresh : key ∉ bindings.map (·.key)) :
    binding.key = key ∧ Providing (bindings ++ [binding]) binding.owner h' := by
  have hW := hP.reachable.wellFormed
  have hOwned := owned_of_resolve hW (hP.anchored.isLive hW) hRun
  have hE := (excursion_resolve hW hP.anchored hRun).1
  obtain ⟨rfl, -, -⟩ := (hE.wellFormed hW).binding? hOwned.bound
  exact ⟨rfl, (hP.excursion hE).provide hOwned.onPath hOwned.bound hFresh⟩

end Providing

-- ---------------------------------------------------------------------------
-- What is asked for
-- ---------------------------------------------------------------------------

/-- The path of an inquiry has the keys of bindings that are being provided. None of them is the key of injectors,
since injectors ask for nothing to provide themselves. -/
structure OnTrack (bindings : List Binding) (c : Inquiry) : Prop where
  providing : Providing bindings c.injector c.state
  path : c.path = bindings.map (·.key)
  askers : ∀ binding ∈ bindings, binding.key ≠ .injector

/-- Whatever a binding asks for that is being provided, it asks for it on the path that it was given, or without
one. -/
theorem Providing.asks {fuel : Nat} (hP : Providing (bindings ++ [binding]) binding.owner h)
    (hAskers : ∀ other ∈ bindings, other.key ≠ .injector) (hPath : path = (bindings ++ [binding]).map (·.key))
    (hFaithful : Faithful binding) (hAsks : BindingAsks (obtain fuel) binding path h c) :
    OnTrack (bindings ++ [binding]) c ∨ OnTrack [] c := by
  have hW := hP.reachable.wellFormed
  obtain ⟨hE, hA⟩ := hAsks.excursion (stepwise_obtain fuel) hW hP.anchored
  rcases hAsks.cases with ⟨hKey, hHandedOn⟩ | hApart
  · obtain ⟨hInjector, hSame⟩ := hHandedOn (hFaithful fuel path h)
    refine Or.inl ⟨hInjector ▸ hP.excursion hE, hSame.trans hPath, fun other hMem => ?_⟩
    rcases List.mem_append.mp hMem with hMem | hMem
    · exact hAskers other hMem
    · obtain rfl := List.mem_singleton.mp hMem
      intro hBuiltin
      have hBound := hP.bound other (List.mem_append_right _ (List.mem_singleton_self _))
      rw [hBuiltin] at hBound
      rw [hW.strategy_itself hBound] at hKey
      cases hKey
  · exact Or.inr ⟨providing_nil (hP.reachable.steps hE.steps) hA, hApart, fun _ hMem => nomatch hMem⟩

/-- What an inquiry leads to in turn carries on what is being provided, or starts anew. -/
theorem OnTrack.asks {fuel : Nat} (hT : OnTrack bindings c) (hOpens : c.Opens binding h') (hFaithful : Faithful binding)
    (hAsks : BindingAsks (obtain fuel) binding (c.path ++ [c.key]) h' c') :
    OnTrack (bindings ++ [binding]) c' ∨ OnTrack [] c' := by
  have hFresh := hOpens.fresh
  rw [hT.path] at hFresh
  obtain ⟨hKey, hP⟩ := hT.providing.resolve hOpens.resolved hFresh
  refine hP.asks hT.askers ?_ hFaithful hAsks
  rw [hT.path, ← hKey, List.map_append, List.map_singleton]

/-- In the course of an inquiry, the path always has the keys of the innermost bindings. -/
theorem Nested.onTrack {fuel : Nat} (hNested : Nested fuel c bindings c') {outer : List Binding}
    (hFaithful : ∀ binding ∈ outer ++ bindings, Faithful binding) (hT : OnTrack outer c) :
    ∃ inner, inner <:+ outer ++ bindings ∧ OnTrack inner c' := by
  let P (outer : List Binding) (c : Inquiry) : Prop :=
    (∀ binding ∈ outer, Faithful binding) → ∃ inner, inner <:+ outer ∧ OnTrack inner c
  have hStep : ∀ {fuel outer c binding h' c'}, P outer c → c.Opens binding h' →
      BindingAsks (obtain fuel) binding (c.path ++ [c.key]) h' c' → P (outer ++ [binding]) c' := by
    intro fuel outer c binding h' c' hP hOpens hAsks hFaithful
    obtain ⟨hOuter, hBinding⟩ := List.forall_mem_append.mp hFaithful
    obtain ⟨inner, ⟨before, rfl⟩, hT⟩ := hP hOuter
    rcases hT.asks hOpens (hBinding binding List.mem_cons_self) hAsks with hCarried | hApart
    · exact ⟨_, ⟨before, (List.append_assoc ..).symm⟩, hCarried⟩
    · exact ⟨[], List.nil_suffix, hApart⟩
  have hStart : P outer c := fun _ => ⟨outer, List.suffix_rfl, hT⟩
  exact hNested.invariant hStep hStart hFaithful

/-- Whoever asks for a key that is being provided owns the binding, or is above its owner. -/
theorem OnTrack.in_vain (hS : OnTrack bindings c) (hMem : binding ∈ bindings) (hKey : binding.key = c.key) :
    c.state.resolve c.injector c.key = some (.ok binding, c.state) ∨
      ∃ report h', c.state.resolve c.injector c.key = some (.error report, h') := by
  have hW := hS.providing.reachable.wellFormed
  have hAsker := hS.askers binding hMem
  have hBound := hS.providing.bound binding hMem
  rw [hKey] at hAsker hBound
  rcases mem_path_iff.mp (hS.providing.owner binding hMem).2 with hOwner | hAbove
  · have hOwned : c.state.Owned c.injector c.key binding := ⟨hOwner ▸ self_mem_path, hBound⟩
    exact Or.inl (hOwned.resolve_eq hW hAsker)
  · exact Or.inr (resolve_above_owner hW hAsker hAbove hBound)

-- ---------------------------------------------------------------------------
-- Calls
-- ---------------------------------------------------------------------------

/-- The inquiry is made in the course of a call in the state, while the bindings are being provided, outermost
first. The call asks a held injector for an instance, or a handle to a binding that was resolved at a held one. -/
inductive DuringCall (h : Hierarchy) : List Binding → Inquiry → Prop
  | getInstance {fuel : Nat} {n : InjectorId} {key : Key} {bindings : List Binding} {c : Inquiry}
      (hHeld : n ∈ h.holds) (hNested : Nested fuel ⟨n, key, [], h⟩ bindings c) : DuringCall h bindings c
  | getFrom {fuel : Nat} {n : InjectorId} {handle : Handle} {bindings : List Binding} {c c' : Inquiry}
      (hHeld : n ∈ h.holds) (hIssued : Issued n handle h)
      (hAsks : BindingAsks (obtain fuel) handle.binding [handle.binding.key] h c)
      (hNested : Nested fuel c bindings c') : DuringCall h (handle.binding :: bindings) c'

theorem DuringCall.onTrack (hReach : Reachable h) (hCall : DuringCall h bindings c)
    (hFaithful : ∀ binding ∈ bindings, Faithful binding) : ∃ inner, inner <:+ bindings ∧ OnTrack inner c := by
  cases hCall with
  | @getInstance _ n key _ _ hHeld hNested =>
    have hStart : OnTrack [] ⟨n, key, [], h⟩ :=
      ⟨providing_nil hReach (anchored_of_mem_holds hHeld), rfl, fun _ hMem => nomatch hMem⟩
    exact hNested.onTrack hFaithful hStart
  | @getFrom fuel n handle bindings c _ hHeld hIssued hAsks hNested =>
    have hStart := providing_nil hReach (anchored_of_mem_holds hHeld)
    have hW := hReach.wellFormed
    have hOwned := owned_of_resolve hW (hW.rooted.held hHeld) (hIssued.resolve_eq (hW.rooted.held hHeld))
    have hProvided := hStart.provide hOwned.onPath hOwned.bound List.not_mem_nil
    obtain ⟨hBinding, hLater⟩ := List.forall_mem_cons.mp hFaithful
    rcases hProvided.asks (fun _ hMem => nomatch hMem) rfl hBinding hAsks with hCarried | hApart
    · exact hNested.onTrack hFaithful hCarried
    · obtain ⟨inner, hInner, hT⟩ := hNested.onTrack hLater hApart
      exact ⟨inner, hInner.trans (List.suffix_cons _ _), hT⟩

/-- Whenever a key is refused in the course of a call, while bindings are being provided whose layers hand on what they
are given, its path has the keys of the innermost of these bindings, each once, and the refused key is that of one of
them. To resolve the key where it is asked for would give this very binding, or fail. -/
theorem refused_only_in_vain (hReach : Reachable h) (hCall : DuringCall h bindings c)
    (hFaithful : ∀ binding ∈ bindings, Faithful binding) {report : Report}
    (hRefused : extendPath c.path c.key = .error report) :
    ∃ outer inner, bindings = outer ++ inner ∧ c.path = inner.map (·.key) ∧ c.path.Nodup ∧
      ∃ binding ∈ inner, binding.key = c.key ∧
        (c.state.resolve c.injector c.key = some (.ok binding, c.state) ∨
          ∃ report h', c.state.resolve c.injector c.key = some (.error report, h')) := by
  have hOnPath : c.key ∈ c.path := by
    by_contra hFresh
    rw [extendPath, if_neg hFresh] at hRefused
    cases hRefused
  obtain ⟨inner, ⟨outer, rfl⟩, hT⟩ := hCall.onTrack hReach hFaithful
  rw [hT.path, List.mem_map] at hOnPath
  obtain ⟨binding, hMem, hKey⟩ := hOnPath
  refine ⟨outer, inner, rfl, hT.path, ?_, binding, hMem, hKey, hT.in_vain hMem hKey⟩
  rw [hT.path]
  exact hT.providing.distinct

/-- A root that binds two keys to each other, within layers that do nothing but turn to what is below. -/
def loop (first second : Key) : Hierarchy :=
  let tag := ScopeTag.named "tapped"
  let scope : Scope := ⟨"tapped", fun _ user => ([.tap fun _ user => user], user)⟩
  (Hierarchy.create none
    ⟨[⟨first, .linked second, tag, .builtin⟩, ⟨second, .linked first, none, .builtin⟩], [], [⟨tag, scope, .builtin⟩], [],
      []⟩ false {}).2

theorem reachable_loop (first second : Key) : Reachable (loop first second) :=
  .single (.create fun _ hp => nomatch hp)

/-- A layer that runs an effect turns to what is below with what it was given. -/
theorem forwards_tap (effect : InjectorId → UserState → UserState) : Forwards (.tap effect) := by
  rintro answers n path h posed path' (hPoses | _) hTurns
  cases hPoses with
  | now =>
    cases hTurns
    exact ⟨ite_self _, rfl⟩
  | later _ hLater => cases hLater

/-- In a loop of two links, the key that comes up again is refused, and means the binding that is being provided. -/
theorem refused_only_in_vain_in_loop :
    let first := Key.of .text
    let second := Key.of .singleton
    let h := loop first second
    let c : Inquiry := ⟨0, first, [first, second], h⟩
    ∃ bindings report, Reachable h ∧ DuringCall h bindings c ∧ (∀ binding ∈ bindings, Faithful binding) ∧
      extendPath c.path c.key = .error report ∧
      ∃ outer inner, bindings = outer ++ inner ∧ c.path = inner.map (·.key) ∧
        ∃ binding ∈ inner, binding.key = c.key ∧
          (c.state.resolve c.injector c.key = some (.ok binding, c.state) ∨
            ∃ report h', c.state.resolve c.injector c.key = some (.error report, h')) := by
  intro first second h c
  have hReach := reachable_loop first second
  let layer : Layer := .tap fun _ user => user
  let tapped : Binding := ⟨0, first, .linked second, some (.named "tapped"), .builtin, .explicit, 0, [layer]⟩
  let bare : Binding := ⟨1, second, .linked first, none, .builtin, .explicit, 0, []⟩
  have hFirst : Inquiry.Opens ⟨0, first, [], h⟩ tapped h := ⟨List.not_mem_nil, resolve_of_lookup rfl⟩
  have hSecond : Inquiry.Opens ⟨0, second, [first], h⟩ bare h := ⟨by decide, resolve_of_lookup rfl⟩
  have hAsks : BindingAsks (obtain 1) tapped [first] h ⟨0, second, [first], h⟩ :=
    ⟨⟨[], 0, [first], h⟩, ⟨rfl, .around (.act .now) .here⟩, .depends .linked⟩
  have hAsksBack : BindingAsks (obtain 0) bare [first, second] h c :=
    ⟨⟨[], 0, [first, second], h⟩, ⟨rfl, .here⟩, .depends .linked⟩
  have hCall : DuringCall h [tapped, bare] c :=
    .getInstance (by decide) (.deeper hFirst hAsks (.deeper hSecond hAsksBack .here))
  have hFaithful : ∀ binding ∈ [tapped, bare], Faithful binding := by
    refine List.forall_mem_cons.mpr ⟨fun _ _ _ => handsOn_of_layers ?_, List.forall_mem_singleton.mpr fun _ _ _ => ?_⟩
    · exact List.forall_mem_singleton.mpr (forwards_tap _)
    · exact handsOn_of_layers fun _ hMem => nomatch hMem
  have hRefused : extendPath c.path c.key = .error (.of (.cycleDetected first [first, second, first])) :=
    if_pos List.mem_cons_self
  obtain ⟨outer, inner, hEq, hPath, -, hInVain⟩ := refused_only_in_vain hReach hCall hFaithful hRefused
  exact ⟨_, _, hReach, hCall, hFaithful, hRefused, outer, inner, hEq, hPath, hInVain⟩

/-- A root that binds one key to another one, and that one to an instance. Around the first one is a layer that turns to
what is below as if the second one was being provided. -/
def forging (first second : Key) (value : Instance) : Hierarchy :=
  let tag := ScopeTag.named "forged"
  let layer : Layer := .around fun n _ => .ask n (.below [second]) .finish
  let scope : Scope := ⟨"forged", fun _ user => ([layer], user)⟩
  (Hierarchy.create none
    ⟨[⟨first, .linked second, tag, .builtin⟩, ⟨second, .fixed value, none, .builtin⟩], [], [⟨tag, scope, .builtin⟩], [], []⟩
    false {}).2

/-- In the course of a call, a key is refused that is not being provided, though it is bound. -/
theorem refused_although_bound :
    let first := Key.of .text
    let second := Key.of .singleton
    let h := forging first second (.made 0 .singleton (.primitive ""))
    ∃ bindings c, Reachable h ∧ DuringCall h bindings c ∧ c.key = second ∧ (∀ binding ∈ bindings, binding.key ≠ second) ∧
      extendPath c.path c.key = .error (.of (.cycleDetected second [second, second])) ∧
      ∃ binding, c.state.resolve c.injector c.key = some (.ok binding, c.state) := by
  intro first second h
  let layer : Layer := .around fun n _ => .ask n (.below [second]) .finish
  let forged : Binding := ⟨0, first, .linked second, some (.named "forged"), .builtin, .explicit, 0, [layer]⟩
  have hOpens : Inquiry.Opens ⟨0, first, [], h⟩ forged h := ⟨List.not_mem_nil, resolve_of_lookup rfl⟩
  have hAsks : BindingAsks (obtain 0) forged [first] h ⟨0, second, [second], h⟩ :=
    ⟨⟨[], 0, [second], h⟩, ⟨rfl, .around .now .here⟩, .depends .linked⟩
  refine ⟨[forged], ⟨0, second, [second], h⟩, .single (.create fun _ hp => nomatch hp),
    .getInstance (by decide) (.deeper hOpens hAsks .here), rfl, ?_, if_pos List.mem_cons_self, _, resolve_of_lookup rfl⟩
  exact List.forall_mem_singleton.mpr (by decide)

end InjectorTree.Provision
