import InjectorTree.Proofs.Twins.Calls

/-!
# Failures leave no trace

A resolution that fails has tried placements that staged bindings, looked for scopes and used up numbers, and so has
a creation that is refused. Nothing of this can be seen afterwards: no binding and no claim is left, and whatever is
asked later is answered as if the failed call had not been made. Only the numbers of the bindings that are made later
are others, since some were left out; they still tell the bindings apart.

* `twin_of_marked`: what leaves marks only leaves a twin of what was there.
* `marked_of_fails`: a call that fails leaves marks only.
* `no_trace`: nobody can tell.
-/

namespace InjectorTree

variable {ρ : BindingId → BindingId}

theorem Table.mapValues_eq_self {κ ν : Type} {f : ν → ν} (t : Table κ ν) (hf : ∀ v ∈ t.values, f v = v) :
    t.mapValues (fun _ => f) = t := by
  obtain ⟨entries⟩ := t
  refine congrArg Table.mk ((List.map_congr_left fun entry hMem => ?_).trans (List.map_id entries))
  exact Prod.ext rfl (hf entry.2 (List.mem_map_of_mem hMem))

/-- An injector whose bindings keep their numbers is what it was. -/
theorem Injector.renumber_eq_self (injector : Injector)
    (hSame : ∀ binding ∈ injector.bindings, ρ binding.id = binding.id) : injector.renumber ρ = injector := by
  have hBinding : ∀ binding ∈ injector.bindings, binding.renumber ρ = binding := by
    intro binding hMem
    rw [Binding.renumber, hSame binding hMem]
  have hExplicit := Table.mapValues_eq_self injector.explicit fun binding hMem =>
    hBinding binding (List.mem_cons_of_mem _ (List.mem_append_left _ hMem))
  have hCreated := Table.mapValues_eq_self injector.created fun binding hMem =>
    hBinding binding (List.mem_cons_of_mem _ (List.mem_append_right _ hMem))
  rw [Injector.renumber, hBinding injector.itself List.mem_cons_self, hExplicit, hCreated]

namespace Hierarchy

variable {h h' : Hierarchy} {n : InjectorId} {key : Key}

-- ---------------------------------------------------------------------------
-- Numbers that are left out
-- ---------------------------------------------------------------------------

/-- Leaves out some numbers: those before a first one stay, and the others move up. -/
def skip (first count number : Nat) : Nat :=
  if number < first then number else number + count

theorem skip_of_lt {first number : Nat} (count : Nat) (hLt : number < first) : skip first count number = number :=
  if_pos hLt

theorem skip_add {first last : Nat} (hLe : first ≤ last) (i : Nat) :
    skip first (last - first) (first + i) = last + i := by
  rw [skip, if_neg (Nat.not_lt.mpr (Nat.le_add_right first i))]
  omega

theorem skip_injective (first count : Nat) : Function.Injective (skip first count) := by
  intro number number' hEq
  unfold skip at hEq
  split at hEq <;> split at hEq <;> omega

/-- Marks cannot be seen: scopes are found again as they were remembered, and numbers can be left out. -/
theorem twin_of_marked (hW : h.WellFormed) (hTidy : h.Tidy) (hM : Marked h' h) (hs : SameNotes h' h) :
    Twin (skip h.nextBinding (h'.nextBinding - h.nextBinding)) { h with user := h'.user } h' where
  injective := skip_injective _ _
  injectors := by
    refine (hM.core.bare_eq hW.rooted).trans (congrArg Table.mk (List.map_congr_left fun entry hMem => ?_))
    have hInjector : h.injector? entry.1 = some entry.2 := (Table.get?_eq_some_iff hW.rooted.distinct).mpr hMem
    have hSame := entry.2.renumber_eq_self fun binding hBinding =>
      skip_of_lt (h'.nextBinding - h.nextBinding)
        (hW.numbered (hW.binding?_of_mem_bindings hInjector hBinding))
    exact Prod.ext rfl (congrArg Injector.bare hSame.symm)
  holds := hM.core.holds
  heldBindings := by
    refine hs.heldBindings.trans ?_
    exact ((List.map_congr_left fun number hMem => skip_of_lt _ (hTidy.held number hMem)).trans (List.map_id _)).symm
  nextInjector := hM.core.nextInjector
  nextBinding := skip_add hM.nextBinding
  kept := by
    refine hs.kept.trans (congrArg Table.mk ?_)
    refine ((List.map_congr_left fun entry hMem => ?_).trans (List.map_id _)).symm
    have hMade := hTidy.kept entry.1 (List.mem_map_of_mem hMem)
    exact Prod.ext (Prod.ext (skip_of_lt _ hMade) rfl) rfl
  user := rfl
  wellFormed := (marked_user hW h'.user).wellFormed
  wellFormed' := hM.wellFormed
  tidy := ⟨hTidy.held, hTidy.kept⟩

-- ---------------------------------------------------------------------------
-- Calls that fail
-- ---------------------------------------------------------------------------

/-- The call is for a key that cannot be resolved, or for an injector that cannot be created. -/
def Fails (h : Hierarchy) : Call → Prop
  | .create parent module explicitOnly => ∃ reports, (h.create parent module explicitOnly).1 = .error reports
  | .resolve n key | .get _ n key | .getAs _ n key _ | .getHandle n key _ =>
    ∃ report h', h.resolve n key = some (.error report, h')
  | _ => False

/-- A failure to resolve leaves marks only, whoever asked for it. -/
theorem marked_answering {α : Type} {x : Run Hierarchy α} {reply : Except Report α → Reply} (hW : h.WellFormed)
    {report : Report} (hResolve : h.resolve n key = some (.error report, h'))
    (hRun : x h = none ∨ ∃ report, x h = some (.error report, h')) :
    Marked (answering x reply h).2 h ∧ SameNotes (answering x reply h).2 h := by
  unfold answering
  rcases hRun with hRun | ⟨report, hRun⟩
  · rw [hRun]
    exact ⟨Marked.refl hW, SameNotes.refl h⟩
  · rw [hRun]
    exact ⟨(resolve_error hW hResolve).2, sameNotes_resolve hResolve⟩

open Provision in
/-- A request whose key cannot be resolved ends there. -/
theorem getInstance_of_resolve_error (fuel : Nat) {report : Report}
    (hResolve : h.resolve n key = some (.error report, h')) :
    getInstance fuel n key h = none ∨ ∃ report, getInstance fuel n key h = some (.error report, h') := by
  cases fuel with
  | zero => exact Or.inl rfl
  | succ fuel => exact Or.inr ⟨_, getInstance_error fuel hResolve⟩

open Provision in
/-- A call that fails leaves marks only. -/
theorem marked_of_fails (hW : h.WellFormed) {call : Call} (hFails : h.Fails call) :
    Marked (h.perform call).2 h ∧ SameNotes (h.perform call).2 h := by
  unfold perform
  split
  · cases call with
    | create parent module explicitOnly =>
      obtain ⟨reports, hReports⟩ := hFails
      have hSame := sameNotes_create parent module explicitOnly h
      exact ⟨create_error hW (Prod.ext hReports rfl), hSame⟩
    | resolve n key =>
      obtain ⟨report, h', hResolve⟩ := hFails
      exact marked_answering hW hResolve (Or.inr ⟨report, hResolve⟩)
    | get fuel n key =>
      obtain ⟨report, h', hResolve⟩ := hFails
      exact marked_answering hW hResolve (getInstance_of_resolve_error fuel hResolve)
    | getAs fuel n key interface =>
      obtain ⟨report, h', hResolve⟩ := hFails
      refine marked_answering hW hResolve ?_
      rcases getInstance_of_resolve_error fuel hResolve with hRun | ⟨report, hRun⟩
      · exact Or.inl (by rw [getAs, Run.bind_apply, hRun])
      · exact Or.inr ⟨report, by rw [getAs, Run.bind_apply, hRun]⟩
    | getHandle n key interface =>
      obtain ⟨report, h', hResolve⟩ := hFails
      simp only [answer, getHandle_error hResolve]
      exact ⟨(resolve_error hW hResolve).2, sameNotes_resolve hResolve⟩
    | _ => exact hFails.elim
  · exact ⟨Marked.refl hW, SameNotes.refl h⟩

-- ---------------------------------------------------------------------------
-- No trace
-- ---------------------------------------------------------------------------

/-- Nobody can tell that the second hierarchy is not the first one, but for the state of user code: every injector
has the same place, the same bindings and the same claims on its keys, and finds the same scopes. From any state of
user code on, whatever is asked later is answered alike, up to the numbers of the bindings that are made only then. -/
structure Indistinguishable (h h' : Hierarchy) : Prop where
  lineage : ∀ n, h'.isLive n = h.isLive n ∧ h'.lineage n = h.lineage n
  binding? : ∀ n key, h'.binding? n key = h.binding? n key
  bindings : ∀ n, h'.bindings n = h.bindings n
  claimsOf : ∀ n key, h'.claimsOf n key = h.claimsOf n key
  findScope : ∀ n tag, (h'.findScope n tag).1 = (h.findScope n tag).1
  holds : h'.holds = h.holds
  replies : ∃ ρ : BindingId → BindingId, Function.Injective ρ ∧ (∀ number < h.nextBinding, ρ number = number) ∧
    ∀ user later, replies (later.map (Call.renumber ρ)) { h' with user } =
      (replies later { h with user }).map (Reply.renumber ρ)

/-- What leaves marks only cannot be told from what was there. -/
theorem indistinguishable_of_marked (hW : h.WellFormed) (hTidy : h.Tidy) (hM : Marked h' h) (hs : SameNotes h' h) :
    Indistinguishable h h' where
  lineage n := ⟨hM.core.isLive n, hM.core.lineage n⟩
  binding? := hM.core.binding?
  bindings := hM.core.bindings
  claimsOf := hM.core.claimsOf
  findScope n tag := by
    -- what injectors remember does not change what they find
    rw [findScope_fst hM.wellFormed.rooted hM.wellFormed.caches, findScope_fst hW.rooted hW.caches,
      hM.core.sameShape.nearestScope]
  holds := hM.core.holds
  replies := by
    have hTwin := twin_of_marked hW hTidy hM hs
    exact ⟨_, hTwin.injective, fun number hLt => skip_of_lt _ hLt,
      fun user later => (hTwin.withUser user).replies later⟩

/-- Whatever was done before: a call for a key that cannot be resolved, or for an injector that cannot be created,
leaves no trace. -/
theorem no_trace (past : List Call) (call : Call) (hFails : (after past {}).Fails call) :
    Indistinguishable (after past {}) ((after past {}).perform call).2 := by
  have hBefore := twin_after past
  obtain ⟨hMarked, hNotes⟩ := marked_of_fails hBefore.wellFormed hFails
  exact indistinguishable_of_marked hBefore.wellFormed hBefore.tidy hMarked hNotes

/-- A request for a key that is linked to another one, which is linked to a third one that nobody declares: two
bindings were staged, and took numbers. -/
theorem no_trace_of_dangling_links :
    let key := Key.of .text
    let past := [Call.create none ⟨[], [⟨key, .linked (.of .singleton), none, .builtin⟩,
      ⟨.of .singleton, .linked (.named .text "missing"), none, .builtin⟩], [], [], []⟩ false]
    let call := Call.getHandle 0 key (.concrete .text)
    (after past {}).Fails call ∧ ((after past {}).perform call).2.nextBinding = (after past {}).nextBinding + 2 ∧
      Indistinguishable (after past {}) ((after past {}).perform call).2 := by
  intro key past call
  have hFails : (after past {}).Fails call := by
    obtain ⟨report, hRun⟩ := Run.exists_error_after (x := resolve 0 key) (s := after past {}) (by decide)
    exact ⟨report, _, hRun⟩
  exact ⟨hFails, by decide, no_trace past call hFails⟩

end Hierarchy

end InjectorTree
