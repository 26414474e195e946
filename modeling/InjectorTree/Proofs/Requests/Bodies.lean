import InjectorTree.Proofs.Requests.Termination

/-!
# User code that asks

User code asks for instances in its own name: its requests begin paths of their own, whatever is being provided
meanwhile. So a key is refused only if links and constructors alone lead from the key back to it. A program that asks
for what it provides itself is run again, and again for its request, without an end.

* `ends_of_restarts`: requests end if there is a limit to how often a path is begun anew in their course.
* `bodies_start_anew`: what links and constructors ask for twice is refused, what user code asks for is not; a call ends
  if and only if there is such a limit.
* `mirror_never_ends`: a program that asks for its own key is provided in the course of itself.
-/

namespace InjectorTree.Provision

open Hierarchy

variable {h h' : Hierarchy} {n : InjectorId} {binding : Binding} {bindings : List Binding}
  {c c' c'' : Inquiry} {fuel fuel' count : Nat}

-- ---------------------------------------------------------------------------
-- What is asked for in turn
-- ---------------------------------------------------------------------------

/-- The inquiry is made in a state that can be reached, at an injector that nobody can give up meanwhile. -/
structure Grounded (c : Inquiry) : Prop where
  reachable : Reachable c.state
  anchored : Anchored c.state c.injector

theorem Grounded.asks (hG : Grounded c) (hOpens : c.Opens binding h')
    (hAsks : BindingAsks (obtain fuel) binding (c.path ++ [c.key]) h' c') : Grounded c' := by
  have hW := hG.reachable.wellFormed
  obtain ⟨hResolve, hOwner⟩ := hOpens.owner hW hG.anchored
  obtain ⟨hE, hA⟩ := hAsks.excursion (stepwise_obtain fuel) (hResolve.wellFormed hW) hOwner
  exact ⟨hG.reachable.steps (hResolve.trans hE).steps, hA⟩

/-- What carries an inquiry on leaves fewer keys to ask for. -/
theorem Grounded.room_lt (hG : Grounded c) (hOpens : c.Opens binding h')
    (hAsks : BindingAsks (obtain fuel) binding (c.path ++ [c.key]) h' c') (hCarries : CarriesOn c binding c') :
    (room c').card < (room c).card := by
  have hW := hG.reachable.wellFormed
  obtain ⟨hResolve, hOwner⟩ := hOpens.owner hW hG.anchored
  have hW' := hResolve.wellFormed hW
  have hE := (hAsks.excursion (stepwise_obtain fuel) hW' hOwner).1
  have hLive := (hE.anchored hW' hOwner).isLive (hE.wellFormed hW')
  exact hCarries.room_lt hG.reachable (hG.anchored.isLive hW) hOpens hE.steps hLive

-- ---------------------------------------------------------------------------
-- How often paths are begun anew
-- ---------------------------------------------------------------------------

/-- The last inquiry is made in the course of the first one. So many of those that lead there do not carry on the one
before. -/
inductive Restarts : Nat → Inquiry → Nat → Inquiry → Prop
  | here {fuel : Nat} {c : Inquiry} : Restarts fuel c 0 c
  | carried {fuel count : Nat} {c c' c'' : Inquiry} {binding : Binding} {h' : Hierarchy} (hOpens : c.Opens binding h')
      (hAsks : BindingAsks (obtain fuel) binding (c.path ++ [c.key]) h' c') (hCarries : CarriesOn c binding c')
      (hRest : Restarts fuel c' count c'') : Restarts (fuel + 1) c count c''
  | anew {fuel count : Nat} {c c' c'' : Inquiry} {binding : Binding} {h' : Hierarchy} (hOpens : c.Opens binding h')
      (hAsks : BindingAsks (obtain fuel) binding (c.path ++ [c.key]) h' c') (hNot : ¬CarriesOn c binding c')
      (hRest : Restarts fuel c' count c'') : Restarts (fuel + 1) c (count + 1) c''

/-- In the course of the inquiry, paths are begun anew no more often than the limit says. -/
def RestartsWithin (limit : Nat) (c : Inquiry) : Prop :=
  ∀ fuel count c', Restarts fuel c count c' → count ≤ limit

theorem Restarts.mono (hRestarts : Restarts fuel c count c') (hLe : fuel ≤ fuel') : Restarts fuel' c count c' := by
  induction hRestarts generalizing fuel' with
  | here => exact .here
  | carried hOpens hAsks hCarries _ ih =>
    obtain ⟨fuel', rfl⟩ := Nat.exists_eq_add_of_le' (Nat.one_le_of_lt hLe)
    have hLe := Nat.le_of_succ_le_succ hLe
    exact .carried hOpens (hAsks.mono (obtain_mono hLe)) hCarries (ih hLe)
  | anew hOpens hAsks hNot _ ih =>
    obtain ⟨fuel', rfl⟩ := Nat.exists_eq_add_of_le' (Nat.one_le_of_lt hLe)
    have hLe := Nat.le_of_succ_le_succ hLe
    exact .anew hOpens (hAsks.mono (obtain_mono hLe)) hNot (ih hLe)

/-- A path is begun anew at most as often as requests are nested. -/
theorem Restarts.nested (hRestarts : Restarts fuel c count c') :
    ∃ bindings, Nested fuel c bindings c' ∧ count ≤ bindings.length := by
  induction hRestarts with
  | here => exact ⟨[], .here, Nat.zero_le _⟩
  | carried hOpens hAsks _ _ ih =>
    obtain ⟨bindings, hNested, hLe⟩ := ih
    exact ⟨_ :: bindings, .deeper hOpens hAsks hNested, hLe.trans (Nat.le_succ _)⟩
  | anew hOpens hAsks _ _ ih =>
    obtain ⟨bindings, hNested, hLe⟩ := ih
    exact ⟨_ :: bindings, .deeper hOpens hAsks hNested, Nat.succ_le_succ hLe⟩

/-- An inquiry ends if there is a limit to how often a path is begun anew in its course: by induction on the limit, and
between one path and the next because what is carried on asks for no key twice. -/
theorem ends_of_restarts (limit : Nat) (hG : Grounded c) (hWithin : RestartsWithin limit c) : Ends c := by
  induction limit using Nat.strong_induction_on generalizing c with
  | _ limit ih =>
    let P (c : Inquiry) : Prop := Grounded c ∧ RestartsWithin limit c
    refine @ends_of_room c P ?_ ⟨hG, hWithin⟩
    rintro c ⟨hG, hWithin⟩ hFewer
    refine ends_of_asks hG.reachable.wellFormed hG.anchored fun fuel binding h' c' hOpens hAsks => ?_
    have hG' := hG.asks hOpens hAsks
    have hMore : ∀ fuel', BindingAsks (obtain (max fuel fuel')) binding (c.path ++ [c.key]) h' c' := fun fuel' =>
      hAsks.mono (obtain_mono (le_max_left fuel fuel'))
    by_cases hCarries : CarriesOn c binding c'
    · refine hFewer c' ⟨hG', fun fuel' count c'' hRest => ?_⟩ (hG.room_lt hOpens hAsks hCarries)
      exact hWithin _ _ _ (.carried hOpens (hMore fuel') hCarries (hRest.mono (le_max_right fuel fuel')))
    · have hAnew : ∀ {fuel' count c''}, Restarts fuel' c' count c'' → count + 1 ≤ limit := fun {fuel' _ _} hRest =>
        hWithin _ _ _ (.anew hOpens (hMore fuel') hCarries (hRest.mono (le_max_right fuel fuel')))
      have hSome : 0 < limit := hAnew (.here : Restarts fuel c' 0 c')
      refine ih (limit - 1) (Nat.sub_lt hSome Nat.one_pos) hG' fun fuel' count c'' hRest => ?_
      exact Nat.le_sub_of_add_le (hAnew hRest)

-- ---------------------------------------------------------------------------
-- A program that asks for its own key
-- ---------------------------------------------------------------------------

/-- A root that binds a key to a program, which asks the root for the key. -/
def mirror : Hierarchy :=
  (Hierarchy.create none
    ⟨[⟨.of .text, .provided fun n _ => .ask n (.get (.of .text)) .finish, none, .builtin⟩], [], [], [], []⟩ false {}).2

/-- The binding that it owns. -/
def mirrored : Binding :=
  ⟨0, .of .text, .provided fun n _ => .ask n (.get (.of .text)) .finish, none, .builtin, .explicit, 0, []⟩

theorem reachable_mirror : Reachable mirror :=
  .single (.create fun _ hp => nomatch hp)

theorem opens_mirror : Inquiry.Opens ⟨0, .of .text, [], mirror⟩ mirrored mirror :=
  ⟨List.not_mem_nil, resolve_of_lookup rfl⟩

theorem eq_of_opens_mirror (hOpens : Inquiry.Opens ⟨0, .of .text, [], mirror⟩ binding h') :
    binding = mirrored ∧ h' = mirror := by
  have hSame := hOpens.resolved.symm.trans opens_mirror.resolved
  simp only [Option.some.injEq, Prod.mk.injEq, Except.ok.injEq] at hSame
  exact hSame

/-- What it demands of the root. -/
def mirrorDemand : Posed .body :=
  ⟨0, .get (.of .text), mirror⟩

theorem mirror_poses (again : Again) (path : List Key) : BindingPoses again mirrored path mirror mirrorDemand :=
  ⟨⟨[], 0, path, mirror⟩, ⟨rfl, .here⟩, .strategy (.provided .now)⟩

/-- In the course of the request, the same request is made again. -/
theorem mirror_asks (again : Again) (path : List Key) :
    BindingAsks again mirrored path mirror ⟨0, .of .text, [], mirror⟩ := by
  obtain ⟨turn, hTurns, hPoses⟩ := mirror_poses again path
  exact ⟨turn, hTurns, .posed hPoses .get⟩

/-- Nothing else is asked for. -/
theorem eq_of_mirror_asks {again : Again} {path : List Key} (hAsks : BindingAsks again mirrored path mirror c) :
    c = ⟨0, .of .text, [], mirror⟩ := by
  obtain ⟨turn, ⟨-, hTurns⟩, hAsks⟩ := hAsks
  cases hTurns
  rcases hAsks with hDepends | ⟨hPoses, hRequests⟩
  · cases hDepends
  rcases hPoses with ⟨⟨hPoses⟩⟩ | _
  cases hPoses with
  | now =>
    cases hRequests
    rfl
  | later _ hLater => cases hLater

theorem nested_mirror (fuel : Nat) :
    Nested fuel ⟨0, .of .text, [], mirror⟩ (List.replicate fuel mirrored) ⟨0, .of .text, [], mirror⟩ := by
  induction fuel with
  | zero => exact .here
  | succ fuel ih => exact .deeper opens_mirror (mirror_asks _ _) ih

theorem mirror_exhausts (fuel : Nat) : getInstance fuel 0 (.of .text) mirror = none := by
  cases hRun : getInstance fuel 0 (.of .text) mirror with
  | none => rfl
  | some r =>
    have hLess := (nested_mirror fuel).length_lt hRun
    rw [List.length_replicate] at hLess
    exact absurd hLess (lt_irrefl fuel)

theorem eq_of_nested_mirror (hNested : Nested fuel ⟨0, .of .text, [], mirror⟩ bindings c) :
    c = ⟨0, .of .text, [], mirror⟩ := by
  generalize hStart : (⟨0, .of .text, [], mirror⟩ : Inquiry) = start at hNested
  induction hNested with
  | here => rfl
  | deeper hOpens hAsks _ ih =>
    subst hStart
    obtain ⟨rfl, rfl⟩ := eq_of_opens_mirror hOpens
    rw [eq_of_mirror_asks hAsks] at ih
    exact ih rfl

-- ---------------------------------------------------------------------------
-- Calls
-- ---------------------------------------------------------------------------

/-- In the course of the inquiry, no binding that keeps its instance is provided while it is being provided. What a cell
does that is filled in the course of filling it is left open. -/
def KeepersApart (c : Inquiry) : Prop :=
  ∀ fuel bindings c' binding h', Nested fuel c bindings c' → c'.Opens binding h' → .once ∈ binding.layers →
    binding.id ∉ bindings.map (·.id)

/-- All that the mirror provides is its one binding, which keeps nothing. -/
theorem keepersApart_mirror : KeepersApart ⟨0, .of .text, [], mirror⟩ := by
  intro fuel bindings c binding h' hNested hOpens hOnce
  rw [eq_of_nested_mirror hNested] at hOpens
  obtain ⟨rfl, -⟩ := eq_of_opens_mirror hOpens
  cases hOnce

/-- In the course of a call, what a link or a constructor depends on is asked for where it was turned to and on the path
that it was given, which is the path so far if the layers of the binding hand it on; and it is refused if its key is on
that path. Whatever user code asks for, the program of a provider above all, is answered as a call of its own would be,
even if its key is being provided. If no instance is to be kept that is being made, the call ends if and only if there
is a limit to how often a path is begun anew in its course. -/
theorem bodies_start_anew (hReach : Reachable h) (hHeld : n ∈ h.holds) (key : Key) :
    (∀ fuel fuel' bindings c binding h', Nested fuel ⟨n, key, [], h⟩ bindings c → c.Opens binding h' →
      (∀ m path state c',
        BindingTurns (obtain fuel') binding (c.path ++ [c.key]) h' ⟨[], m, path, state⟩ →
        StrategyDepends (obtain fuel') m path state binding.strategy c' →
          c'.injector = m ∧ c'.path = path ∧
          (HandsOn (obtain fuel') binding (c.path ++ [c.key]) h' → m = binding.owner ∧ path = c.path ++ [c.key]) ∧
          (c'.key ∈ path → ∀ fuel, c'.answer (obtain (fuel + 1)) =
            some (.error ((Report.of (.cycleDetected c'.key (path ++ [c'.key]))).within (.locating c'.key)), c'.state))) ∧
      ∀ role (posed : Posed role) c', BindingPoses (obtain fuel') binding (c.path ++ [c.key]) h' posed →
        posed.Requests c' →
          c'.path = [] ∧ ∀ fuel, c'.answer (obtain fuel) = getInstance fuel c'.injector c'.key c'.state) ∧
      (KeepersApart ⟨n, key, [], h⟩ →
        ((∃ fuel r, getInstance fuel n key h = some r) ↔ ∃ limit, RestartsWithin limit ⟨n, key, [], h⟩)) := by
  refine ⟨fun _ fuel' bindings c binding h' hNested hOpens => ⟨?_, ?_⟩, fun _ => ⟨?_, ?_⟩⟩
  · intro m path state c' hTurns hDepends
    obtain ⟨hInjector, -, hPath⟩ := hDepends.same
    refine ⟨hInjector, hPath, fun hHandsOn => hHandsOn _ hTurns, fun hOnPath fuel => ?_⟩
    rw [← hPath] at hOnPath ⊢
    exact Inquiry.answer_of_mem fuel hOnPath
  · intro role posed c' hPoses hRequests
    refine ⟨hRequests.path_eq, fun fuel => ?_⟩
    rw [Inquiry.answer, hRequests.path_eq, getInstance]
  · rintro ⟨fuel, r, hRun⟩
    refine ⟨fuel, fun fuel' count c hRestarts => ?_⟩
    obtain ⟨bindings, hNested, hLe⟩ := hRestarts.nested
    exact hLe.trans (hNested.length_lt hRun).le
  · rintro ⟨limit, hWithin⟩
    exact ends_of_restarts limit ⟨hReach, anchored_of_mem_holds hHeld⟩ hWithin

/-- The program asks for its own key, and is run for it again. -/
theorem bodies_start_anew_in_mirror :
    let c : Inquiry := ⟨0, .of .text, [], mirror⟩
    Reachable mirror ∧ 0 ∈ mirror.holds ∧ Nested 0 c [] c ∧ c.Opens mirrored mirror ∧
      BindingPoses (obtain 0) mirrored (c.path ++ [c.key]) mirror mirrorDemand ∧ mirrorDemand.Requests c ∧
      (∀ fuel, c.answer (obtain fuel) = getInstance fuel 0 (.of .text) mirror) ∧
      KeepersApart c ∧ ¬ ∃ limit, RestartsWithin limit c := by
  intro c
  have hHeld : 0 ∈ mirror.holds := by decide
  have hPoses := mirror_poses (obtain 0) (c.path ++ [c.key])
  obtain ⟨hAsked, hEnds⟩ := bodies_start_anew reachable_mirror hHeld (.of .text)
  have hAnew := (hAsked 0 0 [] c mirrored mirror .here opens_mirror).2 .body mirrorDemand c hPoses .get
  refine ⟨reachable_mirror, hHeld, .here, opens_mirror, hPoses, .get, hAnew.2, keepersApart_mirror, fun hLimit => ?_⟩
  obtain ⟨fuel, r, hRun⟩ := (hEnds keepersApart_mirror).mpr hLimit
  rw [mirror_exhausts] at hRun
  cases hRun

/-- While the binding is being provided, its program asks the injector for the very key. The request is not refused,
but provides the binding again, and the call never ends, although the program makes one request only. -/
theorem mirror_never_ends :
    let c : Inquiry := ⟨0, .of .text, [], mirror⟩
    Reachable mirror ∧ 0 ∈ mirror.holds ∧
      c.Opens mirrored mirror ∧ mirrored.strategy = .provided (fun n _ => .ask n (.get (.of .text)) .finish) ∧
      (∀ fuel, BindingAsks (obtain fuel) mirrored (c.path ++ [c.key]) mirror c) ∧
      extendPath c.path c.key = .ok [.of .text] ∧ ∀ fuel, getInstance fuel 0 (.of .text) mirror = none :=
  ⟨reachable_mirror, by decide, opens_mirror, rfl, fun fuel => mirror_asks (obtain fuel) _, rfl, mirror_exhausts⟩

end InjectorTree.Provision
