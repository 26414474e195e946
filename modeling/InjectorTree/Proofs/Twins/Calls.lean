import InjectorTree.Proofs.Twins.Requests

/-!
# What callers do, and what they are answered

A caller creates injectors, asks them for instances, handles, bindings and scopes, and holds them and gives them up.
User code in the middle of a request does the same, and sees the hierarchy as the parts of the request before have
left it; those parts are calls of their own here. A call is refused if it is for an injector that the caller does
not hold.

* `perform`: what a call answers and leaves behind; `replies` and `after` say so of many calls, one after the other.
* `Twin.perform`: twins answer in the same way, up to the numbers of bindings.
* `Twin.replies`: they do so ever after.
-/

namespace InjectorTree

open Hierarchy Provision Run

/-- What can be asked of a hierarchy. -/
inductive Call where
  | create (parent : Option InjectorId) (module : Module) (explicitOnly : Bool)
  /-- Holds a live injector once more, as by a copy of a handle to it or as the parent of another one. -/
  | hold (n : InjectorId)
  | drop (n : InjectorId)
  | get (fuel : Nat) (n : InjectorId) (key : Key)
  | getAs (fuel : Nat) (n : InjectorId) (key : Key) (interface : Interface)
  | getHandle (n : InjectorId) (key : Key) (interface : Interface)
  | getFrom (fuel : Nat) (handle : Handle)
  | binding (n : InjectorId) (key : Key)
  | bindings (n : InjectorId)
  | scope (n : InjectorId) (tag : ScopeTag)
  | parent (n : InjectorId)
  /-- User code looks at its state, and changes it. -/
  | act (update : UserState → UserState)
  /-- A request has its key resolved. -/
  | resolve (n : InjectorId) (key : Key)
  /-- A layer keeps an instance for a binding that was made. -/
  | keep (number : BindingId) (height : Nat) (value : Instance)

/-- What is answered. -/
inductive Reply where
  | refused
  /-- The fuel was spent. -/
  | endless
  | created (outcome : Except (List Report) InjectorId)
  | provided (outcome : Except Report Instance)
  | handed (outcome : Except Report Handle)
  | resolved (outcome : Except Report Binding)
  | found (binding : Option Binding)
  | listed (bindings : List Binding)
  | scope (registration : Option ScopeRegistration)
  | parent (n : Option InjectorId)
  | user (state : UserState)
  | done

/-- The call with other numbers for the bindings it names. -/
def Call.renumber (ρ : BindingId → BindingId) : Call → Call
  | .getFrom fuel handle => .getFrom fuel (handle.renumber ρ)
  | .keep number height value => .keep (ρ number) height value
  | call => call

/-- The reply with other numbers for the bindings in it. -/
def Reply.renumber (ρ : BindingId → BindingId) : Reply → Reply
  | .handed outcome => .handed (outcome.map (Handle.renumber ρ))
  | .resolved outcome => .resolved (outcome.map (Binding.renumber ρ))
  | .found binding => .found (binding.map (Binding.renumber ρ))
  | .listed bindings => .listed (bindings.map (Binding.renumber ρ))
  | reply => reply

namespace Hierarchy

/-- What every handle that was given out fulfils as long as its injector is held. -/
def honours (h : Hierarchy) (handle : Handle) : Bool :=
  decide (handle.injector ∈ h.holds ∧ handle.binding.owner ∈ h.path handle.injector ∧
    handle.binding.id < h.nextBinding)

/-- Answers a request with its outcome. -/
def answering {α : Type} (x : Run Hierarchy α) (reply : Except Report α → Reply) (h : Hierarchy) :
    Reply × Hierarchy :=
  match x h with
  | none => (.endless, h)
  | some (outcome, h) => (reply outcome, h)

/-- Holds bindings from now on. -/
def holdBindings (h : Hierarchy) (bindings : List Binding) : Hierarchy :=
  bindings.foldl (fun h binding => h.holdBinding binding.id) h

/-- What a call that is not refused answers and leaves behind. -/
def answer (h : Hierarchy) : Call → Reply × Hierarchy
  | .create parent module explicitOnly =>
    let (outcome, h) := h.create parent module explicitOnly
    (.created outcome, h)
  | .hold n => (.done, h.hold n)
  | .drop n => (.done, h.release n)
  | .get fuel n key => answering (Hierarchy.getInstance fuel n key) .provided h
  | .getAs fuel n key interface => answering (Hierarchy.getAs fuel n key interface) .provided h
  | .getHandle n key interface =>
    match Hierarchy.getHandle n key interface h with
    | none => (.endless, h)
    | some (.error report, h) => (.handed (.error report), h)
    | some (.ok handle, h) => (.handed (.ok handle), h.hold n)
  | .getFrom fuel handle => answering (Hierarchy.getFrom fuel handle) .provided h
  | .binding n key =>
    let found := h.binding? n key
    (.found found, h.holdBindings found.toList)
  | .bindings n => (.listed (h.bindings n), h.holdBindings (h.bindings n))
  | .scope n tag =>
    let (found, h) := h.findScope n tag
    (.scope found, h)
  | .parent n => (.parent (h.parent? n), h)
  | .act update => (.user h.user, { h with user := update h.user })
  | .resolve n key => answering (Hierarchy.resolve n key) .resolved h
  | .keep number height value => (.done, { h with kept := h.kept.insert (number, height) value })

/-- Whether a call can be made. -/
def allows (h : Hierarchy) : Call → Bool
  | .create parent _ _ => parent.all h.isLive
  | .hold n | .resolve n _ => h.isLive n
  | .drop n | .get _ n _ | .getAs _ n _ _ | .getHandle n _ _ | .binding n _ | .bindings n | .scope n _ | .parent n =>
    decide (n ∈ h.holds)
  | .getFrom _ handle => h.honours handle
  | .act _ => true
  | .keep number _ _ => decide (number < h.nextBinding)

/-- What a call answers, and leaves behind. -/
def perform (h : Hierarchy) (call : Call) : Reply × Hierarchy :=
  if h.allows call then h.answer call else (.refused, h)

/-- The replies to calls, from the first to the last. -/
def replies : List Call → Hierarchy → List Reply
  | [], _ => []
  | call :: calls, h => (h.perform call).1 :: replies calls (h.perform call).2

/-- What calls leave behind. -/
def after (calls : List Call) (h : Hierarchy) : Hierarchy :=
  calls.foldl (fun h call => (h.perform call).2) h

variable {ρ : BindingId → BindingId} {h h' : Hierarchy} {n : InjectorId} {key : Key}

namespace Twin

-- ---------------------------------------------------------------------------
-- Single calls
-- ---------------------------------------------------------------------------

theorem honours (hT : Twin ρ h h') (handle : Handle) : h'.honours (handle.renumber ρ) = h.honours handle := by
  unfold Hierarchy.honours Handle.renumber Binding.renumber
  simp only [hT.holds, hT.path, hT.number_lt_iff]

theorem allows (hT : Twin ρ h h') (call : Call) : h'.allows (call.renumber ρ) = h.allows call := by
  cases call with
  | create parent module explicitOnly => exact congrArg parent.all (funext hT.isLive)
  | hold n => exact hT.isLive n
  | resolve n key => exact hT.isLive n
  | getFrom fuel handle => exact hT.honours handle
  | keep number height value => simp only [Call.renumber, Hierarchy.allows, hT.number_lt_iff]
  | act update => rfl
  | _ => simp only [Call.renumber, Hierarchy.allows, hT.holds]

theorem alike (hT : Twin ρ h h') (hn : n ∈ h.holds) : Alike ρ 0 n h h' :=
  ⟨hT, anchored_of_mem_holds hn, Nat.zero_le _⟩

/-- What is provided in step is answered in the same way. -/
theorem answering {α α' : Type} {V : α → α' → Prop} {x : Run Hierarchy α} {x' : Run Hierarchy α'}
    {reply : Except Report α → Reply} {reply' : Except Report α' → Reply} (hT : Twin ρ h h')
    (hMatch : Match V (Twin ρ) (x h) (x' h'))
    (hError : ∀ report, reply' (.error report) = (reply (.error report)).renumber ρ)
    (hOk : ∀ a a', V a a' → reply' (.ok a') = (reply (.ok a)).renumber ρ) :
    (Hierarchy.answering x' reply' h').1 = (Hierarchy.answering x reply h).1.renumber ρ ∧
      Twin ρ (Hierarchy.answering x reply h).2 (Hierarchy.answering x' reply' h').2 := by
  unfold Hierarchy.answering
  generalize x h = first at hMatch ⊢
  generalize x' h' = second at hMatch ⊢
  cases hMatch with
  | endless => exact ⟨rfl, hT⟩
  | error hAfter => exact ⟨hError _, hAfter⟩
  | ok hValue hAfter => exact ⟨hOk _ _ hValue, hAfter⟩

theorem answering_provided {x x' : Run Hierarchy Instance} (hT : Twin ρ h h')
    (hMatch : Match Eq (Twin ρ) (x h) (x' h')) :
    (Hierarchy.answering x' .provided h').1 = (Hierarchy.answering x .provided h).1.renumber ρ ∧
      Twin ρ (Hierarchy.answering x .provided h).2 (Hierarchy.answering x' .provided h').2 :=
  hT.answering hMatch (fun _ => rfl) fun _ _ hSame => by rw [hSame]; rfl

theorem holdBindings (hT : Twin ρ h h') (bindings : List Binding)
    (hMade : ∀ binding ∈ bindings, binding.id < h.nextBinding) :
    Twin ρ (h.holdBindings bindings) (h'.holdBindings (bindings.map (Binding.renumber ρ))) := by
  induction bindings generalizing h h' with
  | nil => exact hT
  | cons first rest ih =>
    exact ih (hT.holdBinding (hMade first List.mem_cons_self)) fun binding hMem =>
      hMade binding (List.mem_cons_of_mem first hMem)

/-- A handle is given out together with a hold on its injector. -/
theorem answer_getHandle (hT : Twin ρ h h') (hn : n ∈ h.holds) (key : Key) (interface : Interface) :
    (h'.answer (.getHandle n key interface)).1 = (h.answer (.getHandle n key interface)).1.renumber ρ ∧
      Twin ρ (h.answer (.getHandle n key interface)).2 (h'.answer (.getHandle n key interface)).2 := by
  have hMatch := (stepwise_getHandle n key interface).match_alike (inStep_getHandle n key interface) (hT.alike hn)
  simp only [answer]
  generalize Hierarchy.getHandle n key interface h = given at hMatch ⊢
  generalize Hierarchy.getHandle n key interface h' = given' at hMatch ⊢
  cases hMatch with
  | endless => exact ⟨rfl, hT⟩
  | error hAfter => exact ⟨rfl, hAfter.twin⟩
  | ok hSame hAfter =>
    subst hSame
    exact ⟨rfl, hAfter.twin.hold (hAfter.anchored.isLive hAfter.twin.wellFormed)⟩

/-- A call that can be made is answered in the same way. -/
theorem answer (hT : Twin ρ h h') {call : Call} (hAllowed : h.allows call = true) :
    (h'.answer (call.renumber ρ)).1 = (h.answer call).1.renumber ρ ∧
      Twin ρ (h.answer call).2 (h'.answer (call.renumber ρ)).2 := by
  cases call with
  | create parent module explicitOnly =>
    have hLive : ∀ p, parent = some p → h.isLive p = true := by
      rintro p rfl
      exact hAllowed
    obtain ⟨hOutcome, hAfter⟩ := hT.create module explicitOnly hLive
    exact ⟨congrArg Reply.created hOutcome, hAfter⟩
  | hold n => exact ⟨rfl, hT.hold hAllowed⟩
  | drop n => exact ⟨rfl, hT.release n⟩
  | get fuel n key =>
    exact hT.answering_provided (inStep_getInstance fuel n key (hT.alike (of_decide_eq_true hAllowed)))
  | getAs fuel n key interface =>
    exact hT.answering_provided (inStep_getAs fuel n key interface (hT.alike (of_decide_eq_true hAllowed)))
  | getHandle n key interface => exact hT.answer_getHandle (of_decide_eq_true hAllowed) key interface
  | getFrom fuel handle =>
    obtain ⟨hn, hOwner, hMade⟩ := of_decide_eq_true hAllowed
    have hAnchored := (anchored_of_mem_holds hn).up hT.wellFormed hOwner
    exact hT.answering_provided (inStep_getFrom fuel (Nat.lt_succ_self _) ⟨hT, hAnchored, hMade⟩)
  | binding n key =>
    have hFound := hT.binding? n key
    have hMade : ∀ binding ∈ (h.binding? n key).toList, binding.id < h.nextBinding := fun binding hMem =>
      hT.wellFormed.numbered (Option.mem_toList.mp hMem)
    have hHeld := hT.holdBindings _ hMade
    rw [← Option.toList_map, ← hFound] at hHeld
    exact ⟨congrArg Reply.found hFound, hHeld⟩
  | bindings n =>
    have hAll := hT.bindings n
    have hHeld := hT.holdBindings (h.bindings n) fun binding => hT.wellFormed.numbered_of_mem_bindings
    rw [← hAll] at hHeld
    exact ⟨congrArg Reply.listed hAll, hHeld⟩
  | scope n tag =>
    obtain ⟨hFound, hAfter⟩ := hT.findScope n tag
    exact ⟨congrArg Reply.scope hFound, hAfter⟩
  | parent n => exact ⟨congrArg (fun lineage => Reply.parent (List.head? lineage)) (hT.lineage n), hT⟩
  | act update =>
    have hUser : h'.user = h.user := hT.user
    have hAfter := hT.withUser (update h.user)
    simp only [Hierarchy.answer, Call.renumber, hUser]
    exact ⟨rfl, hAfter⟩
  | resolve n key =>
    exact hT.answering (hT.resolve hAllowed key) (fun _ => rfl) fun _ _ hSame => by rw [hSame]; rfl
  | keep number height value => exact ⟨rfl, hT.keep (of_decide_eq_true hAllowed) height value⟩

/-- What is refused in one is refused in the other, and what is answered is answered in the same way. -/
theorem perform (hT : Twin ρ h h') (call : Call) :
    (h'.perform (call.renumber ρ)).1 = (h.perform call).1.renumber ρ ∧
      Twin ρ (h.perform call).2 (h'.perform (call.renumber ρ)).2 := by
  unfold Hierarchy.perform
  rw [hT.allows call]
  split
  · next hAllowed => exact hT.answer hAllowed
  · exact ⟨rfl, hT⟩

-- ---------------------------------------------------------------------------
-- Many calls
-- ---------------------------------------------------------------------------

theorem replies (hT : Twin ρ h h') (calls : List Call) :
    Hierarchy.replies (calls.map (Call.renumber ρ)) h' = (Hierarchy.replies calls h).map (Reply.renumber ρ) := by
  induction calls generalizing h h' with
  | nil => rfl
  | cons call rest ih =>
    obtain ⟨hReply, hAfter⟩ := hT.perform call
    simp only [List.map_cons, Hierarchy.replies, hReply, ih hAfter]

theorem after (hT : Twin ρ h h') (calls : List Call) :
    Twin ρ (Hierarchy.after calls h) (Hierarchy.after (calls.map (Call.renumber ρ)) h') := by
  induction calls generalizing h h' with
  | nil => exact hT
  | cons call rest ih => exact ih (hT.perform call).2

end Twin

-- ---------------------------------------------------------------------------
-- The states between calls
-- ---------------------------------------------------------------------------

theorem Call.renumber_id (call : Call) : call.renumber id = call := by
  cases call <;> rfl

theorem twin_empty : Twin id {} {} where
  injective := Function.injective_id
  injectors := rfl
  holds := rfl
  heldBindings := rfl
  nextInjector := rfl
  nextBinding _ := rfl
  kept := rfl
  user := rfl
  wellFormed := wellFormed_empty
  wellFormed' := wellFormed_empty
  tidy := ⟨fun _ hMem => absurd hMem List.not_mem_nil, fun _ hMem => absurd hMem List.not_mem_nil⟩

/-- Whatever calls lead to is its own twin. -/
theorem twin_after (calls : List Call) : Twin id (after calls {}) (after calls {}) := by
  have hTwin := twin_empty.after calls
  rwa [(funext Call.renumber_id : Call.renumber id = id), List.map_id] at hTwin

end Hierarchy

end InjectorTree
