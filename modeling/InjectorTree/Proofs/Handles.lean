import InjectorTree.Proofs.Permanence
import InjectorTree.Proofs.Provision

/-!
# Handles

A handle is to the binding that its key was resolved to when it was requested. As long as the injector lives, its key
resolves to the same binding, so the handle provides what a request for the key does, from the same state. The two
part where the instance cannot be received through the interface: the request says for which key, the handle does
not.

* `resolve_again`: what was resolved once is found again, under every key.
* `getFrom_of_resolve`: a handle provides what a request provides, and then receives it; `getFrom_eq_answer`: a program
  that demands an instance of a handle is answered alike.
* `handle_provides`: when a handle and a request come to the same, and how they differ otherwise.
-/

namespace InjectorTree.Provision

open Hierarchy

variable {h h₁ h₂ h₃ : Hierarchy} {n : InjectorId} {key : Key} {interface : Interface} {handle : Handle}
  {binding : Binding} {value : Instance}

-- ---------------------------------------------------------------------------
-- The binding
-- ---------------------------------------------------------------------------

/-- What was resolved once is found again as long as the injector lives, the injector's own key included. -/
theorem resolve_again (hReach : Reachable h) (hn : h.isLive n = true)
    (hRun : h.resolve n key = some (.ok binding, h₁)) (hSteps : Steps h₁ h₂) (hn₂ : h₂.isLive n = true) :
    h₂.resolve n key = some (.ok binding, h₂) ∧ binding.key = key := by
  have hW := hReach.wellFormed
  have hW₁ := (wellFormed_resolve hW hn hRun).1
  have hOwned := owned_of_resolve hW hn hRun
  refine ⟨?_, (hW₁.binding? hOwned.bound).1⟩
  by_cases hKey : key = .injector
  · -- all on the path have this key, so the nearest one that has it is the injector itself
    subst hKey
    obtain ⟨own, hOwn⟩ := Option.isSome_iff_exists.mp (binding?_injector_isSome hn)
    have hSame := resolve_of_lookup (lookup_of_own hOwn)
    rw [hRun, Option.some.injEq, Prod.mk.injEq, Except.ok.injEq] at hSame
    obtain ⟨rfl, rfl⟩ := hSame
    exact resolve_of_lookup (lookup_of_own ((hSteps.continues hW₁).binding? hn₂ hOwn))
  · have hn₁ : h₁.isLive n = true := ((wellFormed_resolve hW hn hRun).2.1.isLive n).trans hn
    exact (hOwned.steps hW₁ hn₁ hSteps hn₂).resolve_eq (hSteps.wellFormed hW₁) hKey

/-- The handle was requested from the injector, some time before. -/
inductive Issued (n : InjectorId) (handle : Handle) (h : Hierarchy) : Prop
  | intro {before after : Hierarchy} {key : Key} {interface : Interface} (hReach : Reachable before)
      (hn : before.isLive n = true) (hHandle : getHandle n key interface before = some (.ok handle, after))
      (hSteps : Steps after h)

/-- As long as the injector lives, its key resolves to the binding of the handle. -/
theorem Issued.resolve_eq (hIssued : Issued n handle h) (hn : h.isLive n = true) :
    h.resolve n handle.binding.key = some (.ok handle.binding, h) := by
  obtain ⟨hReach, hWas, hHandle, hSteps⟩ := hIssued
  obtain ⟨binding, hRun, rfl⟩ := getHandle_eq_ok_iff.mp hHandle
  obtain ⟨hAgain, rfl⟩ := resolve_again hReach hWas hRun hSteps hn
  exact hAgain

/-- So the binding is owned on the path. -/
theorem Issued.owner_mem_path (hW : h.WellFormed) (hIssued : Issued n handle h) (hn : h.isLive n = true) :
    handle.binding.owner ∈ h.path n :=
  owner_mem_path_of_resolve hW (hIssued.resolve_eq hn)

-- ---------------------------------------------------------------------------
-- Two ways to ask
-- ---------------------------------------------------------------------------

/-- What a handle provides is the instance that a request provides, received without a word about the key. -/
theorem getFrom_of_resolve (fuel : Nat) (hRun : h.resolve n handle.binding.key = some (.ok handle.binding, h)) :
    getFrom fuel handle h =
      (getInstance (fuel + 1) n handle.binding.key >>= fun value => .ofExcept (handle.interface.recover value)) h := by
  have hProvided : getInstance (fuel + 1) n handle.binding.key h =
      Run.within (.locating handle.binding.key) (runBinding (obtain fuel) handle.binding [handle.binding.key]) h :=
    obtain_of_resolve hRun fuel List.not_mem_nil
  rw [getFrom_eq, Run.bind_apply, Run.bind_apply, hProvided]

/-- What a program demands of a handle comes to what the handle provides, as long as the injector lives. -/
theorem getFrom_eq_answer (hIssued : Issued n handle h) (hn : h.isLive n = true) (fuel : Nat) :
    getFrom fuel handle h =
      bodyAnswers (obtain (fuel + 1)) n (.getFrom handle.binding.key handle.interface) h :=
  getFrom_of_resolve fuel (hIssued.resolve_eq hn)

/-- A handle that was requested from a live injector, and a request at that injector for its key, both made in one
later state in which the injector is live: unless the key provides an instance that cannot be received through the
interface, they come to the same, which is the same outcome, error texts included, and the same state, that of user
code included, or no end. Otherwise both fail for the same problem and leave the same state behind, but only the
request says for which key. -/
theorem handle_provides (hReach : Reachable h) (hn : h.isLive n = true)
    (hHandle : getHandle n key interface h = some (.ok handle, h₁)) (hSteps : Steps h₁ h₂)
    (hn₂ : h₂.isLive n = true) (fuel : Nat) :
    ((∀ value h₃, getInstance (fuel + 1) n key h₂ = some (.ok value, h₃) → interface.admits value = true) →
      getFrom fuel handle h₂ = getAs (fuel + 1) n key interface h₂) ∧
    ∀ value h₃, getInstance (fuel + 1) n key h₂ = some (.ok value, h₃) → interface.admits value = false →
      let refusal := Report.of (.invalidInstance (.of interface.type) interface.type)
      getFrom fuel handle h₂ = some (.error refusal, h₃) ∧
        getAs (fuel + 1) n key interface h₂ = some (.error (refusal.within (.locating key)), h₃) := by
  obtain ⟨binding, hRun, rfl⟩ := getHandle_eq_ok_iff.mp hHandle
  obtain ⟨hAgain, rfl⟩ := resolve_again hReach hn hRun hSteps hn₂
  have hFrom : getFrom fuel ⟨n, binding, interface⟩ h₂ =
      (getInstance (fuel + 1) n binding.key >>= fun value => .ofExcept (interface.recover value)) h₂ :=
    getFrom_of_resolve fuel hAgain
  rw [hFrom, getAs, Run.bind_apply, Run.bind_apply]
  rcases getInstance (fuel + 1) n binding.key h₂ with _ | ⟨report | value, h₃⟩
  · exact ⟨fun _ => rfl, fun _ _ hOk => (nomatch hOk)⟩
  · exact ⟨fun _ => rfl, fun _ _ hOk => (nomatch hOk)⟩
  · refine ⟨fun hAdmits => ?_, ?_⟩
    · -- an instance that can be received is received in both ways
      simp only [Interface.recover_of_admits (hAdmits value h₃ rfl)]
      rfl
    · rintro _ _ ⟨⟩ hRefused
      simp only [Interface.recover_of_not_admits hRefused]
      exact ⟨rfl, rfl⟩

/-- A root that provides a `B` for the key of `A`. -/
def mislabelled : Hierarchy :=
  (create none ⟨[⟨.of ⟨10, "A"⟩, .fixed (.made 0 ⟨11, "B"⟩ (.primitive "")), none, .builtin⟩], [], [], [], []⟩ false
    {}).2

theorem reachable_mislabelled : Reachable mislabelled :=
  .single (.create fun _ hp => nomatch hp)

/-- A handle that receives the instance as a `B`, used after a child was created. -/
theorem handle_provides_in_mislabelled :
    let key := Key.of ⟨10, "A"⟩
    let interface := Interface.concrete ⟨11, "B"⟩
    let h₂ := (mislabelled.create (some 0) .empty false).2
    Reachable mislabelled ∧ mislabelled.isLive 0 = true ∧ Steps mislabelled h₂ ∧ h₂.isLive 0 = true ∧
      ∃ handle, getHandle 0 key interface mislabelled = some (.ok handle, mislabelled) ∧
        getFrom 1 handle h₂ = getAs 2 0 key interface h₂ ∧
        getFrom 1 handle h₂ = some (.ok (.made 0 ⟨11, "B"⟩ (.primitive "")), h₂) := by
  intro key interface h₂
  have hSteps : Steps mislabelled h₂ := .single (.create fun p hp => by cases hp; rfl)
  obtain ⟨binding, hFound⟩ : ∃ binding, mislabelled.lookup 0 key = some binding := ⟨_, rfl⟩
  have hHandle : getHandle 0 key interface mislabelled = some (.ok ⟨0, binding, interface⟩, mislabelled) :=
    getHandle_eq_ok_iff.mpr ⟨binding, resolve_of_lookup hFound, rfl⟩
  have hProvided : getInstance 2 0 key h₂ = some (.ok (.made 0 ⟨11, "B"⟩ (.primitive "")), h₂) := rfl
  have hAgree : getFrom 1 _ h₂ = getAs 2 0 key interface h₂ :=
    (handle_provides reachable_mislabelled rfl hHandle hSteps rfl 1).1 fun value h₃ hOk => by
      rw [hProvided] at hOk
      cases hOk
      rfl
  exact ⟨reachable_mislabelled, rfl, hSteps, rfl, _, hHandle, hAgree, hAgree.trans rfl⟩

/-- Received as an `A`, the instance is refused to a handle and to a request, in different words: only the request
says for which key. -/
theorem handle_says_less :
    let key := Key.of ⟨10, "A"⟩
    let interface := Interface.concrete ⟨10, "A"⟩
    Reachable mislabelled ∧ mislabelled.isLive 0 = true ∧
      ∃ handle, getHandle 0 key interface mislabelled = some (.ok handle, mislabelled) ∧
        ∃ told reported : Report, getFrom 1 handle mislabelled = some (.error told, mislabelled) ∧
          getAs 2 0 key interface mislabelled = some (.error reported, mislabelled) ∧
          told.trail = [] ∧ reported.trail = [.locating key] ∧ told.requestText ≠ reported.requestText := by
  intro key interface
  refine ⟨reachable_mislabelled, rfl, _, rfl, _, _, rfl, rfl, rfl, rfl, ?_⟩
  decide +kernel

end InjectorTree.Provision
