import Mathlib.Data.List.Forall2
import InjectorTree.Run

/-!
# Runs side by side

Two runs that begin in related states are compared by how they end: neither has an end, or both fail with one
report, or both succeed with related values. What they leave behind is related again.

* `Match` says so of two ends; `Match.bind`, `Match.within` and `Match.forEach` say that it is kept when runs are
  put together in the same way.
* `after`: the state that a run leaves behind.
-/

namespace InjectorTree.Run

variable {σ σ' α α' β β' : Type}

/-- The ends of two runs match: with values related by `V`, and with states related by `R` after them. -/
inductive Match (V : α → α' → Prop) (R : σ → σ' → Prop) :
    Option (Except Report α × σ) → Option (Except Report α' × σ') → Prop
  | endless : Match V R none none
  | error {report : Report} {s : σ} {s' : σ'} (hR : R s s') :
      Match V R (some (.error report, s)) (some (.error report, s'))
  | ok {a : α} {a' : α'} {s : σ} {s' : σ'} (hV : V a a') (hR : R s s') :
      Match V R (some (.ok a, s)) (some (.ok a', s'))

variable {V : α → α' → Prop} {W : β → β' → Prop} {R R' : σ → σ' → Prop} {s : σ} {s' : σ'}

namespace Match

theorem exists_ok {a : α} {second : Option (Except Report α' × σ')} (hMatch : Match V R (some (.ok a, s)) second) :
    ∃ a' s', second = some (.ok a', s') ∧ V a a' := by
  cases hMatch with
  | ok hValue _ => exact ⟨_, _, rfl, hValue⟩

theorem exists_error {report : Report} {second : Option (Except Report α' × σ')}
    (hMatch : Match V R (some (.error report, s)) second) : ∃ s', second = some (.error report, s') := by
  cases hMatch with
  | error _ => exact ⟨_, rfl⟩

/-- Either both runs have no end, or they end alike. -/
theorem cases {first : Option (Except Report α × σ)} {second : Option (Except Report α × σ')}
    (hMatch : Match Eq R first second) :
    (first = none ∧ second = none) ∨
      ∃ outcome s s', first = some (outcome, s) ∧ second = some (outcome, s') ∧ R s s' := by
  cases hMatch with
  | endless => exact Or.inl ⟨rfl, rfl⟩
  | error hAfter => exact Or.inr ⟨_, _, _, rfl, rfl, hAfter⟩
  | ok hValue hAfter =>
    subst hValue
    exact Or.inr ⟨_, _, _, rfl, rfl, hAfter⟩

theorem mono {V' : α → α' → Prop} {first : Option (Except Report α × σ)} {second : Option (Except Report α' × σ')}
    (hMatch : Match V R first second) (hV : ∀ a a', V a a' → V' a a') (hR : ∀ s s', R s s' → R' s s') :
    Match V' R' first second := by
  cases hMatch with
  | endless => exact .endless
  | error hAfter => exact .error (hR _ _ hAfter)
  | ok hValue hAfter => exact .ok (hV _ _ hValue) (hR _ _ hAfter)

/-- What is known of the state that the first run leaves behind can be added. -/
theorem and {P : σ → Prop} {first : Option (Except Report α × σ)} {second : Option (Except Report α' × σ')}
    (hMatch : Match V R first second) (hP : ∀ outcome s, first = some (outcome, s) → P s) :
    Match V (fun s s' => R s s' ∧ P s) first second := by
  cases hMatch with
  | endless => exact .endless
  | error hAfter => exact .error ⟨hAfter, hP _ _ rfl⟩
  | ok hValue hAfter => exact .ok hValue ⟨hAfter, hP _ _ rfl⟩

/-- Runs that go on with matching runs from what matching runs leave. A failure is the end, so it has to leave
what the whole is to leave. -/
theorem bind_of_ok {x : Run σ α} {x' : Run σ' α'} {f : α → Run σ β} {f' : α' → Run σ' β'}
    (hx : Match V R (x s) (x' s')) (hStop : ∀ s s', R s s' → R' s s')
    (hf : ∀ a a' s₁ s₁', x s = some (.ok a, s₁) → V a a' → R s₁ s₁' → Match W R' (f a s₁) (f' a' s₁')) :
    Match W R' ((x >>= f) s) ((x' >>= f') s') := by
  rw [bind_apply, bind_apply]
  generalize x s = first at hx hf ⊢
  generalize x' s' = second at hx ⊢
  cases hx with
  | endless => exact .endless
  | error hAfter => exact .error (hStop _ _ hAfter)
  | ok hValue hAfter => exact hf _ _ _ _ rfl hValue hAfter

theorem bind {x : Run σ α} {x' : Run σ' α'} {f : α → Run σ β} {f' : α' → Run σ' β'}
    (hx : Match V R (x s) (x' s')) (hStop : ∀ s s', R s s' → R' s s')
    (hf : ∀ a a' s s', V a a' → R s s' → Match W R' (f a s) (f' a' s')) :
    Match W R' ((x >>= f) s) ((x' >>= f') s') :=
  bind_of_ok hx hStop fun a a' s₁ s₁' _ => hf a a' s₁ s₁'

theorem within {x : Run σ α} {x' : Run σ' α'} (hx : Match V R (x s) (x' s')) (frame : Frame) :
    Match V R (Run.within frame x s) (Run.within frame x' s') := by
  unfold Run.within
  generalize x s = first at hx ⊢
  generalize x' s' = second at hx ⊢
  cases hx with
  | endless => exact .endless
  | error hAfter => exact .error hAfter
  | ok hValue hAfter => exact .ok hValue hAfter

/-- Runs for the elements of one list. -/
theorem forEach {γ : Type} {f : γ → Run σ α} {f' : γ → Run σ' α'} (list : List γ) (hs : R s s')
    (hf : ∀ c ∈ list, ∀ s s', R s s' → Match V R (f c s) (f' c s')) :
    Match (List.Forall₂ V) R (Run.forEach f list s) (Run.forEach f' list s') := by
  induction list generalizing s s' with
  | nil => exact .ok .nil hs
  | cons c rest ih =>
    have hRest := fun other hMem => hf other (List.mem_cons_of_mem c hMem)
    refine bind (hf c List.mem_cons_self s s' hs) (fun _ _ hAfter => hAfter) fun a a' s₁ s₁' hFirst hAfter => ?_
    refine bind (ih hAfter hRest) (fun _ _ hAfter => hAfter) fun others others' s₂ s₂' hOthers hAfter => ?_
    exact .ok (.cons hFirst hOthers) hAfter

end Match

-- ---------------------------------------------------------------------------
-- What a run leaves behind
-- ---------------------------------------------------------------------------

/-- The state that a run leaves behind, or the one that it began with if it has no end. -/
def after (x : Run σ α) (s : σ) : σ :=
  ((x s).map Prod.snd).getD s

theorem exists_ok_after {x : Run σ α} (hOk : (x s).map (·.1.toBool) = some true) :
    ∃ a, x s = some (.ok a, x.after s) := by
  unfold after
  rcases hx : x s with _ | ⟨report | a, s'⟩
  · rw [hx] at hOk
    cases hOk
  · rw [hx] at hOk
    cases hOk
  · exact ⟨a, rfl⟩

theorem exists_error_after {x : Run σ α} (hError : (x s).map (·.1.toBool) = some false) :
    ∃ report, x s = some (.error report, x.after s) := by
  unfold after
  rcases hx : x s with _ | ⟨report | a, s'⟩
  · rw [hx] at hError
    cases hError
  · exact ⟨report, rfl⟩
  · rw [hx] at hError
    cases hError

end InjectorTree.Run
