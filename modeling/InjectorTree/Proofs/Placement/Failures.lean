import InjectorTree.Placement

/-!
# What keeps a key from being resolved

A key that cannot be resolved is told so with one of a few problems: somebody below binds it, it is not declared or
declared wrongly, its scope is not registered, nothing is created on demand, or it cannot be converted. Cycles of
declarations are none of them, since a search finds what it has begun.

* `Run.FailsWith`: whenever a run fails, it is with such a problem.
* `failsWith_resolve`: the problems that keep a key from being resolved.
-/

namespace InjectorTree

namespace Run

variable {σ α β : Type} {P : Problem → Prop}

/-- Whenever the run fails, it is with such a problem. -/
def FailsWith (P : Problem → Prop) (x : Run σ α) : Prop :=
  ∀ s s' report, x s = some (.error report, s') → P report.problem

theorem failsWith_pure (a : α) : FailsWith P (pure a : Run σ α) := by
  intro s s' report hRun
  cases hRun

theorem failsWith_fail {report : Report} (hP : P report.problem) : FailsWith P (fail report : Run σ α) := by
  intro s s' report hRun
  cases hRun
  exact hP

theorem FailsWith.bind {x : Run σ α} {f : α → Run σ β} (hx : FailsWith P x) (hf : ∀ a, FailsWith P (f a)) :
    FailsWith P (x >>= f) := by
  intro s s' report hRun
  rcases bind_eq_error_iff.mp hRun with hFirst | ⟨a, s₁, -, hRest⟩
  · exact hx s s' report hFirst
  · exact hf a s₁ s' report hRest

/-- The trail of a report does not change its problem. -/
theorem FailsWith.within {x : Run σ α} (hx : FailsWith P x) (frame : Frame) : FailsWith P (within frame x) := by
  intro s s' report hRun
  obtain ⟨inner, hInner, rfl⟩ := within_eq_error_iff.mp hRun
  exact hx s s' inner hInner

theorem failsWith_forEach {f : α → Run σ β} (hf : ∀ a, FailsWith P (f a)) (list : List α) :
    FailsWith P (forEach f list) := by
  induction list with
  | nil => exact failsWith_pure []
  | cons a rest ih => exact (hf a).bind fun b => ih.bind fun bs => failsWith_pure (b :: bs)

end Run

/-- The problem is one with resolving a key. -/
def Problem.OfResolving : Problem → Prop
  | .childBlocksParent .. | .unresolvedScope .. | .scopedInstance .. | .selfBinding .. => True
  | .unresolvableDependency .. | .jitDisabled .. | .converterConflict .. | .conversionFailed .. => True
  | .duplicateBinding .. | .parentBlocksChild .. | .duplicateScope .. | .builtinKey .. => False
  | .cycleDetected .. | .invalidInstance .. | .constructionFailed .. => False

namespace Placement

open Run Problem

variable {n : InjectorId} {key : Key} {locate : InjectorId → Key → Run Draft Binding}

theorem failsWith_checkUnclaimed (n : InjectorId) (key : Key) : FailsWith OfResolving (checkUnclaimed n key) := by
  intro d d' report hRun
  simp only [checkUnclaimed] at hRun
  split at hRun
  · cases hRun
  · cases hRun
    trivial

theorem failsWith_visibleDeclaration (n : InjectorId) (key : Key) :
    FailsWith OfResolving (visibleDeclaration n key) := by
  intro d d' report hRun
  simp only [visibleDeclaration] at hRun
  split at hRun
  · cases hRun
  · cases hRun
    trivial

theorem failsWith_visibleScope (n : InjectorId) (declaration : Declaration) :
    FailsWith OfResolving (visibleScope n declaration) := by
  intro d d' report hRun
  simp only [visibleScope] at hRun
  split at hRun
  · cases hRun
  · split at hRun
    · cases hRun
    · cases hRun
      trivial

theorem failsWith_checkObjection (key : Key) (declaration : Declaration) :
    FailsWith OfResolving (checkObjection key declaration) := by
  unfold checkObjection
  split
  · next problem hObjection =>
    refine failsWith_fail ?_
    unfold Strategy.objection at hObjection
    grind [Problem.OfResolving, Report.of]
  · exact failsWith_pure ()

theorem failsWith_stage (n : InjectorId) (key : Key) (strategy : Strategy) (scope : Option (ScopeTag × Scope))
    (source : Source) (origin : Origin) : FailsWith OfResolving (stage n key strategy scope source origin) := by
  intro d d' report hRun
  cases hRun

theorem failsWith_runConverter (registration : ConverterRegistration) (text : String) (key : Key) :
    FailsWith OfResolving (runConverter registration text key) := by
  intro d d' report hRun
  simp only [runConverter] at hRun
  split at hRun
  · cases hRun
  · cases hRun
    trivial

theorem failsWith_convert (conversion : Conversion) (n : InjectorId) (key : Key) :
    FailsWith OfResolving (convert conversion n key) := by
  unfold convert
  split
  · refine (failsWith_runConverter _ _ _).bind fun value => ?_
    exact (failsWith_checkUnclaimed n key).bind fun _ => failsWith_stage _ _ _ _ _ _
  · exact failsWith_fail trivial

section Nested

variable (hLocate : ∀ n key, FailsWith OfResolving (locate n key))

include hLocate

theorem failsWith_createAt (n : InjectorId) (key : Key) : FailsWith OfResolving (createAt locate n key) := by
  refine (failsWith_checkUnclaimed n key).bind fun _ => ?_
  refine (failsWith_visibleDeclaration n key).bind fun declaration => ?_
  refine FailsWith.bind ?_ fun scope => ?_
  · exact ((failsWith_checkObjection key declaration).bind fun _ => failsWith_visibleScope n declaration).within _
  refine (failsWith_stage _ _ _ _ _ _).bind fun binding => ?_
  refine (failsWith_forEach (fun dependency => ?_) _).bind fun _ => failsWith_pure binding
  exact ((hLocate n dependency).within _).within _

theorem failsWith_attempt (n : InjectorId) (key : Key) : FailsWith OfResolving (attempt locate n key) := by
  intro d d' report hRun
  simp only [attempt] at hRun
  split at hRun
  · cases hRun
  · cases hRun
  · next hFailed =>
    cases hRun
    exact failsWith_createAt hLocate n key _ _ _ hFailed

theorem failsWith_place (n : InjectorId) (key : Key) (candidates : List InjectorId) :
    FailsWith OfResolving (place locate n key candidates) := by
  induction candidates with
  | nil => exact failsWith_attempt hLocate n key
  | cons candidate rest ih =>
    intro d d' report hRun
    simp only [place] at hRun
    split at hRun
    · exact ih _ _ _ hRun
    · split at hRun
      · cases hRun
      · cases hRun
      · exact ih _ _ _ hRun

theorem failsWith_createOnDemand (n : InjectorId) (key : Key) :
    FailsWith OfResolving (createOnDemand locate n key) := by
  intro d d' report hRun
  simp only [createOnDemand] at hRun
  split at hRun
  · exact failsWith_convert _ n key _ _ _ hRun
  · split at hRun
    · cases hRun
      trivial
    · exact failsWith_place hLocate n key _ _ _ _ hRun

end Nested

theorem failsWith_locate (fuel : Nat) : ∀ n key, FailsWith OfResolving (Placement.locate fuel n key) := by
  induction fuel with
  | zero =>
    intro n key d d' report hRun
    cases hRun
  | succ fuel ih =>
    intro n key d d' report hRun
    simp only [Placement.locate] at hRun
    split at hRun
    · cases hRun
    · exact failsWith_createOnDemand ih n key _ _ _ hRun

end Placement

/-- Whatever keeps a key from being resolved, it is no cycle of requests, and no failure of user code but of a
converter. -/
theorem Hierarchy.failsWith_resolve (n : InjectorId) (key : Key) :
    Run.FailsWith Problem.OfResolving (Hierarchy.resolve n key) := by
  intro h h' report hRun
  simp only [Hierarchy.resolve] at hRun
  split at hRun
  · cases hRun
  · split at hRun
    · cases hRun
    · cases hRun
    · next hFailed =>
      cases hRun
      exact Placement.failsWith_locate _ n key _ _ _ hFailed

end InjectorTree
