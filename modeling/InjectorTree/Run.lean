import InjectorTree.Report.Basic

/-!
# Runs

A run works on a state and ends with a value or a report; the state it leaves behind counts in both cases.
A run whose fuel is spent has no end, which is told apart from every failure.

* Runs form a lawful monad.
* `bind_eq_some_iff` takes a sequence of two runs apart.
* `within_eq_iff` says what a frame adds to a failure.
* `forEach_ok`, `exists_of_forEach_error` and `forEach_ends` reduce runs for each element to one of them.
-/

namespace InjectorTree

/-- A computation on a state, with a value or a report at its end; `none` if the fuel was spent before. -/
def Run (σ α : Type) : Type := σ → Option (Except Report α × σ)

namespace Run

variable {σ α β : Type}

/-- Ends at once with a value. -/
protected def pure (a : α) : Run σ α := fun s => some (.ok a, s)

/-- Ends at once with a report. -/
def fail (report : Report) : Run σ α := fun s => some (.error report, s)

/-- Never ends. -/
def exhausted : Run σ α := fun _ => none

/-- Goes on with the value of the first run, unless that fails. -/
protected def bind (x : Run σ α) (f : α → Run σ β) : Run σ β := fun s =>
  match x s with
  | none => none
  | some (.ok a, s) => f a s
  | some (.error report, s) => some (.error report, s)

instance : Monad (Run σ) where
  pure := Run.pure
  bind := Run.bind

/-- The state. -/
def get : Run σ σ := fun s => some (.ok s, s)

/-- A value that is already decided. -/
def ofExcept (x : Except Report α) : Run σ α := fun s => some (x, s)

/-- Adds a frame to the trail of a failure. -/
def within (frame : Frame) (x : Run σ α) : Run σ α := fun s =>
  match x s with
  | none => none
  | some (.ok a, s) => some (.ok a, s)
  | some (.error report, s) => some (.error (report.within frame), s)

/-- Runs one run for each element, from left to right, up to the first failure. -/
def forEach (f : α → Run σ β) : List α → Run σ (List β)
  | [] => Run.pure []
  | a :: rest => do
    let b ← f a
    let bs ← forEach f rest
    return b :: bs

instance : LawfulMonad (Run σ) :=
  LawfulMonad.mk' (Run σ)
    (fun x => funext fun s => by
      show Run.bind x (fun a => Run.pure a) s = x s
      unfold Run.bind
      rcases x s with _ | ⟨report | a, s'⟩ <;> rfl)
    (fun _ _ => rfl)
    (fun x f g => funext fun s => by
      show Run.bind (Run.bind x f) g s = Run.bind x (fun a => Run.bind (f a) g) s
      unfold Run.bind
      rcases x s with _ | ⟨report | a, s'⟩ <;> rfl)

/-! ## What the operations do -/

@[simp] theorem pure_apply (a : α) (s : σ) : (pure a : Run σ α) s = some (.ok a, s) := rfl

@[simp] theorem fail_apply (report : Report) (s : σ) :
    (fail report : Run σ α) s = some (.error report, s) := rfl

@[simp] theorem get_apply (s : σ) : (get : Run σ σ) s = some (.ok s, s) := rfl

@[simp] theorem ofExcept_apply (x : Except Report α) (s : σ) : ofExcept x s = some (x, s) := rfl

theorem bind_apply (x : Run σ α) (f : α → Run σ β) (s : σ) :
    (x >>= f) s =
      match x s with
      | none => none
      | some (.ok a, s) => f a s
      | some (.error report, s) => some (.error report, s) := rfl

theorem bind_eq_some_iff {x : Run σ α} {f : α → Run σ β} {s : σ} {r : Except Report β × σ} :
    (x >>= f) s = some r ↔
      (∃ a s', x s = some (.ok a, s') ∧ f a s' = some r) ∨
        ∃ report s', x s = some (.error report, s') ∧ r = (.error report, s') := by
  rw [bind_apply]
  rcases x s with _ | ⟨report | a, s'⟩
  · simp
  · simp [eq_comm, and_assoc]
  · simp [and_assoc]

theorem within_eq_some_iff {frame : Frame} {x : Run σ α} {s : σ} {r : Except Report α × σ} :
    within frame x s = some r ↔
      (∃ a s', x s = some (.ok a, s') ∧ r = (.ok a, s')) ∨
        ∃ report s', x s = some (.error report, s') ∧ r = (.error (report.within frame), s') := by
  unfold within
  rcases x s with _ | ⟨report | a, s'⟩
  · simp
  · simp [eq_comm, and_assoc]
  · simp [eq_comm, and_assoc]

/-- A sequence of two runs ends if the first one does, and the second one does after it. -/
theorem bind_ends {x : Run σ α} {f : α → Run σ β} {s : σ} (hx : ∃ r, x s = some r)
    (hf : ∀ a s', x s = some (.ok a, s') → ∃ r, f a s' = some r) : ∃ r, (x >>= f) s = some r := by
  obtain ⟨⟨outcome, s'⟩, hx⟩ := hx
  cases outcome with
  | error report => exact ⟨_, bind_eq_some_iff.mpr (Or.inr ⟨report, s', hx, rfl⟩)⟩
  | ok a =>
    obtain ⟨r, hr⟩ := hf a s' hx
    exact ⟨r, bind_eq_some_iff.mpr (Or.inl ⟨a, s', hx, hr⟩)⟩

theorem within_ends {frame : Frame} {x : Run σ α} {s : σ} (hx : ∃ r, x s = some r) :
    ∃ r, within frame x s = some r := by
  obtain ⟨⟨outcome, s'⟩, hx⟩ := hx
  cases outcome with
  | error report => exact ⟨_, within_eq_some_iff.mpr (Or.inr ⟨report, s', hx, rfl⟩)⟩
  | ok a => exact ⟨_, within_eq_some_iff.mpr (Or.inl ⟨a, s', hx, rfl⟩)⟩

theorem within_eq_ok_iff {frame : Frame} {x : Run σ α} {s s' : σ} {a : α} :
    within frame x s = some (.ok a, s') ↔ x s = some (.ok a, s') := by
  rw [within_eq_some_iff]
  simp

/-- However the run ends, within the frame it ends in the same state. -/
theorem within_eq_iff {frame : Frame} {x : Run σ α} {s s' : σ} {outcome : Except Report α} :
    within frame x s = some (outcome, s') ↔
      ∃ inner : Except Report α, x s = some (inner, s') ∧ outcome = inner.mapError (·.within frame) := by
  rw [within_eq_some_iff]
  constructor
  · rintro (⟨a, s'', hx, hEq⟩ | ⟨report, s'', hx, hEq⟩)
    · cases hEq
      exact ⟨_, hx, rfl⟩
    · cases hEq
      exact ⟨_, hx, rfl⟩
  · rintro ⟨inner, hx, rfl⟩
    cases inner with
    | ok a => exact Or.inl ⟨a, s', hx, rfl⟩
    | error report => exact Or.inr ⟨report, s', hx, rfl⟩

/-- The report of a run within a frame is that of the run, seen from one step further out. -/
theorem within_eq_error_iff {frame : Frame} {x : Run σ α} {s s' : σ} {report : Report} :
    within frame x s = some (.error report, s') ↔
      ∃ inner, x s = some (.error inner, s') ∧ report = inner.within frame := by
  rw [within_eq_some_iff]
  constructor
  · rintro (⟨a, s'', -, hEq⟩ | ⟨inner, s'', hx, hEq⟩)
    · cases hEq
    · cases hEq
      exact ⟨inner, hx, rfl⟩
  · rintro ⟨inner, hx, rfl⟩
    exact Or.inr ⟨inner, s', hx, rfl⟩

theorem bind_eq_ok_iff {x : Run σ α} {f : α → Run σ β} {s s' : σ} {b : β} :
    (x >>= f) s = some (.ok b, s') ↔ ∃ a s'', x s = some (.ok a, s'') ∧ f a s'' = some (.ok b, s') := by
  rw [bind_eq_some_iff]
  simp

theorem bind_eq_error_iff {x : Run σ α} {f : α → Run σ β} {s s' : σ} {report : Report} :
    (x >>= f) s = some (.error report, s') ↔
      x s = some (.error report, s') ∨
        ∃ a s'', x s = some (.ok a, s'') ∧ f a s'' = some (.error report, s') := by
  rw [bind_eq_some_iff, or_comm]
  apply or_congr_left
  constructor
  · rintro ⟨report', s'', hx, hEq⟩
    cases hEq
    exact hx
  · intro hx
    exact ⟨report, s', hx, rfl⟩

/-! ## Runs for each element -/

variable {P : σ → Prop} {f : α → Run σ β}

/-- All of them together come to one value for each element. -/
theorem length_of_forEach {list : List α} {bs : List β} {s s' : σ} (hRun : forEach f list s = some (.ok bs, s')) :
    bs.length = list.length := by
  induction list generalizing s bs with
  | nil =>
    cases hRun
    rfl
  | cons a rest ih =>
    obtain ⟨b, s₁, -, hOthers⟩ := bind_eq_ok_iff.mp hRun
    obtain ⟨others, s₂, hRest, hPure⟩ := bind_eq_ok_iff.mp hOthers
    cases hPure
    rw [List.length_cons, List.length_cons, ih hRest]

/-- What each of the runs keeps if it succeeds, all of them together keep. -/
theorem forEach_ok (hKeeps : ∀ a s b s', P s → f a s = some (.ok b, s') → P s') {list : List α} {bs : List β}
    {s s' : σ} (hs : P s) (hRun : forEach f list s = some (.ok bs, s')) : P s' := by
  induction list generalizing s bs with
  | nil =>
    cases hRun
    exact hs
  | cons a rest ih =>
    obtain ⟨b, s₁, hFirst, hRest⟩ := bind_eq_ok_iff.mp hRun
    obtain ⟨others, s₂, hOthers, hPure⟩ := bind_eq_ok_iff.mp hRest
    cases hPure
    exact ih (hKeeps a s b s₁ hs hFirst) hOthers

/-- The failure is that of one of the runs, after those before it have succeeded. -/
theorem exists_of_forEach_error {list : List α} {report : Report} {s s' : σ}
    (hRun : forEach f list s = some (.error report, s')) :
    ∃ before a after bs s₁, list = before ++ a :: after ∧ forEach f before s = some (.ok bs, s₁) ∧
      f a s₁ = some (.error report, s') := by
  induction list generalizing s with
  | nil => cases hRun
  | cons a rest ih =>
    rcases bind_eq_error_iff.mp hRun with hFirst | ⟨b, s₁, hFirst, hRest⟩
    · exact ⟨[], a, rest, [], s, rfl, rfl, hFirst⟩
    · rcases bind_eq_error_iff.mp hRest with hOthers | ⟨others, s₂, -, hPure⟩
      · obtain ⟨before, other, after, bs, s₂, rfl, hBefore, hFailed⟩ := ih hOthers
        refine ⟨a :: before, other, after, b :: bs, s₂, rfl, ?_, hFailed⟩
        exact bind_eq_ok_iff.mpr ⟨b, s₁, hFirst, bind_eq_ok_iff.mpr ⟨bs, s₂, hBefore, rfl⟩⟩
      · cases hPure

/-- It happens in a state to which the runs before it led. -/
theorem exists_mem_of_forEach_error (hKeeps : ∀ a s b s', P s → f a s = some (.ok b, s') → P s') {list : List α}
    {report : Report} {s s' : σ} (hs : P s) (hRun : forEach f list s = some (.error report, s')) :
    ∃ a ∈ list, ∃ s₁, P s₁ ∧ f a s₁ = some (.error report, s') := by
  obtain ⟨before, a, after, bs, s₁, rfl, hBefore, hFailed⟩ := exists_of_forEach_error hRun
  exact ⟨a, List.mem_append_right _ List.mem_cons_self, s₁, forEach_ok hKeeps hs hBefore, hFailed⟩

/-- If each of the runs ends, all of them together do. -/
theorem forEach_ends (hKeeps : ∀ a s b s', P s → f a s = some (.ok b, s') → P s')
    (hEnds : ∀ a s, P s → ∃ r, f a s = some r) (list : List α) {s : σ} (hs : P s) :
    ∃ r, forEach f list s = some r := by
  induction list generalizing s with
  | nil => exact ⟨_, rfl⟩
  | cons a rest ih =>
    refine bind_ends (hEnds a s hs) fun b s₁ hFirst => ?_
    exact bind_ends (ih (hKeeps a s b s₁ hs hFirst)) fun _ _ _ => ⟨_, rfl⟩

end Run

end InjectorTree
