import InjectorTree.Proofs.Requests.Nesting

/-!
# User code that keeps to itself

Most user code makes few demands, or none at all. A program that makes no demands but certain ones, and opens no child,
leads where these demands lead.

* `Program.AsksOnly`: a program makes no demands but those that are allowed; `Program.Inert`: it makes none.
* `Layer.Quiet`: a layer does nothing but turn to what is below it, with what it was given.
* `leads_of_asksOnly`, `leads_of_quiet`: where such programs and such layers lead.
* `exists_of_quiet_error`: what such layers fail with is a report of their own, or comes from below all of them.
-/

namespace InjectorTree

/-- The program makes no demands but those that are allowed, and opens no child. -/
inductive Program.AsksOnly {role : Role} (allowed : InjectorId → Demand role → Prop) : Program role → Prop
  | finish {outcome : Except Report Instance} : AsksOnly allowed (.finish outcome)
  | act {update : UserState → UserState} {next : UserState → Program role}
      (hNext : ∀ user, AsksOnly allowed (next user)) : AsksOnly allowed (.act update next)
  | ask {m : InjectorId} {demand : Demand role} {next : Except Report demand.Reply → Program role}
      (hAllowed : allowed m demand) (hNext : ∀ reply, AsksOnly allowed (next reply)) :
      AsksOnly allowed (.ask m demand next)

/-- The program returns without calling an injector. -/
def Program.Inert (program : Program .body) : Prop :=
  program.AsksOnly fun _ _ => False

/-- The layer does nothing but turn to what is below it, with the injector and the path that it was given. -/
def Layer.Quiet : Layer → Prop
  | .once => True
  | .around provide => ∀ n path, (provide n path).AsksOnly fun m demand => m = n ∧ demand = .below path

namespace Provision

open Hierarchy Run

variable {G : Hierarchy → Prop} {R : Hierarchy → Hierarchy → Prop} {role : Role} {answers : Answers role}
  {allowed : InjectorId → Demand role → Prop} {program : Program role} {n : InjectorId} {path : List Key}
  {h h' : Hierarchy} {posed : Posed role} {again : Again} {number : BindingId} {base : Provider} {layers : List Layer}

-- ---------------------------------------------------------------------------
-- Programs
-- ---------------------------------------------------------------------------

/-- All demands that are allowed lead along the relation, when they are made by whoever was given the injector. -/
def AllowedLead (G : Hierarchy → Prop) (R : Hierarchy → Hierarchy → Prop) (answers : Answers role)
    (allowed : InjectorId → Demand role → Prop) (n : InjectorId) : Prop :=
  ∀ (h : Hierarchy) (m : InjectorId) (demand : Demand role), allowed m demand → Leads G R (answers (h.reach n m) demand)

theorem leads_of_asksOnly (hC : OpenCourse G R) (hAllowed : AllowedLead G R answers allowed n)
    (hOnly : program.AsksOnly allowed) : Leads G R (runProgram answers program n) := by
  induction hOnly with
  | finish => exact leads_ofExcept hC.toCourse _
  | @act update next _ ih =>
    intro h h' outcome hG hRun
    have hAct := hC.act h (update h.user)
    exact hC.trans hAct (ih h.user _ h' outcome (hC.stays hG hAct) hRun)
  | @ask m demand next hDemand _ ih =>
    intro h h' outcome hG hRun
    obtain ⟨reply, h₁, hAnswer, hRest⟩ := exists_of_runProgram_ask hRun
    have hFirst := hAllowed h m demand hDemand h h₁ reply hG hAnswer
    exact hC.trans hFirst (ih reply h₁ h' outcome (hC.stays hG hFirst) hRest)

/-- Each demand of the program is one of those that are allowed. -/
theorem exists_of_asksOnly (hOnly : program.AsksOnly allowed) (hPoses : Poses answers program n h posed) :
    ∃ m, posed.injector = posed.state.reach n m ∧ allowed m posed.demand := by
  induction hPoses with
  | act _ ih =>
    cases hOnly with
    | act hNext => exact ih (hNext _)
  | @now m =>
    cases hOnly with
    | ask hDemand => exact ⟨m, rfl, hDemand⟩
  | later _ _ ih =>
    cases hOnly with
    | ask _ hNext => exact ih (hNext _)
  | refused => cases hOnly
  | inside => cases hOnly
  | outside => cases hOnly

/-- The relation leads from the beginning to each demand, and from where the demand is met to the end. -/
theorem leads_around_demand (hC : OpenCourse G R) (hAllowed : AllowedLead G R answers allowed n)
    (hOnly : program.AsksOnly allowed) (hPoses : Poses answers program n h posed) (hG : G h) :
    R h posed.state ∧ ∀ {outcome h' reply after}, runProgram answers program n h = some (outcome, h') →
      answers posed.injector posed.demand posed.state = some (reply, after) → R after h' := by
  induction hPoses with
  | @act update next n h _ _ ih =>
    cases hOnly with
    | act hNext =>
      have hAct := hC.act h (update h.user)
      obtain ⟨hBefore, hAfter⟩ := ih hAllowed (hNext _) (hC.stays hG hAct)
      exact ⟨hC.trans hAct hBefore, hAfter⟩
  | @now m demand next n h =>
    cases hOnly with
    | ask hDemand hNext =>
      refine ⟨hC.refl h, fun {outcome h' reply after} hRun hAnswer => ?_⟩
      simp only [runProgram, hAnswer] at hRun
      have hFirst := hAllowed h m demand hDemand h after reply hG hAnswer
      exact leads_of_asksOnly hC hAllowed (hNext reply) after h' outcome (hC.stays hG hFirst) hRun
  | @later m demand next n h h₁ _ _ hAnswer _ ih =>
    cases hOnly with
    | ask hDemand hNext =>
      have hFirst := hAllowed h m demand hDemand h h₁ _ hG hAnswer
      obtain ⟨hBefore, hAfter⟩ := ih hAllowed (hNext _) (hC.stays hG hFirst)
      refine ⟨hC.trans hFirst hBefore, fun {outcome h' reply after} hRun hMet => ?_⟩
      simp only [runProgram, hAnswer] at hRun
      exact hAfter hRun hMet
  | refused => cases hOnly
  | inside => cases hOnly
  | outside => cases hOnly

/-- User code that makes no demands leads wherever user code leads that only works on its own state. -/
theorem leads_of_inert (hC : OpenCourse G R) {program : Program .body} (hInert : program.Inert) (n : InjectorId) :
    Leads G R (runBody again program n) :=
  leads_of_asksOnly hC (fun _ _ _ hNo => hNo.elim) hInert

theorem not_poses_of_inert {answers : Answers .body} {program : Program .body} {posed : Posed .body}
    (hInert : program.Inert) : ¬Poses answers program n h posed := by
  intro hPoses
  obtain ⟨-, -, hNo⟩ := exists_of_asksOnly hInert hPoses
  exact hNo

/-- What such user code fails with is its own report. -/
theorem own_of_inert {own : Report → Prop} {program : Program .body} (hInert : program.Inert)
    (hPasses : PassesOn own (bodyAnswers again) program n) {report : Report}
    (hRun : runBody again program n h = some (.error report, h')) : own report := by
  rcases hPasses h h' report hRun with hOwn | ⟨posed, after, hPoses, -⟩
  · exact hOwn
  · exact absurd hPoses (not_poses_of_inert hInert)

-- ---------------------------------------------------------------------------
-- Layers
-- ---------------------------------------------------------------------------

/-- A quiet layer makes one demand at most again and again: to be provided from below with what it was given. -/
theorem allowedLead_below {below : Provider} (hBelow : Leads G R (below n path)) :
    AllowedLead G R (scopeAnswers again below) (fun m demand => m = n ∧ demand = .below path) n := by
  rintro h m demand ⟨rfl, rfl⟩
  have hReach : h.reach m m = m := ite_self m
  rw [hReach]
  exact hBelow

/-- Whenever it makes the demand, the relation has led there, and it leads on from where the demand is met. -/
theorem quiet_demand (hC : OpenCourse G R) {below : Provider} (hBelow : Leads G R (below n path))
    {program : Program .scope} (hOnly : program.AsksOnly fun m demand => m = n ∧ demand = .below path)
    {posed : Posed .scope} (hPoses : Poses (scopeAnswers again below) program n h posed) (hG : G h) :
    (posed.injector = n ∧ posed.demand = .below path) ∧ R h posed.state ∧ ∀ {outcome h' reply after},
      runProgram (scopeAnswers again below) program n h = some (outcome, h') →
        scopeAnswers again below posed.injector posed.demand posed.state = some (reply, after) → R after h' := by
  obtain ⟨m, hReach, rfl, hDemand⟩ := exists_of_asksOnly hOnly hPoses
  have hSame : posed.state.reach m m = m := ite_self m
  exact ⟨⟨hReach.trans hSame, hDemand⟩, leads_around_demand hC (allowedLead_below hBelow) hOnly hPoses hG⟩

theorem leads_of_quiet (hC : OpenCourse G R) (hBase : Leads G R (base n path))
    (hQuiet : ∀ layer ∈ layers, layer.Quiet) : Leads G R (runLayers again number base layers n path) := by
  induction layers with
  | nil => exact hBase
  | cons layer below ih =>
    obtain ⟨hFirst, hRest⟩ := List.forall_mem_cons.mp hQuiet
    cases layer with
    | once => exact leads_once hC (ih hRest)
    | around provide => exact leads_of_asksOnly hC (allowedLead_below (ih hRest)) (hFirst n path)

/-- Quiet layers turn to those below with what they were given. -/
theorem Turns.of_quiet (hC : OpenCourse G R) {first last : Turn} (hTurns : Turns again number base first last)
    (hBase : Leads G R (base first.injector first.path)) (hQuiet : ∀ layer ∈ first.layers, layer.Quiet)
    (hG : G first.state) :
    last.injector = first.injector ∧ last.path = first.path ∧ R first.state last.state ∧
      ∀ layer ∈ last.layers, layer.Quiet := by
  induction hTurns with
  | here => exact ⟨rfl, rfl, hC.refl _, hQuiet⟩
  | once _ _ ih => exact ih hBase (List.forall_mem_cons.mp hQuiet).2 hG
  | around hPoses _ ih =>
    obtain ⟨hFirst, hRest⟩ := List.forall_mem_cons.mp hQuiet
    obtain ⟨⟨rfl, hDemand⟩, hBefore, -⟩ := quiet_demand hC (leads_of_quiet hC hBase hRest) (hFirst _ _) hPoses hG
    obtain rfl := Demand.below.inj hDemand
    obtain ⟨hInjector, hPath, hLater, hLast⟩ := ih hBase hRest (hC.stays hG hBefore)
    exact ⟨hInjector, hPath, hC.trans hBefore hLater, hLast⟩

/-- What quiet layers fail with is a report of their own, or what is below all of them fails with. -/
theorem exists_of_quiet_error (hC : OpenCourse G R) {own : Report → Prop} (hBase : Leads G R (base n path))
    (hQuiet : ∀ layer ∈ layers, layer.Quiet)
    (hPasses : ∀ provide, .around provide ∈ layers → ∀ answers n path, PassesOn own answers (provide n path) n)
    {report : Report} (hG : G h) (hRun : runLayers again number base layers n path h = some (.error report, h')) :
    own report ∨ ∃ h₁ h₂, R h h₁ ∧ base n path h₁ = some (.error report, h₂) ∧ R h₂ h' := by
  induction layers generalizing h h' with
  | nil => exact Or.inr ⟨h, h', hC.refl h, hRun, hC.refl h'⟩
  | cons layer below ih =>
    obtain ⟨hFirst, hRest⟩ := List.forall_mem_cons.mp hQuiet
    replace ih := fun {h h'} => @ih h h' hRest fun provide hMem => hPasses provide (List.mem_cons_of_mem _ hMem)
    cases layer with
    | once =>
      simp only [runLayers] at hRun
      split at hRun
      · cases hRun
      · split at hRun
        · cases hRun
        · next hInner =>
          cases hRun
          exact ih hG hInner
        · cases hRun
    | around provide =>
      have hOrigin := hPasses provide List.mem_cons_self _ n path h h' report hRun
      rcases hOrigin with hOwn | ⟨⟨m, demand, s⟩, after, hPoses, hAnswer⟩
      · exact Or.inl hOwn
      · obtain ⟨⟨rfl, rfl⟩, hBefore, hAfter⟩ :=
          quiet_demand hC (leads_of_quiet hC hBase hRest) (hFirst n path) hPoses hG
        have hLast := hAfter hRun hAnswer
        refine (ih (hC.stays hG hBefore) hAnswer).imp_right ?_
        rintro ⟨h₁, h₂, hUp, hBelow, hDown⟩
        exact ⟨h₁, h₂, hC.trans hBefore hUp, hBelow, hC.trans hDown hLast⟩

end Provision

end InjectorTree
