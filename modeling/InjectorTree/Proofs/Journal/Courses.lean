import Mathlib.Data.List.Nodup
import InjectorTree.Proofs.Journal.Requests
import InjectorTree.Proofs.Requests.Nesting

/-!
# Where requests with notes lead

What a request does to a hierarchy and its journal is said as a relation between the state in which it begins and the
state that it leaves behind. The relation may depend on the path of keys being provided.

* `Booked`: the journal knows of every binding; `Askable`: an injector can be asked.
* `Advances`: what every request with notes comes to, whatever it is about.
* `Navigable`: what has to be shown of a relation, so that programs and layers lead along it.
* `Charts`: what has to be shown besides, so that requests lead along it; `Charts.leads_obtainNoted` says that this is
  enough, by induction on how deeply requests are nested.
* `charts_advances`: requests lead along `Advances`.
-/

namespace InjectorTree

open Hierarchy Provision Run

namespace Hierarchy

/-- The journal knows of every binding, and has no two of one number. What was made and belongs to nobody was made on
demand. -/
structure Booked (s : Hierarchy × Journal) : Prop where
  order : s.2.made.Pairwise fun first second => first.id < second.id
  numbered : ∀ binding ∈ s.2.made, binding.id < s.1.nextBinding
  sublist : s.2.owned.Sublist s.2.made
  takenBack : ∀ binding ∈ s.2.made, binding ∈ s.2.owned ∨ Placement.OnDemand binding
  owned : ∀ {n : InjectorId} {key : Key} {binding : Binding}, s.1.binding? n key = some binding → binding ∈ s.2.owned

/-- The injector can be asked. -/
structure Askable (n : InjectorId) (s : Hierarchy × Journal) : Prop where
  wellFormed : s.1.WellFormed
  anchored : Anchored s.1 n

/-- What every request with notes comes to: steps that keep the holds, and entries about them. -/
structure Advances (s s' : Hierarchy × Journal) : Prop where
  excursion : Excursion s.1 s'.1
  entries : s.2 <+: s'.2
  booked : Booked s → Booked s'

variable {s s' s'' : Hierarchy × Journal} {n p : InjectorId} {key : Key} {made owned : List Binding}

-- ---------------------------------------------------------------------------
-- What the journal knows
-- ---------------------------------------------------------------------------

namespace Booked

/-- Two bindings that were made under one number are the same. -/
theorem unique (hB : Booked s) {first second : Binding} (hFirst : first ∈ s.2.made) (hSecond : second ∈ s.2.made)
    (hId : first.id = second.id) : first = second := by
  have hApart : (s.2.made.map (·.id)).Nodup := List.pairwise_map.mpr (hB.order.imp Nat.ne_of_lt)
  exact List.inj_on_of_nodup_map hApart hFirst hSecond hId

/-- Nothing is made, and nobody gets a binding. -/
theorem ofQuiet (hB : Booked s) (hNext : s.1.nextBinding ≤ s'.1.nextBinding) (hMade : s'.2.made = s.2.made)
    (hOwned : s'.2.owned = s.2.owned)
    (hOld : ∀ {n key binding}, s'.1.binding? n key = some binding → s.1.binding? n key = some binding) :
    Booked s' where
  order := hMade ▸ hB.order
  numbered binding hMem := Nat.lt_of_lt_of_le (hB.numbered binding (hMade ▸ hMem)) hNext
  sublist := by
    rw [hMade, hOwned]
    exact hB.sublist
  takenBack binding hMem := by
    rw [hOwned]
    exact hB.takenBack binding (hMade ▸ hMem)
  owned hb := hOwned ▸ hB.owned (hOld hb)

/-- What is made and comes to belong to its owners is entered. -/
theorem adds (hB : Booked s) (hA : Adds s.1 made owned s'.1)
    (hEntries : s'.2 = s.2 ++ made.map .made ++ owned.map .owned) : Booked s' := by
  have hMade : s'.2.made = s.2.made ++ made := by simp [hEntries]
  have hOwned : s'.2.owned = s.2.owned ++ owned := by simp [hEntries]
  refine ⟨?_, fun binding hMem => ?_, ?_, fun binding hMem => ?_, fun {m key binding} hb => ?_⟩
  · rw [hMade]
    exact List.pairwise_append.mpr ⟨hB.order, hA.order, fun first hFirst second hSecond =>
      Nat.lt_of_lt_of_le (hB.numbered first hFirst) (hA.older second hSecond)⟩
  · rw [hMade] at hMem
    exact (List.mem_append.mp hMem).elim
      (fun hOld => Nat.lt_of_lt_of_le (hB.numbered binding hOld) hA.nextBinding) (hA.newer binding)
  · rw [hMade, hOwned]
    exact hB.sublist.append hA.sublist
  · rw [hMade] at hMem
    rw [hOwned]
    exact (List.mem_append.mp hMem).elim
      (fun hOld => (hB.takenBack binding hOld).imp_left (List.mem_append_left owned))
      (fun hNew => (hA.takenBack binding hNew).imp_left (List.mem_append_right s.2.owned))
  · rw [hOwned]
    exact ((hA.binding? m key binding).mp hb).elim (fun hOld => List.mem_append_left _ (hB.owned hOld))
      fun hNew => List.mem_append_right _ hNew.1

/-- An entry about what happens to instances. -/
theorem noted (hB : Booked s) {entry : Entry} (hMade : entry.made? = none) (hOwned : entry.owned? = none) :
    Booked (s.1, s.2 ++ [entry]) :=
  hB.ofQuiet (Nat.le_refl _) (by simp [Journal.made, hMade]) (by simp [Journal.owned, hOwned]) id

/-- Whoever owns a binding, the binding was made. -/
theorem mem_made (hB : Booked s) {binding : Binding} (hb : s.1.binding? n key = some binding) :
    binding ∈ s.2.made :=
  hB.sublist.subset (hB.owned hb)

end Booked

-- ---------------------------------------------------------------------------
-- Advancing
-- ---------------------------------------------------------------------------

namespace Advances

protected theorem refl (s : Hierarchy × Journal) : Advances s s :=
  ⟨.refl s.1, List.prefix_refl _, id⟩

protected theorem trans (hA : Advances s s') (hA' : Advances s' s'') : Advances s s'' :=
  ⟨hA.excursion.trans hA'.excursion, hA.entries.trans hA'.entries, fun hB => hA'.booked (hA.booked hB)⟩

theorem askable (hS : Askable n s) (hA : Advances s s') : Askable n s' :=
  ⟨hA.excursion.wellFormed hS.wellFormed, hA.excursion.anchored hS.wellFormed hS.anchored⟩

end Advances

theorem Askable.noted (hS : Askable n s) (entry : Entry) : Askable n (s.1, s.2 ++ [entry]) :=
  ⟨hS.wellFormed, hS.anchored⟩

theorem Askable.isLive (hS : Askable n s) : s.1.isLive n = true :=
  hS.anchored.isLive hS.wellFormed

theorem Askable.isLive_parent (hS : Askable n s) : ∀ p, some n = some p → s.1.isLive p = true := by
  rintro p ⟨⟩
  exact hS.isLive

/-- User code asks the injector that it was given, or one above it. -/
theorem Askable.reach (hS : Askable n s) (m : InjectorId) : Askable (s.1.reach n m) s := by
  unfold Hierarchy.reach
  split
  · next hAbove => exact ⟨hS.wellFormed, hS.anchored.up hS.wellFormed hAbove⟩
  · exact hS

theorem course_advances (n : InjectorId) : Course (Askable n) Advances where
  refl := Advances.refl
  trans := Advances.trans
  stays := Advances.askable

/-- User code changes its state. -/
theorem advances_act (h : Hierarchy) (journal : Journal) (user : UserState) :
    Advances (h, journal) ({ h with user }, journal) :=
  ⟨.single (.act user) rfl, List.prefix_refl _, fun hB => hB.ofQuiet (Nat.le_refl _) rfl rfl id⟩

/-- A layer keeps an instance. -/
theorem advances_keep (h : Hierarchy) (journal : Journal) (number : BindingId) (height : Nat) (value : Instance) :
    Advances (h, journal) ({ h with kept := h.kept.insert (number, height) value }, journal) :=
  ⟨.single (.keep number height value) rfl, List.prefix_refl _, fun hB => hB.ofQuiet (Nat.le_refl _) rfl rfl id⟩

/-- An entry is made about what happens to instances. -/
theorem advances_note (s : Hierarchy × Journal) (entry : Entry) (hMade : entry.made? = none)
    (hOwned : entry.owned? = none) : Advances s (s.1, s.2 ++ [entry]) :=
  ⟨.refl s.1, List.prefix_append _ _, fun hB => hB.noted hMade hOwned⟩

theorem advances_about (s : Hierarchy × Journal) {entry : Entry} {number : BindingId}
    (hNumber : entry.number? = some number) : Advances s (s.1, s.2 ++ [entry]) := by
  cases entry with
  | made => cases hNumber
  | owned => cases hNumber
  | _ => exact advances_note s _ rfl rfl

section Making

variable {parent : Option InjectorId} {module : Module} {explicitOnly : Bool}

theorem advances_resolved {outcome : Except Report Binding} (hS : Askable n s)
    (hRun : resolveNoted n key s = some (outcome, s')) : Advances s s' := by
  obtain ⟨made, owned, hEntries, hAdds, -, -⟩ := resolveNoted_spec hS.wellFormed hS.isLive hRun
  refine ⟨(excursion_resolve hS.wellFormed hS.anchored ((tells_resolveNoted n key).run hRun)).1, ?_,
    fun hB => hB.adds hAdds hEntries⟩
  rw [hEntries, List.append_assoc]
  exact List.prefix_append _ _

/-- What is entered about a creation is which bindings it makes. -/
theorem entries_create (hW : s.1.WellFormed) (hLive : ∀ p, parent = some p → s.1.isLive p = true) (module : Module)
    (explicitOnly : Bool) : ∃ made : List Binding,
      (createNoted parent module explicitOnly s).2.2 = s.2 ++ made.map .made ++ made.map .owned := by
  rcases hRun : createNoted parent module explicitOnly s with ⟨reports | child, s'⟩
  · exact ⟨[], by simp [(createNoted_error hRun).1]⟩
  · obtain ⟨bindings, itself, hEntries, -⟩ := createNoted_ok hW hLive hRun
    exact ⟨bindings ++ [itself], hEntries⟩

theorem prefix_create (hW : s.1.WellFormed) (hLive : ∀ p, parent = some p → s.1.isLive p = true) (module : Module)
    (explicitOnly : Bool) : s.2 <+: (createNoted parent module explicitOnly s).2.2 := by
  obtain ⟨made, hEntries⟩ := entries_create hW hLive module explicitOnly
  rw [hEntries, List.append_assoc]
  exact List.prefix_append _ _

theorem booked_create (hB : Booked s) (hW : s.1.WellFormed) (hLive : ∀ p, parent = some p → s.1.isLive p = true)
    (module : Module) (explicitOnly : Bool) : Booked (createNoted parent module explicitOnly s).2 := by
  rcases hRun : createNoted parent module explicitOnly s with ⟨reports | child, s'⟩
  · have hMarked := create_error hW (create_of_noted hRun)
    have hSame := (createNoted_error hRun).1
    refine hB.ofQuiet hMarked.nextBinding (by rw [hSame]) (by rw [hSame]) fun hb => ?_
    rw [hMarked.core.binding?] at hb
    exact hb
  · obtain ⟨bindings, itself, hEntries, -, -, hAdds⟩ := createNoted_ok hW hLive hRun
    exact hB.adds hAdds hEntries

theorem advances_refused {reports : List Report} (hS : Askable n s)
    (hRun : createNoted (some n) module explicitOnly s = (.error reports, s')) : Advances s s' := by
  have hLive := hS.isLive_parent
  have hBooked := fun hB : Booked s => booked_create hB hS.wellFormed hLive module explicitOnly
  have hEntries := prefix_create hS.wellFormed hLive module explicitOnly
  rw [hRun] at hBooked hEntries
  exact ⟨excursion_refused hS.wellFormed hLive (create_of_noted hRun), hEntries, hBooked⟩

/-- Those who outlive a drop have what they had. -/
theorem booked_release (hB : Booked s) (hW : s.1.WellFormed) (n : InjectorId) : Booked (s.1.release n, s.2) := by
  refine hB.ofQuiet (continues_release hW n).nextBinding rfl rfl fun hb => ?_
  rw [binding?_release hW (isLive_of_binding? hb)] at hb
  exact hb

/-- A child is opened, something happens inside, and the child is kept or given up. -/
theorem advances_visited {child : InjectorId} {s₁ s₂ : Hierarchy × Journal} (hS : Askable n s)
    (hRun : createNoted (some n) module explicitOnly s = (.ok child, s₁)) (hInside : Advances s₁ s₂) :
    Advances s s₂ ∧ Advances s (s₂.1.release child, s₂.2) := by
  have hLive := hS.isLive_parent
  have hBooked := fun hB : Booked s => booked_create hB hS.wellFormed hLive module explicitOnly
  have hEntries := prefix_create hS.wellFormed hLive module explicitOnly
  rw [hRun] at hBooked hEntries
  have hCreated := create_of_noted hRun
  have hW₂ := hInside.excursion.wellFormed (wellFormed_created hS.wellFormed hLive hCreated)
  have hEntered := hEntries.trans hInside.entries
  exact ⟨⟨excursion_opened hS.wellFormed hLive hCreated hInside.excursion, hEntered,
      fun hB => hInside.booked (hBooked hB)⟩,
    ⟨excursion_visit hS.wellFormed hLive hCreated hInside.excursion, hEntered,
      fun hB => booked_release (hInside.booked (hBooked hB)) hW₂ child⟩⟩

/-- Inside the child, the child is asked. -/
theorem askable_created {child : InjectorId} (hS : Askable n s)
    (hRun : createNoted (some n) module explicitOnly s = (.ok child, s')) : Askable child s' := by
  have hLive := hS.isLive_parent
  have hCreated := create_of_noted hRun
  exact ⟨wellFormed_created hS.wellFormed hLive hCreated, anchored_created hS.wellFormed hLive hCreated⟩

end Making

/-- The binding can be provided: its owner can be asked, and it was made, if the journal knows of every binding. -/
structure Provided (binding : Binding) (s : Hierarchy × Journal) : Prop where
  askable : Askable binding.owner s
  made : Booked s → binding ∈ s.2.made

/-- What a key resolves to is of that key, and can be provided. -/
theorem provided_resolved {binding : Binding} (hS : Askable n s)
    (hRun : resolveNoted n key s = some (.ok binding, s')) : Provided binding s' ∧ binding.key = key := by
  have hPlain := (tells_resolveNoted n key).run hRun
  have hW := ((advances_resolved hS hRun).askable hS).wellFormed
  have hBound := (owned_of_resolve hS.wellFormed hS.isLive hPlain).bound
  have hOwner := (excursion_resolve hS.wellFormed hS.anchored hPlain).2 binding rfl
  exact ⟨⟨⟨hW, hOwner⟩, fun hB => hB.mem_made hBound⟩, (hW.binding? hBound).1⟩

end Hierarchy

-- ---------------------------------------------------------------------------
-- Notes on the way
-- ---------------------------------------------------------------------------

/-- The entry is about what is done to construct an instance of the binding. -/
inductive Entry.Evaluates (number : BindingId) : Entry → Prop
  | did (deed : Deed) (hFor : deed.binding.id = number) : Evaluates number (.did deed)

theorem Entry.Evaluates.number? {number : BindingId} {entry : Entry} (hE : entry.Evaluates number) :
    entry.number? = some number := by
  cases hE with
  | did deed hFor => exact congrArg some hFor

/-- User code begins something, with a path that is not the one that it was given. -/
inductive Entry.Begins : Entry → List Key → Prop
  | asked (key : Key) : Begins (.asked key) []
  | strayed (path : List Key) : Begins (.strayed path) path

namespace Run

variable {G : Hierarchy × Journal → Prop} {R : Hierarchy × Journal → Hierarchy × Journal → Prop}

theorem Leads.noting {α : Type} (hC : Course G R) {x : Run (Hierarchy × Journal) α} (hx : Leads G R x)
    {entry : Except Report α → Entry} (hNote : ∀ outcome s, R s (s.1, s.2 ++ [entry outcome])) :
    Leads G R (noting entry x) := by
  intro s s' outcome hs hRun
  obtain ⟨journal, hInner, hEntry⟩ := noting_eq_some_iff.mp hRun
  obtain ⟨h', journal'⟩ := s'
  cases hEntry
  exact hC.trans (hx _ _ _ hs hInner) (hNote outcome (h', journal))

theorem leads_quietly {α : Type} {x : Run Hierarchy α}
    (hx : ∀ h h' outcome journal, x h = some (outcome, h') → R (h, journal) (h', journal)) :
    Leads G R (quietly x) := by
  rintro ⟨h, journal⟩ ⟨h', journal'⟩ outcome _ hRun
  obtain ⟨hInner, hSame⟩ := quietly_eq_some_iff.mp hRun
  cases hSame
  exact hx h h' outcome journal hInner

end Run

namespace Provision

-- ---------------------------------------------------------------------------
-- Programs and layers
-- ---------------------------------------------------------------------------

/-- What has to be shown of a relation, which may depend on the path of keys being provided, so that programs and layers
lead along it. -/
structure Navigable (R : List Key → Hierarchy × Journal → Hierarchy × Journal → Prop) : Prop where
  course : ∀ n path, Course (Askable n) (R path)
  act : ∀ path h journal user, R path (h, journal) ({ h with user }, journal)
  begun : ∀ {path path' entry h journal s'}, Entry.Begins entry path' → R path' (h, journal ++ [entry]) s' →
    R path (h, journal) s'
  refused : ∀ {n path module explicitOnly reports s s'}, Askable n s →
    createNoted (some n) module explicitOnly s = (.error reports, s') → R path s s'
  visited : ∀ {n path module explicitOnly child s s₁ s₂}, Askable n s →
    createNoted (some n) module explicitOnly s = (.ok child, s₁) → R path s₁ s₂ →
    R path s s₂ ∧ R path s (s₂.1.release child, s₂.2)
  resolved : ∀ {n path key outcome s s'}, Askable n s → resolveNoted n key s = some (outcome, s') → R path s s'

/-- Requests lead along the relations for their paths. -/
def ThroughoutNoted (R : List Key → Hierarchy × Journal → Hierarchy × Journal → Prop) (fuel : Nat) : Prop :=
  ∀ n key path, Leads (Askable n) (R path) (obtainNoted fuel n key path)

/-- The injector can be asked, and the hierarchy is this one. -/
def AskableIn (h : Hierarchy) (n : InjectorId) (s : Hierarchy × Journal) : Prop :=
  Askable n s ∧ s.1 = h

namespace Navigable

variable {R : List Key → Hierarchy × Journal → Hierarchy × Journal → Prop} {path : List Key} {role : Role}
  {n : InjectorId} {h : Hierarchy}

/-- A program leads where the demands lead that it makes, by recursion on the tree that it is. -/
theorem leads_runProgramNoted (hR : Navigable R) {answers : Answers role} {answersNoted : AnswersNoted role}
    (hTells : ∀ n demand, Tells (answersNoted n demand) (answers n demand)) :
    ∀ {program : Program role} {n : InjectorId} {h : Hierarchy},
      (∀ posed, Poses answers program n h posed →
        Leads (AskableIn posed.state posed.injector) (R path) (answersNoted posed.injector posed.demand)) →
      Leads (AskableIn h n) (R path) (runProgramNoted answersNoted program n)
  | .finish outcome, n, h, _ => fun s s' outcome' hS hRun =>
    leads_ofExcept (hR.course n path) outcome s s' outcome' hS.1 hRun
  | .act update next, n, h, hAnswers => by
    rintro ⟨h, journal⟩ s' outcome ⟨hS, rfl⟩ hRun
    have hAct := hR.act path h journal (update h.user)
    have hS' := (hR.course n path).stays hS hAct
    exact (hR.course n path).trans hAct (leads_runProgramNoted hR hTells
      (fun posed hPoses => hAnswers posed (.act hPoses)) _ s' outcome ⟨hS', rfl⟩ hRun)
  | .ask m demand next, n, h, hAnswers => by
    rintro s s' outcome ⟨hS, rfl⟩ hRun
    obtain ⟨reply, s₁, hAsk, hRest⟩ := exists_of_runProgramNoted_ask hRun
    have hFirst := hAnswers _ .now s s₁ reply ⟨hS.reach m, rfl⟩ hAsk
    have hS₁ := (hR.course n path).stays hS hFirst
    have hPlain := (hTells _ demand).run hAsk
    exact (hR.course n path).trans hFirst (leads_runProgramNoted hR hTells
      (fun posed hPoses => hAnswers posed (.later hPlain hPoses)) s₁ s' outcome ⟨hS₁, rfl⟩ hRest)
  | .visit module explicitOnly inside keeps next, n, h, hAnswers => by
    rintro s s' outcome ⟨hS, rfl⟩ hRun
    rcases hCreated : createNoted (some n) module explicitOnly s with ⟨reports | child, s₁⟩
    · rw [runProgramNoted_refused hCreated] at hRun
      have hFirst : R path s s₁ := hR.refused hS hCreated
      have hS₁ := (hR.course n path).stays hS hFirst
      exact (hR.course n path).trans hFirst (leads_runProgramNoted hR hTells
        (fun posed hPoses => hAnswers posed (.refused (create_of_noted hCreated) hPoses)) s₁ s' outcome ⟨hS₁, rfl⟩ hRun)
    · obtain ⟨inner, s₂, hInside, hRest⟩ := exists_of_runProgramNoted_opened hCreated hRun
      have hOpened := create_of_noted hCreated
      have hPlain := (tells_runProgramNoted hTells (inside child) child).run hInside
      have hInner := hR.visited hS hCreated (leads_runProgramNoted hR hTells
        (fun posed hPoses => hAnswers posed (.inside hOpened hPoses)) s₁ s₂ inner
        ⟨askable_created hS hCreated, rfl⟩ hInside)
      obtain ⟨s₃, hAfter, hFirst, hSame⟩ : ∃ s₃, (if keeps inner then s₂ else (s₂.1.release child, s₂.2)) = s₃ ∧
          R path s s₃ ∧ s₃.1 = if keeps inner then s₂.1 else s₂.1.release child := by
        split
        · exact ⟨s₂, rfl, hInner.1, rfl⟩
        · exact ⟨_, rfl, hInner.2, rfl⟩
      rw [hAfter] at hRest
      have hS₂ := (hR.course n path).stays hS hFirst
      exact (hR.course n path).trans hFirst (leads_runProgramNoted hR hTells
        (fun posed hPoses => hAnswers posed (.outside hOpened hPlain hPoses)) s₃ s' outcome ⟨hS₂, hSame⟩ hRest)

section

variable {fuel : Nat} (hR : Navigable R) (hAgain : ThroughoutNoted R fuel)
include hR hAgain

/-- What user code asks for is asked on a path of its own, so it leads along the relation for every path. -/
theorem leads_askNoted (path : List Key) (n : InjectorId) (key : Key) :
    Leads (Askable n) (R path) (askNoted (obtainNoted fuel) n key) := by
  intro s s' outcome hS hRun
  exact hR.begun (.asked key) (hAgain n key [] _ s' outcome (hS.noted (.asked key)) hRun)

/-- A demand leads along the relation for every path, if what is below does when it is turned to. -/
theorem leads_answerNoted {below : role = .scope → ProviderNoted} {demand : Demand role}
    (hBelow : ∀ hRole path', Posed.TurnsTo ⟨n, demand, h⟩ path' →
      Leads (AskableIn h n) (R path) (below hRole n path')) :
    Leads (AskableIn h n) (R path) (answerNoted (obtainNoted fuel) below n demand) := by
  have hC := hR.course n path
  have hAsk : ∀ key, Leads (Askable n) (R path) (askNoted (obtainNoted fuel) n key) := hR.leads_askNoted hAgain path n
  cases demand with
  | get key => exact (hAsk key).mono And.left
  | getAs key interface => exact ((hAsk key).bind hC fun value => (leads_ofExcept hC _).within _).mono And.left
  | getHandle key =>
    have hResolve : Leads (Askable n) (R path) (resolveNoted n key) := fun s s' outcome hS hRun => hR.resolved hS hRun
    exact ((hResolve.within _).bind hC fun _ => leads_pure hC ()).mono And.left
  | getFrom key interface => exact ((hAsk key).bind hC fun value => leads_ofExcept hC _).mono And.left
  | below path' => exact hBelow rfl path' .below

theorem leads_runBodyNoted (path : List Key) (program : Program .body) (n : InjectorId) :
    Leads (Askable n) (R path) (runBodyNoted (obtainNoted fuel) program n) := by
  intro s s' outcome hS hRun
  have hTells : ∀ n demand, Tells (bodyAnswersNoted (obtainNoted fuel) n demand) (bodyAnswers (obtain fuel) n demand) :=
    tells_answerNoted (tells_obtainNoted fuel) (by rintro ⟨⟩)
  have hProgram : Leads (AskableIn s.1 n) (R path) (runProgramNoted (bodyAnswersNoted (obtainNoted fuel)) program n) :=
    hR.leads_runProgramNoted hTells fun posed _ => hR.leads_answerNoted hAgain (by rintro ⟨⟩)
  exact hProgram s s' outcome ⟨hS, rfl⟩ hRun

/-- Layers lead where those below lead when it is their turn, by induction on the layers. -/
theorem leads_runLayersNoted {number : BindingId} {base : Provider} {baseNoted : ProviderNoted}
    (hTells : ∀ n path, Tells (baseNoted n path) (base n path))
    (hKeep : ∀ path h journal height value,
      R path (h, journal) ({ h with kept := h.kept.insert (number, height) value }, journal))
    {layers : List Layer}
    (hBase : ∀ m path' h', Turns (obtain fuel) number base ⟨layers, n, path, h⟩ ⟨[], m, path', h'⟩ →
      Leads (AskableIn h' m) (R path') (baseNoted m path')) :
    Leads (AskableIn h n) (R path) (runLayersNoted (obtainNoted fuel) number baseNoted layers n path) := by
  induction layers generalizing n path h with
  | nil => exact hBase n path h .here
  | cons layer below ih =>
    cases layer with
    | around provide =>
      have hBelow := tells_runLayersNoted (tells_obtainNoted fuel) number hTells below
      refine hR.leads_runProgramNoted (tells_scopeAnswersNoted (tells_obtainNoted fuel) hBelow path) ?_
      rintro ⟨m, demand, h'⟩ hPoses
      refine hR.leads_answerNoted hAgain ?_
      rintro - path' ⟨⟩
      have hTurned : Leads (AskableIn h' m) (R path') (runLayersNoted (obtainNoted fuel) number baseNoted below m path') :=
        ih fun p path'' h'' hTurns => hBase p path'' h'' (.around hPoses hTurns)
      split
      · next hSame => exact hSame ▸ hTurned
      · rintro s s' outcome ⟨hS, hState⟩ hRun
        exact hR.begun (.strayed path') (hTurned _ s' outcome ⟨hS.noted (.strayed path'), hState⟩ hRun)
    | once =>
      rintro s s' outcome ⟨hS, rfl⟩ hRun
      have hC := hR.course n path
      simp only [runLayersNoted] at hRun
      split at hRun
      · cases hRun
        exact hC.refl s
      · next hNone =>
        have hBelow : Leads (AskableIn s.1 n) (R path) (runLayersNoted (obtainNoted fuel) number baseNoted below n path) :=
          ih fun p path' h' hTurns => hBase p path' h' (.once hNone hTurns)
        split at hRun
        · cases hRun
        · next report s₁ hInner =>
          cases hRun
          exact hBelow s s' _ ⟨hS, rfl⟩ hInner
        · next value h₁ journal₁ hInner =>
          cases hRun
          exact hC.trans (hBelow s _ _ ⟨hS, rfl⟩ hInner) (hKeep path h₁ journal₁ _ _)

/-- A binding provides along every relation that its strategy, when it is its turn, what it keeps and the entries about
it follow. -/
theorem leads_runBindingNoted {binding : Binding}
    (hNote : ∀ path s (entry : Entry), entry.number? = some binding.id → entry.deed? = none →
      R path s (s.1, s.2 ++ [entry]))
    (hKeep : ∀ path h journal height value,
      R path (h, journal) ({ h with kept := h.kept.insert (binding.id, height) value }, journal))
    (hStrategy : ∀ n path' h', BindingTurns (obtain fuel) binding path h ⟨[], n, path', h'⟩ →
      Leads (AskableIn h' n) (R path') (runStrategyNoted (obtainNoted fuel) binding n path')) :
    Leads (AskableIn h binding.owner) (R path) (runBindingNoted (obtainNoted fuel) binding path) := by
  rintro s s' outcome ⟨hS, rfl⟩ hRun
  have hC := hR.course binding.owner path
  have hLive := hS.isLive
  have hTells : ∀ n path, Tells (runBaseNoted (obtainNoted fuel) binding n path)
      (runStrategy (obtain fuel) binding.key binding.strategy n path) := fun n path =>
    ((tells_runStrategyNoted (tells_obtainNoted fuel) binding n path).noting _).noted _
  have hBase : ∀ m path' h', BindingTurns (obtain fuel) binding path s.1 ⟨[], m, path', h'⟩ →
      Leads (AskableIn h' m) (R path') (runBaseNoted (obtainNoted fuel) binding m path') := by
    rintro m path' h' hTurns s₁ s₂ outcome ⟨hS₁, hState⟩ hRun
    obtain ⟨journal, hInner, hEntry⟩ := noting_eq_some_iff.mp hRun
    obtain ⟨h₂, _⟩ := s₂
    obtain rfl := hEntry
    have hFirst := hNote path' s₁ (.began binding.id) rfl rfl
    have hSecond := hStrategy m path' h' hTurns _ _ _ ⟨hS₁.noted (.began binding.id), hState⟩ hInner
    have hC' := hR.course m path'
    exact hC'.trans (hC'.trans hFirst hSecond) (hNote path' (h₂, journal) (.ended binding.id outcome) rfl rfl)
  have hLayers := (hR.leads_runLayersNoted hAgain hTells hKeep fun m path' h' hTurns =>
    hBase m path' h' ⟨hLive, hTurns⟩).within (.at binding.source)
  rw [runBindingNoted, note_bind] at hRun
  obtain ⟨journal, hInner, hEntry⟩ := noting_eq_some_iff.mp hRun
  obtain ⟨h₂, _⟩ := s'
  obtain rfl := hEntry
  rw [if_pos hLive] at hInner
  have hFirst := hNote path s (.reached binding.id) rfl rfl
  have hSecond := hLayers _ _ _ ⟨hS.noted (.reached binding.id), rfl⟩ hInner
  exact hC.trans (hC.trans hFirst hSecond) (hNote path (h₂, journal) (.answered binding.id outcome) rfl rfl)

end

end Navigable

/-- A strategy leads where its requests and its user code lead, and the entries about what is done. -/
theorem leads_runStrategyNoted {G : Hierarchy × Journal → Prop} {R : Hierarchy × Journal → Hierarchy × Journal → Prop}
    (hC : Course G R) {binding : Binding}
    (hNote : ∀ s (entry : Entry), entry.Evaluates binding.id → R s (s.1, s.2 ++ [entry]))
    {again : AgainNoted} {n : InjectorId} {path : List Key} (hAgain : ∀ key, Leads G R (again n key path))
    (hBody : ∀ program, Leads G R (runBodyNoted again program n)) :
    Leads G R (runStrategyNoted again binding n path) := by
  have hHooks : ∀ hooks value, Leads G R (runHooksNoted again binding n hooks value) := by
    intro hooks
    induction hooks with
    | nil => exact fun value => leads_pure hC value
    | cons hook rest ih =>
      intro value
      unfold runHooksNoted
      split
      · exact ((hBody _).noting hC fun outcome s => hNote s _ (.did _ rfl)).bind hC fun value => ih value
      · exact ih value
  unfold runStrategyNoted
  split
  · exact leads_pure hC _
  · next target _ => exact hAgain target
  · next run _ => exact hBody (run n path)
  · next constructor _ =>
    refine Leads.bind hC (leads_forEach hC (fun dependency => ?_) constructor.dependencies) fun arguments => ?_
    · exact (hAgain dependency).noting hC fun outcome s => hNote s _ (.did _ rfl)
    · refine ((hBody _).noting hC fun outcome s => hNote s _ (.did _ rfl)).bind hC fun value => ?_
      refine Leads.bind hC (leads_quietly fun h h' outcome journal hRun => ?_) fun h => hHooks (h.hooks n) value
      cases hRun
      exact hC.refl _

-- ---------------------------------------------------------------------------
-- Requests
-- ---------------------------------------------------------------------------

/-- What has to be shown of a relation, so that requests lead along it. A binding that provides is given that requests
lead along the relation for their paths. -/
structure Charts (R : List Key → Hierarchy × Journal → Hierarchy × Journal → Prop) : Prop extends Navigable R where
  provided : ∀ {fuel path binding}, binding.key ∉ path → ThroughoutNoted R fuel →
    Leads (Provided binding) (R path)
      (runBindingNoted (obtainNoted fuel) binding (path ++ [binding.key]))

namespace Charts

variable {R : List Key → Hierarchy × Journal → Hierarchy × Journal → Prop}

theorem leads_requestNoted (hR : Charts R) {fuel : Nat} (hAgain : ThroughoutNoted R fuel) (n : InjectorId)
    (key : Key) (path : List Key) : Leads (Askable n) (R path) (requestNoted (obtainNoted fuel) n key path) := by
  refine Leads.within ?_ _
  by_cases hKey : key ∈ path
  · have hRefused : extendPath path key = .error (.of (.cycleDetected key (path ++ [key]))) := if_pos hKey
    rw [hRefused]
    intro s s' outcome hS hRun
    cases hRun
    exact (hR.course n path).refl s
  · have hExtended : extendPath path key = .ok (path ++ [key]) := if_neg hKey
    rw [hExtended]
    intro s s' outcome hS hRun
    obtain ⟨path', s₀, hPath, hRest⟩ | ⟨report, s₀, hPath, -⟩ := bind_eq_some_iff.mp hRun
    · cases hPath
      rcases bind_eq_some_iff.mp hRest with ⟨binding, s₁, hResolve, hProvide⟩ | ⟨report, s₁, hResolve, hEq⟩
      · obtain ⟨hProvided, rfl⟩ := provided_resolved hS hResolve
        have hFirst : R path s s₁ := hR.resolved hS hResolve
        exact (hR.course n path).trans hFirst
          (hR.provided hKey hAgain s₁ s' outcome hProvided hProvide)
      · cases hEq
        exact hR.resolved hS hResolve
    · cases hPath

/-- Requests lead along the relation, by induction on how deeply they are nested. -/
theorem leads_obtainNoted (hR : Charts R) (fuel : Nat) (n : InjectorId) (key : Key) (path : List Key) :
    Leads (Askable n) (R path) (obtainNoted fuel n key path) := by
  induction fuel generalizing n key path with
  | zero =>
    intro s s' outcome _ hRun
    cases hRun
  | succ fuel ih => exact hR.leads_requestNoted ih n key path

theorem leads_getInstanceNoted (hR : Charts R) (fuel : Nat) (n : InjectorId) (key : Key) :
    Leads (Askable n) (R []) (getInstanceNoted fuel n key) :=
  hR.leads_obtainNoted fuel n key []

theorem leads_getAsNoted (hR : Charts R) (fuel : Nat) (n : InjectorId) (key : Key) (interface : Interface) :
    Leads (Askable n) (R []) (getAsNoted fuel n key interface) :=
  (hR.leads_getInstanceNoted fuel n key).bind (hR.course n []) fun value =>
    (leads_ofExcept (hR.course n []) (interface.recover value)).within _

theorem leads_getHandleNoted (hR : Charts R) (n : InjectorId) (key : Key) (interface : Interface) :
    Leads (Askable n) (R []) (getHandleNoted n key interface) := by
  have hResolve : Leads (Askable n) (R []) (resolveNoted n key) := fun s s' outcome hS hRun => hR.resolved hS hRun
  exact (hResolve.within _).bind (hR.course n []) fun binding =>
    leads_pure (hR.course n []) (⟨n, binding, interface⟩ : Handle)

theorem leads_getFromNoted (hR : Charts R) (fuel : Nat) (handle : Handle) :
    Leads (Provided handle.binding) (R []) (getFromNoted fuel handle) := by
  have hPath : extendPath [] handle.binding.key = .ok ([] ++ [handle.binding.key]) := if_neg List.not_mem_nil
  intro s s' outcome hS hRun
  unfold getFromNoted at hRun
  rw [hPath] at hRun
  obtain ⟨path, s₀, hStart, hRest⟩ | ⟨report, s₀, hStart, -⟩ := bind_eq_some_iff.mp hRun
  · cases hStart
    have hBinding : Leads (Provided handle.binding) (R [])
        (runBindingNoted (obtainNoted fuel) handle.binding ([] ++ [handle.binding.key])) :=
      hR.provided List.not_mem_nil (hR.leads_obtainNoted fuel)
    have hProvide := hBinding.within (.locating handle.binding.key)
    rcases bind_eq_some_iff.mp hRest with ⟨value, s₁, hValue, hRecover⟩ | ⟨report, s₁, hValue, hEq⟩
    · cases hRecover
      exact hProvide s _ _ hS hValue
    · cases hEq
      exact hProvide s _ _ hS hValue
  · cases hStart

end Charts

theorem advances_begun {h : Hierarchy} {journal : Journal} {entry : Entry} {path : List Key} {s' : Hierarchy × Journal}
    (hBegins : entry.Begins path) (hA : Advances (h, journal ++ [entry]) s') : Advances (h, journal) s' := by
  cases hBegins with
  | asked key => exact (advances_note (h, journal) (.asked key) rfl rfl).trans hA
  | strayed => exact (advances_note (h, journal) (.strayed _) rfl rfl).trans hA

theorem navigable_advances : Navigable fun _ => Advances where
  course n _ := course_advances n
  act _ := advances_act
  begun := advances_begun
  refused := advances_refused
  visited := advances_visited
  resolved := advances_resolved

/-- Requests advance, whatever they are about. -/
theorem charts_advances : Charts fun _ => Advances where
  toNavigable := navigable_advances
  provided {fuel path binding} _ hAgain s s' outcome hS := by
    refine navigable_advances.leads_runBindingNoted hAgain (fun _ s entry hNumber _ => advances_about s hNumber)
      (fun _ h journal => advances_keep h journal binding.id) (fun n path' h' _ => ?_) s s' outcome ⟨hS.askable, rfl⟩
    have hStrategy : Leads (Askable n) Advances (runStrategyNoted (obtainNoted fuel) binding n path') :=
      leads_runStrategyNoted (course_advances n) (fun s entry hE => advances_about s hE.number?)
        (fun key => hAgain n key path') fun program => navigable_advances.leads_runBodyNoted hAgain path' program n
    exact hStrategy.mono And.left

end Provision

end InjectorTree
