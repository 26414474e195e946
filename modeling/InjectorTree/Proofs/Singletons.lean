import InjectorTree.Proofs.Journal.Histories
import InjectorTree.Proofs.Twins.Keeping

/-!
# Singletons

A binding in the scope of singletons keeps the first instance that its strategy provides. It is owned by one injector
and shared by all below it, so whoever comes to it, in whichever way, finds that instance.

What requests do to the binding is read off the entries about it. As long as no user code asks for an instance of the
binding while that is being constructed, each request that comes to the binding runs its strategy once, until the
strategy succeeds for the first time, and never after that.

* `Journal.about`: the entries about one binding; `Reentered`: user code has asked for what is being constructed.
* `Once`: what these entries are, in the order in which they are made.
* `charts_once`: requests lead along it; `singleton_once` says so of every history.
-/

namespace InjectorTree

open Hierarchy Provision Run

namespace Journal

/-- The entries about the instances of one binding. -/
def about (number : BindingId) (journal : Journal) : Journal :=
  journal.filter fun entry => entry.number? = some number

variable {number : BindingId}

theorem about_append (number : BindingId) (journal later : Journal) :
    (journal ++ later).about number = journal.about number ++ later.about number :=
  List.filter_append journal later

theorem about_eq_nil {journal : Journal} (hOther : ∀ entry ∈ journal, entry.number? ≠ some number) :
    journal.about number = [] :=
  List.filter_eq_nil_iff.mpr fun entry hMem => by simpa using hOther entry hMem

theorem about_cons_of_ne {entry : Entry} (hOther : entry.number? ≠ some number) (journal : Journal) :
    Journal.about number (entry :: journal) = journal.about number :=
  List.filter_cons_of_neg (by simpa using hOther)

theorem about_cons_self {entry : Entry} (hOwn : entry.number? = some number) (journal : Journal) :
    Journal.about number (entry :: journal) = entry :: journal.about number :=
  List.filter_cons_of_pos (by simpa using hOwn)

/-- While an instance of the binding was being constructed, user code has begun something, with a path that was not
handed to it, and after that a request has come to the binding. -/
def Reentered (number : BindingId) (journal : Journal) : Prop :=
  ∃ before inside after entry path, journal = before ++ .began number :: (inside ++ .reached number :: after) ∧
    entry ∈ inside ∧ Entry.Begins entry path ∧ ∀ outcome, .ended number outcome ∉ inside

/-- What has happened in between has happened. -/
theorem Reentered.append {journal : Journal} (hR : journal.Reentered number) (earlier later : Journal) :
    (earlier ++ journal ++ later).Reentered number := by
  obtain ⟨before, inside, after, entry, path, rfl, hBegun, hEnded⟩ := hR
  exact ⟨earlier ++ before, inside, after ++ later, entry, path, by simp, hBegun, hEnded⟩

/-- Where no user code has begun anything, nothing has been entered again. -/
theorem not_reentered {journal : Journal} (hNone : ∀ entry ∈ journal, ∀ path, ¬Entry.Begins entry path) :
    ¬journal.Reentered number := by
  rintro ⟨before, inside, after, entry, path, rfl, hMem, hBegins, -⟩
  exact hNone entry (by simp [hMem]) path hBegins

end Journal

variable {binding : Binding}

-- ---------------------------------------------------------------------------
-- What happens to a binding
-- ---------------------------------------------------------------------------

/-- The entries about a binding that keeps its first instance, between two states of what is kept.

A request that comes to the binding while nothing is kept turns to the strategy of the binding: arguments are asked
for, the constructor is called, and the hooks. If that fails, the request fails for the same reason and nothing is kept;
if it succeeds, the instance is provided and kept. A request that comes to the binding after that is provided with the
same instance, and nothing else is done. -/
inductive Once (binding : Binding) : Option Instance → Journal → Option Instance → Prop
  | nothing {kept : Option Instance} : Once binding kept [] kept
  | failed {evaluation : Journal} {report : Report} {rest : Journal} {kept : Option Instance}
      (hEvaluation : ∀ entry ∈ evaluation, entry.Evaluates binding.id) (hRest : Once binding none rest kept) :
      Once binding none
        (.reached binding.id :: .began binding.id :: evaluation ++
          .ended binding.id (.error report) ::
          .answered binding.id (.error (report.within (.at binding.source))) :: rest)
        kept
  | first {evaluation : Journal} {value : Instance} {rest : Journal} {kept : Option Instance}
      (hEvaluation : ∀ entry ∈ evaluation, entry.Evaluates binding.id) (hRest : Once binding (some value) rest kept) :
      Once binding none
        (.reached binding.id :: .began binding.id :: evaluation ++
          .ended binding.id (.ok value) :: .answered binding.id (.ok value) :: rest)
        kept
  | again {value : Instance} {rest : Journal} {kept : Option Instance} (hRest : Once binding (some value) rest kept) :
      Once binding (some value) (.reached binding.id :: .answered binding.id (.ok value) :: rest) kept

namespace Once

variable {kept kept' kept'' : Option Instance} {journal later : Journal}

protected theorem append (hOnce : Once binding kept journal kept') (hLater : Once binding kept' later kept'') :
    Once binding kept (journal ++ later) kept'' := by
  induction hOnce with
  | nothing => exact hLater
  | failed hEvaluation _ ih =>
    rw [List.append_assoc]
    exact failed hEvaluation (ih hLater)
  | first hEvaluation _ ih =>
    rw [List.append_assoc]
    exact first hEvaluation (ih hLater)
  | again _ ih => exact again (ih hLater)

/-- Where no request has come, nothing has happened. -/
theorem eq_nil (hOnce : Once binding kept journal kept') (hUnreached : .reached binding.id ∉ journal) :
    journal = [] ∧ kept' = kept := by
  cases hOnce with
  | nothing => exact ⟨rfl, rfl⟩
  | failed => exact absurd List.mem_cons_self hUnreached
  | first => exact absurd List.mem_cons_self hUnreached
  | again => exact absurd List.mem_cons_self hUnreached

/-- What is kept stays, and what the strategy provides is kept. -/
theorem eq_some_iff (hOnce : Once binding kept journal kept') {value : Instance} :
    kept' = some value ↔ kept = some value ∨ .ended binding.id (.ok value) ∈ journal := by
  -- what is done while the strategy is at work does not end it
  have hWithin : ∀ {evaluation : Journal}, (∀ entry ∈ evaluation, entry.Evaluates binding.id) →
      .ended binding.id (.ok value) ∉ evaluation := fun hEvaluation hMem => nomatch hEvaluation _ hMem
  induction hOnce with
  | nothing => simp
  | failed hEvaluation _ ih => simp [ih, hWithin hEvaluation]
  | first hEvaluation _ ih => simp [ih, hWithin hEvaluation, eq_comm]
  | again _ ih => simp [ih]

end Once

-- ---------------------------------------------------------------------------
-- What passes by a binding
-- ---------------------------------------------------------------------------

/-- What is kept for a binding below all of its layers. -/
def Binding.kept? (binding : Binding) (h : Hierarchy) : Option Instance :=
  h.kept.get? (binding.id, 0)

/-- What can be seen of some entries before the first request that comes to the binding. If the key of the binding is on
the path, no request can come to it but one for the sake of which user code has begun something. -/
structure Passes (binding : Binding) (path : List Key) (later : Journal) : Prop where
  spaced : binding.key ∈ path → ∀ before after, later = before ++ .reached binding.id :: after →
    ∃ entry ∈ before, ∃ path, Entry.Begins entry path
  opens : ∀ before after, later = before ++ after → .reached binding.id ∉ before →
    ∀ outcome, .ended binding.id outcome ∉ before

namespace Passes

variable {path : List Key} {later later' : Journal}

/-- Where no request comes, and nothing ends. -/
theorem ofOther (hReached : .reached binding.id ∉ later) (hEnded : ∀ outcome, .ended binding.id outcome ∉ later) :
    Passes binding path later where
  spaced _ before _ hEq := absurd (hEq ▸ List.mem_append_right before List.mem_cons_self) hReached
  opens _ after hEq _ outcome hMem := hEnded outcome (hEq ▸ List.mem_append_left after hMem)

theorem mono {path' : List Key} (hP : Passes binding path' later) (hKey : binding.key ∈ path → binding.key ∈ path') :
    Passes binding path later :=
  ⟨fun hMem => hP.spaced (hKey hMem), hP.opens⟩

/-- A request for the sake of which user code has begun something can come to every binding. -/
theorem begun {path' : List Key} {entry : Entry} (hP : Passes binding path' later) (hBegins : entry.Begins path') :
    Passes binding path (entry :: later) where
  spaced _ before after hEq := by
    cases before with
    | nil =>
      rw [List.nil_append, List.cons.injEq] at hEq
      obtain ⟨rfl, -⟩ := hEq
      cases hBegins
    | cons first before =>
      rw [List.cons_append, List.cons.injEq] at hEq
      exact ⟨entry, hEq.1 ▸ List.mem_cons_self, path', hBegins⟩
  opens before after hEq hUnreached outcome hMem := by
    cases before with
    | nil => cases hMem
    | cons first before =>
      rw [List.cons_append, List.cons.injEq] at hEq
      obtain ⟨rfl, hRest⟩ := hEq
      rcases List.mem_cons.mp hMem with rfl | hMem
      · cases hBegins
      · exact hP.opens before after hRest (fun hReached => hUnreached (List.mem_cons_of_mem _ hReached)) outcome hMem

/-- Where the key of the binding is not on the path, a request may come to the binding at once. -/
theorem reached (hKey : binding.key ∉ path) (later : Journal) : Passes binding path (.reached binding.id :: later) where
  spaced hMem := absurd hMem hKey
  opens before after hEq hUnreached outcome hMem := by
    cases before with
    | nil => cases hMem
    | cons entry before =>
      rw [List.cons_append, List.cons.injEq] at hEq
      exact hUnreached (hEq.1 ▸ List.mem_cons_self)

protected theorem append (hP : Passes binding path later) (hP' : Passes binding path later') :
    Passes binding path (later ++ later') where
  spaced hKey before after hEq := by
    rcases List.append_eq_append_iff.mp hEq with ⟨between, rfl, hRest⟩ | ⟨between, rfl, hRest⟩
    · obtain ⟨entry, hMem, hBegins⟩ := hP'.spaced hKey between after hRest
      exact ⟨entry, List.mem_append_right later hMem, hBegins⟩
    · cases between with
      | nil =>
        obtain ⟨entry, hMem, -⟩ := hP'.spaced hKey [] after hRest.symm
        cases hMem
      | cons entry between =>
        rw [List.cons_append, List.cons.injEq] at hRest
        exact hP.spaced hKey before between (by rw [hRest.1])
  opens before after hEq hUnreached outcome hMem := by
    rcases List.append_eq_append_iff.mp hEq with ⟨between, rfl, hRest⟩ | ⟨between, rfl, hRest⟩
    · rw [List.mem_append, not_or] at hUnreached
      rcases List.mem_append.mp hMem with hFirst | hSecond
      · exact hP.opens later [] (List.append_nil later).symm hUnreached.1 outcome hFirst
      · exact hP'.opens between after hRest hUnreached.2 outcome hSecond
    · exact hP.opens before between rfl hUnreached outcome hMem

/-- If a request comes to the binding while an instance of it is being constructed, user code has begun something in the
meantime. -/
theorem unreached (hP : Passes binding path later) (hKey : binding.key ∈ path) (earlier last : Journal)
    (hOnce : ¬Journal.Reentered binding.id (earlier ++ .began binding.id :: (later ++ last))) :
    .reached binding.id ∉ later := by
  intro hMem
  obtain ⟨before, after, rfl, hFirst⟩ := List.eq_append_cons_of_mem hMem
  obtain ⟨entry, hBegun, path', hBegins⟩ := hP.spaced hKey before after rfl
  refine hOnce ⟨earlier, before, after ++ last, entry, path', by simp, hBegun, hBegins, fun outcome => ?_⟩
  exact hP.opens before _ rfl hFirst outcome

end Passes

/-- Whatever was made under the number of the binding is the binding. -/
def Only (binding : Binding) (s : Hierarchy × Journal) : Prop :=
  ∀ other ∈ s.2.made, other.id = binding.id → other = binding

variable {s s' s'' : Hierarchy × Journal} {path : List Key}

theorem Only.earlier (hOnly : Only binding s') (hEntries : s.2 <+: s'.2) : Only binding s := by
  obtain ⟨later, hLater⟩ := hEntries
  intro other hMem
  refine hOnly other ?_
  rw [← hLater, Journal.made_append]
  exact List.mem_append_left _ hMem

/-- Some entries were made that pass by the binding. The property tells what they are about it, in between two states of
what is kept for it. -/
def Tail (P : Option Instance → Journal → Option Instance → Prop) (binding : Binding) (path : List Key)
    (s s' : Hierarchy × Journal) : Prop :=
  Only binding s' → ∃ later, s'.2 = s.2 ++ later ∧ Passes binding path later ∧
    P (binding.kept? s.1) later (binding.kept? s'.1)

/-- The property holds of nothing, and of what happens after each other. -/
structure Composes (P : Option Instance → Journal → Option Instance → Prop) : Prop where
  nil : ∀ kept, P kept [] kept
  append : ∀ {kept kept' kept'' later later'}, P kept later kept' → P kept' later' kept'' →
    P kept (later ++ later') kept''

/-- Unless the binding is entered again, this is what happens to it. -/
def Regular (binding : Binding) (kept : Option Instance) (later : Journal) (kept' : Option Instance) : Prop :=
  ¬later.Reentered binding.id → Once binding kept (later.about binding.id) kept'

/-- What happens to a binding while its strategy is at work, as long as no request comes to it. -/
def Working (binding : Binding) (kept : Option Instance) (later : Journal) (kept' : Option Instance) : Prop :=
  .reached binding.id ∉ later → (∀ entry ∈ later.about binding.id, entry.Evaluates binding.id) ∧ kept' = kept

theorem composes_regular (binding : Binding) : Composes (Regular binding) where
  nil kept _ := .nothing
  append {kept kept' kept'' later later'} hFirst hSecond hOnce := by
    rw [Journal.about_append]
    refine (hFirst fun hR => hOnce ?_).append (hSecond fun hR => hOnce ?_)
    · exact hR.append [] later'
    · have hAll := hR.append later []
      rwa [List.append_nil] at hAll

theorem composes_working (binding : Binding) : Composes (Working binding) where
  nil kept _ := ⟨fun _ hMem => absurd hMem List.not_mem_nil, rfl⟩
  append {kept kept' kept'' later later'} hFirst hSecond hUnreached := by
    rw [List.mem_append, not_or] at hUnreached
    obtain ⟨hEvaluation, rfl⟩ := hFirst hUnreached.1
    obtain ⟨hEvaluation', rfl⟩ := hSecond hUnreached.2
    rw [Journal.about_append]
    exact ⟨List.forall_mem_append.mpr ⟨hEvaluation, hEvaluation'⟩, rfl⟩

/-- Where no request comes to the binding, nothing happens to it. -/
theorem Regular.working {kept kept' : Option Instance} {later : Journal} (hR : Regular binding kept later kept') :
    Working binding kept later kept' := by
  intro hUnreached
  have hOnce := hR fun ⟨before, inside, after, _, _, hEq, _⟩ => hUnreached (by simp [hEq])
  obtain ⟨hNothing, hSame⟩ := hOnce.eq_nil fun hMem => hUnreached (List.mem_of_mem_filter hMem)
  rw [hNothing]
  exact ⟨fun _ hMem => absurd hMem List.not_mem_nil, hSame⟩

namespace Tail

variable {P : Option Instance → Journal → Option Instance → Prop}

protected theorem refl (hP : Composes P) (s : Hierarchy × Journal) : Tail P binding path s s := fun _ =>
  ⟨[], (List.append_nil _).symm, .ofOther List.not_mem_nil fun _ => List.not_mem_nil, hP.nil _⟩

protected theorem trans (hP : Composes P) (hT : Tail P binding path s s') (hT' : Tail P binding path s' s'') :
    Tail P binding path s s'' := by
  intro hOnly
  obtain ⟨later', hEntries', hPasses', hSecond⟩ := hT' hOnly
  obtain ⟨later, hEntries, hPasses, hFirst⟩ := hT (hOnly.earlier (hEntries' ▸ List.prefix_append _ _))
  exact ⟨later ++ later', by rw [hEntries', hEntries, List.append_assoc], hPasses.append hPasses',
    hP.append hFirst hSecond⟩

theorem mono {P' : Option Instance → Journal → Option Instance → Prop} {path' : List Key}
    (hT : Tail P' binding path' s s') (hP : ∀ {kept later kept'}, P' kept later kept' → P kept later kept')
    (hKey : binding.key ∈ path → binding.key ∈ path') : Tail P binding path s s' := by
  intro hOnly
  obtain ⟨later, hEntries, hPasses, hLater⟩ := hT hOnly
  exact ⟨later, hEntries, hPasses.mono hKey, hP hLater⟩

end Tail

/-- Nothing is noted about the binding, and what is kept for it stays. -/
theorem tail_other {later : Journal} (hEntries : s'.2 = s.2 ++ later)
    (hOther : ∀ entry ∈ later, entry.number? ≠ some binding.id) (hSame : binding.kept? s'.1 = binding.kept? s.1) :
    Tail (Regular binding) binding path s s' := by
  intro _
  refine ⟨later, hEntries, .ofOther (fun hMem => hOther _ hMem rfl) fun outcome hMem => hOther _ hMem rfl, fun _ => ?_⟩
  rw [Journal.about_eq_nil hOther, hSame]
  exact .nothing

theorem tail_quiet (hEntries : s'.2 = s.2) (hSame : s'.1.kept = s.1.kept) :
    Tail (Regular binding) binding path s s' := by
  have hNothing : s'.2 = s.2 ++ [] := hEntries.trans (List.append_nil _).symm
  refine tail_other hNothing (fun _ hMem => absurd hMem List.not_mem_nil) ?_
  rw [Binding.kept?, Binding.kept?, hSame]

/-- Entries about bindings that are made, and about owners. -/
theorem tail_entries {made owned : List Binding} (hEntries : s'.2 = s.2 ++ made.map .made ++ owned.map .owned)
    (hSame : s'.1.kept = s.1.kept) : Tail (Regular binding) binding path s s' := by
  rw [List.append_assoc] at hEntries
  refine tail_other hEntries (fun entry hMem => ?_) (by rw [Binding.kept?, Binding.kept?, hSame])
  rcases List.mem_append.mp hMem with hMade | hOwned
  · obtain ⟨other, -, rfl⟩ := List.mem_map.mp hMade
    exact nofun
  · obtain ⟨other, -, rfl⟩ := List.mem_map.mp hOwned
    exact nofun

/-- An entry that is not about the binding. -/
theorem tail_note (s : Hierarchy × Journal) {entry : Entry} (hOther : entry.number? ≠ some binding.id) :
    Tail (Regular binding) binding path s (s.1, s.2 ++ [entry]) :=
  tail_other rfl (fun other hMem => by rwa [List.mem_singleton.mp hMem]) rfl

-- ---------------------------------------------------------------------------
-- Requests
-- ---------------------------------------------------------------------------

/-- What requests with this path come to, as far as one binding is concerned. -/
def Along (P : Option Instance → Journal → Option Instance → Prop) (binding : Binding) (path : List Key)
    (s s' : Hierarchy × Journal) : Prop :=
  Advances s s' ∧ (Booked s → Tail P binding path s s')

theorem course_along {P : Option Instance → Journal → Option Instance → Prop} (hP : Composes P) (n : InjectorId)
    (path : List Key) : Course (Askable n) (Along P binding path) where
  refl s := ⟨.refl s, fun _ => .refl hP s⟩
  trans hFirst hSecond := ⟨hFirst.1.trans hSecond.1, fun hB => (hFirst.2 hB).trans hP (hSecond.2 (hFirst.1.booked hB))⟩
  stays hS hA := hA.1.askable hS

variable {n : InjectorId} {key : Key}

theorem tail_created {parent : Option InjectorId} {module : Module} {explicitOnly : Bool} (hW : s.1.WellFormed)
    (hLive : ∀ p, parent = some p → s.1.isLive p = true) :
    Tail (Regular binding) binding path s (createNoted parent module explicitOnly s).2 := by
  have hKept := (sameNotes_create parent module explicitOnly s.1).kept
  rcases hRun : createNoted parent module explicitOnly s with ⟨reports | child, s'⟩ <;>
    rw [create_of_noted hRun] at hKept
  · exact tail_quiet (createNoted_error hRun).1 hKept
  · obtain ⟨bindings, itself, hEntries, -⟩ := createNoted_ok hW hLive hRun
    exact tail_entries hEntries hKept

/-- What is noted when the strategy of the binding has come to its end, and nothing was kept before. -/
def Binding.ending (binding : Binding) (outcome : Except Report Instance) : Journal :=
  [.ended binding.id outcome, .answered binding.id (outcome.mapError (·.within (.at binding.source)))]

/-- The strategy of the binding works, and then its end is noted, and what is provided. -/
theorem regular_of_working {evaluation : Journal} {kept : Option Instance} {outcome : Except Report Instance}
    (hWorking : Working binding none evaluation kept) (hPasses : Passes binding path evaluation)
    (hKey : binding.key ∈ path) :
    Regular binding none (.reached binding.id :: .began binding.id :: evaluation ++ binding.ending outcome)
      (outcome.toOption.or kept) := by
  intro hOnce
  have hUnreached : .reached binding.id ∉ evaluation := hPasses.unreached hKey [.reached binding.id] _ hOnce
  obtain ⟨hEvaluation, rfl⟩ := hWorking hUnreached
  have hAbout : Journal.about binding.id
      (.reached binding.id :: .began binding.id :: evaluation ++ binding.ending outcome) =
      .reached binding.id :: .began binding.id :: evaluation.about binding.id ++ binding.ending outcome := by
    rw [Binding.ending, Journal.about_append, Journal.about_cons_self rfl, Journal.about_cons_self rfl,
      Journal.about_cons_self rfl, Journal.about_cons_self rfl]
    rfl
  rw [hAbout]
  cases outcome with
  | error report => exact .failed hEvaluation .nothing
  | ok value => exact .first hEvaluation .nothing

section Providing

variable {again : AgainNoted} {fuel : Nat} {outcome : Except Report Instance}

/-- The layer of singletons provides what it keeps, or else what is below, and keeps that. -/
theorem runLayersNoted_once {number : BindingId} {base : ProviderNoted}
    (hRun : runLayersNoted again number base [.once] n path s = some (outcome, s')) :
    (∃ value, s.1.kept.get? (number, 0) = some value ∧ outcome = .ok value ∧ s' = s) ∨
    (s.1.kept.get? (number, 0) = none ∧ ∃ h, base n path s = some (outcome, h, s'.2) ∧
      s'.1.kept.get? (number, 0) = outcome.toOption.or (h.kept.get? (number, 0))) := by
  simp only [runLayersNoted] at hRun
  split at hRun
  · next value hKept =>
    cases hRun
    exact Or.inl ⟨value, hKept, rfl, rfl⟩
  · next hKept =>
    refine Or.inr ⟨hKept, ?_⟩
    split at hRun
    · cases hRun
    · next report s₁ hBase =>
      cases hRun
      exact ⟨s'.1, hBase, rfl⟩
    · next value h journal hBase =>
      cases hRun
      exact ⟨h, hBase, Table.get?_insert_self ..⟩

/-- What a binding of this kind does when a request comes to it: it provides what is kept, or else its strategy is run
for it. -/
theorem runBindingNoted_once (hLayers : binding.layers = [.once]) (hLive : s.1.isLive binding.owner = true)
    (hRun : runBindingNoted again binding path s = some (outcome, s')) :
    (∃ value, binding.kept? s.1 = some value ∧
      s' = (s.1, s.2 ++ [.reached binding.id, .answered binding.id (.ok value)])) ∨
    (binding.kept? s.1 = none ∧ ∃ (result : Except Report Instance) (during : Hierarchy × Journal),
      runStrategyNoted again binding binding.owner path
        (s.1, s.2 ++ [.reached binding.id] ++ [.began binding.id]) = some (result, during) ∧
      s'.2 = during.2 ++ binding.ending result ∧
      binding.kept? s'.1 = result.toOption.or (binding.kept? during.1)) := by
  obtain ⟨h', journal'⟩ := s'
  rw [runBindingNoted, note_bind] at hRun
  obtain ⟨journal, hInner, hEntry⟩ := noting_eq_some_iff.mp hRun
  obtain rfl : journal' = journal ++ [.answered binding.id outcome] := hEntry
  simp only [if_pos hLive, hLayers] at hInner
  obtain ⟨result, hProvided, rfl⟩ := within_eq_iff.mp hInner
  rcases runLayersNoted_once hProvided with ⟨value, hKept, rfl, hSame⟩ | ⟨hKept, h, hBase, hAfter⟩
  · cases hSame
    exact Or.inl ⟨value, hKept, by simp [Except.mapError]⟩
  · rw [runBaseNoted, note_bind] at hBase
    obtain ⟨journal₁, hStrategy, hEnded⟩ := noting_eq_some_iff.mp hBase
    obtain rfl : journal = journal₁ ++ [.ended binding.id result] := hEnded
    exact Or.inr ⟨hKept, result, (h, journal₁), hStrategy, List.append_assoc .., hAfter⟩

/-- The strategy of the binding is at work, and its requests have the key of the binding on their paths. -/
theorem leads_strategy (hR : Navigable (Along (Regular binding) binding))
    (hAgain : ThroughoutNoted (Along (Regular binding) binding) fuel) :
    Leads (Askable binding.owner) (Along (Working binding) binding path)
      (runStrategyNoted (obtainNoted fuel) binding binding.owner path) := by
  have hC : Course (Askable binding.owner) (Along (Working binding) binding path) :=
    course_along (composes_working binding) binding.owner path
  have hWorking : ∀ {s s'}, Along (Regular binding) binding path s s' → Along (Working binding) binding path s s' :=
    fun hA => ⟨hA.1, fun hB => (hA.2 hB).mono Regular.working id⟩
  have hNote : ∀ s (entry : Entry), entry.Evaluates binding.id →
      Along (Working binding) binding path s (s.1, s.2 ++ [entry]) := by
    intro s entry hEvaluates
    refine ⟨advances_about s hEvaluates.number?, fun _ _ => ⟨[entry], rfl, .ofOther ?_ ?_, fun _ => ⟨?_, rfl⟩⟩⟩
    · cases hEvaluates
      simp
    · cases hEvaluates
      simp
    · intro other hMem
      rw [List.mem_singleton.mp (List.mem_of_mem_filter hMem)]
      exact hEvaluates
  refine leads_runStrategyNoted hC hNote (fun key s s' outcome hS hRun => ?_) fun program s s' outcome hS hRun => ?_
  · exact hWorking (hAgain _ key path s s' outcome hS hRun)
  · exact hWorking (hR.leads_runBodyNoted hAgain path program _ s s' outcome hS hRun)

/-- A request that comes to the binding, with a path that does not have its key. -/
theorem tail_provided (hLayers : binding.layers = [.once]) (hKey : binding.key ∉ path)
    (hR : Navigable (Along (Regular binding) binding)) (hAgain : ThroughoutNoted (Along (Regular binding) binding) fuel)
    (hS : Askable binding.owner s) (hB : Booked s)
    (hRun : runBindingNoted (obtainNoted fuel) binding (path ++ [binding.key]) s = some (outcome, s')) :
    Tail (Regular binding) binding path s s' := by
  intro hOnly
  rcases runBindingNoted_once hLayers hS.isLive hRun with ⟨value, hKept, rfl⟩ |
    ⟨hKept, result, during, hStrategy, hEntries, hAfter⟩
  · -- what is kept is provided
    refine ⟨_, rfl, .reached hKey _, fun _ => ?_⟩
    rw [hKept, Journal.about_cons_self rfl, Journal.about_cons_self rfl]
    exact .again .nothing
  · -- the strategy works, and with a path on which the key is now, nobody comes to the binding in the meantime
    have hBegun := (hS.noted (.reached binding.id)).noted (.began binding.id)
    have hBooked : Booked (s.1, s.2 ++ [.reached binding.id] ++ [.began binding.id]) :=
      (hB.noted rfl rfl).noted rfl rfl
    obtain ⟨evaluation, hEvaluation, hPasses, hWorking⟩ := (leads_strategy hR hAgain _ _ _ hBegun hStrategy).2 hBooked
      (hOnly.earlier (hEntries ▸ List.prefix_append _ _))
    refine ⟨.reached binding.id :: .began binding.id :: evaluation ++ binding.ending result, ?_, .reached hKey _, ?_⟩
    · rw [hEntries, hEvaluation]
      simp
    · rw [hKept] at hWorking ⊢
      rw [hAfter]
      exact regular_of_working hWorking hPasses (List.mem_append_right path List.mem_cons_self)

/-- A request that comes to another binding. -/
theorem along_other {other : Binding} (hOther : other.id ≠ binding.id)
    (hR : Navigable (Along (Regular binding) binding)) (hAgain : ThroughoutNoted (Along (Regular binding) binding) fuel)
    (hS : Askable other.owner s) (hRun : runBindingNoted (obtainNoted fuel) other path s = some (outcome, s')) :
    Along (Regular binding) binding path s s' := by
  have hNote : ∀ path s (entry : Entry), entry.number? = some other.id →
      Along (Regular binding) binding path s (s.1, s.2 ++ [entry]) := fun path s entry hNumber =>
    ⟨advances_about s hNumber, fun _ => tail_note s (by simpa [hNumber] using hOther)⟩
  have hStrategy : ∀ n path, Leads (Askable n) (Along (Regular binding) binding path)
      (runStrategyNoted (obtainNoted fuel) other n path) := fun n path =>
    leads_runStrategyNoted (hR.course n path) (fun s entry hE => hNote path s entry hE.number?)
      (fun key => hAgain n key path) fun program => hR.leads_runBodyNoted hAgain path program n
  refine hR.leads_runBindingNoted hAgain (fun path s entry hNumber _ => hNote path s entry hNumber)
    (fun _ h journal height value => ⟨advances_keep h journal other.id height value, fun _ => ?_⟩)
    (fun n path' _ _ => (hStrategy n path').mono And.left) s s' outcome ⟨hS, rfl⟩ hRun
  -- what is kept for another binding has another place
  refine tail_other (List.append_nil _).symm (fun _ hMem => absurd hMem List.not_mem_nil) ?_
  exact (Table.get?_insert ..).trans (if_neg fun hEq => hOther (Prod.ext_iff.mp hEq).1)

end Providing

/-- Programs lead along what happens to a singleton. -/
theorem navigable_once (binding : Binding) : Navigable (Along (Regular binding) binding) where
  course := course_along (composes_regular binding)
  act _ h journal user := ⟨advances_act h journal user, fun _ => tail_quiet rfl rfl⟩
  begun {path path' entry h journal s'} hBegins hA := by
    refine ⟨advances_begun hBegins hA.1, fun hB hOnly => ?_⟩
    have hNone : entry.made? = none ∧ entry.owned? = none ∧ entry.number? = none := by
      cases hBegins <;> exact ⟨rfl, rfl, rfl⟩
    obtain ⟨later, hEntries, hPasses, hRegular⟩ := hA.2 (hB.noted hNone.1 hNone.2.1) hOnly
    refine ⟨entry :: later, by rw [hEntries, List.append_assoc]; rfl, hPasses.begun hBegins, fun hOnce => ?_⟩
    have hRest := hRegular fun hR => hOnce (by simpa using hR.append [entry] [])
    rwa [Journal.about_cons_of_ne (by simp [hNone.2.2])]
  refused {n path module explicitOnly reports s s'} hS hRun := by
    refine ⟨advances_refused hS hRun, fun _ => ?_⟩
    have hTail : Tail (Regular binding) binding path s (createNoted (some n) module explicitOnly s).2 :=
      tail_created hS.wellFormed hS.isLive_parent
    rwa [hRun] at hTail
  visited {n path module explicitOnly child s s₁ s₂} hS hRun hInside := by
    obtain ⟨hKept, hGivenUp⟩ := advances_visited hS hRun hInside.1
    have hTail : Tail (Regular binding) binding path s (createNoted (some n) module explicitOnly s).2 :=
      tail_created hS.wellFormed hS.isLive_parent
    have hBooked := fun hB : Booked s => booked_create hB hS.wellFormed hS.isLive_parent module explicitOnly
    rw [hRun] at hTail hBooked
    have hC := composes_regular binding
    have hVisit := fun hB => hTail.trans hC (hInside.2 (hBooked hB))
    exact ⟨⟨hKept, hVisit⟩, hGivenUp, fun hB =>
      (hVisit hB).trans hC (tail_quiet rfl (sameNotes_release s₂.1 child).kept)⟩
  resolved {n path key outcome s s'} hS hRun := by
    obtain ⟨made, owned, hEntries, -⟩ := resolveNoted_spec hS.wellFormed hS.isLive hRun
    have hKept := (sameNotes_resolve ((tells_resolveNoted n key).run hRun)).kept
    exact ⟨advances_resolved hS hRun, fun _ => tail_entries hEntries hKept⟩

/-- Requests lead along what happens to a singleton. -/
theorem charts_once (hLayers : binding.layers = [.once]) : Charts (Along (Regular binding) binding) where
  toNavigable := navigable_once binding
  provided {fuel path other} hKey hAgain s s' outcome hS hRun := by
    by_cases hOther : other.id = binding.id
    · have hAdvances : Advances s s' := charts_advances.provided hKey
        (fun n key path s s' outcome hS hRun => (hAgain n key path s s' outcome hS hRun).1) s s' outcome hS hRun
      refine ⟨hAdvances, fun hB hOnly => ?_⟩
      -- of what was made, only the binding itself has its number
      obtain rfl := hOnly.earlier hAdvances.entries other (hS.made hB) hOther
      exact tail_provided hLayers hKey (navigable_once other) hAgain hS.askable hB hRun hOnly
    · have hAlong := along_other hOther (navigable_once binding) hAgain hS.askable hRun
      exact ⟨hAlong.1, fun hB => (hAlong.2 hB).mono id (List.mem_append_left _)⟩

-- ---------------------------------------------------------------------------
-- Histories
-- ---------------------------------------------------------------------------

variable {handles : List Handle}

/-- What callers do between requests does nothing to instances. -/
theorem tail_errand (hS : Orderly handles s) (hErrand : Errand s s') : Tail (Regular binding) binding path s s' := by
  cases hErrand with
  | create hHeld => exact tail_created hS.wellFormed fun p hp => hS.wellFormed.rooted.held (hHeld p hp)
  | findScope n tag => exact tail_quiet rfl (sameNotes_findScope s.1 n tag).kept
  | hold => exact tail_quiet rfl rfl
  | release n => exact tail_quiet rfl (sameNotes_release s.1 n).kept
  | holdBinding => exact tail_quiet rfl rfl
  | act => exact tail_quiet rfl rfl

theorem tail_history (hLayers : binding.layers = [.once]) (hHistory : History handles s) :
    Tail (Regular binding) binding [] ({}, []) s := by
  have hC := composes_regular binding
  induction hHistory with
  | nothing => exact .refl hC _
  | request hBefore hRequest ih => exact ih.trans hC ((hRequest.leads (charts_once hLayers) hBefore.orderly).2 hBefore.orderly.booked)
  | errand hBefore hErrand ih => exact ih.trans hC (tail_errand hBefore.orderly hErrand)

/-- What is kept is provided to everyone, and nothing else is done. -/
theorem runBinding_kept (hLayers : binding.layers = [.once]) {h : Hierarchy} (hLive : h.isLive binding.owner = true)
    {value : Instance} (hKept : binding.kept? h = some value) (again : Again) (path : List Key) :
    runBinding again binding path h = some (.ok value, h) := by
  have hFound : h.kept.get? (binding.id, 0) = some value := hKept
  simp only [runBinding, if_pos hLive, hLayers, within, runLayers, List.length_nil, hFound]

/-- A singleton is constructed once, and shared.

In every history, take a binding that is in the scope of singletons. As long as no user code has asked for an instance of
it while one was being constructed, each request that came to the binding ran its strategy once, up to the first one
that succeeded. Requests that failed left nothing behind, and requests after the first success did nothing but provide
the same instance.

Once the strategy has succeeded, whoever asks is provided with the instance of then, wherever the key resolves to
the binding, and whoever uses a handle that leads to the binding. -/
theorem singleton_once (hHistory : History handles s) (hMade : binding ∈ s.2.made) {user : UserState}
    (hSingleton : binding.layers = (Scope.singleton.wrap binding.key user).1) (hOnce : ¬s.2.Reentered binding.id) :
    Once binding none (s.2.about binding.id) (binding.kept? s.1) ∧
    ∀ value, .ended binding.id (.ok value) ∈ s.2 →
      (∀ fuel n path h, s.1.isLive n = true → binding.key ∉ path → s.1.resolve n binding.key = some (.ok binding, h) →
        obtain (fuel + 1) n binding.key path s.1 = some (.ok value, h)) ∧
      ∀ fuel, ∀ handle ∈ handles, handle.binding = binding → s.1.isLive handle.injector = true →
        getFrom fuel handle s.1 = some (handle.interface.recover value, s.1) := by
  have hOrderly := hHistory.orderly
  have hOnly : Only binding s := fun other hMem hId => hOrderly.booked.unique hMem hMade hId
  obtain ⟨later, hEntries, -, hRegular⟩ := tail_history hSingleton hHistory hOnly
  obtain rfl : s.2 = later := hEntries
  have hHappened : Once binding none (s.2.about binding.id) (binding.kept? s.1) := hRegular hOnce
  refine ⟨hHappened, fun value hEnded => ?_⟩
  have hKept := hHappened.eq_some_iff.mpr (Or.inr (List.mem_filter.mpr ⟨hEnded, by simp [Entry.number?]⟩))
  have hW := hOrderly.wellFormed
  refine ⟨fun fuel n path h hn hKey hResolve => ?_, fun fuel handle hHandle hBinding hn => ?_⟩
  · have hOwned := owned_of_resolve hW hn hResolve
    have hLater : binding.kept? h = some value := by
      rw [Binding.kept?, (sameNotes_resolve hResolve).kept]
      exact hKept
    rw [obtain_of_resolve hResolve fuel hKey]
    exact within_eq_ok_iff.mpr (runBinding_kept hSingleton (isLive_of_binding? hOwned.bound) hLater (obtain fuel) _)
  · obtain rfl : binding = handle.binding := hBinding.symm
    have hOwner := hW.rooted.isLive_of_mem_path hn ((hOrderly.usable handle hHandle).onPath hn)
    have hProvided := runBinding_kept hSingleton hOwner hKept (obtain fuel) [handle.binding.key]
    rw [getFrom_eq, bind_apply, within_eq_ok_iff.mpr hProvided]
    exact ofExcept_apply (handle.interface.recover value) s.1

/-- `A` is a singleton that cannot be made at the first attempt. It is made of the text `C`, and a hook looks at it. -/
def reluctant : Module :=
  let a := Key.of ⟨10, "A"⟩
  let c := Key.named .text "C"
  let build : List Instance → Program .body := fun _ => .attempt fun user =>
    (if user.serials = 0 then .error (.of (.constructionFailed a "not yet"))
      else .ok (.made user.serials a.type (.primitive "")), { user with serials := user.serials + 1 })
  ⟨[⟨a, .constructed ⟨[c], build⟩, some .singleton, .builtin⟩,
      ⟨c, .fixed (.made 0 .text (.primitive "c")), none, .builtin⟩],
    [], [], [⟨fun key => key = a, fun _ value => .finish (.ok value)⟩], []⟩

/-- The root that is created from it has a child. There, `A` is requested twice, and then at the root. -/
def attempted : Hierarchy × Journal :=
  let a := Key.of ⟨10, "A"⟩
  let s := (createNoted none reluctant false ({}, [])).2
  let s := (createNoted (some 0) .empty false s).2
  let s := (getInstanceNoted 2 1 a).after ((getInstanceNoted 2 1 a).after s)
  (getInstanceNoted 2 0 a).after s

theorem history_attempted : History [] attempted := by
  let a := Key.of ⟨10, "A"⟩
  let s₀ := (createNoted none reluctant false ({}, [])).2
  let s₁ := (createNoted (some 0) .empty false s₀).2
  let s₂ := (getInstanceNoted 2 1 a).after s₁
  let s₃ := (getInstanceNoted 2 1 a).after s₂
  have hRoot : History [] s₀ := .errand .nothing (.create nofun)
  have hChild : History [] s₁ := by
    refine .errand hRoot (.create ?_)
    rintro _ ⟨⟩
    decide +kernel
  obtain ⟨report, hFailed⟩ : ∃ report, getInstanceNoted 2 1 a s₁ = some (.error report, s₂) :=
    exists_error_after (by decide +kernel)
  obtain ⟨value, hFirst⟩ : ∃ value, getInstanceNoted 2 1 a s₂ = some (.ok value, s₃) :=
    exists_ok_after (by decide +kernel)
  obtain ⟨value', hAgain⟩ : ∃ value, getInstanceNoted 2 0 a s₃ = some (.ok value, attempted) :=
    exists_ok_after (by decide +kernel)
  have hOnceAsked : History [] s₂ := .request hChild (.getInstance (by decide +kernel) hFailed)
  have hTwiceAsked : History [] s₃ := .request hOnceAsked (.getInstance (by decide +kernel) hFirst)
  exact .request hTwiceAsked (.getInstance (by decide +kernel) hAgain)

theorem resolved_attempted :
    let a := Key.of ⟨10, "A"⟩
    ∃ binding, resolveNoted 1 a attempted = some (.ok binding, (resolveNoted 1 a).after attempted) ∧
      binding.id = 0 ∧ binding.layers = [.once] := by
  intro a
  obtain ⟨binding, hResolved⟩ : ∃ binding,
      resolveNoted 1 a attempted = some (.ok binding, (resolveNoted 1 a).after attempted) :=
    exists_ok_after (by decide +kernel)
  -- the layers are told by their constructors
  have hFound : ((resolveNoted 1 a attempted).map fun result => result.1.toOption.map fun binding =>
      (binding.id, binding.layers.map Layer.ctorIdx)) = some (some (0, [0])) := by
    decide +kernel
  simp only [hResolved, Option.map_some, Except.toOption, Option.some.injEq, Prod.mk.injEq,
    List.map_eq_singleton_iff] at hFound
  obtain ⟨hId, layer, hLayers, hFirst⟩ := hFound
  refine ⟨binding, hResolved, hId, ?_⟩
  cases layer with
  | once => exact hLayers
  | around => cases hFirst

/-- A handle is got for `A`. By then there are six entries about the request that has failed, seven about the one that
has succeeded, and two about the one after it. What was made then is provided ever after. -/
theorem singleton_once_in_attempted :
    let a := Key.of ⟨10, "A"⟩
    let s := (resolveNoted 1 a).after attempted
    let value : Instance := .made 1 a.type (.primitive "")
    ∃ (binding : Binding) (handle : Handle), handle = ⟨1, binding, .concrete a.type⟩ ∧ History [handle] s ∧
      binding ∈ s.2.made ∧ binding.layers = (Scope.singleton.wrap binding.key {}).1 ∧ ¬s.2.Reentered binding.id ∧
      Once binding none (s.2.about binding.id) (some value) ∧ (s.2.about binding.id).length = 15 ∧
      getInstance 1 1 a s.1 = some (.ok value, s.1) ∧ getFrom 0 handle s.1 = some (.ok value, s.1) := by
  intro a s value
  obtain ⟨binding, hResolved, hId, hLayers⟩ := resolved_attempted
  have hSingleton : binding.layers = (Scope.singleton.wrap binding.key {}).1 := hLayers
  have hHistory : History [⟨1, binding, .concrete a.type⟩] s :=
    .request history_attempted (.getHandle (by decide +kernel) (getHandleNoted_eq_ok_iff.mpr ⟨binding, hResolved, rfl⟩))
  have hOrderly := hHistory.orderly
  have hMade := (hOrderly.usable _ List.mem_cons_self).made
  have hAlone : ¬s.2.Reentered binding.id := by
    -- every entry is about something else than what user code begins
    have hAll : (s.2.all fun entry => entry.made?.isSome || entry.owned?.isSome || entry.number?.isSome) = true := by
      decide +kernel
    refine Journal.not_reentered fun entry hMem path hBegins => ?_
    have hOther := List.all_eq_true.mp hAll entry hMem
    cases hBegins <;> cases hOther
  have hKept : binding.kept? s.1 = some value := by
    rw [Binding.kept?, hId]
    decide +kernel
  obtain ⟨hHappened, hShared⟩ := singleton_once hHistory hMade hSingleton hAlone
  rw [hKept] at hHappened
  have hEnded := List.mem_of_mem_filter ((hHappened.eq_some_iff.mp rfl).resolve_left nofun)
  obtain ⟨hAsked, hUsed⟩ := hShared value hEnded
  have hPlain := (tells_resolveNoted 1 a).run hResolved
  have hOwned := owned_of_resolve history_attempted.orderly.wellFormed (by decide +kernel) hPlain
  have hW := hOrderly.wellFormed
  have hLive : s.1.isLive 1 = true := by decide +kernel
  have hKey : binding.key = a := (hW.binding? hOwned.bound).1
  have hAgain : s.1.resolve 1 binding.key = some (.ok binding, s.1) := by
    rw [hKey]
    exact hOwned.resolve_eq hW (by decide)
  refine ⟨binding, ⟨1, binding, .concrete a.type⟩, rfl, hHistory, hMade, hSingleton, hAlone, hHappened, ?_, ?_, ?_⟩
  · rw [hId]
    decide +kernel
  · rw [← hKey]
    exact hAsked 0 1 [] s.1 hLive List.not_mem_nil hAgain
  · rw [hUsed 0 _ List.mem_cons_self rfl hLive]
    rfl

end InjectorTree
