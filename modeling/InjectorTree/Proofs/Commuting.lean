import InjectorTree.Proofs.Placement.Characterisation
import InjectorTree.Proofs.Placement.Later

/-!
# Requests commute

Without converters, and where bindings may be created, what a request can get does not depend on the requests
before it. It asks for a key where the key belongs, and for all that is needed there; what is missing of that is
added, and a request made later finds it.

* `extended_resolve`: what one request does to a later state.
* `getHandles_ends`: what requests come to that are made one after the other.
* `getHandles_perm`: requests in another order have the same answers and the same effect.
-/

namespace InjectorTree.Hierarchy

open Placement Provision

variable {h h' h'' : Hierarchy} {n : InjectorId} {key : Key} {binding : Binding} {pair : InjectorId × Key}
  {D : Set (InjectorId × Key)}

-- ---------------------------------------------------------------------------
-- One request
-- ---------------------------------------------------------------------------

/-- The pairs that a request for a key asks for: where the key belongs, and all that it needs in turn. -/
def Wanted (h : Hierarchy) (n : InjectorId) (key : Key) : Set (InjectorId × Key) :=
  {pair | h.lookup n key = none ∧
    ∃ p, h.RootMost n key p ∧ Relation.ReflTransGen (h.Needs n) (p, key) pair}

/-- The key is bound or placeable. -/
def Resolvable (h : Hierarchy) (n : InjectorId) (key : Key) : Prop :=
  (h.lookup n key).isSome = true ∨ ∃ p, h.Placeable n p key

theorem rootMost_of_mem_wanted (hMem : pair ∈ h.Wanted n key) : h.RootMost n pair.2 pair.1 := by
  obtain ⟨-, p, hRoot, hNeeds⟩ := hMem
  induction hNeeds with
  | refl => exact hRoot
  | tail _ hStep _ =>
    obtain ⟨declaration, -, -, -, -, hSecond⟩ := hStep
    exact hSecond

/-- A request for what is bound by now asks for nothing that is not provided yet. -/
theorem wanted_subset (hE : Extended h D h') (hFound : (h'.lookup n key).isSome = true) :
    h.Wanted n key ⊆ D := by
  have hR := hE.wellFormed.rooted.of_sameShape hE.shape.symm
  rintro pair ⟨hNone, p, hRoot, hNeeds⟩
  rcases hE.exists_of_lookup hFound with hOld | ⟨r, hr, hMem⟩
  · rw [hNone] at hOld
    cases hOld
  · -- the key is owned where it belongs, and it belongs there only
    have hOwner : h.RootMost n key r := (rootMost_iff_self hR).mpr ⟨hr, hE.belongs hMem⟩
    obtain rfl := hRoot.unique hR hOwner
    exact hE.closed_of_needs hMem hNeeds

/-- What a request needed at first has been provided since, or it is needed still. -/
theorem needs_still (hE : Extended h D h') {first second : InjectorId × Key}
    (hNeeds : Relation.ReflTransGen (h.Needs n) first second) (hFirst : first.1 ∈ h.path n) :
    second ∈ D ∨ Relation.ReflTransGen (h'.Needs n) first second ∧ second.1 ∈ h.path n := by
  have hR := hE.wellFormed.rooted.of_sameShape hE.shape.symm
  induction hNeeds with
  | refl => exact Or.inr ⟨.refl, hFirst⟩
  | @tail before after _ hStep ih =>
    rcases ih with hMem | ⟨hStill, hPath⟩
    · exact Or.inl (hE.closed hMem (hStep.of_path hR self_mem_path))
    · have hStep' := hStep
      obtain ⟨declaration, -, -, hNone, hAbove, hRoot⟩ := hStep
      cases hLater : h'.lookup before.1 after.2 with
      | none =>
        exact Or.inr ⟨hStill.tail (hE.needs_later_iff.mpr ⟨hStep', hLater⟩), hRoot.1.onPath⟩
      | some binding =>
        -- somebody on the path owns it by now, and that is where it belongs
        have hFound : (h'.lookup before.1 after.2).isSome = true := by rw [hLater]; rfl
        rcases hE.exists_of_lookup hFound with hOld | ⟨r, hr, hMem⟩
        · rw [hNone] at hOld
          cases hOld
        · have hOwner : h.RootMost n after.2 r :=
            (rootMost_iff_self hR).mpr ⟨hR.mem_path_trans hPath hr, hE.belongs hMem⟩
          have hEq : after = (r, after.2) := Prod.ext (hRoot.unique hR hOwner) rfl
          exact Or.inl (hEq ▸ hMem)

variable {outcome : Except Report Binding} {report : Report}

/-- Where nothing is placeable, nothing is asked for. -/
theorem wanted_eq_empty (hNowhere : ∀ p, ¬h.Placeable n p key) : h.Wanted n key = ∅ := by
  rw [Set.eq_empty_iff_forall_notMem]
  rintro pair ⟨-, p, hRoot, -⟩
  exact hNowhere p hRoot.1

/-- What a request that finds the key bound leaves as it is. -/
theorem extended_found (hE : Extended h D h') (hFound : (h'.lookup n key).isSome = true) :
    Extended h (D ∪ h.Wanted n key) h' ∧ h.Resolvable n key := by
  have hR := hE.wellFormed.rooted.of_sameShape hE.shape.symm
  constructor
  · rw [Set.union_eq_self_of_subset_right (wanted_subset hE hFound)]
    exact hE
  · refine (hE.exists_of_lookup hFound).imp_right ?_
    rintro ⟨p, hp, hMem⟩
    exact ⟨p, (placeable_iff_self hR).mpr ⟨hp, (hE.belongs hMem).1⟩⟩

/-- What a request that creates a binding adds. -/
theorem extended_placed (hE : Extended h D h') (hW'' : h''.WellFormed) (hShape : SameShape h'' h')
    (hNone : h'.lookup n key = none) (hPlaced : Placed h' n key binding h'') :
    Extended h (D ∪ h.Wanted n key) h'' := by
  have hR := hE.wellFormed.rooted.of_sameShape hE.shape.symm
  have hRoot : h.RootMost n key binding.owner := (hE.rootMost_later_iff hNone).mp hPlaced.rootMost
  have hBefore : h.lookup n key = none := hE.lookup_eq_none hNone
  refine
    { wellFormed := hW''
      shape := hShape.trans hE.shape
      kept := fun hOld => hPlaced.kept (hE.kept hOld)
      added := fun {m x new} hNew => ?_
      owned := fun {m x} hMem => ?_
      belongs := fun {m x} hMem => ?_
      closed := fun {m x pair} hMem hNeeds => ?_ }
  · rcases hPlaced.added hNew with hOld | ⟨hNeeds, -, declaration, hStartable, hBuilt⟩
    · refine (hE.added hOld).imp_right ?_
      exact fun hBoth => ⟨Or.inl hBoth.1, hBoth.2⟩
    · -- what is needed now was needed at the beginning
      have hStep : ∀ first second, h'.Needs n first second → h.Needs n first second :=
        fun _ _ hNeed => (hE.needs_later_iff.mp hNeed).1
      have hAlready : Relation.ReflTransGen (h.Needs n) (binding.owner, key) (m, x) :=
        Relation.ReflTransGen.mono hStep _ _ hNeeds
      refine Or.inr ⟨Or.inr ⟨hBefore, binding.owner, hRoot, hAlready⟩, declaration, ?_, ?_⟩
      · rw [← hE.shape.declaration?]
        exact hStartable.declared
      · exact hE.shape.builtFrom hBuilt
  · have hKeep : (m, x) ∈ D → (h''.binding? m x).isSome = true := by
      intro hMem
      obtain ⟨old, hOld⟩ := Option.isSome_iff_exists.mp (hE.owned hMem)
      rw [hPlaced.kept hOld]
      rfl
    rcases hMem with hMem | ⟨-, p, hp, hNeeds⟩
    · exact hKeep hMem
    · obtain rfl := hp.unique hR hRoot
      rcases needs_still hE hNeeds hRoot.1.onPath with hMem | ⟨hStill, -⟩
      · exact hKeep hMem
      · exact hPlaced.needed hStill
  · rcases hMem with hMem | hMem
    · exact hE.belongs hMem
    · exact ((rootMost_iff_self hR).mp (rootMost_of_mem_wanted hMem)).2
  · rcases hMem with hMem | hMem
    · exact Or.inl (hE.closed hMem hNeeds)
    · have hPath : m ∈ h.path n := (rootMost_of_mem_wanted hMem).1.onPath
      obtain ⟨-, p, hp, hBelow⟩ := hMem
      exact Or.inr ⟨hBefore, p, hp, hBelow.tail (hNeeds.of_path hR hPath)⟩

/-- A request leads from a later state to a later state, in which what it asked for is owned in addition. Whether
it succeeds was decided at the beginning. -/
theorem extended_resolve (hE : Extended h D h') (hn : h.isLive n = true) (hNoConverters : h.converters n = [])
    (hOnly : h.isExplicitOnly n = false) (hRun : h'.resolve n key = some (outcome, h'')) :
    Extended h (D ∪ h.Wanted n key) h'' ∧ (outcome.toBool = true ↔ h.Resolvable n key) := by
  have hW' := hE.wellFormed
  have hn' : h'.isLive n = true := (hE.shape.isLive n).trans hn
  have hNoConverters' : h'.converters n = [] := (hE.shape.converters n).trans hNoConverters
  have hOnly' : h'.isExplicitOnly n = false := (hE.shape.isExplicitOnly n).trans hOnly
  cases hLookup : h'.lookup n key with
  | some found =>
    rw [resolve_of_lookup hLookup] at hRun
    cases hRun
    have hFound : (h'.lookup n key).isSome = true := by rw [hLookup]; rfl
    obtain ⟨hExtended, hResolvable⟩ := extended_found hE hFound
    exact ⟨hExtended, fun _ => hResolvable, fun _ => rfl⟩
  | none =>
    obtain ⟨hW'', hShape, -⟩ := wellFormed_resolve hW' hn' hRun
    cases outcome with
    | ok binding =>
      have hPlaced := placed_of_resolve hW' hn' hNoConverters' hOnly' hLookup hRun
      have hPlaceable : h.Placeable n binding.owner key := hE.placeable_before hPlaced.rootMost.1
      exact ⟨extended_placed hE hW'' hShape hLookup hPlaced, fun _ => Or.inr ⟨_, hPlaceable⟩, fun _ => rfl⟩
    | error report =>
      have hNowhere : ∀ p, ¬h.Placeable n p key := by
        intro p hPlaceable
        have hp : p ∈ h'.path n := (hE.shape.path n).symm ▸ hPlaceable.onPath
        have hNone := lookup_eq_none_of_mem_path hW'.rooted hp hLookup
        exact not_placeable_of_resolve hW' hn' hNoConverters' hOnly' hRun p
          (hE.placeable_after hPlaceable hNone)
      refine ⟨?_, fun hAbsurd => (nomatch hAbsurd), ?_⟩
      · rw [wanted_eq_empty hNowhere, Set.union_empty]
        exact hE.marks (resolve_error hW' hRun).2
      · rintro (hFound | ⟨p, hPlaceable⟩)
        · rw [hE.lookup_eq_none hLookup] at hFound
          cases hFound
        · exact absurd hPlaceable (hNowhere p)

-- ---------------------------------------------------------------------------
-- Many requests
-- ---------------------------------------------------------------------------

/-- A request for a handle. -/
structure HandleRequest where
  injector : InjectorId
  key : Key
  interface : Interface

/-- Makes requests one after the other, whatever becomes of each. -/
def getHandles : List HandleRequest → Hierarchy → Option (List (Except Report Handle) × Hierarchy)
  | [], h => some ([], h)
  | request :: requests, h =>
    match getHandle request.injector request.key request.interface h with
    | none => none
    | some (outcome, h) =>
      match getHandles requests h with
      | none => none
      | some (outcomes, h) => some (outcome :: outcomes, h)

/-- The request is made at a live injector, where bindings may be created and nothing is converted. -/
structure HandleRequest.Plain (request : HandleRequest) (h : Hierarchy) : Prop where
  live : h.isLive request.injector = true
  noConverters : h.converters request.injector = []
  permitted : h.isExplicitOnly request.injector = false

/-- The pairs that some of the requests asks for. -/
def WantedBy (h : Hierarchy) (requests : List HandleRequest) : Set (InjectorId × Key) :=
  {pair | ∃ request ∈ requests, pair ∈ h.Wanted request.injector request.key}

variable {request : HandleRequest} {requests requests' : List HandleRequest}

theorem wantedBy_nil (h : Hierarchy) : h.WantedBy [] = ∅ := by
  rw [Set.eq_empty_iff_forall_notMem]
  rintro pair ⟨request, hMem, -⟩
  exact absurd hMem List.not_mem_nil

theorem wantedBy_cons (h : Hierarchy) (request : HandleRequest) (requests : List HandleRequest) :
    h.WantedBy (request :: requests) = h.Wanted request.injector request.key ∪ h.WantedBy requests := by
  ext pair
  constructor
  · rintro ⟨other, hOther, hMem⟩
    rcases List.mem_cons.mp hOther with rfl | hOther
    · exact Or.inl hMem
    · exact Or.inr ⟨other, hOther, hMem⟩
  · rintro (hMem | ⟨other, hOther, hMem⟩)
    · exact ⟨request, List.mem_cons_self, hMem⟩
    · exact ⟨other, List.mem_cons_of_mem request hOther, hMem⟩

/-- What is asked for does not depend on the order. -/
theorem wantedBy_perm (h : Hierarchy) (hPerm : requests'.Perm requests) :
    h.WantedBy requests' = h.WantedBy requests := by
  ext pair
  exact exists_congr fun request => and_congr_left fun _ => hPerm.mem_iff

/-- A request for a handle is a resolution, and succeeds if that does. -/
theorem getHandle_ends (hW : h.WellFormed) (n : InjectorId) (key : Key) (interface : Interface) :
    ∃ outcome resolved h', getHandle n key interface h = some (outcome, h') ∧
      h.resolve n key = some (resolved, h') ∧ outcome.toBool = resolved.toBool := by
  obtain ⟨⟨resolved, h'⟩, hRun⟩ := resolve_ends hW n key
  cases resolved with
  | error report =>
    exact ⟨_, _, h', getHandle_error hRun, hRun, rfl⟩
  | ok binding =>
    have hGet : getHandle n key interface h = some (.ok ⟨n, binding, interface⟩, h') :=
      getHandle_eq_ok_iff.mpr ⟨binding, hRun, rfl⟩
    exact ⟨_, _, h', hGet, hRun, rfl⟩

open Classical in
/-- Requests all end. They succeed if they could have at the beginning, and what they ask for is owned in
addition. -/
theorem getHandles_ends (hE : Extended h D h') (hPlain : ∀ request ∈ requests, request.Plain h) :
    ∃ outcomes h'', getHandles requests h' = some (outcomes, h'') ∧ Extended h (D ∪ h.WantedBy requests) h'' ∧
      outcomes.map (·.toBool) =
        requests.map fun request => decide (h.Resolvable request.injector request.key) := by
  -- the first request leads to another extended state, with what it asks for among the pairs
  induction requests generalizing D h' with
  | nil =>
    refine ⟨[], h', rfl, ?_, rfl⟩
    rw [wantedBy_nil, Set.union_empty]
    exact hE
  | cons request requests ih =>
    obtain ⟨hFirst, hRest⟩ := List.forall_mem_cons.mp hPlain
    obtain ⟨outcome, resolved, h₁, hRun, hResolve, hSame⟩ :=
      getHandle_ends hE.wellFormed request.injector request.key request.interface
    obtain ⟨hE₁, hSucceeds⟩ :=
      extended_resolve hE hFirst.live hFirst.noConverters hFirst.permitted hResolve
    obtain ⟨outcomes, h₂, hRuns, hE₂, hAll⟩ := ih hE₁ hRest
    refine ⟨outcome :: outcomes, h₂, ?_, ?_, ?_⟩
    · simp only [getHandles, hRun, hRuns]
    · rw [wantedBy_cons, ← Set.union_assoc]
      exact hE₂
    · have hHead : outcome.toBool = decide (h.Resolvable request.injector request.key) := by
        rw [hSame, Bool.eq_iff_iff, decide_eq_true_iff]
        exact hSucceeds
      rw [List.map_cons, List.map_cons, hHead, hAll]

-- ---------------------------------------------------------------------------
-- Requests in another order
-- ---------------------------------------------------------------------------

/-- In both states the injectors own the same keys: by the bindings that they had, or by bindings that are built
from the same declarations and scopes. -/
def Agree (h first second : Hierarchy) : Prop :=
  ∀ m x, first.binding? m x = none ∧ second.binding? m x = none ∨
    ∃ one other, first.binding? m x = some one ∧ second.binding? m x = some other ∧
      one.owner = other.owner ∧ one.key = other.key ∧
      (h.binding? m x = some one ∧ one = other ∨
        ∃ declaration, h.declaration? m x = some declaration ∧
          h.BuiltFrom declaration one ∧ h.BuiltFrom declaration other)

theorem Extended.agree (hE' : Extended h D h') (hE'' : Extended h D h'') : Agree h h' h'' := by
  intro m x
  have hSame : (h'.binding? m x).isSome = true ↔ (h''.binding? m x).isSome = true := by
    rw [hE'.binding?_isSome_iff, hE''.binding?_isSome_iff]
  cases hOne : h'.binding? m x with
  | none =>
    rw [hOne] at hSame
    have hNone : ¬(h''.binding? m x).isSome = true := fun hSome => nomatch hSame.mpr hSome
    exact Or.inl ⟨rfl, Option.not_isSome_iff_eq_none.mp hNone⟩
  | some one =>
    obtain ⟨other, hOther⟩ := Option.isSome_iff_exists.mp (hSame.mp (by rw [hOne]; rfl))
    obtain ⟨hKey, hOwner, -⟩ := hE'.wellFormed.binding? hOne
    obtain ⟨hKey', hOwner', -⟩ := hE''.wellFormed.binding? hOther
    refine Or.inr ⟨one, other, rfl, hOther, hOwner.trans hOwner'.symm, hKey.trans hKey'.symm, ?_⟩
    rcases hE'.added hOne with hOld | ⟨-, declaration, hDeclared, hBuilt⟩
    · -- both states kept it
      have hKept := hE''.kept hOld
      rw [hOther, Option.some.injEq] at hKept
      exact Or.inl ⟨hOld, hKept.symm⟩
    · rcases hE''.added hOther with hOld | ⟨-, declaration', hDeclared', hBuilt'⟩
      · have hKept := hE'.kept hOld
        rw [hOne, Option.some.injEq] at hKept
        exact Or.inl ⟨hKept ▸ hOld, hKept⟩
      · rw [hDeclared, Option.some.injEq] at hDeclared'
        subst hDeclared'
        exact Or.inr ⟨declaration, hDeclared, hBuilt, hBuilt'⟩

/-- Requests that are made in another order end as well. Each succeeds in both orders or fails in both, and in
the end the same injectors own the same keys, by bindings from the same declarations and scopes. -/
theorem getHandles_perm (hReach : Reachable h) (hPlain : ∀ request ∈ requests, request.Plain h)
    (hPerm : requests'.Perm requests) :
    ∃ succeeds : HandleRequest → Bool, ∃ outcomes outcomes' h₁ h₂,
      getHandles requests h = some (outcomes, h₁) ∧ getHandles requests' h = some (outcomes', h₂) ∧
      outcomes.map (·.toBool) = requests.map succeeds ∧ outcomes'.map (·.toBool) = requests'.map succeeds ∧
      Agree h h₁ h₂ := by
  have hE := Extended.refl hReach.wellFormed
  have hPlain' : ∀ request ∈ requests', request.Plain h :=
    fun request hMem => hPlain request (hPerm.mem_iff.mp hMem)
  obtain ⟨outcomes, h₁, hRun, hE₁, hSucceeds⟩ := getHandles_ends hE hPlain
  obtain ⟨outcomes', h₂, hRun', hE₂, hSucceeds'⟩ := getHandles_ends hE hPlain'
  rw [wantedBy_perm h hPerm] at hE₂
  exact ⟨_, outcomes, outcomes', h₁, h₂, hRun, hRun', hSucceeds, hSucceeds', hE₁.agree hE₂⟩

/-- Two requests for keys that are linked to each other, and one for a key that nobody declares. -/
theorem getHandles_perm_in_circle :
    let key := Key.of .text
    let h := circle key (.of .singleton)
    let first : HandleRequest := ⟨1, key, .concrete .text⟩
    let second : HandleRequest := ⟨0, .of .singleton, .concrete .singleton⟩
    let last : HandleRequest := ⟨1, .named .text "other", .concrete .text⟩
    Reachable h ∧ (∀ request ∈ [first, last, second], request.Plain h) ∧
      [second, first, last].Perm [first, last, second] ∧
      ∃ succeeds : HandleRequest → Bool, ∃ outcomes outcomes' h₁ h₂,
        getHandles [first, last, second] h = some (outcomes, h₁) ∧
        getHandles [second, first, last] h = some (outcomes', h₂) ∧
        outcomes.map (·.toBool) = [first, last, second].map succeeds ∧
        outcomes'.map (·.toBool) = [second, first, last].map succeeds ∧ Agree h h₁ h₂ := by
  intro key h first second last
  have hReach : Reachable h := reachable_circle key (.of .singleton)
  have hPlain : ∀ request ∈ [first, last, second], request.Plain h := by
    intro request hMem
    simp only [List.mem_cons, List.not_mem_nil, or_false] at hMem
    rcases hMem with rfl | rfl | rfl <;> exact ⟨rfl, rfl, rfl⟩
  have hPerm : [second, first, last].Perm [first, last, second] :=
    @List.perm_append_comm _ [second] [first, last]
  exact ⟨hReach, hPlain, hPerm, getHandles_perm hReach hPlain hPerm⟩

end InjectorTree.Hierarchy
