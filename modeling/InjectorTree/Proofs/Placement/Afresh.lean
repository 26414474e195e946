import InjectorTree.Proofs.Placement.Memory
import InjectorTree.Proofs.Reachability

/-!
# Searching afresh

A search that forgets, and tries every candidate again. Where conversions are settled, it does the same as the
search that remembers: an attempt that the one skips, the other makes in vain.

* `locateAfresh`, `resolveAfresh`: the search that forgets.
* `resolve_afresh`: where conversions are settled, both report the same and publish the same.
* `resolve_not_afresh`: where they are not, the search that remembers may miss what the other one finds.
-/

namespace InjectorTree

open Hierarchy Placement Run

namespace Placement

/-- Tries the candidates in order, and the requesting injector last. -/
def placeAfresh (locate : InjectorId → Key → Run Draft Binding) (n : InjectorId) (key : Key) :
    List InjectorId → Run Draft Binding
  | [] => attempt locate n key
  | candidate :: candidates => fun d =>
    match attempt locate candidate key d with
    | none => none
    | some (.ok binding, d) => some (.ok binding, d)
    | some (.error _, d) => placeAfresh locate n key candidates d

/-- Creates or converts a binding for a key that has none. -/
def createAfresh (locate : InjectorId → Key → Run Draft Binding) (n : InjectorId) (key : Key) :
    Run Draft Binding := fun d =>
  match conversion? d.hierarchy n key with
  | some conversion => convert conversion n key d
  | none =>
    if d.hierarchy.isExplicitOnly n then some (.error (.of (.jitDisabled key)), d)
    else placeAfresh locate n key (d.hierarchy.lineage n).reverse d

/-- The binding of a key, published, staged or created on demand. -/
def locateAfresh : Nat → InjectorId → Key → Run Draft Binding
  | 0, _, _ => Run.exhausted
  | fuel + 1, n, key => fun d =>
    match (d.hierarchy.lookup n key).or (d.lookup n key) with
    | some binding => some (.ok binding, d)
    | none => createAfresh (locateAfresh fuel) n key d

end Placement

/-- Resolves a key by the search that forgets. -/
def Hierarchy.resolveAfresh (n : InjectorId) (key : Key) : Run Hierarchy Binding := fun h =>
  match h.lookup n key with
  | some binding => some (.ok binding, h)
  | none =>
    match Placement.locateAfresh (Placement.depthBound h n) n key { hierarchy := h } with
    | none => none
    | some (.ok binding, d) => some (.ok binding, d.publish)
    | some (.error report, d) => some (.error report, d.hierarchy)

variable {h h₁ h₁' : Hierarchy} {n m p : InjectorId} {key : Key} {d d' : Draft} {binding binding' : Binding}
  {fuel : Nat}

-- ---------------------------------------------------------------------------
-- Two searches in one hierarchy
-- ---------------------------------------------------------------------------

/-- Two marked versions of one hierarchy. -/
def marksOf (h : Hierarchy) (n : InjectorId) : Comparison where
  Alike h₁ h₁' := Marked h₁ h ∧ Marked h₁' h
  Seen := (· ∈ h.path n)
  Same := Binding.Matches
  Value _ _ := True

theorem lawful_marksOf (hW : h.WellFormed) (hSettled : h.Settled n) : (marksOf h n).Lawful := by
  have hC := lawful_comparisonOn (· ∈ h.path n)
  have hA : ∀ {h₁ h₁'}, (marksOf h n).Alike h₁ h₁' → AlikeOn (· ∈ h.path n) h₁ h₁' := fun hM =>
    (alikeOn_self hW n hSettled.steady).marks hM.1 hM.2
  exact
    { above := fun hM hn hp => hC.above (hA hM) hn hp
      lineage := fun hM hn => hC.lineage (hA hM) hn
      lookup := fun key hM hn => hC.lookup key (hA hM) hn
      claimants := fun key hM hn => hC.claimants key (hA hM) hn
      declaration? := fun key hM hn => hC.declaration? key (hA hM) hn
      conversion? := fun key hM hn => hC.conversion? key (hA hM) hn
      isExplicitOnly := fun hM hn => hC.isExplicitOnly (hA hM) hn
      findScope := fun {_ _ n} tag hM hn =>
        ⟨(hC.findScope tag (hA hM) hn).1, (marked_findScope hM.1.wellFormed n tag).trans hM.1,
          (marked_findScope hM.2.wellFormed n tag).trans hM.2⟩
      make := fun {_ _ n} key strategy scope source origin hM hn =>
        ⟨(hC.make key strategy scope source origin (hA hM) hn).1,
          (marked_makeBinding hM.1.wellFormed key strategy scope source origin n).trans hM.1,
          (marked_makeBinding hM.2.wellFormed key strategy scope source origin n).trans hM.2⟩
      convert := fun hM hn hConversion hOne =>
        ⟨⟨(marked_user hM.1.wellFormed _).trans hM.1, (marked_user hM.2.wellFormed _).trans hM.2⟩,
          (hC.convert (hA hM) hn hConversion hOne).2⟩
      makeConverted := fun {_ _ n value value'} key source hM hn hValue =>
        ⟨(hC.makeConverted key source (hA hM) hn hValue).1,
          (marked_makeBinding hM.1.wellFormed key (.fixed value) none source .converted n).trans hM.1,
          (marked_makeBinding hM.2.wellFormed key (.fixed value') none source .converted n).trans hM.2⟩
      same := hC.same }

/-- What is known of the draft of the search that remembers. -/
structure Tracked (h : Hierarchy) (n : InjectorId) (fuel : Nat) (m : InjectorId) (d : Draft) : Prop where
  fits : Fits h n d
  sound : Sound h m d
  fuel : EnoughFuel h n fuel d

theorem Tracked.up (hR : h.Rooted) (hT : Tracked h n fuel m d) (hp : p ∈ h.path m) : Tracked h n fuel p d :=
  ⟨hT.fits, hT.sound.up hR hp, hT.fuel⟩

namespace Placement

/-- A search keeps what is known of its draft. -/
theorem tracked_locate (hW : h.WellFormed) (hn : h.isLive n = true) (hOnly : h.isExplicitOnly n = false)
    (hSettled : h.Settled n) (hm : m ∈ h.path n) (hT : Tracked h n fuel m d) {outcome : Except Report Binding}
    {fuel' : Nat} (hRun : Placement.locate fuel' m key d = some (outcome, d')) : Tracked h n fuel m d' := by
  have hL := locates hW.rooted n fuel'
  have hM := remembers hW hn hOnly hSettled fuel'
  cases outcome with
  | ok binding =>
    obtain ⟨hF', hGrown, -⟩ := hL.ok hm hT.fits hRun
    exact ⟨hF', (hM.ok hm hT.fits hT.sound hRun).1, hT.fuel.mono hGrown.grows⟩
  | error report =>
    obtain ⟨hF', hStaged⟩ := hL.error hm hT.fits hRun
    exact ⟨hF', (hM.error hm hT.fits hT.sound hRun).1, hT.fuel.of_staged hStaged⟩

-- ---------------------------------------------------------------------------
-- Attempts
-- ---------------------------------------------------------------------------

/-- What the two searches have in common, when keys are located for an injector. -/
def AfreshInStep (h : Hierarchy) (n : InjectorId) (fuel : Nat) (m : InjectorId) : Prop :=
  ∀ key d d', Tracked h n fuel m d → Paired (marksOf h n) False d d' →
    Match Binding.Matches (Paired (marksOf h n) False) (Placement.locate fuel m key d) (locateAfresh fuel m key d')

/-- An attempt that both searches make ends in the same way. -/
theorem attempt_afresh (hW : h.WellFormed) (hn : h.isLive n = true) (hOnly : h.isExplicitOnly n = false)
    (hSettled : h.Settled n) (hStep : AfreshInStep h n fuel p) (hNone : conversion? h p key = none)
    (hT : Tracked h n (fuel + 1) p d) (hV : Vacant h n d p key) (hd : Paired (marksOf h n) False d d') :
    Match Binding.Matches (Paired (marksOf h n) False) (attempt (Placement.locate fuel) p key d)
      (attempt (locateAfresh fuel) p key d') := by
  have hC := lawful_marksOf hW hSettled
  refine attempt_of_createAt hd ?_
  rw [createAt_eq, createAt_eq]
  refine Match.bind_of_ok (start_match hC hd hV.onPath) (fun _ _ hd => hd) ?_
  rintro binding binding' d₁ d₁' hStart ⟨hSame, hOwner⟩ hd₁
  have hStarted := start_ok hT.fits.marked hStart
  have hT₁ : Tracked h n fuel p d₁ :=
    ⟨hT.fits.snoc (hStarted.stageable hT.fits hV),
      hT.sound.snoc hW.rooted hStarted.staged hStarted.failed hStarted.owner (hStarted.genuine hNone),
      hT.fuel.start hW.rooted hV.onPath hStarted⟩
  -- while the dependencies are located, the searches stay in step
  have hSupply : Match (List.Forall₂ Binding.Matches)
      (fun d d' => Paired (marksOf h n) False d d' ∧ Tracked h n fuel p d)
      (supply (Placement.locate fuel) binding d₁) (supply (locateAfresh fuel) binding' d₁') := by
    refine supply_match (C := marksOf h n) _ _ hC hSame ?_ ⟨hd₁, hT₁⟩
    rintro dependency - d d' ⟨hd, hT⟩
    rw [hOwner]
    exact (hStep dependency d d' hT hd).and fun outcome d'' hRun =>
      tracked_locate hW hn hOnly hSettled hV.onPath hT hRun
  exact Match.bind hSupply (fun _ _ hBoth => hBoth.1) fun _ _ _ _ _ hBoth => .ok hSame hBoth.1

/-- An attempt that the one search skips, the other one makes in vain. -/
theorem attempt_in_vain (hW : h.WellFormed) (hn : h.isLive n = true) (hOnly : h.isExplicitOnly n = false)
    (hSettled : h.Settled n) (hStep : AfreshInStep h n fuel p) (hp : p ∈ h.lineage m)
    (hNone : conversion? h p key = none) (hT : Tracked h n (fuel + 1) m d) (hV : Vacant h n d p key)
    (hd : Paired (marksOf h n) False d d') (hFailed : (p, key) ∈ d.failed) :
    ∃ report d'', attempt (locateAfresh fuel) p key d' = some (.error report, d'') ∧
      Paired (marksOf h n) False d d'' := by
  have hPath := mem_path_of_mem_lineage hp
  have hL := locates hW.rooted n fuel
  have hM := remembers hW hn hOnly hSettled fuel
  -- the search that remembers would do what the other one does, had it nothing to remember
  let forgetful : Draft := { d with failed := [] }
  have hSound : Sound h m forgetful := hT.sound.of_staged rfl fun hMem => absurd hMem List.not_mem_nil
  have hT₀ : Tracked h n (fuel + 1) m forgetful :=
    ⟨hT.fits.marks (Marked.refl hT.fits.marked.wellFormed) rfl, hSound, hT.fuel.of_staged rfl⟩
  have hd₀ : Paired (marksOf h n) False forgetful d' := ⟨hd.hierarchy, hd.staged, False.elim⟩
  have hV₀ : Vacant h n forgetful p key := hV.of_staged rfl
  have hUp := hT₀.up hW.rooted hPath
  have hMatch := attempt_afresh hW hn hOnly hSettled hStep hNone hUp hV₀ hd₀
  obtain ⟨⟨outcome, d₁⟩, hAttempt⟩ := attempt_ends hW.rooted hL hT₀.fits hV₀ hT₀.fuel
    fun q hq x d hF hE => locate_ends hW.rooted hq hF hE
  rw [hAttempt] at hMatch
  cases outcome with
  | ok binding =>
    -- then the key could be obtained, and it is remembered that it cannot
    obtain ⟨-, -, hStaged, hKey, hOwner⟩ := attempt_ok hL hT₀.fits hV₀ hAttempt
    have hAll := attempt_obtainable hW hn hL hM hT₀.fits hV₀ hUp.sound hNone
      (fun other hMem hOn => hSound.above other hMem (hW.rooted.mem_lineage_of_lineage hp hOn)) hAttempt
    have hObtainable : h.Obtainable binding.owner binding.key := by
      rcases hAll binding hStaged with hOld | hNew
      · exact hSound.above binding hOld (hOwner ▸ hp)
      · exact hNew
    rw [hOwner, hKey] at hObtainable
    exact absurd hObtainable (hT.sound.failed hFailed)
  | error report =>
    obtain ⟨hF₁, hStaged⟩ := attempt_error hL hT₀.fits hV₀ hAttempt
    generalize attempt (locateAfresh fuel) p key d' = tried at hMatch ⊢
    cases hMatch with
    | error hd₁ =>
      refine ⟨report, _, rfl, ⟨hT.fits.marked, hd₁.hierarchy.2⟩, ?_, False.elim⟩
      have hKept : d₁.staged = d.staged := hStaged
      exact hKept ▸ hd₁.staged

-- ---------------------------------------------------------------------------
-- The search
-- ---------------------------------------------------------------------------

/-- The candidates are tried with the same result. -/
theorem place_afresh (hW : h.WellFormed) (hn : h.isLive n = true) (hOnly : h.isExplicitOnly n = false)
    (hSettled : h.Settled n) (hStep : ∀ p ∈ h.path n, AfreshInStep h n fuel p) (candidates : List InjectorId)
    (hAbove : ∀ candidate ∈ candidates, candidate ∈ h.lineage m)
    (hNone : ∀ q ∈ h.path m, conversion? h q key = none) (hT : Tracked h n (fuel + 1) m d)
    (hV : Vacant h n d m key) (hd : Paired (marksOf h n) False d d') :
    Match Binding.Matches (Paired (marksOf h n) False) (place (Placement.locate fuel) m key candidates d)
      (placeAfresh (locateAfresh fuel) m key candidates d') := by
  induction candidates generalizing d d' with
  | nil => exact attempt_afresh hW hn hOnly hSettled (hStep m hV.onPath) (hNone m self_mem_path) hT hV hd
  | cons candidate rest ih =>
    have hFirst := hAbove candidate List.mem_cons_self
    have hRest := fun other hMem => hAbove other (List.mem_cons_of_mem candidate hMem)
    have hPath := mem_path_of_mem_lineage hFirst
    have hUp := hV.up hW.rooted hPath
    have hIn := hStep candidate hUp.onPath
    simp only [place, placeAfresh]
    split
    · next hFailed =>
      obtain ⟨report, d'', hVain, hd''⟩ :=
        attempt_in_vain hW hn hOnly hSettled hIn hFirst (hNone candidate hPath) hT hUp hd hFailed
      rw [hVain]
      exact ih hRest hT hV hd''
    · have hMatch := attempt_afresh hW hn hOnly hSettled hIn (hNone candidate hPath) (hT.up hW.rooted hPath) hUp hd
      generalize hAttempt : attempt (Placement.locate fuel) candidate key d = tried at hMatch ⊢
      generalize attempt (locateAfresh fuel) candidate key d' = tried' at hMatch ⊢
      cases hMatch with
      | endless => exact .endless
      | ok hSame hd₁ => exact .ok hSame hd₁
      | error hd₁ =>
        have hL := locates hW.rooted n fuel
        obtain ⟨hF₁, hStaged⟩ := attempt_error hL hT.fits hUp hAttempt
        obtain ⟨hS₁, -, -⟩ := attempt_hopeless hW hn hL (remembers hW hn hOnly hSettled fuel) hT.fits hUp
          (hT.sound.up hW.rooted hPath) (hNone candidate hPath) hAttempt
        have hT₁ : Tracked h n (fuel + 1) m _ :=
          ⟨hF₁, hT.sound.of_staged hStaged hS₁.failed, hT.fuel.of_staged hStaged⟩
        exact ih hRest hT₁ (hV.of_staged hStaged) hd₁

/-- Keys are created or converted with the same result, if candidates are tried with the same result. -/
theorem createAfresh_match (hW : h.WellFormed) (hSettled : h.Settled n)
    (hPlace : h.isExplicitOnly m = false → (∀ q ∈ h.path m, conversion? h q key = none) →
      Match Binding.Matches (Paired (marksOf h n) False)
        (place (Placement.locate fuel) m key (h.lineage m).reverse d)
        (placeAfresh (locateAfresh fuel) m key (h.lineage m).reverse d'))
    (hm : m ∈ h.path n) (hd : Paired (marksOf h n) False d d') :
    Match Binding.Matches (Paired (marksOf h n) False) (createOnDemand (Placement.locate fuel) m key d)
      (createAfresh (locateAfresh fuel) m key d') := by
  have hC := lawful_marksOf hW hSettled
  have hM := hd.hierarchy.1.core
  simp only [createOnDemand, createAfresh, hC.conversion? key hd.hierarchy hm, hC.isExplicitOnly hd.hierarchy hm,
    hC.lineage hd.hierarchy hm]
  cases hConversion : conversion? d.hierarchy m key with
  | some conversion => exact convert_match hC hd hm hConversion
  | none =>
    simp only [hM.sameShape.isExplicitOnly, hM.lineage]
    split
    · exact .error hd
    · next hCreates =>
      rw [hM.sameShape.conversion?] at hConversion
      exact hPlace (Bool.eq_false_iff.mpr hCreates) fun q hq => conversion?_eq_none_of_mem_path hW hq hConversion

/-- A key is located with the same result, if it is created with the same result. -/
theorem locateAfresh_match (hW : h.WellFormed) (hSettled : h.Settled n) (hm : m ∈ h.path n) (hF : Fits h n d)
    (hd : Paired (marksOf h n) False d d')
    (hCreate : Vacant h n d m key →
      Match Binding.Matches (Paired (marksOf h n) False) (createOnDemand (Placement.locate fuel) m key d)
        (createAfresh (locateAfresh fuel) m key d')) :
    Match Binding.Matches (Paired (marksOf h n) False) (Placement.locate (fuel + 1) m key d)
      (locateAfresh (fuel + 1) m key d') := by
  have hLocated := hd.located key (lawful_marksOf hW hSettled) hm
  simp only [Placement.locate, locateAfresh]
  generalize hFound : (d.hierarchy.lookup m key).or (d.lookup m key) = found at hLocated ⊢
  generalize (d'.hierarchy.lookup m key).or (d'.lookup m key) = found' at hLocated ⊢
  cases hLocated with
  | some hSame => exact .ok hSame hd
  | none =>
    rw [Option.or_eq_none_iff, hF.marked.core.lookup] at hFound
    exact hCreate (vacant_of_lookup hW.rooted hF hm hFound.1 hFound.2)

/-- The searches stay in step, by induction on how deeply attempts may be nested. -/
theorem locate_afresh (hW : h.WellFormed) (hn : h.isLive n = true) (hOnly : h.isExplicitOnly n = false)
    (hSettled : h.Settled n) (fuel : Nat) : ∀ m ∈ h.path n, AfreshInStep h n fuel m := by
  induction fuel with
  | zero => exact fun m _ key d d' _ _ => .endless
  | succ fuel ih =>
    intro m hm key d d' hT hd
    refine locateAfresh_match hW hSettled hm hT.fits hd fun hV => ?_
    refine createAfresh_match hW hSettled (fun _ hNone => ?_) hm hd
    exact place_afresh hW hn hOnly hSettled ih _ (fun _ hMem => List.mem_reverse.mp hMem) hNone hT hV hd

/-- So do they where nothing may be created but by conversion. -/
theorem locate_afresh_of_explicitOnly (hW : h.WellFormed) (hOnly : h.isExplicitOnly n = true)
    (hSettled : h.Settled n) (fuel : Nat) (key : Key) (hF : Fits h n d) (hd : Paired (marksOf h n) False d d') :
    Match Binding.Matches (Paired (marksOf h n) False) (Placement.locate (fuel + 1) n key d)
      (locateAfresh (fuel + 1) n key d') := by
  refine locateAfresh_match hW hSettled self_mem_path hF hd fun _ => ?_
  refine createAfresh_match hW hSettled (fun hCreates => ?_) self_mem_path hd
  rw [hOnly] at hCreates
  cases hCreates

end Placement

namespace Hierarchy

/-- Drafts that match publish the same. -/
theorem sameBindings_publish (hd : Paired (marksOf h n) False d d') : SameBindings d.publish d'.publish := by
  rw [publish_eq_foldl, publish_eq_foldl]
  exact (sameBindings_of_marked hd.hierarchy.1 hd.hierarchy.2).foldl_own hd.hierarchy.1.wellFormed.rooted
    (hd.staged.imp fun _ _ hBoth => hBoth.1)

-- ---------------------------------------------------------------------------
-- Resolving
-- ---------------------------------------------------------------------------

/-- Where conversions are settled on the path of a live injector, resolving a key there ends in the same way whether
the search remembers or forgets which attempts have failed: with bindings that match, or with the same report. And the
same injectors own bindings that match afterwards. Bindings that match are the same but for what depends on how much
was tried on the way: their numbers, and what scopes and converters make of the state of user code. -/
theorem resolve_afresh (hReach : Reachable h) (hn : h.isLive n = true) (hSettled : h.Settled n) (key : Key) :
    (∃ outcome h', h.resolve n key = some (outcome, h')) ∧
      Match Binding.Matches SameBindings (h.resolve n key) (h.resolveAfresh n key) := by
  have hW := hReach.wellFormed
  obtain ⟨⟨outcome, h'⟩, hEnds⟩ := resolve_ends hW n key
  refine ⟨⟨outcome, h', hEnds⟩, ?_⟩
  have hRefl := Marked.refl hW
  have hStart : Paired (marksOf h n) False { hierarchy := h } { hierarchy := h } :=
    ⟨⟨hRefl, hRefl⟩, .nil, False.elim⟩
  have hSearch : Match Binding.Matches (Paired (marksOf h n) False)
      (Placement.locate (depthBound h n) n key { hierarchy := h })
      (locateAfresh (depthBound h n) n key { hierarchy := h }) := by
    cases hOnly : h.isExplicitOnly n with
    | false =>
      refine locate_afresh hW hn hOnly hSettled _ n self_mem_path key _ _ ?_ hStart
      exact ⟨fits_start hW n, sound_start h n, enoughFuel_depthBound h n⟩
    | true => exact locate_afresh_of_explicitOnly hW hOnly hSettled _ key (fits_start hW n) hStart
  simp only [resolve, resolveAfresh]
  cases h.lookup n key with
  | some binding => exact .ok (.refl binding) (sameBindings_of_marked hRefl hRefl)
  | none =>
    simp only
    generalize Placement.locate (depthBound h n) n key { hierarchy := h } = found at hSearch ⊢
    generalize locateAfresh (depthBound h n) n key { hierarchy := h } = found' at hSearch ⊢
    cases hSearch with
    | endless => exact .endless
    | error hd => exact .error (sameBindings_of_marked hd.hierarchy.1 hd.hierarchy.2)
    | ok hSame hd => exact .ok hSame (sameBindings_publish hd)

-- ---------------------------------------------------------------------------
-- Where conversions are not settled
-- ---------------------------------------------------------------------------

/-- A converter that reads values of a type from any text. -/
def reader (type : ServiceType) : ConverterRegistration :=
  ⟨⟨fun key => decide (key.type = type), fun text _ user => (.ok (.made 0 type (.primitive text)), user)⟩, .builtin⟩

/-- A declaration that links a key to another one. -/
def link (key target : Key) : Declaration :=
  ⟨key, .linked target, none, .builtin⟩

/-- A root that binds a text and can read a port from it, a child, and a grandchild. The key `A` needs `B` and `C`
in the grandchild, but in the child it is linked to `C`. What `B` is linked to in the root, and `C` in the child, is
the port; in the grandchild `C` is linked to `D`, and nothing is declared for that. If the child can read ports too,
there are two ways to read one there. -/
def readings (twice : Bool) : Hierarchy :=
  let port := Key.named ⟨20, "u16"⟩ "port"
  let a := Key.of ⟨10, "A"⟩
  let b := Key.of ⟨11, "B"⟩
  let c := Key.of ⟨12, "C"⟩
  let text : Declaration := ⟨.named .text "port", .fixed (.made 0 .text (.primitive "80")), none, .builtin⟩
  let make : Constructor := ⟨[b, c], fun _ => .finish (.ok (.made 0 a.type (.primitive "")))⟩
  let root := create none ⟨[text], [link b port], [], [], [reader port.type]⟩ false {}
  let child := root.2.create (some 0)
    ⟨[], [link c port, link a c], [], [], if twice then [reader port.type] else []⟩ false
  (child.2.create (some 1)
    ⟨[], [⟨a, .constructed make, none, .builtin⟩, link c (.of ⟨13, "D"⟩)], [], [], []⟩ false).2

theorem reachable_readings (twice : Bool) : Reachable (readings twice) := by
  refine .tail (.tail (.single (.create ?_)) (.create ?_)) (.create ?_)
  · rintro p ⟨⟩
  · rintro p ⟨⟩
    rfl
  · rintro p ⟨⟩
    cases twice <;> rfl

/-- A path on which there is one converter, which always succeeds. -/
theorem resolve_afresh_in_readings :
    let h := readings false
    let key := Key.of ⟨10, "A"⟩
    Reachable h ∧ h.isLive 2 = true ∧ h.Settled 2 ∧ (h.resolve 2 key).map (·.1.toBool) = some true ∧
      Match Binding.Matches SameBindings (h.resolve 2 key) (h.resolveAfresh 2 key) := by
  intro h key
  have hPath : h.path 2 = [2, 1, 0] := by decide +kernel
  have hConverters : ∀ m ∈ h.path 2, h.converters m = [reader ⟨20, "u16"⟩] := by
    simp only [hPath, List.forall_mem_cons]
    exact ⟨rfl, rfl, rfl, List.forall_mem_nil _⟩
  have hSettled : h.Settled 2 := by
    refine settled_of_succeeds fun m hm key conversion hConversion => ?_
    obtain ⟨-, -, hAccepting, hSome⟩ := conversion?_eq_some_iff.mp hConversion
    rw [hConverters m hm, List.filter_singleton] at hAccepting
    cases hAccepts : (reader ⟨20, "u16"⟩).converter.accepts key with
    | true => exact ⟨_, by rw [← hAccepting, hAccepts]; rfl, fun user => ⟨_, rfl⟩⟩
    | false =>
      rw [hAccepts] at hAccepting
      exact absurd hAccepting.symm hSome
  have hReach := reachable_readings false
  have hLive : h.isLive 2 = true := by decide +kernel
  exact ⟨hReach, hLive, hSettled, by decide +kernel, (resolve_afresh hReach hLive hSettled key).2⟩

/-- Where the child can read ports too, `C` fails there for the port that it is linked to, and so does `A`. That is
remembered. But then the grandchild places `B` in the root, and with it the port is read there, so that `C` would
do in the child by now. -/
theorem resolve_not_afresh :
    let h := readings true
    let key := Key.of ⟨10, "A"⟩
    Reachable h ∧ h.isLive 2 = true ∧ (h.resolve 2 key).map (·.1.toBool) = some false ∧
      (h.resolveAfresh 2 key).map (·.1.toBool) = some true :=
  ⟨reachable_readings true, by decide +kernel, by decide +kernel, by decide +kernel⟩

end Hierarchy

end InjectorTree
