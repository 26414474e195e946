import InjectorTree.Hierarchy.Basic

/-!
# Paths

The live injectors form trees, and every lineage is the walk from an injector's parent to the root of its
tree. `Rooted` says so in terms of one step up; what is said here of whole paths follows by walking up.

* `mem_path_trans`: the path of an injector on a path is the rest of that path.
* `mem_path_or_mem_lineage`: of two injectors on one path, one is on the path of the other.
* `lookup_eq_none_iff`, `lookup_isSome_iff`: a key is located exactly if somebody on the path binds it.
-/

namespace InjectorTree.Hierarchy

variable {h : Hierarchy} {n m p q a : InjectorId} {key : Key}

-- ---------------------------------------------------------------------------
-- One injector
-- ---------------------------------------------------------------------------

theorem injector?_modify (h : Hierarchy) (n m : InjectorId) (f : Injector → Injector) :
    (h.modify n f).injector? m = if n = m then (h.injector? m).map f else h.injector? m := by
  unfold injector? modify
  rw [Table.get?_modify]

theorem isLive_iff : h.isLive n = true ↔ ∃ injector, h.injector? n = some injector :=
  Option.isSome_iff_exists

theorem isLive_of_injector? {injector : Injector} (hn : h.injector? n = some injector) :
    h.isLive n = true :=
  isLive_iff.mpr ⟨injector, hn⟩

theorem lineage_of_injector? {injector : Injector} (hn : h.injector? n = some injector) :
    h.lineage n = injector.lineage := by
  rw [lineage, hn]

theorem isExplicitOnly_of_injector? {injector : Injector} (hn : h.injector? n = some injector) :
    h.isExplicitOnly n = injector.explicitOnly := by
  rw [isExplicitOnly, hn, Option.elim_some]

theorem binding?_of_injector? {injector : Injector} (hn : h.injector? n = some injector) (key : Key) :
    h.binding? n key = injector.binding? key := by
  rw [binding?, hn, Option.bind_some]

/-- Only live injectors have ancestors. -/
theorem isLive_of_mem_lineage (ha : a ∈ h.lineage n) : h.isLive n = true := by
  cases hn : h.injector? n with
  | some injector => exact isLive_of_injector? hn
  | none =>
    rw [lineage, hn] at ha
    cases ha

theorem isBelow_iff : h.isBelow m n = true ↔ n ∈ h.lineage m :=
  decide_eq_true_iff

theorem self_mem_path : n ∈ h.path n :=
  List.mem_cons_self

theorem mem_path_of_mem_lineage (hp : p ∈ h.lineage n) : p ∈ h.path n :=
  List.mem_cons_of_mem n hp

theorem mem_path_iff : p ∈ h.path n ↔ p = n ∨ p ∈ h.lineage n :=
  List.mem_cons

-- ---------------------------------------------------------------------------
-- The trees of injectors
-- ---------------------------------------------------------------------------

/-- The live injectors form trees. Identifiers grow from an injector to its children, a child of an injector
that takes explicit bindings only does so too, and whatever is held is live. -/
structure Rooted (h : Hierarchy) : Prop where
  distinct : h.injectors.keys.Nodup
  fresh : ∀ {n : InjectorId}, h.isLive n = true → n < h.nextInjector
  parent : ∀ {n p : InjectorId} {rest : List InjectorId}, h.lineage n = p :: rest →
    p < n ∧ h.isLive p = true ∧ h.lineage p = rest ∧
      (h.isExplicitOnly p = true → h.isExplicitOnly n = true)
  held : ∀ {n : InjectorId}, n ∈ h.holds → h.isLive n = true

namespace Rooted

/-- Walking up from an injector, the walk goes on as it does from each ancestor. -/
theorem lineage_of_append (hR : h.Rooted) {before after : List InjectorId}
    (hn : h.lineage n = before ++ a :: after) :
    h.isLive a = true ∧ h.lineage a = after ∧ a < n ∧
      (h.isExplicitOnly a = true → h.isExplicitOnly n = true) := by
  -- one step up at a time, until the ancestor is the parent
  induction before generalizing n with
  | nil =>
    obtain ⟨hLt, hLive, hRest, hOnly⟩ := hR.parent hn
    exact ⟨hLive, hRest, hLt, hOnly⟩
  | cons p before ih =>
    obtain ⟨hLt, -, hRest, hOnly⟩ := hR.parent hn
    obtain ⟨hLive, hAfter, hLt', hOnly'⟩ := ih hRest
    exact ⟨hLive, hAfter, Nat.lt_trans hLt' hLt, fun hExplicit => hOnly (hOnly' hExplicit)⟩

theorem isLive_ancestor (hR : h.Rooted) (ha : a ∈ h.lineage n) : h.isLive a = true := by
  obtain ⟨before, after, hn⟩ := List.append_of_mem ha
  exact (hR.lineage_of_append hn).1

theorem lt_of_mem_lineage (hR : h.Rooted) (ha : a ∈ h.lineage n) : a < n := by
  obtain ⟨before, after, hn⟩ := List.append_of_mem ha
  exact (hR.lineage_of_append hn).2.2.1

theorem not_mem_lineage_self (hR : h.Rooted) : n ∉ h.lineage n :=
  fun hn => Nat.lt_irrefl n (hR.lt_of_mem_lineage hn)

/-- The ancestors of an ancestor come after it in the lineage. -/
theorem lineage_suffix (hR : h.Rooted) (ha : a ∈ h.lineage n) : a :: h.lineage a <:+ h.lineage n := by
  obtain ⟨before, after, hn⟩ := List.append_of_mem ha
  rw [(hR.lineage_of_append hn).2.1, hn]
  exact List.suffix_append before _

theorem isLive_of_mem_path (hR : h.Rooted) (hn : h.isLive n = true) (hp : p ∈ h.path n) :
    h.isLive p = true := by
  rcases mem_path_iff.mp hp with rfl | hp
  · exact hn
  · exact hR.isLive_ancestor hp

theorem isExplicitOnly_of_mem_path (hR : h.Rooted) (hp : p ∈ h.path n)
    (hOnly : h.isExplicitOnly p = true) : h.isExplicitOnly n = true := by
  rcases mem_path_iff.mp hp with rfl | hp
  · exact hOnly
  · obtain ⟨before, after, hn⟩ := List.append_of_mem hp
    exact (hR.lineage_of_append hn).2.2.2 hOnly

theorem isExplicitOnly_eq_false (hR : h.Rooted) (hp : p ∈ h.path n) (hOnly : h.isExplicitOnly n = false) :
    h.isExplicitOnly p = false :=
  Bool.eq_false_iff.mpr fun hExplicit => Bool.eq_false_iff.mp hOnly (hR.isExplicitOnly_of_mem_path hp hExplicit)

theorem path_suffix (hR : h.Rooted) (hp : p ∈ h.path n) : h.path p <:+ h.path n := by
  rcases mem_path_iff.mp hp with rfl | hp
  · exact List.suffix_rfl
  · exact (hR.lineage_suffix hp).trans (List.suffix_cons n _)

/-- The path of an injector on a path is the rest of that path. -/
theorem mem_path_trans (hR : h.Rooted) (hp : p ∈ h.path n) (hq : q ∈ h.path p) : q ∈ h.path n :=
  (hR.path_suffix hp).subset hq

theorem mem_lineage_of_lineage (hR : h.Rooted) (hp : p ∈ h.lineage n) (hq : q ∈ h.path p) :
    q ∈ h.lineage n :=
  (hR.lineage_suffix hp).subset hq

/-- Of two injectors on one path, one is on the path of the other. -/
theorem mem_path_or_mem_lineage (hR : h.Rooted) (hp : p ∈ h.path n) (hq : q ∈ h.path n) :
    q ∈ h.path p ∨ p ∈ h.lineage q := by
  -- both paths are rests of one list, so one of them is a rest of the other
  rcases List.suffix_or_suffix_of_suffix (hR.path_suffix hp) (hR.path_suffix hq) with hpq | hqp
  · rcases mem_path_iff.mp (hpq.subset self_mem_path) with rfl | hMem
    · exact Or.inl self_mem_path
    · exact Or.inr hMem
  · exact Or.inl (hqp.subset self_mem_path)

theorem converters_subset (hR : h.Rooted) (hp : p ∈ h.path n) : h.converters p ⊆ h.converters n := by
  intro registration hMem
  obtain ⟨q, hq, hMem⟩ := List.mem_flatMap.mp hMem
  exact List.mem_flatMap.mpr ⟨q, hR.mem_path_trans hp hq, hMem⟩

theorem nodup_lineage (hR : h.Rooted) : (h.lineage n).Nodup := by
  -- the parent is not among its own ancestors
  induction hl : h.lineage n generalizing n with
  | nil => exact List.nodup_nil
  | cons p rest ih =>
    obtain ⟨-, -, hRest, -⟩ := hR.parent hl
    rw [List.nodup_cons]
    exact ⟨fun hp => hR.not_mem_lineage_self (hRest ▸ hp), ih hRest⟩

end Rooted

-- ---------------------------------------------------------------------------
-- What is found on a path
-- ---------------------------------------------------------------------------

theorem nearest_eq_none_iff {α : Type} {f : Injector → Option α} :
    h.nearest n f = none ↔ ∀ p ∈ h.path n, (h.injector? p).bind f = none :=
  List.findSome?_eq_none_iff

theorem exists_of_nearest {α : Type} {f : Injector → Option α} {x : α} (hx : h.nearest n f = some x) :
    ∃ p ∈ h.path n, ∃ injector, h.injector? p = some injector ∧ f injector = some x := by
  obtain ⟨p, hp, hFound⟩ := List.exists_of_findSome?_eq_some hx
  obtain ⟨injector, hInjector, hValue⟩ := Option.bind_eq_some_iff.mp hFound
  exact ⟨p, hp, injector, hInjector, hValue⟩

theorem mem_collect {α : Type} {f : Injector → List α} {ns : List InjectorId} {x : α} :
    x ∈ h.collect ns f ↔ ∃ p ∈ ns, ∃ injector, h.injector? p = some injector ∧ x ∈ f injector := by
  rw [collect, List.mem_flatMap]
  refine exists_congr fun p => and_congr_right fun _ => ?_
  cases h.injector? p with
  | none => simp
  | some injector => simp

/-- Where an injector has hooks, those below it have them too. -/
theorem hooks_subset (hR : h.Rooted) (hp : p ∈ h.path n) : h.hooks p ⊆ h.hooks n := by
  intro hook hMem
  obtain ⟨q, hq, hOwn⟩ := mem_collect.mp hMem
  exact mem_collect.mpr ⟨q, List.mem_reverse.mpr (hR.mem_path_trans hp (List.mem_reverse.mp hq)), hOwn⟩

/-- What is nearest to an injector is its own, or nearest to its parent. -/
theorem nearest_of_lineage {α : Type} {f : Injector → Option α} (hR : h.Rooted) {rest : List InjectorId}
    (hn : h.lineage n = p :: rest) :
    h.nearest n f = ((h.injector? n).bind f).or (h.nearest p f) := by
  obtain ⟨-, -, hRest, -⟩ := hR.parent hn
  have hPath : h.path n = n :: h.path p := by rw [path, path, hRest, hn]
  rw [nearest, hPath, List.findSome?_cons]
  cases (h.injector? n).bind f <;> rfl

theorem lookup_eq_none_iff : h.lookup n key = none ↔ ∀ p ∈ h.path n, h.binding? p key = none :=
  nearest_eq_none_iff

theorem lookup_isSome_iff :
    (h.lookup n key).isSome = true ↔ ∃ p ∈ h.path n, (h.binding? p key).isSome = true := by
  simp only [Option.isSome_iff_ne_none, ne_eq, lookup_eq_none_iff, Classical.not_forall, exists_prop]

theorem exists_of_lookup {binding : Binding} (hFound : h.lookup n key = some binding) :
    ∃ p ∈ h.path n, h.binding? p key = some binding := by
  obtain ⟨p, hp, injector, hInjector, hBinding⟩ := exists_of_nearest hFound
  exact ⟨p, hp, by rw [binding?_of_injector? hInjector, hBinding]⟩

/-- What an injector itself owns is nearest to it. -/
theorem lookup_of_own {binding : Binding} (hb : h.binding? n key = some binding) : h.lookup n key = some binding := by
  show (n :: h.lineage n).findSome? (fun m => h.binding? m key) = some binding
  rw [List.findSome?_cons, hb]

/-- A key without a binding on a path has none on the path of any injector of it. -/
theorem lookup_eq_none_of_mem_path (hR : h.Rooted) (hp : p ∈ h.path n) (hNone : h.lookup n key = none) :
    h.lookup p key = none :=
  lookup_eq_none_iff.mpr fun q hq => lookup_eq_none_iff.mp hNone q (hR.mem_path_trans hp hq)

end InjectorTree.Hierarchy
