/-!
# Tables

A finite map kept as a list of entries in the order in which their keys first came in. Nothing depends on
an order that a table does not show.

* `get?_insert` says what an insertion changes.
* `nodup_keys_insert`: a table built by insertions holds each key once.
* `get?_eq_some_iff`: where each key is held once, the value of a key is the one it stands beside.
* `perm_values_insert`, `perm_values_erase`: what changes of the values, however often one occurs among them.
* `get?_groupBy`: a group holds the values of its key, in their order; `entries_groupBy` lists all groups.
-/

namespace InjectorTree

/-- Entries in the order in which their keys first came in. -/
structure Table (κ ν : Type) where
  entries : List (κ × ν) := []

namespace Table

variable {κ ν : Type} [DecidableEq κ]

instance : EmptyCollection (Table κ ν) := ⟨⟨[]⟩⟩

instance : Inhabited (Table κ ν) := ⟨∅⟩

/-- The keys, oldest first. -/
def keys (t : Table κ ν) : List κ :=
  t.entries.map Prod.fst

/-- The values, in the order of their keys. -/
def values (t : Table κ ν) : List ν :=
  t.entries.map Prod.snd

/-- The value of a key. -/
def get? (t : Table κ ν) (k : κ) : Option ν :=
  t.entries.findSome? fun entry => if entry.1 = k then some entry.2 else none

/-- Whether the key has a value. -/
def contains (t : Table κ ν) (k : κ) : Bool :=
  (t.get? k).isSome

/-- Replaces the value of `k` in a list of entries, or adds an entry at the end. -/
def insertEntry (k : κ) (v : ν) : List (κ × ν) → List (κ × ν)
  | [] => [(k, v)]
  | entry :: rest => if entry.1 = k then (k, v) :: rest else entry :: insertEntry k v rest

/-- Gives `k` the value `v`, in its old place if it has one. -/
def insert (t : Table κ ν) (k : κ) (v : ν) : Table κ ν :=
  ⟨insertEntry k v t.entries⟩

/-- Gives `k` the value `v` unless it has a value already. -/
def insertNew (t : Table κ ν) (k : κ) (v : ν) : Table κ ν :=
  if t.contains k then t else t.insert k v

/-- Forgets the value of a key. -/
def erase (t : Table κ ν) (k : κ) : Table κ ν :=
  ⟨t.entries.filter fun entry => entry.1 ≠ k⟩

/-- The entries that satisfy a condition. -/
def filter (t : Table κ ν) (p : κ → ν → Bool) : Table κ ν :=
  ⟨t.entries.filter fun entry => p entry.1 entry.2⟩

/-- Changes every value. -/
def mapValues {μ : Type} (t : Table κ ν) (f : κ → ν → μ) : Table κ μ :=
  ⟨t.entries.map fun entry => (entry.1, f entry.1 entry.2)⟩

/-- Changes the value of one key, if it has one. -/
def modify (t : Table κ ν) (k : κ) (f : ν → ν) : Table κ ν :=
  t.mapValues fun k' v => if k' = k then f v else v

/-- Adds a value to the list of a key. -/
def push (t : Table κ (List ν)) (k : κ) (v : ν) : Table κ (List ν) :=
  t.insert k ((t.get? k).getD [] ++ [v])

/-- The values of a list by a key of theirs: keys in the order in which they first occur, the values of
each key in their order. -/
def groupBy (key : ν → κ) (values : List ν) : Table κ (List ν) :=
  values.foldl (fun t v => t.push (key v) v) ∅

/-! ## What the operations do to `get?` -/

@[simp] theorem get?_empty (k : κ) : (∅ : Table κ ν).get? k = none := rfl

theorem get?_insert (t : Table κ ν) (k k' : κ) (v : ν) :
    (t.insert k v).get? k' = if k = k' then some v else t.get? k' := by
  obtain ⟨entries⟩ := t
  simp only [get?, insert]
  induction entries with
  | nil => simp [insertEntry]
  | cons entry rest ih =>
    simp only [insertEntry]
    by_cases h : entry.1 = k
    · subst h
      by_cases h' : entry.1 = k' <;> simp [h']
    · by_cases h' : entry.1 = k'
      · subst h'
        simp [h, Ne.symm h]
      · simp [h, h', ih]

@[simp] theorem get?_insert_self (t : Table κ ν) (k : κ) (v : ν) : (t.insert k v).get? k = some v := by
  simp [get?_insert]

theorem get?_insertNew (t : Table κ ν) (k k' : κ) (v : ν) :
    (t.insertNew k v).get? k' = if k = k' then some ((t.get? k).getD v) else t.get? k' := by
  unfold insertNew contains
  cases h : t.get? k with
  | none => simp [get?_insert]
  | some old =>
    by_cases hk : k = k'
    · subst hk
      simp [h]
    · simp [hk]

theorem get?_push (t : Table κ (List ν)) (k k' : κ) (v : ν) :
    (t.push k v).get? k' = if k = k' then some ((t.get? k).getD [] ++ [v]) else t.get? k' :=
  get?_insert ..

@[simp] theorem get?_mapValues {μ : Type} (t : Table κ ν) (f : κ → ν → μ) (k : κ) :
    (t.mapValues f).get? k = (t.get? k).map (f k) := by
  obtain ⟨entries⟩ := t
  simp only [get?, mapValues]
  induction entries with
  | nil => rfl
  | cons entry rest ih =>
    by_cases h : entry.1 = k
    · subst h
      simp
    · simp only [List.map_cons, List.findSome?_cons, if_neg h, ih]

theorem get?_modify (t : Table κ ν) (k k' : κ) (f : ν → ν) :
    (t.modify k f).get? k' = if k = k' then (t.get? k').map f else t.get? k' := by
  unfold modify
  rw [get?_mapValues]
  by_cases h : k = k'
  · subst h
    simp
  · simp [h, Ne.symm h]

theorem get?_erase (t : Table κ ν) (k k' : κ) :
    (t.erase k).get? k' = if k = k' then none else t.get? k' := by
  obtain ⟨entries⟩ := t
  simp only [get?, erase]
  induction entries with
  | nil => simp
  | cons entry rest ih =>
    by_cases h : entry.1 = k
    · subst h
      by_cases hk : entry.1 = k'
      · simp_all
      · simp_all
    · by_cases hk : entry.1 = k'
      · subst hk
        simp [h, Ne.symm h]
      · simp_all

theorem mem_keys_insertEntry (k k' : κ) (v : ν) (entries : List (κ × ν)) :
    k' ∈ (insertEntry k v entries).map Prod.fst ↔ k' = k ∨ k' ∈ entries.map Prod.fst := by
  induction entries with
  | nil => simp [insertEntry]
  | cons entry rest ih =>
    simp only [insertEntry]
    by_cases h : entry.1 = k
    · subst h
      simp
    · simp only [h, if_false, List.map_cons, List.mem_cons, ih]
      constructor <;> rintro (h | h | h) <;> simp_all

theorem nodup_keys_insert (t : Table κ ν) (k : κ) (v : ν) (h : t.keys.Nodup) :
    (t.insert k v).keys.Nodup := by
  obtain ⟨entries⟩ := t
  simp only [keys, insert] at h ⊢
  induction entries with
  | nil => simp [insertEntry]
  | cons entry rest ih =>
    simp only [List.map_cons, List.nodup_cons] at h
    simp only [insertEntry]
    by_cases hk : entry.1 = k
    · subst hk
      simpa using h
    · rw [if_neg hk, List.map_cons, List.nodup_cons, mem_keys_insertEntry, not_or]
      exact ⟨⟨hk, h.1⟩, ih h.2⟩

/-- A key that comes in for the first time comes last. -/
theorem keys_insert (t : Table κ ν) (k : κ) (v : ν) :
    (t.insert k v).keys = if k ∈ t.keys then t.keys else t.keys ++ [k] := by
  obtain ⟨entries⟩ := t
  simp only [keys, insert]
  induction entries with
  | nil => rfl
  | cons entry rest ih =>
    unfold insertEntry
    by_cases hKey : entry.1 = k
    · simp [hKey]
    · by_cases hRest : k ∈ rest.map Prod.fst
      · simp [hKey, ih, hRest]
      · simp [hKey, ih, hRest, Ne.symm hKey]

/-! ## Keys and entries -/

theorem mem_entries_of_get? {t : Table κ ν} {k : κ} {v : ν} (h : t.get? k = some v) : (k, v) ∈ t.entries := by
  obtain ⟨entry, hEntry, hValue⟩ := List.exists_of_findSome?_eq_some h
  split at hValue
  · next hKey =>
    cases hValue
    rw [← hKey]
    exact hEntry
  · cases hValue

theorem mem_keys_of_get? {t : Table κ ν} {k : κ} {v : ν} (h : t.get? k = some v) : k ∈ t.keys :=
  List.mem_map_of_mem (f := Prod.fst) (mem_entries_of_get? h)

/-- A key has a value exactly if it is among the keys. -/
theorem isSome_get?_iff {t : Table κ ν} {k : κ} : (t.get? k).isSome = true ↔ k ∈ t.keys := by
  rw [get?, List.findSome?_isSome_iff, keys, List.mem_map]
  refine exists_congr fun entry => and_congr_right fun _ => ?_
  split
  · next hKey => exact iff_of_true rfl hKey
  · next hKey => exact iff_of_false Bool.false_ne_true hKey

/-- An insertion leaves the entries of other keys alone. -/
theorem mem_entries_insert_of_ne {t : Table κ ν} {entry : κ × ν} {k : κ} (hMem : entry ∈ t.entries) (hNe : entry.1 ≠ k)
    (v : ν) : entry ∈ (t.insert k v).entries := by
  obtain ⟨entries⟩ := t
  simp only [insert] at hMem ⊢
  induction entries with
  | nil => cases hMem
  | cons first rest ih =>
    unfold insertEntry
    rcases List.mem_cons.mp hMem with rfl | hRest
    · rw [if_neg hNe]
      exact List.mem_cons_self
    · split
      · exact List.mem_cons_of_mem _ hRest
      · exact List.mem_cons_of_mem _ (ih hRest)

/-- Where each key is held once, the value of a key is the one it stands beside. -/
theorem get?_eq_some_iff {t : Table κ ν} (hNodup : t.keys.Nodup) {k : κ} {v : ν} :
    t.get? k = some v ↔ (k, v) ∈ t.entries := by
  refine ⟨mem_entries_of_get?, ?_⟩
  obtain ⟨entries⟩ := t
  simp only [get?, keys] at hNodup ⊢
  induction entries with
  | nil => intro h; cases h
  | cons entry rest ih =>
    rw [List.map_cons, List.nodup_cons] at hNodup
    intro h
    rcases List.mem_cons.mp h with rfl | hRest
    · simp
    · have hne : entry.1 ≠ k := by
        intro hKey
        exact hNodup.1 (hKey ▸ List.mem_map_of_mem (f := Prod.fst) hRest)
      rw [List.findSome?_cons, if_neg hne]
      exact ih hNodup.2 hRest

theorem mem_values_of_get? {t : Table κ ν} {k : κ} {v : ν} (h : t.get? k = some v) : v ∈ t.values :=
  List.mem_map_of_mem (f := Prod.snd) (mem_entries_of_get? h)

omit [DecidableEq κ] in
@[simp] theorem keys_mapValues {μ : Type} (t : Table κ ν) (f : κ → ν → μ) :
    (t.mapValues f).keys = t.keys := by
  simp [keys, mapValues]

@[simp] theorem keys_modify (t : Table κ ν) (k : κ) (f : ν → ν) : (t.modify k f).keys = t.keys :=
  keys_mapValues ..

theorem nodup_keys_insertNew (t : Table κ ν) (k : κ) (v : ν) (h : t.keys.Nodup) :
    (t.insertNew k v).keys.Nodup := by
  unfold insertNew
  split
  · exact h
  · exact nodup_keys_insert t k v h

theorem keys_erase (t : Table κ ν) (k : κ) : (t.erase k).keys = t.keys.filter (· ≠ k) := by
  rw [keys, keys, List.filter_map]
  rfl

theorem nodup_keys_erase (t : Table κ ν) (k : κ) (h : t.keys.Nodup) : (t.erase k).keys.Nodup :=
  List.Nodup.sublist (List.filter_sublist.map Prod.fst) h

/-- An insertion replaces one value at most. -/
theorem perm_values_insert (t : Table κ ν) (k : κ) (v : ν) :
    ((t.get? k).toList ++ (t.insert k v).values).Perm (v :: t.values) := by
  obtain ⟨entries⟩ := t
  simp only [get?, insert, values]
  induction entries with
  | nil => exact List.Perm.refl _
  | cons entry rest ih =>
    simp only [insertEntry, List.findSome?_cons]
    by_cases hKey : entry.1 = k
    · -- the old value goes, and the new one takes its place
      rw [if_pos hKey, if_pos hKey]
      exact List.Perm.swap v entry.2 (rest.map Prod.snd)
    · rw [if_neg hKey, if_neg hKey]
      refine List.perm_middle.trans ?_
      exact (ih.cons entry.2).trans (List.Perm.swap v entry.2 _)

/-- Erasing a key forgets its value, and no other. -/
theorem perm_values_erase {t : Table κ ν} (hNodup : t.keys.Nodup) {k : κ} {v : ν} (hValue : t.get? k = some v) :
    (v :: (t.erase k).values).Perm t.values := by
  obtain ⟨entries⟩ := t
  simp only [get?, erase, values, keys] at hNodup hValue ⊢
  induction entries with
  | nil => cases hValue
  | cons entry rest ih =>
    rw [List.map_cons, List.nodup_cons] at hNodup
    rw [List.findSome?_cons] at hValue
    by_cases hKey : entry.1 = k
    · -- no other entry has the key
      rw [if_pos hKey] at hValue
      cases hValue
      have hRest : ∀ other ∈ rest, decide (other.1 ≠ k) = true := by
        intro other hOther
        refine decide_eq_true fun hEq => hNodup.1 ?_
        rw [hKey, ← hEq]
        exact List.mem_map_of_mem hOther
      rw [List.filter_cons_of_neg (by simp [hKey]), List.filter_eq_self.mpr hRest]
      exact List.Perm.refl _
    · rw [if_neg hKey] at hValue
      rw [List.filter_cons_of_pos (by simp [hKey]), List.map_cons, List.map_cons]
      exact (List.Perm.swap entry.2 v _).trans ((ih hNodup.2 hValue).cons entry.2)

/-! ## Tables built from lists -/

/-- A table into which things with distinct keys were inserted holds each of them under its key. -/
theorem get?_foldl_insert {key : ν → κ} {k : κ} {v : ν} (vs : List ν) (hNodup : (vs.map key).Nodup)
    (t : Table κ ν) :
    (vs.foldl (fun t v => t.insert (key v) v) t).get? k = some v ↔
      v ∈ vs ∧ key v = k ∨ (∀ w ∈ vs, key w ≠ k) ∧ t.get? k = some v := by
  induction vs generalizing t with
  | nil => simp
  | cons first rest ih =>
    rw [List.map_cons, List.nodup_cons] at hNodup
    rw [List.foldl_cons, ih hNodup.2, get?_insert]
    by_cases hKey : key first = k
    · -- the key of `first` does not come up again
      have hRest : ∀ w ∈ rest, key w ≠ k := by
        intro w hw hEq
        exact hNodup.1 (hKey ▸ hEq ▸ List.mem_map_of_mem (f := key) hw)
      constructor
      · rintro (⟨hv, hEq⟩ | ⟨-, hEq⟩)
        · exact absurd hEq (hRest v hv)
        · rw [if_pos hKey, Option.some.injEq] at hEq
          subst hEq
          exact Or.inl ⟨List.mem_cons_self, hKey⟩
      · rintro (⟨hv, hEq⟩ | ⟨hAll, -⟩)
        · rcases List.mem_cons.mp hv with rfl | hv
          · exact Or.inr ⟨hRest, if_pos hKey⟩
          · exact absurd hEq (hRest v hv)
        · exact absurd hKey (hAll first List.mem_cons_self)
    · rw [if_neg hKey]
      simp only [List.mem_cons, forall_eq_or_imp, or_and_right, ne_eq, hKey, not_false_eq_true, true_and]
      constructor
      · rintro (h | h)
        · exact Or.inl (Or.inr h)
        · exact Or.inr h
      · rintro ((⟨rfl, hEq⟩ | h) | h)
        · exact absurd hEq hKey
        · exact Or.inl h
        · exact Or.inr h

theorem nodup_keys_foldl_insert {key : ν → κ} (vs : List ν) (t : Table κ ν) (h : t.keys.Nodup) :
    (vs.foldl (fun t v => t.insert (key v) v) t).keys.Nodup := by
  induction vs generalizing t with
  | nil => exact h
  | cons first rest ih => exact ih _ (nodup_keys_insert t _ _ h)

private theorem getD_get?_foldl_push (key : ν → κ) (k : κ) (vs : List ν) (t : Table κ (List ν)) :
    ((vs.foldl (fun t v => t.push (key v) v) t).get? k).getD [] =
      (t.get? k).getD [] ++ vs.filter fun v => key v = k := by
  induction vs generalizing t with
  | nil => simp
  | cons first rest ih =>
    rw [List.foldl_cons, ih, get?_push, List.filter_cons]
    by_cases hKey : key first = k
    · subst hKey
      simp
    · simp [hKey]

/-- A group holds the values of its key, in their order. -/
theorem get?_groupBy (key : ν → κ) (vs : List ν) (k : κ) :
    ((groupBy key vs).get? k).getD [] = vs.filter fun v => key v = k := by
  rw [groupBy, getD_get?_foldl_push]
  rfl

theorem nodup_keys_groupBy (key : ν → κ) (vs : List ν) : (groupBy key vs).keys.Nodup := by
  have hFold : ∀ (vs : List ν) (t : Table κ (List ν)), t.keys.Nodup →
      (vs.foldl (fun t v => t.push (key v) v) t).keys.Nodup := by
    intro vs
    induction vs with
    | nil => exact fun t h => h
    | cons first rest ih => exact fun t h => ih _ (nodup_keys_insert t _ _ h)
  exact hFold vs ∅ List.nodup_nil

/-- A group holds values of its key only. -/
theorem key_of_mem_groupBy {key : ν → κ} {vs : List ν} {group : κ × List ν}
    (hGroup : group ∈ (groupBy key vs).entries) : ∀ v ∈ group.2, key v = group.1 := by
  intro v hMem
  have hGet := get?_groupBy key vs group.1
  rw [(get?_eq_some_iff (nodup_keys_groupBy key vs)).mpr hGroup, Option.getD_some] at hGet
  rw [hGet, List.mem_filter] at hMem
  exact of_decide_eq_true hMem.2

/-- The groups stand in the order in which their keys first occur. -/
theorem keys_groupBy (key : ν → κ) (vs : List ν) : (groupBy key vs).keys = (vs.map key).eraseDups := by
  have hFold : ∀ (vs : List ν) (t : Table κ (List ν)),
      (vs.foldl (fun t v => t.push (key v) v) t).keys =
        t.keys ++ ((vs.map key).filter fun k => !t.keys.contains k).eraseDups := by
    intro vs
    induction vs with
    | nil => exact fun t => (List.append_nil _).symm
    | cons first rest ih =>
      intro t
      rw [List.foldl_cons, ih, push, keys_insert, List.map_cons]
      by_cases hKey : key first ∈ t.keys
      · rw [if_pos hKey, List.filter_cons_of_neg (by simpa using hKey)]
      · rw [if_neg hKey, List.filter_cons_of_pos (by simpa using hKey), List.eraseDups_cons, List.filter_filter,
          List.append_assoc, List.singleton_append]
        refine congrArg (fun later => t.keys ++ key first :: later.eraseDups) (List.filter_congr fun other _ => ?_)
        rw [Bool.eq_iff_iff]
        simp [and_comm]
  exact (hFold vs ∅).trans (congrArg List.eraseDups (List.filter_eq_self.mpr fun _ _ => rfl))

/-- Each key is held with the values of its group. -/
theorem entries_groupBy (key : ν → κ) (vs : List ν) :
    (groupBy key vs).entries = (vs.map key).eraseDups.map fun k => (k, vs.filter fun v => key v = k) := by
  rw [← keys_groupBy, keys, List.map_map]
  refine (List.map_id _).symm.trans (List.map_congr_left fun entry hEntry => ?_)
  have hGroup := get?_groupBy key vs entry.1
  rw [(get?_eq_some_iff (nodup_keys_groupBy key vs)).mpr hEntry, Option.getD_some] at hGroup
  exact Prod.ext rfl hGroup

/-- Values that are each alone with their key stay in their order. -/
theorem flatten_groupBy (key : ν → κ) (vs : List ν) (hAlone : ∀ k, (vs.filter fun v => key v = k).length ≤ 1) :
    (groupBy key vs).values.flatten = vs := by
  rw [values, entries_groupBy, List.map_map]
  show ((vs.map key).eraseDups.map fun k => vs.filter fun v => key v = k).flatten = vs
  induction vs with
  | nil => rfl
  | cons v rest ih =>
    -- the key of `v` does not come up again
    have hGroup : ((v :: rest).filter fun w => key w = key v) = v :: rest.filter fun w => key w = key v :=
      List.filter_cons_of_pos (decide_eq_true rfl)
    have hFirst : ∀ w ∈ rest, ¬decide (key w = key v) = true := by
      have hLength := hAlone (key v)
      rw [hGroup, List.length_cons] at hLength
      exact List.filter_eq_nil_iff.mp (List.length_eq_zero_iff.mp (Nat.le_zero.mp (Nat.le_of_succ_le_succ hLength)))
    have hOther : ∀ w ∈ rest, key w ≠ key v := fun w hw hEq => hFirst w hw (decide_eq_true hEq)
    have hRest : ∀ k, (rest.filter fun w => key w = k).length ≤ 1 := fun k =>
      Nat.le_trans ((List.sublist_cons_self v rest).filter _).length_le (hAlone k)
    have hKeys : (rest.map key).filter (fun k => !k == key v) = rest.map key :=
      List.filter_eq_self.mpr fun k hk => by
        obtain ⟨w, hw, rfl⟩ := List.mem_map.mp hk
        simpa using hOther w hw
    have hSame : ∀ k ∈ (rest.map key).eraseDups,
        ((v :: rest).filter fun w => key w = k) = rest.filter fun w => key w = k := fun k hk => by
      obtain ⟨w, hw, rfl⟩ := List.mem_map.mp (List.mem_eraseDups.mp hk)
      exact List.filter_cons_of_neg (by simpa using (hOther w hw).symm)
    rw [List.map_cons, List.eraseDups_cons, hKeys, List.map_cons, List.flatten_cons, List.map_congr_left hSame,
      ih hRest, hGroup, List.filter_eq_nil_iff.mpr hFirst]
    rfl

end Table

end InjectorTree
