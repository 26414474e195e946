import InjectorTree.Proofs.Twins.Steps

/-!
# Resolving in twins

A search asks the same of twins and gets the same answers, so it makes the same attempts in both, and what it
publishes differs in numbers only.

* `lawful_mirroring`: twins answer alike.
* `Twin.resolve`: a key is resolved in both to bindings that are the same up to numbers, or fails in both with one
  report; twins are left behind.
-/

namespace InjectorTree.Hierarchy

open Placement Run

variable {ρ : BindingId → BindingId} {h h' : Hierarchy} {n : InjectorId} {key : Key}

/-- Twins, with bindings that are the same up to numbers. -/
def mirroring (ρ : BindingId → BindingId) : Comparison where
  Alike := Twin ρ
  Seen _ := True
  Same binding binding' := binding' = binding.renumber ρ
  Value := Eq

theorem lawful_mirroring (ρ : BindingId → BindingId) : (mirroring ρ).Lawful where
  above _ _ _ := trivial
  lineage hT _ := hT.lineage _
  lookup {h h' n} key hT _ := by
    rw [hT.lookup]
    cases h.lookup n key with
    | none => exact .none
    | some binding => exact .some rfl
  claimants key hT _ := hT.claimants _ key
  declaration? key hT _ := hT.declaration? _ key
  conversion? key hT _ := hT.conversion? _ key
  isExplicitOnly hT _ := hT.isExplicitOnly _
  findScope tag hT _ := hT.findScope _ tag
  make key strategy scope source origin hT _ :=
    ⟨(hT.toMirror.makeBinding key strategy scope source origin _).1,
      hT.makeBinding key strategy scope source origin _⟩
  convert {h h' n key conversion registration} hT _ _ _ := by
    have hUser : h'.user = h.user := hT.user
    refine ⟨hUser ▸ hT.withUser _, ?_⟩
    rw [hUser]
    cases (registration.converter.convert conversion.text key h.user).1 with
    | error reason => exact Or.inl ⟨reason, rfl, rfl⟩
    | ok value => exact Or.inr ⟨value, value, rfl, rfl, rfl⟩
  makeConverted {h h' n value value'} key source hT _ hValue := by
    obtain rfl : value = value' := hValue
    exact ⟨(hT.toMirror.makeBinding key (.fixed value) none source .converted n).1,
      hT.makeBinding key (.fixed value) none source .converted n⟩
  same := by
    rintro binding _ rfl
    exact ⟨rfl, rfl, rfl, rfl⟩

/-- Bindings that are the same up to numbers, one by one. -/
theorem staged_renumber {staged staged' : List Binding} {Seen : Binding → Prop}
    (hStaged : List.Forall₂ (fun binding binding' => binding' = binding.renumber ρ ∧ Seen binding) staged staged') :
    staged' = staged.map (Binding.renumber ρ) := by
  induction hStaged with
  | nil => rfl
  | cons hFirst _ ih => rw [List.map_cons, ← hFirst.1, ih]

/-- A key is resolved in step by twins. -/
theorem Twin.resolve (hT : Twin ρ h h') (hn : h.isLive n = true) (key : Key) :
    Match (fun binding binding' => binding' = binding.renumber ρ) (Twin ρ) (h.resolve n key)
      (h'.resolve n key) := by
  have hn' : h'.isLive n = true := (hT.isLive n).trans hn
  have hStart : Paired (mirroring ρ) True { hierarchy := h } { hierarchy := h' } := ⟨hT, .nil, fun _ => ⟨rfl, rfl⟩⟩
  have hSearch := locate_match (lawful_mirroring ρ) trivial (depthBound h n) (n := n) trivial key hStart
  -- what is left behind is in good order, since resolving keeps it so
  have hTwin : ∀ {outcome outcome' h₁ h₁'}, h.resolve n key = some (outcome, h₁) →
      h'.resolve n key = some (outcome', h₁') → Mirror ρ h₁ h₁' → Twin ρ h₁ h₁' := by
    intro outcome outcome' h₁ h₁' hRun hRun' hM
    obtain ⟨hW, -, hNext⟩ := wellFormed_resolve hT.wellFormed hn hRun
    exact
      { toMirror := hM
        wellFormed := hW
        wellFormed' := (wellFormed_resolve hT.wellFormed' hn' hRun').1
        tidy := hT.tidy.of_sameNotes (sameNotes_resolve hRun) hNext }
  cases hLookup : h.lookup n key with
  | some binding =>
    have hLookup' := hT.lookup n key
    rw [hLookup, Option.map_some] at hLookup'
    rw [resolve_of_lookup hLookup, resolve_of_lookup hLookup']
    exact .ok rfl hT
  | none =>
    have hLookup' := hT.lookup n key
    rw [hLookup, Option.map_none] at hLookup'
    obtain ⟨⟨outcome, h₁⟩, hRun⟩ := resolve_ends hT.wellFormed n key
    obtain ⟨⟨outcome', h₁'⟩, hRun'⟩ := resolve_ends hT.wellFormed' n key
    obtain ⟨d, hLocate, hEnd⟩ := (resolve_of_lookup_eq_none hLookup).mp hRun
    obtain ⟨d', hLocate', hEnd'⟩ := (resolve_of_lookup_eq_none hLookup').mp hRun'
    rw [hT.depthBound n] at hLocate'
    rw [hLocate, hLocate'] at hSearch
    rw [hRun, hRun']
    cases hSearch with
    | error hAfter =>
      subst hEnd hEnd'
      exact .error (hTwin hRun hRun' hAfter.hierarchy.toMirror)
    | ok hSame hAfter =>
      subst hEnd hEnd'
      refine .ok hSame (hTwin hRun hRun' ?_)
      have hMirror := hAfter.hierarchy.toMirror.foldl_own d.staged
      rw [← staged_renumber hAfter.staged, ← publish_eq_foldl, ← publish_eq_foldl] at hMirror
      exact hMirror

end InjectorTree.Hierarchy
