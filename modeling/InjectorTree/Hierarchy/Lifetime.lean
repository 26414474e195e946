import InjectorTree.Hierarchy.Basic

/-!
# The lifetime of injectors

An injector is gone when nothing refers to it any more. Three things refer to an injector:

* a hold on it from outside;
* a live child;
* a handle to it that a scope keeps as the instance of a binding, as long as that binding exists: while a live
  injector owns the binding, or the binding is held from outside.

When an injector is gone, so is whatever only it referred to. An injector that owns a binding for which a handle to
the same injector is kept refers to itself, so it is never gone.

An injector that goes takes its claims along: it visits its ancestors, and under the keys of its own bindings they
discard the claims of everybody who is gone. Nobody else is looked at, and no other key.
-/

namespace InjectorTree.Hierarchy

/-! ## What refers to an injector -/

/-- The handles to injectors that scopes keep, each with the binding it is kept for. -/
def keptHandles (h : Hierarchy) : List (BindingId × InjectorId) :=
  h.kept.entries.filterMap fun
    | ((binding, _), .handle (some n)) => some (binding, n)
    | _ => none

/-- Whether a binding exists: it is held from outside, or a live injector owns it. -/
def hasBinding (h : Hierarchy) (binding : BindingId) : Bool :=
  decide (binding ∈ h.heldBindings) ||
    h.injectors.values.any fun injector => injector.bindings.any fun own => own.id = binding

/-- Whether an injector has a live child. -/
def hasChild (h : Hierarchy) (n : InjectorId) : Bool :=
  h.injectors.values.any fun injector => injector.lineage.head? = some n

/-- Whether a handle to an injector is kept for a binding that exists. -/
def isKept (h : Hierarchy) (n : InjectorId) : Bool :=
  h.keptHandles.any fun (binding, kept) => kept = n && h.hasBinding binding

/-- Whether anything refers to an injector. -/
def isReferred (h : Hierarchy) (n : InjectorId) : Bool :=
  decide (n ∈ h.holds) || h.hasChild n || h.isKept n

/-! ## Forgetting -/

/-- Keeps the claims of a key that live injectors have made, and the key only if there are any. -/
def retainClaims (h : Hierarchy) (claims : Table Key (List Claim)) (key : Key) : Table Key (List Claim) :=
  match claims.get? key with
  | none => claims
  | some entries =>
    match entries.filter fun claim => h.isLive claim.claimant with
    | [] => claims.erase key
    | live => claims.insert key live

/-- What an injector leaves to be done when it is gone: under each of its own keys, every ancestor keeps the claims of
live injectors only. -/
def retract (h : Hierarchy) (gone : Injector) : Hierarchy :=
  gone.lineage.foldl
    (fun h ancestor => h.modify ancestor fun injector =>
      { injector with
        claims := (gone.explicit.keys ++ gone.created.keys).foldl h.retainClaims injector.claims })
    h

/-- Forgets an injector. -/
def forget (h : Hierarchy) (n : InjectorId) : Hierarchy :=
  match h.injector? n with
  | none => h
  | some injector => { h with injectors := h.injectors.erase n }.retract injector

/-- Forgets the injectors to which nothing refers, one after the other. -/
def sweep (h : Hierarchy) : Hierarchy :=
  (h.injectors.keys.filter fun n => !h.isReferred n).foldl forget h

/-- Sweeps until something refers to every injector that is left, but at most the given number of times. -/
def sweepAll : Nat → Hierarchy → Hierarchy
  | 0, h => h
  | times + 1, h => if h.injectors.keys.all h.isReferred then h else sweepAll times h.sweep

/-- Forgets the injectors that are gone. -/
def prune (h : Hierarchy) : Hierarchy :=
  h.sweepAll h.injectors.entries.length

/-! ## Holding -/

/-- Holds an injector once more. -/
def hold (h : Hierarchy) (n : InjectorId) : Hierarchy :=
  { h with holds := n :: h.holds }

/-- Gives up one hold on an injector. -/
def release (h : Hierarchy) (n : InjectorId) : Hierarchy :=
  prune { h with holds := h.holds.erase n }

/-- Holds a binding from now on. -/
def holdBinding (h : Hierarchy) (binding : BindingId) : Hierarchy :=
  { h with heldBindings := h.heldBindings.insert binding }

end InjectorTree.Hierarchy
