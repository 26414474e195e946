import InjectorTree.Report.Basic

/-!
# Instances and interfaces

An instance is what a request provides. Instances are shared, so each made value has an identity of its own;
a handle to an injector is told by the injector it leads to.

An *interface* is what a receiver asks an instance to be. A concrete type is an interface for its own values
only. An abstract type names the concrete types that may stand behind it, or takes anything.
-/

namespace InjectorTree

/-- Identifies an injector. Identifiers are given out once and never again. -/
abbrev InjectorId := Nat

/-- What an object value remembers of its making. -/
structure ObjectRecord where
  serial : Nat
  label : String
  arguments : List String
  path : Option (List String) := none
deriving DecidableEq, Repr, Inhabited

/-- What a made value holds: an object, or the text of a primitive value. -/
inductive Content
  | object (record : ObjectRecord)
  | primitive (text : String)
deriving DecidableEq, Repr

/-- A provided value. -/
inductive Instance
  /-- A handle to an injector; `none` is an injector of some other hierarchy. -/
  | handle (injector : Option InjectorId)
  /-- A made value. -/
  | made (identity : Nat) (type : ServiceType) (content : Content)
deriving DecidableEq, Repr

namespace Instance

/-- The concrete type of an instance. -/
def type : Instance → ServiceType
  | .handle _ => .injector
  | .made _ type _ => type

/-- The text of an instance that is a text constant. -/
def text? : Instance → Option String
  | .made _ type (.primitive text) => if type = .text then some text else none
  | _ => none

end Instance

/-- The concrete types that may stand behind an interface. -/
inductive Members
  | any
  | among (types : List ServiceType)
deriving DecidableEq, Repr

/-- What a receiver asks an instance to be. -/
structure Interface where
  type : ServiceType
  members : Members
deriving DecidableEq, Repr

namespace Interface

/-- A concrete type, which only its own values can be. -/
def concrete (type : ServiceType) : Interface := ⟨type, .among [type]⟩

/-- Whether an instance can be received through the interface. -/
def admits (interface : Interface) (x : Instance) : Bool :=
  match interface.members with
  | .any => true
  | .among types => decide (x.type ∈ types)

/-- The instance, if it can be received through the interface. -/
def recover (interface : Interface) (x : Instance) : Except Report Instance :=
  if interface.admits x then .ok x
  else .error (.of (.invalidInstance (.of interface.type) interface.type))

variable {interface : Interface} {x : Instance} {report : Report}

/-- The instance is received as it is, or not at all. -/
theorem recover_of_admits (hAdmits : interface.admits x = true) : interface.recover x = .ok x :=
  if_pos hAdmits

theorem recover_of_not_admits (hRefused : interface.admits x = false) :
    interface.recover x = .error (.of (.invalidInstance (.of interface.type) interface.type)) :=
  if_neg (Bool.eq_false_iff.mp hRefused)

theorem recover_eq_error (hEq : interface.recover x = .error report) :
    interface.admits x = false ∧ report = .of (.invalidInstance (.of interface.type) interface.type) := by
  cases hAdmits : interface.admits x with
  | true =>
    rw [recover_of_admits hAdmits] at hEq
    cases hEq
  | false =>
    rw [recover_of_not_admits hAdmits] at hEq
    cases hEq
    exact ⟨rfl, rfl⟩

end Interface

end InjectorTree
