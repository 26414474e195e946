import InjectorTree.Provision

/-!
# Answers

What a session shows of instances, bindings and failures. Instances and bindings are shown with a number, so
that an answer tells whether it is the same one as before.
-/

namespace InjectorTree.Session

/-- An instance as an answer shows it. -/
inductive ShownInstance
  | handle (label : String)
  | object (number : Nat) (type : ServiceType) (record : ObjectRecord)
  | primitive (number : Nat) (type : ServiceType) (text : String)
deriving Repr

/-- A binding as an answer shows it. The owner is missing once it is gone. -/
structure ShownBinding where
  number : Nat
  key : Key
  strategy : String
  scope : Option ScopeTag
  source : Source
  origin : Origin
  owner : Option String
deriving Repr

/-- Why a step fails. -/
inductive Refusal
  | noSuchName (name : String)
  | failed (report : Report)
  | notCreated (reports : List Report)
  /-- The fuel was spent. -/
  | endless
deriving Repr

/-- What a step answers when it succeeds. -/
inductive Success
  | created (label : String) (depth : Nat)
  | instance (shown : ShownInstance)
  | binding (shown : ShownBinding)
  /-- A binding with the keys it depends on and, where it was asked for and there is one, its description. -/
  | detail (shown : ShownBinding) (dependencies : List Key) (description : Option String)
  | bindings (shown : List ShownBinding)
  | dump (shown : List (String × List ShownBinding))
  /-- A handle: the label of its injector, its binding and its description. -/
  | handle (label : String) (shown : ShownBinding) (description : Option String)
  | name (text : String)
  | truth (value : Bool)
  | nothing
  /-- The outcomes of several calls. -/
  | several (outcomes : List (Except Refusal Success))

/-- The answer of a step. -/
abbrev Answer := Except Refusal Success

/-- Shows an instance, with its number. -/
def showInstance : Instance → Action ShownInstance
  | .handle none => fun user => (.handle "(unnamed)", user)
  | .handle (some injector) => fun user => (.handle (user.label injector), user)
  | .made identity type (.object record) => fun user =>
    let (number, user) := user.number identity
    (.object number type record, user)
  | .made identity type (.primitive text) => fun user =>
    let (number, user) := user.number identity
    (.primitive number type text, user)

end InjectorTree.Session
