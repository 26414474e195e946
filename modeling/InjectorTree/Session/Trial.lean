import InjectorTree.Provision
import InjectorTree.Session.Basic
import InjectorTree.Script.Declared

/-!
# Trials

Single parts of the library, tried on their own: a constructor with given arguments, an interface, a
converter, a path of keys being provided. Every trial starts from a fresh state of user code.
-/

namespace InjectorTree.Session

open Script

/-- Makes the values of forms, in order. -/
def makeAll : List Form → Action (List Instance)
  | [] => fun user => ([], user)
  | form :: forms => fun user =>
    let (value, user) := form.make [] none user
    let (values, user) := makeAll forms user
    (value :: values, user)

/-- Shows an outcome that comes from a fresh state. -/
def showOutcome (outcome : Except Report Instance) (user : UserState) : Answer :=
  match outcome with
  | .error report => .error (.failed report)
  | .ok value => .ok (.instance (showInstance value user).1)

/-- A strategy that was never part of an injector. -/
def looseStrategy (form : StrategyForm) : Strategy :=
  (strategy form {}).1

/-- Builds an instance from the given arguments. Without an injector, a constructor has nobody to make demands on. -/
def tryConstructor (form : ConstructorForm) (arguments : List Form) : Answer :=
  let (constructor, user) := form.constructor {}
  let (values, user) := makeAll arguments user
  match Provision.runBody (Provision.obtain 0) (constructor.build values) 0 { user } with
  | none => .error .endless
  | some (outcome, h) => showOutcome outcome h.user

/-- Receives a value as a type. -/
def tryInterface (form : Form) (type : ServiceType) : Answer :=
  let (value, user) := form.make [] none {}
  showOutcome ((Catalogue.interface type).recover value) user

/-- Reads a value of a primitive type for a key. The result is an instance or the reason why there is none,
and whether the converter accepts the key. -/
def tryConverter (type : ServiceType) (key : Key) (text : String) :
    Except String ShownInstance × Bool :=
  let converter := readingConverter type
  let (outcome, user) := converter.convert text key {}
  (outcome.map fun value => (showInstance value user).1, converter.accepts key)

/-- Requests keys one after the other, each on the path that the last success has left. -/
def tryPath : List Key → List Key → List (Except Report (List Key)) × List Key
  | [], path => ([], path)
  | key :: keys, path =>
    let outcome := Provision.extendPath path key
    let (outcomes, last) := tryPath keys (outcome.toOption.getD path)
    (outcome :: outcomes, last)

end InjectorTree.Session
