import InjectorTree.Session.Answer

/-!
# Sessions

A session is a sequence of steps on one hierarchy. Injectors, handles and bindings are given names, and later
steps use them by name. A name holds its injector, and so does a named handle that was requested from it. A
binding that was shown is held for the rest of the session, so that its number stands for it alone. An injector
is called by the first name it was stored under, even when that name has gone to another one.
-/

namespace InjectorTree

/-- The state of a session. -/
structure Session where
  hierarchy : Hierarchy := {}
  names : Table String InjectorId := ∅
  handles : Table String Handle := ∅
  bindings : Table String Binding := ∅
  bindingNumbers : Numbering := {}

namespace Session

/-! ## Names -/

/-- Changes the state of user code by an action. -/
def perform {α : Type} (session : Session) (action : Action α) : α × Session :=
  let (result, user) := action session.hierarchy.user
  (result, { session with hierarchy := { session.hierarchy with user } })

/-- The name by which an injector is called. -/
def label (session : Session) (n : InjectorId) : String :=
  session.hierarchy.user.label n

/-- Gives up one hold on an injector. -/
def release (session : Session) (n : InjectorId) : Session :=
  { session with hierarchy := session.hierarchy.release n }

/-- Stores an injector that is held for it under a name; what had the name before loses it. -/
def store (session : Session) (name : String) (n : InjectorId) : Session :=
  let user := session.hierarchy.user
  let user := { user with labels := user.labels.insertNew n name }
  let previous := session.names.get? name
  let session :=
    { session with
      hierarchy := { session.hierarchy with user }
      names := session.names.insert name n }
  previous.elim session session.release

/-- Saves a handle under a name. It holds the injector it was requested from. -/
def saveHandle (session : Session) (name : String) (handle : Handle) : Session :=
  let previous := session.handles.get? name
  let session :=
    { session with
      hierarchy := session.hierarchy.hold handle.injector
      handles := session.handles.insert name handle }
  previous.elim session fun previous => session.release previous.injector

/-! ## Showing -/

/-- Shows a binding, which is held from then on. -/
def showBinding (session : Session) (binding : Binding) : ShownBinding × Session :=
  let (number, bindingNumbers) := session.bindingNumbers.number binding.id
  ({ number
     key := binding.key
     strategy := binding.strategy.inspect
     scope := binding.scope
     source := binding.source
     origin := binding.origin
     owner := if session.hierarchy.isLive binding.owner then some (session.label binding.owner) else none },
   { session with hierarchy := session.hierarchy.holdBinding binding.id, bindingNumbers })

/-- Shows bindings one by one. -/
def showBindings (session : Session) : List Binding → List ShownBinding × Session
  | [] => ([], session)
  | binding :: rest =>
    let (shown, session) := session.showBinding binding
    let (others, session) := showBindings session rest
    (shown :: others, session)

/-- The bindings that an injector owns, by the texts of their keys. -/
def sortedBindings (session : Session) (n : InjectorId) : List Binding :=
  (session.hierarchy.bindings n).mergeSort fun first second =>
    decide (¬ second.key.text < first.key.text)

/-- Shows the bindings of every named injector, by name. -/
def showAll (session : Session) : List (String × InjectorId) → List (String × List ShownBinding) × Session
  | [] => ([], session)
  | (name, n) :: rest =>
    let (shown, session) := session.showBindings (session.sortedBindings n)
    let (others, session) := showAll session rest
    ((name, shown) :: others, session)

end Session

end InjectorTree
