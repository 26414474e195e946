import InjectorTree.Program
import InjectorTree.Script.Catalogue

/-!
# Making values

The actions of scripted user code: logging, counting, and making values. An object takes the next serial
number and its making is logged; every made value takes an identity of its own.
-/

namespace InjectorTree

namespace UserState

/-- An instance in one word. -/
def shortText (user : UserState) : Instance → String
  | .handle none => "Injector((unnamed))"
  | .handle (some injector) => "Injector(" ++ user.label injector ++ ")"
  | .made _ type (.object record) =>
    type.shortName ++ "#" ++ toString record.serial ++ "(" ++ record.label ++ ")"
  | .made _ type (.primitive text) => type.shortName ++ "=" ++ text

/-- The state in which an instance has a number. Handles to injectors have none. -/
def numbered (user : UserState) : Instance → UserState
  | .handle _ => user
  | .made identity _ _ => (user.number identity).2

end UserState

namespace Script

/-- A value to be made: an object of a type with a label, a primitive value, or an injector of another
hierarchy. -/
structure Form where
  type : ServiceType
  text : String
deriving DecidableEq, Repr

/-- Shares a new value. -/
def share (type : ServiceType) (content : Content) : Action Instance := fun user =>
  (.made user.identities type content, { user with identities := user.identities + 1 })

/-- Makes an object. -/
def makeObject (type : ServiceType) (label : String) (arguments : List String)
    (path : Option (List String)) : Action Instance := fun user =>
  let serial := user.serials + 1
  let user := { user with serials := serial }.log ("new " ++ type.shortName ++ "#" ++ toString serial)
  share type (.object { serial, label, arguments, path }) user

/-- Makes a primitive value. A text that stands for no value of the type is kept as it is. -/
def makePrimitive (type : ServiceType) (text : String) : Action Instance :=
  share type (.primitive ((Catalogue.readPrimitive type text).toOption.getD text))

/-- Makes the value of a form; objects remember the arguments and the path. -/
def Form.make (form : Form) (arguments : List String := []) (path : Option (List String) := none) :
    Action Instance :=
  if form.type = .injector then fun user => (.handle none, user)
  else if Catalogue.isObject form.type then makeObject form.type form.text arguments path
  else makePrimitive form.type form.text

/-- A new tally, which starts at zero. -/
def newTally : Action Nat := fun user =>
  (user.tallies.length, { user with tallies := user.tallies ++ [0] })

/-- Counts a tally up; the result is the new count. -/
def countUp (tally : Nat) : Action Nat := fun user =>
  let count := user.tallies.getD tally 0 + 1
  (count, { user with tallies := user.tallies.set tally count })

/-- The converter that reads the values of a primitive type. -/
def readingConverter (type : ServiceType) : Converter where
  accepts := fun key => key.type = type
  convert := fun text _ user =>
    match Catalogue.readPrimitive type text with
    | .error reason => (.error reason.message, user)
    | .ok text =>
      let (value, user) := share type (.primitive text) user
      (.ok value, user)

end Script

end InjectorTree
