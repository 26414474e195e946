import InjectorTree.Script.Making

/-!
# Constructor functions

The constructor functions that scripts can name, and the types that say themselves how they are made. A
function makes an object labelled with a word of its own; the object remembers the arguments in short.
-/

namespace InjectorTree.Script

open Catalogue

/-- A constructor that makes an object from what its parameters receive. -/
def objectConstructor (result : ServiceType) (parameters : List ServiceType) (label : String) :
    Constructor :=
  .typed result (parameters.map interface) fun arguments =>
    .perform (fun user => makeObject result label (arguments.map user.shortText) none user) fun value => .finish (.ok value)

/-- The parameters of the functions that differ in their number of parameters only. -/
def parameterRow : List ServiceType :=
  [typeA, typeB, typeC, shape, .injector, .text, u16, nameable, typeD, bool, i32, service]

/-- The text of a number between angle brackets. -/
def bracketed : Instance → String
  | .made _ _ (.primitive text) => "<" ++ text ++ ">"
  | _ => "<>"

/-- The constructor functions by name. -/
def function? (name : String) : Option Constructor :=
  let rows := (List.range 13).map fun count =>
    let label := "fn" ++ toString count
    (label, objectConstructor typeH (parameterRow.take count) label)
  let others :=
    [("unit_a", typeA, []), ("b_of_a", typeB, [typeA]), ("e_of_f", typeE, [typeF]),
     ("f_of_e", typeF, [typeE]), ("g_of_shape", typeG, [shape]), ("g_of_named", typeG, [nameable]),
     ("g_of_empty", typeG, [vacant]), ("c_of_injector", typeC, [.injector]),
     ("d_of_injector_a", typeD, [.injector, typeA])].map
      fun (label, result, parameters) => (label, objectConstructor result parameters label)
  let text : Constructor := .typed .text [interface u16] fun arguments =>
    .perform (makePrimitive .text ("".intercalate (arguments.map bracketed))) fun value => .finish (.ok value)
  (rows ++ others ++ [("string_of_u16", text)]).lookup name

/-- How a type that says so itself is made, and the scope it asks for. -/
def injectable? (type : ServiceType) : Option (Strategy × Option ScopeTag) :=
  let made parameters := Strategy.constructed (objectConstructor type parameters "inj")
  [(typeA, made [], some .singleton), (typeB, made [typeA], none), (typeC, made [.injector], none),
   (typeD, made [shape], none), (typeE, made [typeF], none), (typeF, made [typeE], none),
   (typeG, .linked (.of typeA), none),
   (typeH, made [typeC, .injector], some (.marker requestScoped))].lookup type

/-- The implicit declaration of a type that says itself how it is made, in its own scope or in another. -/
def injectable (type : ServiceType) (scope : Option ScopeTag) : Module :=
  match injectable? type with
  | none => .empty
  | some (strategy, ownScope) =>
    { Module.empty with
      implicit := [{ key := .of type, strategy, scope := scope.or ownScope, source := .ofType type }] }

end InjectorTree.Script
