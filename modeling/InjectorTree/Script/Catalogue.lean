import InjectorTree.Instance
import InjectorTree.Text.Reading

/-!
# The types of scripts

Scripts use a fixed catalogue of types: eight types of objects, primitive types, abstract types, and markers
that only qualify keys and name scopes. The catalogue says what a type is called in a script, and which
instances can be received as it.
-/

namespace InjectorTree.Catalogue

/-! ## Types -/

def typeA : ServiceType := ⟨10, "app::A"⟩
def typeB : ServiceType := ⟨11, "app::B"⟩
def typeC : ServiceType := ⟨12, "app::C"⟩
def typeD : ServiceType := ⟨13, "app::D"⟩
def typeE : ServiceType := ⟨14, "app::E"⟩
def typeF : ServiceType := ⟨15, "app::F"⟩
def typeG : ServiceType := ⟨16, "app::G"⟩
def typeH : ServiceType := ⟨17, "app::H"⟩
def u8 : ServiceType := ⟨20, "u8"⟩
def u16 : ServiceType := ⟨21, "u16"⟩
def i32 : ServiceType := ⟨22, "i32"⟩
def u64 : ServiceType := ⟨23, "u64"⟩
def i64 : ServiceType := ⟨24, "i64"⟩
def bool : ServiceType := ⟨25, "bool"⟩
def char : ServiceType := ⟨26, "char"⟩
def str : ServiceType := ⟨27, "str"⟩
def shape : ServiceType := ⟨30, "dyn app::Shape"⟩
def nameable : ServiceType := ⟨31, "dyn app::Named"⟩
def vacant : ServiceType := ⟨32, "dyn app::Empty"⟩
def service : ServiceType := ⟨33, "dyn hierarchical_injector::services::service::Service"⟩
def primary : ServiceType := ⟨40, "app::Primary"⟩
def secondary : ServiceType := ⟨41, "app::Secondary"⟩
def requestScoped : ServiceType := ⟨42, "app::Request"⟩

/-- The types whose instances are objects. -/
def objectTypes : List ServiceType :=
  [typeA, typeB, typeC, typeD, typeE, typeF, typeG, typeH]

/-- The types by the names that scripts use. -/
def names : List (String × ServiceType) :=
  [("A", typeA), ("B", typeB), ("C", typeC), ("D", typeD), ("E", typeE), ("F", typeF), ("G", typeG),
   ("H", typeH), ("u8", u8), ("u16", u16), ("i32", i32), ("u64", u64), ("i64", i64), ("bool", bool),
   ("char", char), ("str", str), ("String", .text), ("dyn Shape", shape), ("dyn Named", nameable),
   ("dyn Empty", vacant), ("dyn Service", service), ("Injector", .injector), ("Singleton", .singleton),
   ("Primary", primary), ("Secondary", secondary), ("Request", requestScoped)]

/-- The type of a name. -/
def type? (name : String) : Option ServiceType :=
  names.lookup name

/-- Whether instances of the type are objects. -/
def isObject (type : ServiceType) : Bool :=
  decide (type ∈ objectTypes)

/-! ## Interfaces -/

/-- The instances that can be received as a type. -/
def interface (type : ServiceType) : Interface :=
  if type = shape then ⟨type, .among [typeA, typeB]⟩
  else if type = nameable then ⟨type, .among [typeC, typeD]⟩
  else if type = vacant then ⟨type, .among []⟩
  else if type = service then ⟨type, .any⟩
  else .concrete type

/-! ## Primitive values -/

/-- The width of an integer type. -/
def integerKind? (type : ServiceType) : Option Text.IntegerKind :=
  if type = u8 then some ⟨false, 8⟩
  else if type = u16 then some ⟨false, 16⟩
  else if type = i32 then some ⟨true, 32⟩
  else if type = u64 then some ⟨false, 64⟩
  else if type = i64 then some ⟨true, 64⟩
  else none

/-- The text of the primitive value that a text stands for. -/
def readPrimitive (type : ServiceType) (text : String) : Except Text.ReadError String :=
  match integerKind? type with
  | some kind => (Text.readInteger kind text).map Text.integerText
  | none =>
    if type = bool then (Text.readTruthValue text).map fun value => if value then "true" else "false"
    else if type = char then (Text.readCharacter text).map fun c => String.ofList [c]
    else .ok text

end InjectorTree.Catalogue
