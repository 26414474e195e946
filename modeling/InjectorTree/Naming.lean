import InjectorTree.Text.Quoted

/-!
# Naming services and scopes

A service is requested by a *key*: its type, and a qualifier where several services share the type. A scope
is named by a *tag*. Qualifiers and tags are both *tokens*, a chosen name or a marker type.

The texts of keys and tags appear in every report: a name is quoted, a type stands for itself.
-/

namespace InjectorTree

/-- A type of services. Two types are told apart by their identity, whatever their names. -/
structure ServiceType where
  identity : Nat
  name : String
deriving DecidableEq, Repr, Inhabited

/-- The last component of the name, after any path that leads to it. -/
def ServiceType.shortName (type : ServiceType) : String :=
  (type.name.splitOn "::").getLastD type.name

/-- A chosen name, or a type that stands for a meaning. -/
inductive Token
  | named (name : String)
  | marker (type : ServiceType)
deriving DecidableEq, Repr, Inhabited

/-- A name in quotation marks, or the name of the marker type. -/
def Token.text : Token → String
  | .named name => Text.quote name
  | .marker type => type.name

/-- What tells services of one type apart. -/
structure Qualifier where
  token : Token
deriving DecidableEq, Repr, Inhabited

/-- The qualifier that is a name. -/
def Qualifier.named (name : String) : Qualifier := ⟨.named name⟩

/-- The qualifier that is a marker type. -/
def Qualifier.marker (type : ServiceType) : Qualifier := ⟨.marker type⟩

/-- The qualifier as an annotation. -/
def Qualifier.text : Qualifier → String
  | ⟨.named name⟩ => "@Named(" ++ Text.quote name ++ ")"
  | ⟨.marker type⟩ => "@" ++ type.name

/-- What a service is requested by. -/
structure Key where
  type : ServiceType
  qualifier : Option Qualifier := none
deriving DecidableEq, Repr, Inhabited

/-- The unqualified key of a type. -/
def Key.of (type : ServiceType) : Key := ⟨type, none⟩

/-- The key of a type under a name. -/
def Key.named (type : ServiceType) (name : String) : Key := ⟨type, some (.named name)⟩

/-- The key of another type under the same qualifier. -/
def Key.withType (key : Key) (type : ServiceType) : Key := ⟨type, key.qualifier⟩

/-- The type, annotated with the qualifier if there is one. -/
def Key.text (key : Key) : String :=
  match key.qualifier with
  | none => key.type.name
  | some qualifier => key.type.name ++ " annotated with " ++ qualifier.text

/-- The key as it is shown inside the description of a larger value. -/
def Key.inspect (key : Key) : String :=
  "Key[" ++ key.text ++ "]"

/-- Names a scope. -/
structure ScopeTag where
  token : Token
deriving DecidableEq, Repr, Inhabited

/-- The tag that is a name. -/
def ScopeTag.named (name : String) : ScopeTag := ⟨.named name⟩

/-- The tag that is a marker type. -/
def ScopeTag.marker (type : ServiceType) : ScopeTag := ⟨.marker type⟩

/-- The tag as reports show it. -/
def ScopeTag.text (tag : ScopeTag) : String := tag.token.text

/-- The tag as it is shown inside the description of a larger value. A marker type has an identity that is
not shown, so only a named tag has such a form. -/
def ScopeTag.inspect? : ScopeTag → Option String
  | ⟨.named name⟩ => some ("ScopeTag(Named(" ++ Text.quote name ++ "))")
  | ⟨.marker _⟩ => none

/-! ## Types that the library itself names -/

namespace ServiceType

/-- The type of injectors, which every injector provides itself. -/
def injector : ServiceType := ⟨0, "hierarchical_injector::injector::Injector"⟩

/-- The type of text constants, from which converters make other services. -/
def text : ServiceType := ⟨1, "alloc::string::String"⟩

/-- The marker of the scope that keeps one instance for each binding. -/
def singleton : ServiceType := ⟨2, "hierarchical_injector::scopes::Singleton"⟩

end ServiceType

/-- The key under which every injector provides itself. -/
def Key.injector : Key := .of .injector

/-- Whether the key asks for an injector, under any qualifier. -/
def Key.isBuiltin (key : Key) : Bool := key.type = .injector

/-- The tag of the scope that keeps one instance for each binding. -/
def ScopeTag.singleton : ScopeTag := .marker .singleton

end InjectorTree
