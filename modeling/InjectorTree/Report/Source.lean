import InjectorTree.Naming

/-!
# Where a declaration was made

Bindings, scope registrations and converters remember where they were declared, so that a report can point
at every declaration it is about.
-/

namespace InjectorTree

/-- Where something was declared. -/
inductive Source
  /-- A place in a file. -/
  | code (file : String) (line column : Nat)
  /-- The declaration belongs to a type, which the text names. -/
  | type (text : String)
  /-- The injector itself made the declaration. -/
  | builtin
deriving DecidableEq, Repr, Inhabited

namespace Source

/-- The source that names a type. -/
def ofType (type : ServiceType) : Source := .type type.name

/-- The source as reports show it. -/
def text : Source → String
  | .code file line column => s!"{file}:{line}:{column}"
  | .type text => text
  | .builtin => "[builtin]"

/-- The source as it is shown inside the description of a larger value. -/
def inspect : Source → String
  | .code file line column =>
    "Code \x7b file: " ++ Text.quote file ++ s!", line: {line}, column: {column} \x7d"
  | .type text => "Type(" ++ Text.quote text ++ ")"
  | .builtin => "Builtin"

end Source

end InjectorTree
