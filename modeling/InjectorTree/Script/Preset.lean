import InjectorTree.Script.Function

/-!
# Preset modules

Modules that scripts install by name. All declarations of a preset share one source, but for those of the
presets it is made of.
-/

namespace InjectorTree.Script

open Catalogue

/-- The source of the declarations of a preset. -/
def presetSource (line : Nat) : Source := .code "presets.rs" line 1

/-- A module with one explicit binding. -/
def binding (key : Key) (strategy : Strategy) (scope : Option ScopeTag) (source : Source) : Module :=
  { Module.empty with bindings := [{ key, strategy, scope, source }] }

/-- A module with one registration of the scope that keeps one instance for each binding. -/
def singletonFor (tag : ScopeTag) (source : Source) : Module :=
  { Module.empty with scopes := [⟨tag, .singleton, source⟩] }

/-- A module that declares types which say themselves how they are made. -/
def injectables (types : List ServiceType) : Module :=
  .flatten (types.map fun type => injectable type none)

/-- A number, a greeting under a name, and an object that is made once. -/
def basicPreset : Action Module := fun user =>
  let source := presetSource 8
  let (number, user) := makePrimitive u16 "8080" user
  let (greeting, user) := makePrimitive .text "hello" user
  (binding (.of u16) (.fixed number) none source ++
    binding (.named .text "greeting") (.fixed greeting) none source ++
    binding (.of typeA) (.constructed (objectConstructor typeA [] "preset")) (some .singleton) source, user)

/-- Two scopes that keep one instance for each binding, and two types for them. -/
def scopedPreset : Module :=
  singletonFor (.named "session") (presetSource 18) ++
    singletonFor (.marker requestScoped) (presetSource 18) ++ injectables [typeC, typeH]

/-- The two presets before it, and one type more. -/
def nestedPreset : Action Module := fun user =>
  let (basic, user) := basicPreset user
  (basic ++ scopedPreset ++ injectables [typeB], user)

/-- Declarations of one key, and registrations of one tag, that stand against each other. -/
def clashPreset : Action Module := fun user =>
  let source := presetSource 28
  let (one, user) := makePrimitive u8 "1" user
  let (two, user) := makePrimitive u8 "2" user
  let (basic, user) := basicPreset user
  let (again, user) := basicPreset user
  (binding (.of u8) (.fixed one) none source ++ binding (.of u8) (.fixed two) none source ++
    singletonFor .singleton source ++ basic ++ again, user)

/-- Links from abstract types to objects, and all types that say themselves how they are made. -/
def linksPreset : Module :=
  binding (.of shape) (.linked (.of typeA)) none (presetSource 37) ++
    binding (.of nameable) (.linked (.of typeC)) none (presetSource 37) ++ injectables objectTypes

/-- The preset of a name; a name that no preset has stands for the empty module. -/
def preset (name : String) : Action Module :=
  if name = "basic" then basicPreset
  else if name = "scoped" then fun user => (scopedPreset, user)
  else if name = "nested" then nestedPreset
  else if name = "clash" then clashPreset
  else if name = "links" then fun user => (linksPreset, user)
  else fun user => (.empty, user)

end InjectorTree.Script
