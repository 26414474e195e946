import InjectorTree.Hierarchy.Basic

/-!
# Finding scopes

A tag means the scope that the nearest injector on the path registered for it. Injectors remember what they
found on their ancestors, so that the next search ends early.

* `nearestScope` is the plain walk along the path.
* `findScope` is the search that uses and fills the caches.
-/

namespace InjectorTree.Hierarchy

/-- The registration of a tag on the nearest injector of the path. -/
def nearestScope (h : Hierarchy) (n : InjectorId) (tag : ScopeTag) : Option ScopeRegistration :=
  h.nearest n (·.scopes.get? tag)

/-- The search along the given path: an injector's own registration, then its cache, then the injectors
above it. What was found above is cached. -/
def findScopeOn (tag : ScopeTag) : List InjectorId → Hierarchy → Option ScopeRegistration × Hierarchy
  | [], h => (none, h)
  | n :: above, h =>
    match h.injector? n with
    | none => (none, h)
    | some injector =>
      match (injector.scopes.get? tag).or (injector.scopeCache.get? tag) with
      | some registration => (some registration, h)
      | none =>
        match findScopeOn tag above h with
        | (none, h) => (none, h)
        | (some registration, h) =>
          (some registration,
           h.modify n fun injector =>
             { injector with scopeCache := injector.scopeCache.insertNew tag registration })

/-- The scope that an injector uses for a tag. -/
def findScope (h : Hierarchy) (n : InjectorId) (tag : ScopeTag) : Option ScopeRegistration × Hierarchy :=
  findScopeOn tag (h.path n) h

end InjectorTree.Hierarchy
