import InjectorTree.Text.CodeRange

/-!
# Characters that leave nothing on the page

The property Default_Ignorable_Code_Point of the Unicode standard: fillers, joiners, selectors and direction
marks, which a font that does not know them draws as nothing at all. Some of them count as letters.

Main definition: `isIgnorable`.
-/

namespace InjectorTree.Text

/-- The code points that are drawn as nothing, in ascending ranges. -/
def ignorableRanges : List CodeRange :=
  [
    (0xad, 0xad), (0x34f, 0x34f), (0x61c, 0x61c), (0x115f, 0x1160), (0x17b4, 0x17b5),
    (0x180b, 0x180f), (0x200b, 0x200f), (0x202a, 0x202e), (0x2060, 0x206f), (0x3164, 0x3164),
    (0xfe00, 0xfe0f), (0xfeff, 0xfeff), (0xffa0, 0xffa0), (0xfff0, 0xfff8), (0x1bca0, 0x1bca3),
    (0x1d173, 0x1d17a), (0xe0000, 0xe0fff)
  ]

/-- Whether a character is drawn as nothing. -/
def isIgnorable (c : Char) : Bool :=
  inRanges ignorableRanges c.toNat

end InjectorTree.Text
