import WhileSyntax.Text.CodePoints

/-!
# Blank characters

White space between tokens: the control characters that separate lines, fields and records, and the
spaces of Unicode 14.0.
-/

namespace WhileSyntax.Text

/-- Code points of the blank characters, as ascending closed ranges. -/
def blankRanges : List (Nat × Nat) :=
  [(0x9, 0xD), (0x1C, 0x20), (0x85, 0x85), (0xA0, 0xA0), (0x1680, 0x1680), (0x2000, 0x200A),
   (0x2028, 0x2029), (0x202F, 0x202F), (0x205F, 0x205F), (0x3000, 0x3000)]

/-- Whether a character is white space. -/
def isBlank (c : Char) : Bool := inRanges blankRanges c.toNat

end WhileSyntax.Text
