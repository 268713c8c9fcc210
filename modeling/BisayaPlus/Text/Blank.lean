import BisayaPlus.Text.Utf8
/-!
# White space

The characters with the Unicode property White_Space, which are trimmed from
fields, lines and settings.
-/

set_option autoImplicit false

namespace BisayaPlus.Text

/-- Closed ranges of white space, in increasing order. -/
def blankRanges : List (Nat × Nat) := [
  (0x9, 0xD), (0x20, 0x20), (0x85, 0x85), (0xA0, 0xA0), (0x1680, 0x1680), (0x2000, 0x200A),
  (0x2028, 0x2029), (0x202F, 0x202F), (0x205F, 0x205F), (0x3000, 0x3000)]

/-- The character is white space. -/
def isBlank (c : Char) : Bool := blankRanges.any fun r => r.1 ≤ c.toNat && c.toNat ≤ r.2

/-- White space as one piece of a text; a stray byte is none. -/
def Glyph.isBlank : Glyph → Bool
  | .char c => Text.isBlank c
  | .stray _ => false

/-- The bytes of a piece. -/
def Glyph.bytes : Glyph → Text
  | .char c => ofChar c
  | .stray b => [b]

/-- The text without white space at either end. -/
def trim (t : Text) : Text :=
  let inner := ((glyphs t).dropWhile Glyph.isBlank).reverse.dropWhile Glyph.isBlank
  inner.reverse.flatMap Glyph.bytes

end BisayaPlus.Text
