import BisayaPlus.Text.Printable
/-!
# Control characters

Controls, format characters, private use and unassigned codes: general category
C. Every character is in it that is neither printable nor a separator.
-/

set_option autoImplicit false

namespace BisayaPlus.Text

/-- Closed ranges of separators, the spaces and the ends of lines and
paragraphs, in increasing order. -/
def separatorRanges : List (Nat × Nat) := [
  (0x20, 0x20), (0xA0, 0xA0), (0x1680, 0x1680), (0x2000, 0x200A), (0x2028, 0x2029),
  (0x202F, 0x202F), (0x205F, 0x205F), (0x3000, 0x3000)]

/-- The character divides words, lines or paragraphs. -/
def isSeparator (c : Char) : Bool := separatorRanges.any fun r => r.1 ≤ c.toNat && c.toNat ≤ r.2

/-- The character has no place of its own on a line. -/
def isControl (c : Char) : Bool := !isPrintable c && !isSeparator c

end BisayaPlus.Text
