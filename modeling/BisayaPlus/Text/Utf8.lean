import BisayaPlus.Text
/-!
# Characters in a text

A text is read as UTF-8 where the language speaks of characters. A byte that
starts no character stands for itself.
-/

set_option autoImplicit false

namespace BisayaPlus.Text

/-- The bytes of a character. -/
def ofChar (c : Char) : Text := String.utf8EncodeChar c

/-- The character at the front of a text, if its first bytes encode one. -/
def front? (t : Text) : Option Char := (t.take 4).toByteArray.utf8DecodeChar? 0

/-- Stands for what is no character. -/
def replacement : Char := '�'

/-- The only character of a text. The replacement character does not count. -/
def single? (t : Text) : Option Char :=
  match front? t with
  | some c => if c.utf8Size == t.length && c != replacement then some c else none
  | none => none

/-- The bytes of the character with this code, or of the replacement character
when the code is none. -/
def ofCode (code : Int) : Text :=
  if 0 ≤ code && code.toNat.isValidChar then ofChar (Char.ofNat code.toNat) else ofChar replacement

/-- A character, or a byte that belongs to none. -/
inductive Glyph where
  | char (c : Char)
  | stray (b : UInt8)
  deriving DecidableEq

/-- Cuts a text into characters and the bytes that belong to none. -/
def glyphs : Text → List Glyph
  | [] => []
  | b :: t =>
    match front? (b :: t) with
    | some c => .char c :: glyphs (t.drop (c.utf8Size - 1))
    | none => .stray b :: glyphs t
termination_by t => t.length
decreasing_by all_goals (simp only [List.length_drop, List.length_cons]; omega)

/-- Every byte belongs to a character. -/
def isUtf8 (t : Text) : Bool := (glyphs t).all fun u => match u with | .char _ => true | .stray _ => false

end BisayaPlus.Text
