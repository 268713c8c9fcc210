import BisayaPlus.Text.Printable
/-!
# Quoted texts

A text between double quotes on one line. Printable characters stand as they
are. The quote, the backslash and the common controls have short escapes, all
else is written as a hexadecimal code, and a byte that belongs to no character
as itself.
-/

set_option autoImplicit false

namespace BisayaPlus.Text

/-- The hexadecimal digits of a number, at least `width` of them. -/
def hex (width n : Nat) : Text :=
  let digits := (Nat.toDigits 16 n).map byte
  List.replicate (width - digits.length) (byte '0') ++ digits

/-- The escape letters of the common controls. -/
def controlLetters : List (Char × Char) :=
  [('\x07', 'a'), ('\x08', 'b'), ('\x0c', 'f'), ('\n', 'n'), ('\r', 'r'), ('\t', 't'), ('\x0b', 'v')]

/-- How one piece of a text is written between quotes. -/
def Glyph.quoted : Glyph → Text
  | .stray b => byte '\\' :: byte 'x' :: hex 2 b.toNat
  | .char c =>
    if c == '"' || c == '\\' then [byte '\\', byte c]
    else if isPrintable c then ofChar c
    else
      match controlLetters.lookup c with
      | some letter => [byte '\\', byte letter]
      | none =>
        if c.toNat < 0x80 then byte '\\' :: byte 'x' :: hex 2 c.toNat
        else if c.toNat < 0x10000 then byte '\\' :: byte 'u' :: hex 4 c.toNat
        else byte '\\' :: byte 'U' :: hex 8 c.toNat

/-- The text between double quotes. -/
def quote (t : Text) : Text := byte '"' :: (glyphs t).flatMap Glyph.quoted ++ [byte '"']

end BisayaPlus.Text
