/-!
# Texts

Source, values and messages are byte strings. Positions and lengths count
bytes, and any byte may occur, so a text need not be valid UTF-8.
-/

set_option autoImplicit false

namespace BisayaPlus

/-- A byte string. -/
abbrev Text := List UInt8

namespace Text

/-- The UTF-8 bytes of a string. -/
def ofString (s : String) : Text := s.toList.flatMap String.utf8EncodeChar

instance : Coe String Text := ⟨ofString⟩

/-- The code of an ASCII character. -/
def byte (c : Char) : UInt8 := c.toNat.toUInt8

/-- The line feed, which ends a line. -/
def lineFeed : UInt8 := 10

/-- The number of line feeds in a text. -/
def lineFeeds (t : Text) : Nat := t.count lineFeed

/-! ## Decimal digits -/

/-- The decimal spelling of a natural number. -/
def ofNat (n : Nat) : Text := (Nat.toDigits 10 n).map byte

/-- The decimal spelling of an integer. -/
def ofInt : Int → Text
  | .ofNat n => ofNat n
  | .negSucc n => byte '-' :: ofNat (n + 1)

/-! ## Byte classes -/

/-- A decimal digit. -/
def isDigit (b : UInt8) : Bool := 48 ≤ b && b ≤ 57

/-- A letter or underscore, which may start a name. -/
def isLetter (b : UInt8) : Bool := (97 ≤ b && b ≤ 122) || (65 ≤ b && b ≤ 90) || b == 95

/-- A byte that may continue a name. -/
def isWordByte (b : UInt8) : Bool := isLetter b || isDigit b

/-- The ASCII lower case of a byte. -/
def lowerByte (b : UInt8) : UInt8 := if 65 ≤ b && b ≤ 90 then b + 32 else b

/-! ## Trimming, splitting and joining -/

/-- Drops leading bytes of a class. -/
def trimLeft (p : UInt8 → Bool) (t : Text) : Text := t.dropWhile p

/-- Drops trailing bytes of a class. -/
def trimRight (p : UInt8 → Bool) (t : Text) : Text := (t.reverse.dropWhile p).reverse

/-- Drops bytes of a class on both sides. -/
def trimBoth (p : UInt8 → Bool) (t : Text) : Text := trimRight p (trimLeft p t)

/-- The pieces between the separators, of which there is always at least one. -/
def pieces (sep : UInt8) : Text → List Text
  | [] => [[]]
  | b :: t =>
    if b == sep then [] :: pieces sep t
    else
      match pieces sep t with
      | [] => [[b]]
      | piece :: more => (b :: piece) :: more

/-- The texts one after another with a separator between neighbours. -/
def join (sep : Text) : List Text → Text
  | [] => []
  | [t] => t
  | t :: u :: more => t ++ sep ++ join sep (u :: more)

end Text

end BisayaPlus
