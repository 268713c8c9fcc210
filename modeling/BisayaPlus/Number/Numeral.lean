import BisayaPlus.Text
import BisayaPlus.Number.Binary64
/-!
# Numerals

Reading numbers from text. An integer is an optional sign and digits, within 64
bits. A real is a decimal numeral with optional fraction and exponent, a
hexadecimal numeral with a binary exponent, an infinity or NaN; digits may be
grouped by underscores. A real is rounded once, from its exact value, and one
too large for the format is refused.
-/

set_option autoImplicit false

namespace BisayaPlus.Numeral

open Text

/-- The value of a hexadecimal digit, which covers the decimal ones. -/
def digitValue (b : UInt8) : Nat :=
  if isDigit b then b.toNat - 48 else (lowerByte b).toNat - 87

/-- The value of digits in a base. -/
def digitsValue (base : Nat) (digits : Text) : Nat :=
  digits.foldl (fun n d => n * base + digitValue d) 0

/-- An optional sign, negative or not, and what follows it. -/
def signed : Text → Bool × Text
  | 43 :: t => (false, t)
  | 45 :: t => (true, t)
  | t => (false, t)

/-! ## Integers -/

/-- The value of an optional sign followed by one or more digits. -/
def integer? (t : Text) : Option Int :=
  let (negative, digits) := signed t
  if digits.isEmpty || !digits.all isDigit then none
  else
    let n : Int := digitsValue 10 digits
    some (if negative then -n else n)

/-- An integer numeral in the range of 64 bits. -/
def int64? (t : Text) : Option Int64 :=
  match integer? t with
  | some i => if Int64.minValue.toInt ≤ i && i ≤ Int64.maxValue.toInt then some (Int64.ofInt i) else none
  | none => none

/-! ## Reals -/

/-- A hexadecimal digit. -/
def isHexDigit (b : UInt8) : Bool := isDigit b || (97 ≤ lowerByte b && lowerByte b ≤ 102)

/-- The base mark `0x`, with something after it. -/
def hexMark : Text → Option Text
  | 48 :: x :: b :: t => if lowerByte x == byte 'x' then some (b :: t) else none
  | _ => none

/-- What an underscore may stand between. -/
inductive Neighbour where
  | start
  | digit
  | underscore
  | other
  deriving DecidableEq

/-- Every underscore stands between digits, where `before` is what precedes. -/
def groupedFrom (isDigitHere : UInt8 → Bool) (before : Neighbour) : Text → Bool
  | [] => before != .underscore
  | b :: t =>
    if isDigitHere b then groupedFrom isDigitHere .digit t
    else if b == byte '_' then before == .digit && groupedFrom isDigitHere .underscore t
    else before != .underscore && groupedFrom isDigitHere .other t

/-- Every underscore of an unsigned numeral stands between digits, a base mark
counting as one. -/
def grouped : Text → Bool
  | 48 :: x :: t =>
    if lowerByte x == byte 'x' then groupedFrom isHexDigit .digit t
    else if lowerByte x == byte 'b' || lowerByte x == byte 'o' then groupedFrom isDigit .digit t
    else groupedFrom isDigit .start (48 :: x :: t)
  | t => groupedFrom isDigit .start t

/-- An exponent at the front: its mark, an optional sign and digits. -/
def exponent? (mark : Char) : Text → Option Int
  | b :: t => if lowerByte b == byte mark then integer? t else none
  | [] => none

/-- A numeral in a base: the digits before and after the point, and the
exponent. -/
structure Parts where
  whole : Text
  fraction : Text
  exponent : Int

/-- The parts of a numeral that has at least one digit and nothing after it.
Without an exponent the given one is taken, if any. -/
def parts? (isDigitHere : UInt8 → Bool) (mark : Char) (absent : Option Int) (t : Text) : Option Parts :=
  let whole := t.takeWhile isDigitHere
  let afterWhole := t.dropWhile isDigitHere
  let (fraction, rest) :=
    match afterWhole with
    | 46 :: u => (u.takeWhile isDigitHere, u.dropWhile isDigitHere)
    | u => ([], u)
  if whole.isEmpty && fraction.isEmpty then none
  else
    match rest with
    | [] => absent.map (⟨whole, fraction, ·⟩)
    | rest => (exponent? mark rest).map (⟨whole, fraction, ·⟩)

/-- Rounds `digits * 10 ^ exponent`. Sizes beyond every number of the format
are decided without writing them out. -/
def ofDecimal (negative : Bool) (digits : Nat) (exponent : Int) : Binary64 :=
  let point := ((ofNat digits).length : Int) + exponent
  if digits = 0 || point < -330 then Binary64.zero negative
  else if 310 < point then Binary64.infinity negative
  else Binary64.ofQuotient negative (digits * Nat.pow 10 exponent.toNat * Binary64.one) (Nat.pow 10 (-exponent).toNat)

/-- Rounds `digits * 2 ^ exponent`, likewise. -/
def ofBinary (negative : Bool) (digits : Nat) (exponent : Int) : Binary64 :=
  let point := (digits.log2 : Int) + exponent
  if digits = 0 || point < -1100 then Binary64.zero negative
  else if 1100 < point then Binary64.infinity negative
  else Binary64.ofQuotient negative (digits * Nat.pow 2 exponent.toNat * Binary64.one) (Nat.pow 2 (-exponent).toNat)

/-- The number an unsigned numeral without underscores stands for, rounded. -/
def unsigned? (negative : Bool) (t : Text) : Option Binary64 :=
  match hexMark t with
  | some u => (parts? isHexDigit 'p' none u).map fun p =>
      ofBinary negative (digitsValue 16 (p.whole ++ p.fraction)) (p.exponent - 4 * p.fraction.length)
  | none => (parts? isDigit 'e' (some 0) t).map fun p =>
      ofDecimal negative (digitsValue 10 (p.whole ++ p.fraction)) (p.exponent - p.fraction.length)

/-- The words for infinity and for NaN, which takes no sign. -/
def word? (t : Text) : Option Binary64 :=
  let (negative, u) := signed t
  let isWord (s : String) (v : Text) : Bool := v.map lowerByte == ofString s
  if isWord "inf" u || isWord "infinity" u then some (Binary64.infinity negative)
  else if isWord "nan" t then some Binary64.nan
  else none

/-- The number a real numeral stands for. -/
def real? (t : Text) : Option Binary64 :=
  match word? t with
  | some x => some x
  | none =>
    let (negative, u) := signed t
    if u.contains (byte '_') && !grouped u then none
    else
      match unsigned? negative (u.filter (· != byte '_')) with
      | some x => if x.isInfinite then none else some x
      | none => none

end BisayaPlus.Numeral
