import BisayaPlus.Text
import BisayaPlus.Number.Binary64
/-!
# The fewest digits that read back

A number is written with the fewest decimal digits that round to it again, and
of those with the nearest, the even one of two.
-/

set_option autoImplicit false

namespace BisayaPlus

namespace Binary64

/-- The least `k` with `one ≤ size * 10 ^ k`, sought up to a bound. -/
def shiftToOne : Nat → Nat → Nat
  | 0, _ => 0
  | bound + 1, size => if one ≤ size then 0 else shiftToOne bound (size * 10) + 1

/-- The exponent of the first decimal digit of a size in units. -/
def firstExponent (size : Nat) : Int :=
  if one ≤ size then ((Nat.toDigits 10 (size / one)).length : Int) - 1
  else -(shiftToOne 400 size : Int)

/-- The multiple of `10 ^ (exponent + 1 - count)` nearest to a positive number
of this magnitude, if one rounds to the number. -/
def roundedTo (magnitude : Nat) (exponent : Int) (count : Nat) : Option Nat :=
  let size := unitsOf magnitude
  let shift := (count : Int) - 1 - exponent
  let scale := Nat.pow 10 shift.toNat
  let den := one * Nat.pow 10 (-shift).toNat
  let low := (unitsOf (magnitude - 1) + size) * scale
  let high := (size + unitsOf (magnitude + 1)) * scale
  let reads (d : Nat) : Bool :=
    let twice := 2 * d * den
    if magnitude % 2 == 0 then low ≤ twice && twice ≤ high else low < twice && twice < high
  let near := nearest (size * scale) den
  let below := size * scale / den
  if reads near then some near
  else if reads below then some below
  else if reads (below + 1) then some (below + 1)
  else none

/-- The first digit count up to a bound that gives a decimal reading back. -/
def firstRounded (magnitude : Nat) (exponent : Int) : Nat → Nat → Nat × Nat
  | 0, count => (unitsOf magnitude, count)
  | bound + 1, count =>
    match roundedTo magnitude exponent count with
    | some d => (d, count)
    | none => firstRounded magnitude exponent bound (count + 1)

/-- A natural number without its trailing zeros. -/
def withoutZeros (d : Nat) : Text := Text.trimRight (· == 48) (Text.ofNat d)

/-- The fewest digits of a positive finite magnitude: the digits and the
exponent of the first. -/
def shortest (magnitude : Nat) : Text × Int :=
  let exponent := firstExponent (unitsOf magnitude)
  let (d, count) := firstRounded magnitude exponent 17 1
  (withoutZeros d, exponent + ((Text.ofNat d).length : Int) - count)

/-! ## Layouts -/

/-- Digits with a decimal point where the exponent puts it, and zeros up to it. -/
def plain (digits : Text) (exponent : Int) : Text :=
  if exponent < 0 then
    (("0." : String) : Text) ++ List.replicate (-exponent - 1).toNat 48 ++ digits
  else
    let whole := exponent.toNat + 1
    if digits.length ≤ whole then digits ++ List.replicate (whole - digits.length) 48
    else digits.take whole ++ Text.byte '.' :: digits.drop whole

/-- The first digit, a point before the others, and an exponent with its sign
and at least two digits. -/
def scientific (digits : Text) (exponent : Int) : Text :=
  let mantissa := if digits.length ≤ 1 then digits else digits.take 1 ++ Text.byte '.' :: digits.drop 1
  let power := Text.ofNat exponent.natAbs
  let padded := if power.length < 2 then 48 :: power else power
  mantissa ++ Text.byte 'e' :: Text.byte (if exponent < 0 then '-' else '+') :: padded

/-- The text of a number, without an exponent where `isPlain` says so of the
exponent of its first digit. -/
def write (isPlain : Int → Bool) (x : Binary64) : Text :=
  if x.isNaN then ("NaN" : String)
  else if x.isInfinite then (if x.negative then "-Inf" else "+Inf" : String)
  else
    let (digits, exponent) := if x.isZero then ([48], 0) else shortest x.magnitude
    let body := if isPlain exponent then plain digits exponent else scientific digits exponent
    if x.negative then Text.byte '-' :: body else body

end Binary64

end BisayaPlus
