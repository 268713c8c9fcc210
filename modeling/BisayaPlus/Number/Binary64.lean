/-!
# Binary floating-point numbers

A TIPIK value is a 64-bit binary floating-point number. Every finite one is a
whole multiple of the least positive one, so its size is a natural number of
these *units*, of which `2 ^ 1074` make one. An operation takes the exact
result as a quotient of units and rounds once, to the nearest number and to
the even one of two.

The bits below the sign grow with the size they stand for, and stay in step
with it: in the binade with step `2 ^ e` the size `m * 2 ^ e` has the bits
`e * 2 ^ 52 + m`, also where `m` carries into the next binade.
-/

set_option autoImplicit false

namespace BisayaPlus

/-- A number in the 64-bit binary format. -/
structure Binary64 where
  bits : UInt64
  deriving DecidableEq, Inhabited

namespace Binary64

/-- The numbers in one binade. -/
def binade : Nat := Nat.pow 2 52

/-- The bits of infinity below its sign. -/
def infiniteMagnitude : Nat := 2047 * binade

/-- The units in the number one. -/
def one : Nat := Nat.pow 2 1074

/-! ## The parts of a number -/

/-- The sign bit. -/
def negative (x : Binary64) : Bool := Nat.pow 2 63 ≤ x.bits.toNat

/-- The bits below the sign. -/
def magnitude (x : Binary64) : Nat := x.bits.toNat % Nat.pow 2 63

/-- No number at all. -/
def isNaN (x : Binary64) : Bool := infiniteMagnitude < x.magnitude

/-- One of the two infinities. -/
def isInfinite (x : Binary64) : Bool := x.magnitude == infiniteMagnitude

/-- One of the two zeros. -/
def isZero (x : Binary64) : Bool := x.magnitude == 0

/-- The step between numbers of this magnitude is this power of two units. -/
def stepOf (magnitude : Nat) : Nat := magnitude / binade - 1

/-- The size of a number with these bits below the sign, in units. Infinity
counts as the power of two that follows the largest finite number. -/
def unitsOf (magnitude : Nat) : Nat :=
  (magnitude - stepOf magnitude * binade) * Nat.pow 2 (stepOf magnitude)

/-- The size of a number in units. -/
def size (x : Binary64) : Nat := unitsOf x.magnitude

/-- The number in units, with its sign. -/
def units (x : Binary64) : Int := if x.negative then -(x.size : Int) else x.size

/-! ## Making numbers -/

/-- The number with this sign and these bits below it. -/
def ofMagnitude (negative : Bool) (magnitude : Nat) : Binary64 :=
  ⟨(magnitude + if negative then Nat.pow 2 63 else 0).toUInt64⟩

/-- The value of an undefined operation. -/
def nan : Binary64 := ofMagnitude false (infiniteMagnitude + Nat.pow 2 51)

/-- The infinity of a sign. -/
def infinity (negative : Bool) : Binary64 := ofMagnitude negative infiniteMagnitude

/-- The zero of a sign. -/
def zero (negative : Bool) : Binary64 := ofMagnitude negative 0

/-- The natural number nearest to a quotient, the even one of two. -/
def nearest (num den : Nat) : Nat :=
  let low := num / den
  let rest := num % den
  if den < 2 * rest || (den == 2 * rest && low % 2 == 1) then low + 1 else low

/-- The number nearest to `num / den` units, the one with even bits of two. -/
def ofQuotient (negative : Bool) (num den : Nat) : Binary64 :=
  let step := (num / den).log2 - 52
  ofMagnitude negative (min (step * binade + nearest num (den * Nat.pow 2 step)) infiniteMagnitude)

/-- The number nearest to an integer. -/
def ofInt (i : Int) : Binary64 := ofQuotient (i < 0) (i.natAbs * one) 1

/-! ## Arithmetic -/

/-- The number of the other sign. -/
def neg (x : Binary64) : Binary64 := ofMagnitude (!x.negative) x.magnitude

/-- The sum. A zero sum is negative only if both parts are. -/
def add (x y : Binary64) : Binary64 :=
  if x.isNaN || y.isNaN then nan
  else if x.isInfinite then
    if y.isInfinite && x.negative != y.negative then nan else x
  else if y.isInfinite then y
  else
    let sum := x.units + y.units
    if sum = 0 then zero (x.negative && y.negative)
    else ofQuotient (sum < 0) sum.natAbs 1

/-- The difference. -/
def sub (x y : Binary64) : Binary64 := add x y.neg

/-- The product. -/
def mul (x y : Binary64) : Binary64 :=
  let negative := x.negative != y.negative
  if x.isNaN || y.isNaN then nan
  else if x.isInfinite || y.isInfinite then
    if x.isZero || y.isZero then nan else infinity negative
  else ofQuotient negative (x.size * y.size) one

/-- The quotient. -/
def div (x y : Binary64) : Binary64 :=
  let negative := x.negative != y.negative
  if x.isNaN || y.isNaN then nan
  else if x.isInfinite then
    if y.isInfinite then nan else infinity negative
  else if y.isInfinite then zero negative
  else if y.isZero then
    if x.isZero then nan else infinity negative
  else ofQuotient negative (x.size * one) y.size

/-- The remainder of a division toward zero. It has the sign of `x`, also when
it is zero. -/
def mod (x y : Binary64) : Binary64 :=
  if x.isNaN || y.isNaN || x.isInfinite || y.isZero then nan
  else if y.isInfinite then x
  else ofQuotient x.negative (x.size % y.size) 1

/-! ## Order and integers -/

/-- Equality of values: the two zeros are equal, and NaN equals nothing. -/
def eq (x y : Binary64) : Bool := !x.isNaN && !y.isNaN && x.units == y.units

/-- The order of values, in which NaN has no place. -/
def lt (x y : Binary64) : Bool := !x.isNaN && !y.isNaN && x.units < y.units

/-- Order or equality of values. -/
def le (x y : Binary64) : Bool := x.lt y || x.eq y

/-- The number without its fraction. It keeps its sign, also as a zero. -/
def trunc (x : Binary64) : Binary64 :=
  if x.isNaN || x.isInfinite then x else ofQuotient x.negative (x.size / one * one) 1

/-- The integer part of a number, in 64 bits. -/
def toInt64 (x : Binary64) : Int64 := Int64.ofInt (x.units.tdiv one)

/-- The number nearest to the least 64-bit integer, which is the integer itself. -/
def leastInt64 : Binary64 := ofInt Int64.minValue.toInt

/-- The number nearest to the greatest 64-bit integer, which is one more. -/
def greatestInt64 : Binary64 := ofInt Int64.maxValue.toInt

/-- A number without a fraction as a 64-bit integer. -/
def exactInt? (x : Binary64) : Option Int64 :=
  if !x.eq x.trunc || x.lt leastInt64 || greatestInt64.le x then none else some x.toInt64

end Binary64

end BisayaPlus
