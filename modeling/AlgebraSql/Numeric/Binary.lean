import AlgebraSql.Numeric.Decimal

/-!
# Binary — numbers of 53 binary digits, and the decimal numbers they are written as.

A binary number is a significand of at most 53 binary digits times a power of two from `-1074` to
`971`.  `nearest` rounds a fraction to the nearest of them, halfway between two to the one with the
even significand; what would need a larger power is out of range.  `shortest` is the decimal number
with the fewest digits that is rounded to a given binary number, and of those the nearest.
-/

namespace AlgebraSql

/-- The number `significand * 2 ^ exponent`. -/
structure Binary where
  significand : Nat
  exponent : Int
  deriving Repr, DecidableEq

namespace Binary

/-- A power of two. -/
def twoTo (n : Nat) : Nat := Nat.pow 2 n

/-- The least exponent. -/
def minExponent : Int := -1074

/-- The largest exponent. -/
def maxExponent : Int := 971

/-! ## Rounding -/

/-- The integer nearest to `n / d`, the even one of two. -/
def divNearest (n d : Nat) : Nat :=
  let q := n / d
  let twice := 2 * (n % d)
  if twice < d then q else if d < twice then q + 1 else q + q % 2

/-- The exponent for which `n / d` has 53 binary digits before the point, or the least exponent if
that is larger. -/
def exponentFor (n d : Nat) : Int :=
  let guess : Int := (Nat.log2 n : Int) - Nat.log2 d
  let lead := if n * twoTo (-guess).toNat < d * twoTo guess.toNat then guess - 1 else guess
  max (lead - 52) minExponent

/-- A number whose significand may have grown to `2 ^ 53`, with 53 digits again. -/
def normal (significand : Nat) (exponent : Int) : Binary :=
  if significand = twoTo 53 then ⟨twoTo 52, exponent + 1⟩ else ⟨significand, exponent⟩

/-- The binary number nearest to `n / d`. -/
def nearest (n d : Nat) : Binary :=
  let e := exponentFor n d
  normal (divNearest (n * twoTo (-e).toNat) (d * twoTo e.toNat)) e

/-- The number is in range. -/
def inRange (b : Binary) : Bool := b.exponent ≤ maxExponent

/-! ## Shortest decimal numbers

Values are compared in quarters of the unit of the significand, because the numbers that are rounded
to a binary number end half a unit above it, and half or a quarter of a unit below it. -/

/-- A quarter of `2 ^ exponent` as a decimal number: an integer and the power of ten that divides
it. -/
def quarter (exponent : Int) : Nat × Nat :=
  (Nat.pow 5 (2 - exponent).toNat * twoTo (exponent - 2).toNat, (2 - exponent).toNat)

/-- The quarters below which a number is not rounded to this one any more. -/
def lowerEnd (b : Binary) : Nat :=
  if b.significand = twoTo 52 ∧ minExponent < b.exponent then 4 * b.significand - 1
  else 4 * b.significand - 2

/-- The quarters above which a number is not rounded to this one any more. -/
def upperEnd (b : Binary) : Nat := 4 * b.significand + 2

/-- A decimal number is rounded to the binary number.  It is given as `x` parts of which `unit` make
a quarter.  The ends themselves are rounded to an even significand. -/
def covers (b : Binary) (unit x : Nat) : Bool :=
  if b.significand % 2 = 0 then b.lowerEnd * unit ≤ x && x ≤ b.upperEnd * unit
  else b.lowerEnd * unit < x && x < b.upperEnd * unit

/-- The covered neighbour of `v` on a grid: the nearer of two, the even one of two equally near. -/
def neighbour? (covered : Nat → Bool) (v grid : Nat) : Option Nat :=
  let low := v / grid * grid
  let high := low + grid
  match covered low, covered high with
  | true, true => some (divNearest v grid * grid)
  | true, false => some low
  | false, true => some high
  | false, false => none

/-- The covered neighbour of `v` on the coarsest of the grids `10 ^ zeros`, …, `10` that has one, or
`v` itself. -/
def coarsest (covered : Nat → Bool) (v : Nat) : Nat → Nat
  | 0 => v
  | zeros + 1 =>
    (neighbour? covered v (Nat.pow 10 (zeros + 1))).getD (coarsest covered v zeros)

/-- The decimal number that a binary number is. -/
def exact (b : Binary) : Decimal :=
  let (unit, scale) := quarter b.exponent
  ⟨(4 * b.significand * unit : Nat), scale⟩

/-- The shortest decimal number that is rounded to the binary number. -/
def shortest (b : Binary) : Decimal :=
  let (unit, scale) := quarter b.exponent
  let v := 4 * b.significand * unit
  ⟨coarsest (b.covers unit) v ((Nat.toDigits 10 v).length - 1), scale⟩

end Binary

namespace Decimal

/-- The binary number nearest to the size of a decimal number. -/
def binarySize (a : Decimal) : Binary := Binary.nearest a.mantissa.natAbs (Nat.pow 10 a.scale)

/-- A size with the sign of a number. -/
def signedAs (size a : Decimal) : Decimal :=
  { size with mantissa := a.mantissa.sign * size.mantissa }

/-- The shortest decimal number that is rounded to the same binary number, if that is in range. -/
def rounded? (a : Decimal) : Option Decimal :=
  let b := a.binarySize
  if b.inRange then some (b.shortest.signedAs a).reduced else none

/-- The difference of the binary numbers that two decimal numbers are rounded to, rounded itself. -/
def difference? (a b : Decimal) : Option Decimal :=
  let x := a.binarySize.exact.signedAs a
  let y := b.binarySize.exact.signedAs b
  rounded? ⟨x.mantissa * tenTo y.scale - y.mantissa * tenTo x.scale, x.scale + y.scale⟩

end Decimal

end AlgebraSql
