/-!
# Decimal — exact decimal numbers and their text.

A decimal number is an integer over a power of ten.  Two of them are compared exactly.  The text of
a number is positional from a millionth up to twenty-one digits and scientific outside, with no
digit that carries nothing.
-/

namespace AlgebraSql

/-- The number `mantissa / 10 ^ scale`. -/
structure Decimal where
  mantissa : Int
  scale : Nat := 0
  deriving Repr, DecidableEq, Inhabited

namespace Decimal

/-! ## Values -/

/-- An integer as a decimal number. -/
def ofInt (n : Int) : Decimal := ⟨n, 0⟩

instance : Coe Int Decimal := ⟨ofInt⟩

instance (n : Nat) : OfNat Decimal n := ⟨ofInt n⟩

/-- A power of ten. -/
def tenTo : Nat → Int
  | 0 => 1
  | n + 1 => 10 * tenTo n

/-- Comparison by value: both numbers are brought to a common scale. -/
protected def compare (a b : Decimal) : Ordering :=
  Ord.compare (a.mantissa * tenTo b.scale) (b.mantissa * tenTo a.scale)

/-- Equality of values, which different fractions may share. -/
def sameValue (a b : Decimal) : Bool :=
  a.compare b == .eq

/-- Takes factors of ten out of a fraction. -/
def reduce (mantissa : Int) : Nat → Decimal
  | 0 => ⟨mantissa, 0⟩
  | scale + 1 => if mantissa % 10 = 0 then reduce (mantissa / 10) scale else ⟨mantissa, scale + 1⟩

/-- The same number with the smallest scale, which no other fraction shares. -/
def reduced (a : Decimal) : Decimal := reduce a.mantissa a.scale

/-- The largest integer not above the number. -/
def floor (a : Decimal) : Int :=
  Int.fdiv a.mantissa (tenTo a.scale)

/-! ## Text -/

/-- Drops trailing zeros, least significant digit first, and counts them. -/
def dropZeros : List Char → Nat × List Char
  | '0' :: rest => let (n, ds) := dropZeros rest; (n + 1, ds)
  | ds => (0, ds)

/-- The significant digits of a positive integer and the number of zeros that follow them. -/
def significant (n : Nat) : List Char × Nat :=
  let (zeros, ds) := dropZeros (Nat.toDigits 10 n).reverse
  (ds.reverse, zeros)

/-- The text of the number `0.d₁d₂… × 10 ^ point`, whose digits begin and end with a nonzero one:
positional for `-6 < point ≤ 21`, otherwise with an exponent. -/
def placePoint (digits : List Char) (point : Int) : String :=
  let count : Int := digits.length
  if count ≤ point ∧ point ≤ 21 then
    String.ofList (digits ++ List.replicate (point - count).toNat '0')
  else if 0 < point ∧ point ≤ 21 then
    String.ofList (digits.take point.toNat ++ '.' :: digits.drop point.toNat)
  else if -6 < point ∧ point ≤ 0 then
    "0." ++ String.ofList (List.replicate (-point).toNat '0' ++ digits)
  else
    let exponent := point - 1
    let sign := if exponent < 0 then "-" else "+"
    let lead := String.ofList (digits.take 1)
    let rest := digits.drop 1
    let fraction := if rest.isEmpty then "" else "." ++ String.ofList rest
    lead ++ fraction ++ "e" ++ sign ++ toString exponent.natAbs

/-- The shortest text of a decimal number. -/
def toText (a : Decimal) : String :=
  if a.mantissa == 0 then "0"
  else
    let (digits, zeros) := significant a.mantissa.natAbs
    let point : Int := digits.length + zeros - a.scale
    (if a.mantissa < 0 then "-" else "") ++ placePoint digits point

/-! ## Reading -/

/-- The value of a run of decimal digits. -/
def digitsValue (ds : List Char) : Nat :=
  ds.foldl (fun n d => 10 * n + (d.toNat - '0'.toNat)) 0

end Decimal

end AlgebraSql
