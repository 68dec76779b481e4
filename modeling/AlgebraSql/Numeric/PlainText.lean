import AlgebraSql.Numeric.Decimal

/-!
# Plain text — scientific notation written out as plain decimal digits.

A scientific numeral is an optional sign, digits with at most one point, and a power of ten.
`plainText` moves the point by that power and writes the digits out: `1.5E-3` becomes `0.0015`, and
`1e+21` becomes a one with twenty-one zeros.  A text of any other form is left as it is.
-/

namespace AlgebraSql

/-- A numeral `±whole.fraction × 10 ^ exponent`, digit by digit. -/
structure Scientific where
  negative : Bool
  whole : List Char
  fraction : List Char
  exponent : Int
  deriving Repr, DecidableEq

namespace Scientific

/-! ## Reading -/

/-- Reads `ddd` with at least one digit, up to the end. -/
def readDigits (ds : List Char) : Option Nat :=
  if ds.isEmpty || !ds.all Char.isDigit then none else some (Decimal.digitsValue ds)

/-- Reads `±ddd` with at least one digit, up to the end. -/
def readExponent : List Char → Option Int
  | '-' :: ds => (readDigits ds).map fun n => -(n : Int)
  | '+' :: ds => (readDigits ds).map Int.ofNat
  | ds => (readDigits ds).map Int.ofNat

/-- Reads the exponent part: the letter and the power. -/
def readPower : List Char → Option Int
  | 'e' :: cs => readExponent cs
  | 'E' :: cs => readExponent cs
  | _ => none

/-- The digits before and behind the point, and the rest of the text. -/
def splitMantissa (cs : List Char) : List Char × List Char × List Char :=
  let whole := cs.takeWhile Char.isDigit
  match cs.dropWhile Char.isDigit with
  | '.' :: rest => (whole, rest.takeWhile Char.isDigit, rest.dropWhile Char.isDigit)
  | rest => (whole, [], rest)

/-- Reads a numeral behind its sign. -/
def readBody (negative : Bool) (cs : List Char) : Option Scientific :=
  let (whole, fraction, rest) := splitMantissa cs
  (readPower rest).map fun e => ⟨negative, whole, fraction, e⟩

/-- Reads a scientific numeral; the mantissa may lack digits on either side of its point. -/
def read? : List Char → Option Scientific
  | '-' :: cs => readBody true cs
  | '+' :: cs => readBody false cs
  | cs => readBody false cs

/-! ## Writing -/

/-- Digits without leading zeros, but with at least one digit. -/
def trimZeros (ds : List Char) : List Char :=
  match ds.dropWhile (· == '0') with
  | [] => ['0']
  | ds => ds

/-- Digits with a point behind the first `point` of them; zeros fill up on either side. -/
def pointed (digits : List Char) (point : Int) : List Char :=
  let (digits, point) :=
    if point ≤ 0 then (List.replicate (1 - point).toNat '0' ++ digits, 1)
    else (digits, point.toNat)
  if digits.length ≤ point then
    trimZeros (digits ++ List.replicate (point - digits.length) '0')
  else
    trimZeros (digits.take point) ++ '.' :: digits.drop point

/-- The plain digits of a numeral; a plus sign is dropped. -/
def plain (n : Scientific) : List Char :=
  (if n.negative then ['-'] else [])
    ++ pointed (n.whole ++ n.fraction) (n.whole.length + n.exponent)

end Scientific

/-- A scientific numeral in plain digits, any other text as it is. -/
def plainText (text : String) : String :=
  match Scientific.read? text.toList with
  | some n => String.ofList n.plain
  | none => text

end AlgebraSql
