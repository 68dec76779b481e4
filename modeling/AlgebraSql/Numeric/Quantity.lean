import AlgebraSql.Numeric.Binary
import AlgebraSql.Numeric.PlainText
import AlgebraSql.Text.Blank

/-!
# Quantity — what a node may hold as a number, and the number that a text stands for.

A quantity is a binary number, given by the shortest decimal number that is rounded to it, or it is
out of range on one side, or it is no number at all.
-/

namespace AlgebraSql

/-- A number held by a node. -/
inductive Quantity where
  | finite (value : Decimal)
  | infinite (negative : Bool)
  | undefined
  deriving Repr, DecidableEq, Inhabited

namespace Quantity

/-- Equality of values; an undefined quantity equals nothing. -/
def sameValue : Quantity → Quantity → Bool
  | .finite a, .finite b => a.sameValue b
  | .infinite a, .infinite b => a == b
  | _, _ => false

/-- The quantity is the given integer. -/
def isInt (q : Quantity) (n : Int) : Bool :=
  q.sameValue (.finite (Decimal.ofInt n))

/-- The text of a quantity. -/
def toText : Quantity → String
  | .finite d => d.toText
  | .infinite negative => if negative then "-Infinity" else "Infinity"
  | .undefined => "NaN"

/-! ## Rounding -/

/-- The quantity that a decimal number is rounded to. -/
def ofDecimal (d : Decimal) : Quantity :=
  match d.rounded? with
  | some d => .finite d
  | none => .infinite (d.mantissa < 0)

/-- The quantity that a numeral is rounded to.  A numeral `0.d₁d₂… × 10 ^ point` that begins with a
nonzero digit is less than every quantity but zero for `point < -323` and out of range for
`309 < point`, so that no power outside needs to be worked out. -/
def ofScientific (n : Scientific) : Quantity :=
  let digits := (n.whole ++ n.fraction).dropWhile (· == '0')
  let power := n.exponent - n.fraction.length
  let point := digits.length + power
  if digits.isEmpty ∨ point < -323 then .finite 0
  else if 309 < point then .infinite n.negative
  else
    let size : Int := Decimal.digitsValue digits * Decimal.tenTo power.toNat
    ofDecimal ⟨if n.negative then -size else size, (-power).toNat⟩

/-! ## Reading -/

/-- The value of a digit, small or capital, if there is such a digit in the base. -/
def digitIn? (base : Nat) (c : Char) : Option Nat :=
  let value :=
    if c.isDigit then c.toNat - '0'.toNat
    else if 'a' ≤ c ∧ c ≤ 'z' then c.toNat - 'a'.toNat + 10
    else if 'A' ≤ c ∧ c ≤ 'Z' then c.toNat - 'A'.toNat + 10
    else base
  if value < base then some value else none

/-- An integer by its digits in a base, of which there is at least one. -/
def ofDigits (base : Nat) (ds : List Char) : Quantity :=
  match ds.mapM (digitIn? base) with
  | none | some [] => .undefined
  | some values => ofDecimal (Decimal.ofInt (values.foldl (fun n d => base * n + d) 0 : Nat))

/-- A decimal numeral behind its sign: a word, or digits with at most one point and at most one
power of ten. -/
def ofUnsigned (negative : Bool) (cs : List Char) : Quantity :=
  if cs == "Infinity".toList then .infinite negative
  else
    let (whole, fraction, rest) := Scientific.splitMantissa cs
    let exponent? := if rest.isEmpty then some 0 else Scientific.readPower rest
    match exponent? with
    | some exponent =>
      if whole.isEmpty && fraction.isEmpty then .undefined
      else ofScientific ⟨negative, whole, fraction, exponent⟩
    | none => .undefined

/-- The quantity that a text stands for, white space at its ends apart.  No text at all stands for
zero; an integer may be given in base 16, 8 or 2, without a sign. -/
def ofText (text : String) : Quantity :=
  match (Text.trim text).toList with
  | [] => .finite 0
  | '-' :: cs => ofUnsigned true cs
  | '+' :: cs => ofUnsigned false cs
  | '0' :: 'x' :: ds => ofDigits 16 ds
  | '0' :: 'X' :: ds => ofDigits 16 ds
  | '0' :: 'o' :: ds => ofDigits 8 ds
  | '0' :: 'O' :: ds => ofDigits 8 ds
  | '0' :: 'b' :: ds => ofDigits 2 ds
  | '0' :: 'B' :: ds => ofDigits 2 ds
  | cs => ofUnsigned false cs

end Quantity

end AlgebraSql
