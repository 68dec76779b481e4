import AlgebraSql.Numeric.Double
import AlgebraSql.Text.Units

/-!
# Endpoint values — what a range starts or ends with.

Texts are ordered by their sixteen-bit units, `false` comes before `true`, and numbers of either
representation are ordered by their exact value, infinite ones at the ends.  The undefined number is
neither less nor greater than another one, so that it counts as equal to all of them.  Values of
different sorts cannot be compared.
-/

namespace AlgebraSql

/-- A value that a range may start or end with. -/
inductive Value where
  | text (s : String)
  | number (x : Double)
  /-- A whole number of any size. -/
  | integer (n : Int)
  | flag (b : Bool)
  deriving Repr, DecidableEq, Inhabited

namespace Value

/-- The word for the sort of a value. -/
def sortName : Value → String
  | .text _ => "string"
  | .number _ => "number"
  | .integer _ => "bigint"
  | .flag _ => "boolean"

/-- The written form of a value. -/
def toText : Value → String
  | .text s => s
  | .number x => x.toText
  | .integer n => toString n
  | .flag b => if b then "true" else "false"

/-- Where a number of either representation lies. -/
def position? : Value → Option Position
  | .number x => some x.position
  | .integer n => some (.exactly (Decimal.ofInt n))
  | _ => none

/-- The order of two values of one sort. -/
def compare? : Value → Value → Option Ordering
  | .text a, .text b => some (Text.compare16 a b)
  | .flag a, .flag b => some (compare a.toNat b.toNat)
  | a, b => do return (← a.position?).compare (← b.position?)

end Value

end AlgebraSql
