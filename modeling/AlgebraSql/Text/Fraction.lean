import AlgebraSql.Numeric.Decimal
import AlgebraSql.Text.Units

/-!
# Fractions of a second — times written with a given number of digits behind the point.
-/

namespace AlgebraSql.Text

/-- The longest beginning of a text that fits into `count` sixteen-bit units. -/
def takeUnits (count : Nat) : List Char → List Char
  | [] => []
  | c :: cs => if unitCount c ≤ count then c :: takeUnits (count - unitCount c) cs else []

/-- A time with its fraction cut or filled up with zeros to `precision` digits; without digits the
point goes too. -/
def withPrecision (value : String) (precision : Decimal) : String :=
  let whole := value.toList.takeWhile (· != '.')
  let fraction := (value.toList.dropWhile (· != '.')).drop 1
  if precision.mantissa ≤ 0 then String.ofList whole
  else
    let digits := precision.floor.toNat
    let padding := List.replicate (digits - totalUnits fraction) '0'
    String.ofList (whole ++ '.' :: takeUnits digits (fraction ++ padding))

end AlgebraSql.Text
