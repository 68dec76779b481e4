import AlgebraSql.Numeric.Binary

/-!
# Double — numbers of a format with 53 binary digits.

A finite number of the format is a sign and a size; beside them there are an infinite number of
either sign and the undefined number.  A number is written as the shortest decimal number that is
rounded to it, which need not be the number itself: `2 ^ 60` is written with three zeros at its end.
Numbers are compared by their exact values, and the undefined number is neither less nor greater
than any other.
-/

namespace AlgebraSql

namespace Binary

/-- The number is held by the format: it has 53 digits at most, all of them unless its exponent is
the least one, and is in range. -/
structure InFormat (b : Binary) : Prop where
  short : b.significand < twoTo 53
  normal : twoTo 52 ≤ b.significand ∨ b.exponent = minExponent
  least : minExponent ≤ b.exponent
  largest : b.exponent ≤ maxExponent

instance (b : Binary) : Decidable b.InFormat :=
  decidable_of_iff (b.significand < twoTo 53 ∧ (twoTo 52 ≤ b.significand ∨ b.exponent = minExponent)
      ∧ minExponent ≤ b.exponent ∧ b.exponent ≤ maxExponent)
    ⟨fun ⟨short, normal, least, largest⟩ => ⟨short, normal, least, largest⟩,
      fun h => ⟨h.short, h.normal, h.least, h.largest⟩⟩

end Binary

/-- A number of the format. -/
inductive Double where
  | finite (negative : Bool) (size : Binary) (held : size.InFormat)
  | infinite (negative : Bool)
  | undefined
  deriving Repr, DecidableEq

/-- Where a number lies among the decimal numbers. -/
inductive Position where
  | below
  | exactly (d : Decimal)
  | above
  | nowhere
  deriving Repr, DecidableEq

namespace Position

/-- One place lies in front of another one. -/
def less : Position → Position → Bool
  | .exactly a, .exactly b => a.compare b == .lt
  | .below, .exactly _ | .below, .above | .exactly _, .above => true
  | _, _ => false

/-- The order of two places; those of which neither lies in front of the other are equal. -/
protected def compare (p q : Position) : Ordering :=
  if p.less q then .lt else if q.less p then .gt else .eq

end Position

namespace Decimal

/-- A size with a sign. -/
def withSign (negative : Bool) (size : Decimal) : Decimal :=
  { size with mantissa := if negative then -size.mantissa else size.mantissa }

end Decimal

namespace Double

/-! ## Rounding -/

instance : Inhabited Double := ⟨.undefined⟩

def zero : Double := .finite false ⟨0, Binary.minExponent⟩ (by decide)

/-- The number that a decimal number is rounded to. -/
def ofDecimal (d : Decimal) : Double :=
  if d.mantissa = 0 then zero
  else if held : d.binarySize.InFormat then .finite (d.mantissa < 0) d.binarySize held
  else .infinite (d.mantissa < 0)

/-! ## Values -/

/-- Where a number lies. -/
def position : Double → Position
  | .finite negative size _ => .exactly (size.exact.withSign negative)
  | .infinite true => .below
  | .infinite false => .above
  | .undefined => .nowhere

/-! ## Texts -/

/-- The decimal number that a finite number is written as. -/
def written (negative : Bool) (size : Binary) : Decimal := (size.shortest.withSign negative).reduced

/-- The text of a number. -/
def toText : Double → String
  | .finite negative size _ => (written negative size).toText
  | .infinite negative => if negative then "-Infinity" else "Infinity"
  | .undefined => "NaN"

end Double

end AlgebraSql
