import AlgebraSql.Sql.Node

/-!
# Editing nodes — arguments under names that a caller chooses.

A name may be a whole number.  Arguments under such names stand in front of all others, in the order
of the numbers; the others stand in the order in which they came.
-/

namespace AlgebraSql.Sql

/-- The number that a name is: plain digits without a leading zero, at most `2 ^ 32 - 2`. -/
def ordinalOfName? (name : String) : Option Nat :=
  match name.toList with
  | ['0'] => some 0
  | d :: ds =>
    let value := Decimal.digitsValue (d :: ds)
    if d != '0' && (d :: ds).all Char.isDigit && value < 4294967295 then some value else none
  | [] => none

namespace Node

/-- Puts an argument under a name that is a number, behind those with smaller numbers. -/
def setOrdinal (n : Node) (key : String) (ordinal : Nat) (value : Arg) : Node :=
  let before (p : String × Arg) : Bool := (ordinalOfName? p.1).any (· < ordinal)
  .mk n.kind (n.args.takeWhile before ++ (key, value) :: n.args.dropWhile before)

/-- The node with an argument put under any name, or without it. -/
def edit (n : Node) (key : String) (value : Option Arg) : Node :=
  match ordinalOfName? key, value with
  | some i, some a => if n.args.has key then n.set key value else n.setOrdinal key i a
  | _, _ => n.set key value

/-- The node of a kind with arguments that are put one after the other. -/
def ofPairs (kind : Kind) (pairs : List (String × Arg)) : Node :=
  pairs.foldl (fun n p => n.edit p.1 (some p.2)) (.mk kind [])

end Node

end AlgebraSql.Sql
