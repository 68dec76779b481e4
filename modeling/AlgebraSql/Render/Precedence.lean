import AlgebraSql.Sql.Node

/-!
# Precedence — how strongly operations bind, and where parentheses are needed.
-/

namespace AlgebraSql.Render

open AlgebraSql.Sql

/-- Binding strength, weakest first. -/
inductive Strength where
  | or | and | not | comparison | concat | additive | multiplicative | unary | atom
  deriving Repr, DecidableEq

namespace Strength

/-- A number that grows with the strength. -/
def rank : Strength → Nat
  | .or => 1
  | .and => 2
  | .not => 3
  | .comparison => 4
  | .concat => 5
  | .additive => 6
  | .multiplicative => 7
  | .unary => 8
  | .atom => 10

/-- `a` binds weaker than `b`. -/
def below (a b : Strength) : Bool := a.rank < b.rank

/-- The binding strength of a node of a kind. -/
def ofKind : Kind → Strength
  | .or => .or
  | .and => .and
  | .not => .not
  | .eq | .neq | .gt | .gte | .lt | .lte | .negatableBinary | .like | .similarTo | .isDistinctFrom
  | .is | .in => .comparison
  | .concat => .concat
  | .add | .sub => .additive
  | .mul | .div | .mod => .multiplicative
  | .neg => .unary
  | _ => .atom

/-- The binding strength of an operand; a missing one needs no parentheses. -/
def ofNode (n : Option Node) : Strength :=
  match n with
  | some n => ofKind n.kind
  | none => .atom

end Strength

/-- Operations that mean the same however a chain of them is grouped. -/
def isAssociative : Kind → Bool
  | .and | .or | .add | .mul | .concat => true
  | _ => false

/-- A left operand needs parentheses: it binds weaker, or both are comparisons, which do not chain.
-/
def wrapsLeft (parent : Kind) (left : Option Node) : Bool :=
  let own := Strength.ofKind parent
  let inner := Strength.ofNode left
  inner.below own || (inner == own && own == .comparison)

/-- A right operand needs parentheses: it binds weaker, or equally strong without being the same
associative operation. -/
def wrapsRight (parent : Kind) (right : Option Node) : Bool :=
  let own := Strength.ofKind parent
  let inner := Strength.ofNode right
  inner.below own
    || (inner == own && !((right.map Node.kind) == some parent && isAssociative parent))

/-- Text in parentheses if they are needed. -/
def parenthesized (needed : Bool) (text : String) : String :=
  if needed then "(" ++ text ++ ")" else text

end AlgebraSql.Render
