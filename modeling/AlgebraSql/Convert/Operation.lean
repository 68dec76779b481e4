import AlgebraSql.Dialect.Registry

/-!
# Operations — calls of operators on operands that are nodes already.
-/

namespace AlgebraSql.Convert

open Sql

/-- The node kind of an operator that stands between two operands. -/
def binaryKind? : OperatorKind → Option Kind
  | .equals => some .eq
  | .notEquals => some .neq
  | .greaterThan => some .gt
  | .greaterThanOrEqual => some .gte
  | .lessThan => some .lt
  | .lessThanOrEqual => some .lte
  | .plus => some .add
  | .minus => some .sub
  | .times => some .mul
  | .divide => some .div
  | .concat => some .concat
  | _ => none

/-- An operation on exactly two operands. -/
def binaryNode (kind : Kind) : List Node → Except Error Node
  | [left, right] => .ok (Node.binary kind left right)
  | operands => .error (.binaryOperands operands.length)

/-- A test of two operands that may be denied and may have an escape character. -/
def negatable (kind : Kind) (first : Node) (rest : List Node) (negated : Bool) (escape : Bool) :
    Node :=
  .mk kind ([("this", .node first)] ++ Node.optional "expression" rest.head?
    ++ (if escape then Node.optional "escape" (rest.drop 1).head? else [])
    ++ [("negated", .flag negated)])

/-- A call of an operator that is neither a function nor written between two operands. -/
def specialNode (op : Operator) (first : Node) (rest : List Node) : Except Error Node :=
  match op.kind with
  | .and => .ok (Node.and (first :: rest))
  | .or => .ok (Node.or (first :: rest))
  | .not => .ok (Node.not first)
  | .negate => .ok (Node.neg first)
  | .isNull => .ok (Node.isTest first Node.null false)
  | .isNotNull => .ok (Node.isTest first Node.null true)
  | .isTrue => .ok (Node.isTest first (Node.boolean true) false)
  | .isNotTrue => .ok (Node.isTest first (Node.boolean true) true)
  | .isFalse => .ok (Node.isTest first (Node.boolean false) false)
  | .isNotFalse => .ok (Node.isTest first (Node.boolean false) true)
  | .isDistinctFrom => .ok (negatable .isDistinctFrom first rest false false)
  | .isNotDistinctFrom => .ok (negatable .isDistinctFrom first rest true false)
  | .like => .ok (negatable .like first rest op.negated true)
  | .similar => .ok (negatable .similarTo first rest op.negated true)
  | .in => .ok (Node.inList first rest false)
  | .notIn => .ok (Node.inList first rest true)
  | .item => .ok (.mk .bracket [("this", .node first), ("expressions", .nodes rest)])
  | .row => .ok (Node.call "ROW" (first :: rest))
  | _ => .error (.operatorWithoutForm op.name)

/-- A call of an operator. -/
def operationNode (op : Operator) (operands : List Node) : Except Error Node :=
  if op.form == .function then
    .ok (if op.isAggregate then Node.aggregate op.name operands else Node.call op.name operands)
  else
    match binaryKind? op.kind, operands with
    | some kind, operands => binaryNode kind operands
    | none, [] => .error (.operatorWithoutOperands op.name)
    | none, first :: rest => specialNode op first rest

/-! ## Denial -/

/-- Tests that carry their own denial. -/
def isDeniable : Kind → Bool
  | .in | .like | .similarTo => true
  | _ => false

/-- A test with the opposite outcome. -/
def flipped (n : Node) : Node := n.set "negated" (some (.flag (!n.flag "negated")))

/-- The denial of a node.  The operator it came from says whether it may be denied in place. -/
def deny (source : Option OperatorKind) (n : Node) : Node :=
  let inPlace :=
    match source with
    | some .in | some .notIn | some .like | some .similar => isDeniable n.kind
    | _ => false
  if inPlace then flipped n else Node.not n

/-! ## Case distinctions -/

/-- Branches from alternating conditions and values. -/
def branches : List Node → List Node
  | condition :: value :: rest => Node.branch condition value :: branches rest
  | _ => []

/-- A case distinction from its operands: a value to compare if their number is even, then
conditions with values, then the value for no condition. -/
def caseNode (operands : List Node) : Node :=
  let inner := operands.dropLast
  let (subject, pairs) :=
    if operands.length % 2 = 0 then (inner.head?, inner.drop 1) else (none, inner)
  .mk .case (Node.optional "this" subject ++ [("ifs", .nodes (branches pairs))]
    ++ Node.optional "default" operands.getLast?)

end AlgebraSql.Convert
