import AlgebraSql.Convert.Scalar

/-!
# Join conditions in SQL — conditions over the fields of two inputs.

A condition is converted as in the context of both inputs.  Only a comparison of two plain fields is
written with the field of the left input first, by reversing the comparison if need be.
-/

namespace AlgebraSql.Convert

open Sql

variable {ρ : Type}

/-- A call that compares values, missing ones included or not. -/
def isFieldComparison (kind : OperatorKind) : Bool :=
  kind.isComparison || kind == .isDistinctFrom || kind == .isNotDistinctFrom

/-- A comparison of a field of the right input with one of the left input, turned round. -/
def leftFirst (leftWidth : Nat) (op : Operator) (operands : List (Scalar ρ)) (type : DataType) :
    Scalar ρ :=
  match operands with
  | [.inputRef a s, .inputRef b t] =>
    if b.lt leftWidth && !a.lt leftWidth then
      .call op.reversed [.inputRef b t, .inputRef a s] type
    else .call op operands type
  | _ => .call op operands type

section

variable (env : Env) (sub : ρ → ConvertM Node)

mutual

/-- The node for a join condition. -/
def conditionNode (left right : Context) : Scalar ρ → ConvertM Node
  | .literal l =>
    match l.value with
    | .boolean b => return Node.boolean b
    | _ => scalarNode env sub (.join left right) (.literal l)
  | .call op operands type =>
    if op.kind == .and then do return Node.and (← conditionNodes left right operands)
    else if op.kind == .or then do return Node.or (← conditionNodes left right operands)
    else if isFieldComparison op.kind then
      scalarNode env sub (.join left right)
        (leftFirst left.fieldCount op (withoutCast env.dialect op operands) type)
    else scalarNode env sub (.join left right) (.call op operands type)
  | e => scalarNode env sub (.join left right) e

/-- The nodes for several join conditions. -/
def conditionNodes (left right : Context) : List (Scalar ρ) → ConvertM (List Node)
  | [] => return []
  | e :: es => do
    let n ← conditionNode left right e
    return n :: (← conditionNodes left right es)

end

end

end AlgebraSql.Convert
