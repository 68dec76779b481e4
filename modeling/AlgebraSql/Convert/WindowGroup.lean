import AlgebraSql.Convert.Scalar

/-!
# Window groups in SQL — windowed calls that share a window over input fields.

The operands of such calls may refer to constants that come with the group: positions behind the
fields of the input are positions of constants.
-/

namespace AlgebraSql.Convert

open Sql

variable {ρ : Type}

/-- An operand, or the constant that it refers to. -/
def resolveConstant (constants : List Literal) (inputWidth : Ordinal) (operand : Scalar ρ) :
    Except Error (Scalar ρ) :=
  match operand with
  | .inputRef i _ =>
    if i.lt inputWidth then .ok operand
    else
      match (i.minus? inputWidth).bind (nth? constants) with
      | some l => .ok (.literal l)
      | none => .error (.windowConstantOutOfRange i)
  | _ => .ok operand

section

variable (env : Env) (sub : ρ → ConvertM Node)

/-- The node for an operand of a windowed call. -/
def windowOperand (ctx : Context) (constants : List Literal) (inputWidth : Ordinal)
    (operand : Scalar ρ) : ConvertM Node := do
  scalarNode env sub ctx (← resolveConstant constants inputWidth operand)

/-- The node for a call of a window group, whose keys are nodes already. -/
def windowCallNode (ctx : Context) (frame : Frame (Scalar ρ)) (constants : List Literal)
    (inputWidth : Ordinal) (partition order : List Node) (call : WindowCall (Scalar ρ)) :
    ConvertM Node := do
  let written ← windowedOperator env.dialect call.op call.operands
  let args ← call.operands.mapM (windowOperand env sub ctx constants inputWidth)
  let frame ← if call.op.allowsFraming then frameNodeOf env sub ctx frame else pure none
  return windowedNode written args call.distinct ⟨partition, order, frame⟩

/-- The nodes for the calls of a window group. -/
def windowGroupNodes (ctx : Context) (constants : List Literal) (inputWidth : Ordinal)
    (group : WindowGroup (Scalar ρ)) : ConvertM (List Node) := do
  let partition ← group.keys.mapM fun k => (ctx.field env k : Except Error Node)
  let order ← (collationsNodes env ctx group.order : Except Error (List Node))
  group.calls.mapM (windowCallNode env sub ctx group.frame constants inputWidth partition order)

end

end AlgebraSql.Convert
