import AlgebraSql.Convert.Aggregate
import AlgebraSql.Convert.Operation
import AlgebraSql.Convert.Search

/-!
# Expressions in SQL — the node for a scalar expression in a context.

The conversion follows the expression.  It is given the conversion of sub-queries, so that it does
not have to know what a relation is.  Parts are converted from left to right, because a sub-query
takes names and the first failure counts.
-/

namespace AlgebraSql.Convert

open Sql

variable {ρ : Type}

/-! ## Comparisons with converted texts -/

/-- Comparisons from which a conversion of a text may be dropped. -/
def dropsCast : OperatorKind → Bool
  | .equals | .isNotDistinctFrom | .notEquals | .greaterThan | .greaterThanOrEqual | .lessThan
  | .lessThanOrEqual => true
  | _ => false

/-- The side of a comparison whose conversion is dropped. -/
inductive CastSide where
  | neither | left | right
  deriving Repr, DecidableEq

/-- The operands of a conversion that may be left to the database. -/
def isDroppable (d : Dialect) : Scalar ρ → Bool
  | .call _ operands _ => !operands.isEmpty && d.coerces operands
  | _ => false

/-- The side of a call whose conversion is dropped: only one side is a conversion, and the dialect
converts texts by itself. -/
def castSide (d : Dialect) (kind : OperatorKind) (operands : List (Scalar ρ)) : CastSide :=
  match operands with
  | left :: right :: _ =>
    if !dropsCast kind then .neither
    else if left.isCast && !right.isCast then (if isDroppable d left then .left else .neither)
    else if right.isCast && !left.isCast then (if isDroppable d right then .right else .neither)
    else .neither
  | _ => .neither

/-- The operands of a call without the conversion of a text: `CAST(c AS INTEGER) = 1` is `c = 1`. -/
def withoutCast (d : Dialect) (op : Operator) (operands : List (Scalar ρ)) : List (Scalar ρ) :=
  match castSide d op.kind operands, operands with
  | .left, .call _ (inner :: _) _ :: right :: _ => [inner, right]
  | .right, left :: .call _ (inner :: _) _ :: _ => [left, inner]
  | _, operands => operands

/-! ## Parts -/

/-- A constant in a context: inside a row pattern a text names a pattern variable. -/
def literalIn (env : Env) (ctx : Context) (l : Literal) : Except Error Node :=
  match ctx, l.value with
  | .rowPattern _ _, .character name => .ok (Node.identifier name)
  | _, _ => literalNode env.dialect l

/-- A field of the rows that a pattern variable stands for. -/
def patternFieldNode (env : Env) (ctx : Context) (symbol : String) (index : Ordinal) :
    Except Error Node := do
  let n ← ctx.field env index
  if n.is .column then return Node.column n.name (some symbol)
  throw (.patternFieldNotColumn index)

/-- A field of the current row of an enclosing relation. -/
def correlatedField (env : Env) (id : String) (index : Nat) : ConvertM Node := do
  (← correlated id).field env index

/-- A repetition count of a row pattern. -/
def countOf (e : Option (Scalar ρ)) : Except Error Quantity :=
  match e with
  | some (.literal ⟨.exact digits, _⟩) => .ok (Quantity.ofText digits)
  | _ => .error .quantifierBounds

/-- A repeated pattern, once the pattern is a node. -/
def quantifierNode (pattern : Node) (bounds : List (Scalar ρ)) : Except Error Node := do
  let min ← countOf bounds.head?
  let max ← countOf (bounds.drop 1).head?
  let reluctant := (bounds.drop 2).head?.any (·.isLiteralTrue)
  return .mk .patternQuantifier [("this", .node pattern), ("min", .number min),
    ("max", .number max), ("reluctant", .flag reluctant)]

/-- A test with a sub-query that is a node already. -/
def subQueryNode (op : Operator) (operand : Option Node) (query : Node) : Except Error Node :=
  match op.kind, operand with
  | .in, some operand => .ok (Node.inQuery operand (Node.subquery query) false)
  | .notIn, some operand => .ok (Node.inQuery operand (Node.subquery query) true)
  | .exists, _ => .ok (Node.wrap .exists query)
  | .scalarQuery, _ => .ok (Node.subquery query)
  | _, _ => .error (.unknownSubQueryOperator op.name)

/-- The search argument and the type of its values in the second operand of a search. -/
def searchArgument (operands : List (Scalar ρ)) : Except Error (Sarg × DataType) :=
  match operands with
  | _ :: .literal ⟨.sarg sarg, type⟩ :: _ =>
    match type.component with
    | some component => .ok (sarg, component)
    | none => .error .searchWithoutType
  | _ => .error .searchOperands

/-- A cursor over an input, which is a field of a table function. -/
def cursorNode (env : Env) (ctx : Context) (operand : Scalar ρ) : Except Error Node := do
  match operand with
  | .inputRef i _ => return Node.wrap .cursor (← ctx.field env i)
  | _ => throw .cursorCastOperand

/-- The function to write for a windowed call; only functions of libraries may change. -/
def windowedOperator (d : Dialect) (op : Operator) (operands : List (Scalar ρ)) :
    Except Error Operator :=
  if op.kind == .otherFunction then d.retarget op (operands.map (·.type)) else .ok op

/-! ## Expressions -/

section

variable (env : Env) (sub : ρ → ConvertM Node)

mutual

/-- The node for an expression. -/
def scalarNode (ctx : Context) : Scalar ρ → ConvertM Node
  | .inputRef i _ => ctx.field env i
  | .localRef i shared _ =>
    match i.nat? with
    | some n => scalarNodeAt ctx i n shared
    | none => throw (.danglingLocalRef i)
  | .literal l => literalIn env ctx l
  | .fieldAccess (.correlation id _) _ index _ => correlatedField env id index
  | .fieldAccess row field _ _ => do return Node.dot (← scalarNode ctx row) field
  | .patternField symbol i _ => patternFieldNode env ctx symbol i
  | .parameter i _ =>
    return .mk .placeholder [("index", .number (.finite i.value))]
  | .correlation id _ => throw (.correlationWithoutField id)
  | .subQuery op operands relation _ => do
    let query ← sub relation
    let operand ←
      if op.kind == .in || op.kind == .notIn then
        match operands with
        | [only] => do pure (some (← scalarNode ctx only))
        | several => do pure (some (Node.tuple (← scalarNodes ctx several)))
      else pure none
    subQueryNode op operand query
  | .overWindow op operands window distinct _ => do
    let partition ← scalarNodes ctx window.partition
    let order ← sortKeyNodes ctx window.order
    let written ← windowedOperator env.dialect op operands
    let args ← scalarNodes ctx operands
    let frame ← if op.allowsFraming then frameNodeOf ctx window.frame else pure none
    return windowedNode written args distinct ⟨partition, order, frame⟩
  | .call op operands type =>
    match op.kind with
    | .and => do return Node.and (← scalarNodes ctx operands)
    | .or => do return Node.or (← scalarNodes ctx operands)
    | .not =>
      match operands with
      | [] => throw .notWithoutOperand
      | .call inner (e :: es) t :: _ => do
        if inner.kind == .not then scalarNode ctx e
        else return deny (some inner.kind) (← scalarNode ctx (.call inner (e :: es) t))
      | operand :: _ => do
        return deny (operand.operator?.map (·.kind)) (← scalarNode ctx operand)
    | .case => do return caseNode (← scalarNodes ctx operands)
    | .search => do
      let (sarg, component) ← searchArgument operands
      match operands with
      | operand :: _ => sargNode env.dialect (← scalarNode ctx operand) sarg component
      | [] => throw .searchOperands
    | .cast =>
      match operands with
      | [] => throw .castWithoutOperand
      | operand :: _ => do
        if type.name == .cursor then cursorNode env ctx operand
        else return env.dialect.castNode (← scalarNode ctx operand) type
    | .patternConcat => do
      return .mk .patternConcat [("expressions", .nodes (← scalarNodes ctx operands))]
    | .patternAlter => do
      return .mk .patternAlternation [("expressions", .nodes (← scalarNodes ctx operands))]
    | .patternQuantifier =>
      match operands with
      | [] => throw .quantifierWithoutPattern
      | pattern :: bounds => do quantifierNode (← scalarNode ctx pattern) bounds
    | kind => do
      let nodes ←
        match castSide env.dialect kind operands, operands with
        | .left, .call _ (inner :: _) _ :: right :: _ => do
          let left ← scalarNode ctx inner
          pure [left, ← scalarNode ctx right]
        | .right, left :: .call _ (inner :: _) _ :: _ => do
          let left ← scalarNode ctx left
          pure [left, ← scalarNode ctx inner]
        | _, operands => scalarNodes ctx operands
      let written ← env.dialect.retarget op (operands.map (·.type))
      operationNode written nodes

/-- The nodes for several expressions. -/
def scalarNodes (ctx : Context) : List (Scalar ρ) → ConvertM (List Node)
  | [] => return []
  | e :: es => do
    let n ← scalarNode ctx e
    return n :: (← scalarNodes ctx es)

/-- The node for the entry of a shared list that has `n` others before it; a complaint names the
position as `index`. -/
def scalarNodeAt (ctx : Context) (index : Ordinal) (n : Nat) : List (Scalar ρ) → ConvertM Node
  | [] => throw (.danglingLocalRef index)
  | e :: es => if n = 0 then scalarNode ctx e else scalarNodeAt ctx index (n - 1) es

/-- The sort keys of a window. -/
def sortKeyNodes (ctx : Context) : List (SortKey (Scalar ρ)) → ConvertM (List Node)
  | [] => return []
  | ⟨e, direction, nulls⟩ :: ks => do
    let n ← scalarNode ctx e
    return sortKeys env.dialect n n direction nulls ++ (← sortKeyNodes ctx ks)

/-- One end of a frame. -/
def boundOf (ctx : Context) : Bound (Scalar ρ) → ConvertM FrameEnd
  | .unboundedPreceding => return ⟨.text "UNBOUNDED", some "PRECEDING"⟩
  | .unboundedFollowing => return ⟨.text "UNBOUNDED", some "FOLLOWING"⟩
  | .currentRow => return ⟨.text "CURRENT ROW", none⟩
  | .preceding e => do return ⟨.node (← scalarNode ctx e), some "PRECEDING"⟩
  | .following e => do return ⟨.node (← scalarNode ctx e), some "FOLLOWING"⟩

/-- The frame of a window, which needs a start. -/
def frameNodeOf (ctx : Context) : Frame (Scalar ρ) → ConvertM (Option Node)
  | ⟨_, none, _⟩ => return none
  | ⟨rows, some start, none⟩ => do return some (frameNode rows (← boundOf ctx start) none)
  | ⟨rows, some start, some stop⟩ => do
    let start ← boundOf ctx start
    return some (frameNode rows start (some (← boundOf ctx stop)))

end

end

end AlgebraSql.Convert
