import AlgebraSql.Convert.Order

/-!
# Aggregates in SQL — aggregate calls, and windowed calls once their windows are nodes.
-/

namespace AlgebraSql.Convert

open Sql

/-- `COALESCE(n, 0)` -/
def orZero (n : Node) : Node := Node.call "COALESCE" [n, Node.number "0"]

/-! ## Aggregate calls -/

/-- `CASE WHEN condition THEN first END` in place of the first argument, so that only rows on which
the condition holds count; a call without arguments counts ones. -/
def conditionalArgs (condition : Node) (args : List Node) : List Node :=
  .mk .case [("ifs", .nodes [Node.branch condition (args.head?.getD (Node.number "1"))])]
    :: args.drop 1

/-- The function name to write for an aggregate. -/
def aggregateName (d : Dialect) (op : Operator) : Except Error String :=
  if op.kind == .otherFunction then do return (← d.availableFunction op).name else .ok op.name

/-- The arguments to write for an aggregate: a star for a count of rows. -/
def aggregateArgs (op : Operator) (args : List Node) : List Node :=
  if op.kind == .count && args.isEmpty then [Node.star] else args

/-- `call FILTER (WHERE condition)` -/
def filtered (call condition : Node) : Node :=
  .mk .filter [("this", .node call), ("expression", .node (Node.wrap .where condition))]

/-- `call WITHIN GROUP (ORDER BY items)` -/
def withinGroup (call : Node) (items : List Node) : Node :=
  .mk .withinGroup [("this", .node call), ("expression", .node (Node.order items))]

/-- An aggregate of nodes; `op` is not the sum that is zero without rows. -/
def plainAggregate (env : Env) (ctx : Context) (op : Operator) (distinct : Bool) (args : List Node)
    (filter : Option Ordinal) (collation : List Collation) : Except Error Node := do
  let inPlace := env.dialect.capabilities.aggregateFilter
  let args ← match filter with
    | some i => if inPlace then pure args else do pure (conditionalArgs (← ctx.field env i) args)
    | none => pure args
  let name ← aggregateName env.dialect op
  let call := Node.aggregate name (aggregateArgs op args) distinct
  let call ← match filter with
    | some i => if inPlace then do pure (filtered call (← ctx.field env i)) else pure call
    | none => pure call
  if collation.isEmpty then return call
  return withinGroup call (← collationsNodes env ctx collation)

/-- The node for an aggregate call. -/
def aggregateNode (env : Env) (ctx : Context) (call : AggregateCall) : Except Error Node := do
  let args ← call.args.mapM (ctx.field env)
  if call.op.kind == .sumOrZero then
    return orZero
      (← plainAggregate env ctx Operator.sum call.distinct args call.filter call.collation)
  plainAggregate env ctx call.op call.distinct args call.filter call.collation

/-! ## Windowed calls -/

/-- The clauses of a window. -/
structure WindowParts where
  partition : List Node
  order : List Node
  frame : Option Node

/-- `NAME(args) OVER (window)` -/
def overNode (name : String) (args : List Node) (distinct : Bool) (parts : WindowParts) : Node :=
  .mk .window ([("this", .node (Node.aggregate name args distinct)),
      ("partition_by", .nodes parts.partition)]
    ++ (if parts.order.isEmpty then [] else [("order", .node (Node.order parts.order))])
    ++ Node.optional "spec" parts.frame)

/-- A windowed call of an operator. -/
def windowedNode (op : Operator) (args : List Node) (distinct : Bool) (parts : WindowParts) :
    Node :=
  if op.kind == .sumOrZero then orZero (overNode Operator.sum.name args distinct parts)
  else overNode op.name args distinct parts

/-- One end of a frame: the offset or its word, and the side. -/
structure FrameEnd where
  offset : Arg
  side : Option String

/-- The arguments for one end of a frame. -/
def FrameEnd.args (key : String) (e : FrameEnd) : List (String × Arg) :=
  (key, e.offset) :: (match e.side with
    | some side => [(key ++ "_side", .text side)]
    | none => [])

/-- `ROWS BETWEEN start AND stop` -/
def frameNode (rows : Bool) (start : FrameEnd) (stop : Option FrameEnd) : Node :=
  .mk .windowSpec ([("kind", .text (if rows then "ROWS" else "RANGE"))] ++ start.args "start"
    ++ (match stop with
        | some e => e.args "end"
        | none => []))

end AlgebraSql.Convert
