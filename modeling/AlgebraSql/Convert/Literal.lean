import AlgebraSql.Dialect.Registry

/-!
# Literals in SQL — how constants are written.
-/

namespace AlgebraSql.Convert

open Sql

mutual

/-- The node for a constant. -/
def literalNode (d : Dialect) : Literal → Except Error Node
  | ⟨value, type⟩ =>
    match value with
    | .null => .ok Node.null
    | .character text => .ok (Node.string text)
    | .exact text => .ok (Node.number text)
    | .approximate text => .ok (Node.number text)
    | .boolean b => .ok (Node.boolean b)
    | .interval text negative qualifier =>
      .ok (.mk .interval [("this", .node (Node.string text)), ("unit", .node (Node.word qualifier)),
        ("negative", .flag negative)])
    | .date text => .ok (Dialect.dateLiteral text)
    | .time text => .ok (Dialect.timeLiteral text (type.precision.getD 0))
    | .timestamp text =>
      let precision := type.precision.getD 0
      if type.name == .localTimestamp then
        .ok (Node.typedLiteral "TIMESTAMP" (Text.withPrecision text precision))
      else .ok (d.timestampLiteral text precision)
    | .binary digits => .ok (.mk .hexString [("this", .text digits)])
    | .symbol word => .ok (Node.word word)
    | .row values => do return Node.call "ROW" (← literalNodes d values)
    | .sarg _ => .error .sargOutsideSearch

/-- The nodes for several constants. -/
def literalNodes (d : Dialect) : List Literal → Except Error (List Node)
  | [] => .ok []
  | l :: ls => do return (← literalNode d l) :: (← literalNodes d ls)

end

/-- A null of a type that its column keeps. -/
def typedNull (d : Dialect) (type : DataType) : Node :=
  if type.name == .null then Node.null else d.castNode Node.null type

end AlgebraSql.Convert
