import AlgebraSql.Convert.Literal

/-!
# Search — the test whether a search argument accepts a value.

A set of points becomes an equality or a list of values, other ranges become one or two comparisons
each, and a search argument that accepts a missing value adds a test for it.  The tests are joined
by OR, so an empty search argument is `FALSE`.
-/

namespace AlgebraSql.Convert

open Sql

/-- A range endpoint as a constant of a type. -/
def endpointNode (d : Dialect) (type : DataType) (v : Value) : Except Error Node := do
  literalNode d (← Literal.ofValue v type)

/-- A comparison of the operand with an endpoint. -/
def compareNode (d : Dialect) (type : DataType) (operand : Node) (kind : Kind) (v : Value) :
    Except Error Node := do
  return Node.binary kind operand (← endpointNode d type v)

/-- The comparison with a lower endpoint. -/
def lowerNode (d : Dialect) (type : DataType) (operand : Node) (e : Endpoint) : Except Error Node :=
  compareNode d type operand (if e.closed then .gte else .gt) e.value

/-- The comparison with an upper endpoint. -/
def upperNode (d : Dialect) (type : DataType) (operand : Node) (e : Endpoint) : Except Error Node :=
  compareNode d type operand (if e.closed then .lte else .lt) e.value

/-- The test whether the operand lies in a range. -/
def rangeNode (d : Dialect) (type : DataType) (operand : Node) (r : Range) : Except Error Node := do
  match ← r.shape, r.lower, r.upper with
  | .all, _, _ => return Node.boolean true
  | .singleton, some l, _ => compareNode d type operand .eq l.value
  | _, lower, upper =>
    let below ← lower.toList.mapM (lowerNode d type operand)
    let above ← upper.toList.mapM (upperNode d type operand)
    return Node.and (below ++ above)

/-- The tests for the values of a range set. -/
def rangeSetNodes (d : Dialect) (type : DataType) (operand : Node) (s : RangeSet) :
    Except Error (List Node) := do
  if ← s.isPoints then
    match ← s.points with
    | [] => return []
    | [v] => return [← compareNode d type operand .eq v]
    | vs => return [Node.inList operand (← vs.mapM (endpointNode d type))]
  else s.ranges.mapM (rangeNode d type operand)

/-- The test whether a search argument accepts the operand. -/
def sargNode (d : Dialect) (operand : Node) (sarg : Sarg) (type : DataType) :
    Except Error Node := do
  let missing := if sarg.containsNull then [Node.isNull operand] else []
  return Node.or (missing ++ (← rangeSetNodes d type operand sarg.rangeSet))

end AlgebraSql.Convert
