import AlgebraSql.Convert.State

/-!
# Sort keys in SQL — how rows are ordered, and where rows without a value go.
-/

namespace AlgebraSql.Convert

open Sql

/-- A sort key; `first` says where rows without a value go if the key has to. -/
def orderedNode (n : Node) (descending : Bool) (first : Option Bool) : Node :=
  .mk .ordered ([("this", .node n), ("desc", .flag descending)]
    ++ (match first with
        | some b => [("nulls_first", .flag b)]
        | none => []))

/-- The sort keys for one key: `n` itself, preceded by a test of `tested` where the dialect has no
words for the placement of rows without a value. -/
def sortKeys (d : Dialect) (tested n : Node) (direction : Direction) (nulls : NullPlacement) :
    List Node :=
  let descending := direction == .descending
  if nulls == .unspecified then [orderedNode n descending none]
  else
    match d.emulatePlacement tested (nulls == .first) descending with
    | some test => [test, orderedNode n descending none]
    | none =>
      let needed := nulls != d.defaultPlacement direction
      [orderedNode n descending (if needed then some (nulls == .first) else none)]

/-- The sort keys for a key over an input field. -/
def collationNodes (env : Env) (ctx : Context) (c : Collation) : Except Error (List Node) := do
  let tested ← ctx.field env c.key
  let key ← ctx.orderField env c.key
  return sortKeys env.dialect tested key c.direction c.nulls

/-- The sort keys for several keys over input fields. -/
def collationsNodes (env : Env) (ctx : Context) (cs : List Collation) :
    Except Error (List Node) := do
  return (← cs.mapM (collationNodes env ctx)).flatten

end AlgebraSql.Convert
