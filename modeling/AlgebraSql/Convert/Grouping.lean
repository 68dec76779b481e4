import AlgebraSql.Convert.State

/-!
# Grouping in SQL — recognising the usual families of grouping sets.

One set of all keys is a plain grouping.  The sets of a ROLLUP drop one key after the other, and
those of a CUBE are all subsets of the keys.  Everything else is written out as GROUPING SETS.
-/

namespace AlgebraSql.Convert

open Sql

/-- A family of grouping sets. -/
inductive GroupKind where
  | simple | rollup | cube | other
  deriving Repr, DecidableEq

namespace GroupKind

/-- The written form of a family. -/
def toText : GroupKind → String
  | .simple => "SIMPLE"
  | .rollup => "ROLLUP"
  | .cube => "CUBE"
  | .other => "OTHER"

/-- What a dialect lacks that cannot write the family. -/
def construct : GroupKind → String
  | .other => "GROUPING SETS"
  | kind => kind.toText

end GroupKind

/-! ## Rollups -/

/-- Puts a set in front of the first smaller one. -/
def insertBySize (set : List Ordinal) : List (List Ordinal) → List (List Ordinal)
  | [] => [set]
  | s :: ss => if set.length > s.length then set :: s :: ss else s :: insertBySize set ss

/-- Sets from the largest to the smallest; sets of one size keep their order. -/
def bySize (sets : List (List Ordinal)) : List (List Ordinal) :=
  sets.foldl (fun sorted set => insertBySize set sorted) []

/-- The keys that are dropped from each set to the next, if it is one key each time. -/
def droppedKeys : List (List Ordinal) → Option (List Ordinal)
  | previous :: current :: rest =>
    if current.length + 1 = previous.length then
      match previous.filter (!current.contains ·) with
      | [key] => (droppedKeys (current :: rest)).map (key :: ·)
      | _ => none
    else none
  | _ => some []

/-- The keys of the ROLLUP that has these grouping sets, in some order. -/
def rollupKeys (groupSet : List Ordinal) (sets : List (List Ordinal)) : Option (List Ordinal) :=
  if sets.length ≠ groupSet.length + 1 then none
  else
    let sorted := bySize (sets.map Ordinal.ascending)
    if sorted.head? = some (Ordinal.ascending groupSet) then
      (droppedKeys sorted).map List.reverse
    else none

/-! ## Cubes -/

/-- The grouping sets are all subsets of the keys. -/
def isCube (groupSet : List Ordinal) (sets : List (List Ordinal)) : Bool :=
  sets.length == Nat.pow 2 groupSet.length
    && sets.all (·.all groupSet.contains)
    && ((sets.map Ordinal.ascending).eraseDups.length == sets.length)

/-- The family of the grouping sets of keys. -/
def groupKind (groupSet : List Ordinal) (sets : List (List Ordinal)) : GroupKind :=
  if sets.map Ordinal.ascending = [groupSet] then .simple
  else if (rollupKeys groupSet sets).isSome then .rollup
  else if isCube groupSet sets then .cube
  else .other

/-! ## Nodes -/

/-- The nodes for keys. -/
def keyNodes (env : Env) (ctx : Context) (keys : List Ordinal) : Except Error (List Node) :=
  keys.mapM (ctx.groupField env)

/-- The node for a grouping set: a single key stands by itself. -/
def groupingSetNode (env : Env) (ctx : Context) (set : List Ordinal) : Except Error Node :=
  match set with
  | [key] => ctx.groupField env key
  | keys => do return Node.tuple (← keyNodes env ctx keys)

/-- A node with a list of expressions. -/
def listNode (kind : Kind) (items : List Node) : Node := .mk kind [("expressions", .nodes items)]

/-- The grouping items of an aggregation. -/
def groupByNodes (env : Env) (ctx : Context) (groupSet : List Ordinal)
    (sets : List (List Ordinal)) : Except Error (List Node) := do
  let kind := groupKind groupSet sets
  if kind != .simple && !env.dialect.capabilities.groupingSets then
    throw (.unsupportedGrouping kind.construct env.dialect.name)
  match kind with
  | .simple => keyNodes env ctx groupSet
  | .rollup =>
    return [listNode .rollup (← keyNodes env ctx ((rollupKeys groupSet sets).getD groupSet))]
  | .cube => return [listNode .cube (← keyNodes env ctx groupSet)]
  | .other => return [listNode .groupingSets (← sets.mapM (groupingSetNode env ctx))]

end AlgebraSql.Convert
