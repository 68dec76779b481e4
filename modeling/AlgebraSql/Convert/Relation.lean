import AlgebraSql.Algebra.Depth
import AlgebraSql.Convert.Grouping
import AlgebraSql.Convert.JoinCondition
import AlgebraSql.Convert.Result
import AlgebraSql.Convert.WindowGroup

/-!
# Relations in SQL — the query for a plan, from its leaves upwards.

For each operator of the algebra there is a step that makes a result out of the results of the
inputs.  `relationResult` puts the steps together along the plan.  It is given the conversion of
sub-queries; `queryAt` closes that knot by as many rounds as sub-queries are nested.
-/

namespace AlgebraSql.Convert

open Sql

section

variable (env : Env) (sub : Rel → ConvertM Node)

/-! ## Leaves -/

/-- A table. -/
def scanResult (table : List String) (rel : Rel) : ConvertM Result := do
  makeResult env (← Node.table? table) [.from] rel none

/-- `VALUES` with a name and names for the columns; no rows are one row that is filtered out. -/
def aliasedValues (aliasName : String) (fields : RowType) (tuples : List (List Literal)) :
    Except Error Node := do
  let name := Node.tableAlias aliasName fields.names
  let values (rows : List Node) : Node :=
    .mk .values [("expressions", .nodes rows), ("alias", .node name)]
  if tuples.isEmpty then
    let nulls := fields.map fun f => typedNull env.dialect f.type
    return Node.selectWhere (values [Node.tuple nulls]) Node.alwaysFalse
  return values (← tuples.mapM fun t => do return Node.tuple (← literalNodes env.dialect t))

/-- `SELECT a AS x, b AS y` -/
def namedSelect (fields : RowType) (items : List Node) : Node :=
  Node.selectItems (List.zipWith (fun f n => Node.aliased n f.name) fields items)

/-- Rows as queries without a table that are put together by UNION ALL; no rows are one row that is
filtered out. -/
def unionValues (aliasName : String) (fields : RowType) (tuples : List (List Literal)) :
    Except Error Node := do
  match ← tuples.mapM fun t => do return namedSelect fields (← literalNodes env.dialect t) with
  | [] =>
    let nulls := namedSelect fields (fields.map fun f => typedNull env.dialect f.type)
    return Node.selectWhere (← nulls.asFromItem aliasName) Node.alwaysFalse
  | first :: rest => return rest.foldl (fun u n => Node.setOperation .union u n false) first

/-- Constant rows. -/
def valuesResult (fields : RowType) (tuples : List (List Literal)) (rel : Rel) :
    ConvertM Result := do
  let aliasName ← nextName
  let n ← (if env.dialect.capabilities.aliasedValues then aliasedValues env aliasName fields tuples
    else unionValues env aliasName fields tuples : Except Error Node)
  makeResult env n [.select] rel none

/-! ## Operators on one input -/

/-- The clause that a filter becomes. -/
def filterClause (input : Rel) (condition : Expr) : Clause :=
  match input with
  | .aggregate .. => .having
  | .project _ projects _ _ _ =>
    if env.dialect.capabilities.qualify && projects.any (·.containsOver)
        && !condition.containsOver then
      .qualify
    else .where
  | _ => .where

/-- The clauses below are ignored: an aggregation over a projection is being filtered. -/
def ignoresClauses : Rel → Bool
  | .filter (.aggregate (.project ..) _ _ _) _ _ => true
  | .aggregate (.project ..) _ _ _ => true
  | _ => false

/-- A filter. -/
def filterResult (input : Rel) (condition : Expr) (correlations : List String) (rel : Rel)
    (x : Result) : ConvertM Result := do
  let clause := filterClause env input condition
  let x := x.expecting [clause] (ignoresClauses rel)
  registerCorrelations correlations x.aliases
  let b ← x.builder env rel
  let n ← scalarNode env sub b.context condition
  let b ← (match clause with
    | .having => b.setHaving (b.alongside "having" n)
    | .qualify => b.setQualify (b.alongside "qualify" n)
    | _ => b.setWhere n : Except Error Builder)
  b.result env

/-- A projection passes its input through unchanged. -/
def isIdentity (input : Rel) (projects : List Expr) (fields : RowType) : Bool :=
  projects.length == input.fields.length
    && (projects.zipIdx.all fun (e, i) => e.inputRef? == some (i : Ordinal))
    && fields.names == input.fields.names

/-- A projected expression; a bare null gets the type of its column. -/
def projectedNode (ctx : Context) (e : Expr) : ConvertM Node := do
  let n ← scalarNode env sub ctx e
  return if n.is .null then typedNull env.dialect e.type else n

/-- A projection. -/
def projectResult (input : Rel) (projects : List Expr) (distinct : Bool)
    (correlations : List String) (rel : Rel) (x : Result) : ConvertM Result := do
  let x := x.expecting [.select]
  registerCorrelations correlations x.aliases
  let b ← x.builder env rel
  let b ←
    if isIdentity input projects rel.fields then pure b
    else do
      let nodes ← projects.mapM (projectedNode env sub b.context)
      pure (b.setSelect (← addSelects rel.fields [] nodes))
  (if distinct then b.setDistinct else b).result env

/-- An aggregation.  Without keys and calls a constant stands in the select list, and the empty
grouping keeps a query without calls from returning all rows. -/
def aggregateResult (groupSet : List Ordinal) (sets : List (List Ordinal))
    (calls : List AggregateCall) (rel : Rel) (x : Result) : ConvertM Result := do
  let b ← (x.expecting [.groupBy] (ignoresClauses rel)).builder env rel
  let keys ← (groupSet.mapM (b.context.field env) : Except Error (List Node))
  let items ← (addSelects rel.fields [] keys : Except Error (List Node))
  let groupBy ← (groupByNodes env b.context groupSet sets : Except Error (List Node))
  let aggregates ← (calls.mapM (aggregateNode env b.context) : Except Error (List Node))
  let items ← (addSelects rel.fields items aggregates : Except Error (List Node))
  let b := b.setSelect (if items.isEmpty then [Node.number "1"] else items)
  let b ←
    if groupBy.isEmpty && !calls.isEmpty then pure b
    else (b.setGroupBy groupBy : Except Error Builder)
  b.result env

/-- A query below the top that gets a select list because `SELECT *` might show other fields. -/
def withFields (b : Builder) (fields : RowType) : Except Error Builder := do
  let columns ← (List.range fields.length).mapM fun (i : Nat) => b.context.field env i
  return b.setSelect (← addSelects fields [] columns)

/-- A sort, which may also limit the number of rows. -/
def sortResult (root : Bool) (collation : List Collation) (offset fetch : Option Expr) (rel : Rel)
    (x : Result) : ConvertM Result := do
  let b ← (x.expecting [.orderBy, .fetch, .offset]).builder env rel
  let b ←
    if !root && b.select.selectList?.isNone then
      (withFields env b rel.fields : Except Error Builder)
    else pure b
  let items ← (collationsNodes env b.context collation : Except Error (List Node))
  let b ← if items.isEmpty then pure b else (b.setOrderBy items : Except Error Builder)
  let b ← match fetch with
    | some e => do
      let n ← scalarNode env sub b.context e
      (b.setFetch n : Except Error Builder)
    | none => pure b
  let b ← match offset with
    | some e => do
      let n ← scalarNode env sub b.context e
      (b.setOffset n : Except Error Builder)
    | none => pure b
  b.result env

/-- Windowed calls behind the fields of the input. -/
def windowResult (input : Rel) (groups : List (WindowGroup Expr)) (constants : List Literal)
    (rel : Rel) (x : Result) : ConvertM Result := do
  let b ← (x.expecting [.select]).builder env rel
  let width := input.fields.length
  let calls ← groups.mapM (windowGroupNodes env sub b.context constants width)
  let columns ← ((List.range width).mapM fun (i : Nat) => b.context.field env i :
    Except Error (List Node))
  let items ← (addSelects rel.fields [] (columns ++ calls.flatten) : Except Error (List Node))
  (b.setSelect items).result env

/-- The symbol that some continuations name. -/
def afterSymbol : AfterMatch → Option Node
  | .skipTo _ symbol => some (Node.identifier symbol)
  | _ => none

/-- Named expressions of a row pattern. -/
def namedNodes (ctx : Context) (entries : List (String × Expr)) : ConvertM (List Node) :=
  entries.mapM fun (name, e) => do return Node.aliased (← scalarNode env sub ctx e) name

/-- A set of pattern variables under a name. -/
def subsetNode (subset : String × List String) : Node :=
  Node.aliased (Node.tuple (subset.2.map fun name => Node.identifier name)) subset.1

/-- Row pattern recognition, which is a FROM item. -/
def rowPatternResult (spec : RowPattern Expr) (rel : Rel) (x : Result) : ConvertM Result := do
  let x := x.resetAlias
  let ctx : Context := .rowPattern x.aliases false
  let order ← (collationsNodes env ctx spec.order : Except Error (List Node))
  let input ← x.asFrom
  let partition ← (spec.partition.mapM (ctx.field env) : Except Error (List Node))
  let measures ← namedNodes env sub ctx spec.measures
  let pattern ← scalarNode env sub ctx spec.pattern
  let within ← (spec.within.mapM (literalIn env ctx) : Except Error (Option Node))
  let define ← namedNodes env sub ctx spec.definitions
  let n := Node.mk .matchRecognize (
    [("this", .node input), ("partition_by", .nodes partition)]
      ++ (if order.isEmpty then [] else [("order", .node (Node.order order))])
      ++ [("measures", .nodes measures),
        ("rows", .text (if spec.allRows then "ALL ROWS PER MATCH" else "ONE ROW PER MATCH"))]
      ++ [("after", .text spec.after.toText)]
      ++ Node.optional "after_variable" (afterSymbol spec.after)
      ++ [("pattern", .node pattern), ("strict_start", .flag spec.strictStart),
        ("strict_end", .flag spec.strictEnd)]
      ++ Node.optional "within" within
      ++ [("subsets", .nodes (spec.subsets.map subsetNode)), ("define", .nodes define)])
  makeResult env n [.from] rel none

/-! ## Operators on several inputs -/

/-- `left KIND JOIN right ON condition` -/
def joinNode (left right : Node) (kind : String) (on : Option Node) : Node :=
  .mk .join ([("this", .node left), ("expression", .node right), ("kind", .text kind)]
    ++ Node.optional "on" on)

/-- A join that is a full product. -/
def isProduct (condition : Expr) (type : JoinType) : Bool :=
  condition.isLiteralTrue && type == .inner

/-- A join of two FROM items. -/
def joinResult (condition : Expr) (type : JoinType) (correlations : List String) (rel : Rel)
    (left right : Result) : ConvertM Result := do
  registerCorrelations correlations left.aliases
  let l ← left.asFrom
  let r ← right.asFrom
  let join ←
    if isProduct condition type then
      pure (joinNode l r env.dialect.capabilities.crossJoin.toText none)
    else do
      let on ← conditionNode env sub left.qualifiedContext right.qualifiedContext condition
      pure (joinNode l r type.toText (some on))
  makeJoinResult env join left right rel

/-- `SELECT 1 FROM item WHERE condition` -/
def existenceQuery (item condition : Node) : Node :=
  .mk .select [("expressions", .nodes [Node.number "1"]), ("from", .node (Node.wrap .from item)),
    ("where", .node (Node.wrap .where condition))]

/-- A join that only tests for partners: `SELECT * FROM left WHERE [NOT] EXISTS (…)`. -/
def semiJoinResult (condition : Expr) (type : JoinType) (correlations : List String) (rel : Rel)
    (left right : Result) : ConvertM Result := do
  registerCorrelations correlations left.aliases
  let on ← conditionNode env sub left.qualifiedContext right.qualifiedContext condition
  let select ← if left.neededAlias.isNone then left.asSelect env else left.subSelect env
  let test := Node.wrap .exists (existenceQuery (← right.asFrom) on)
  let test := if type == .anti then Node.not test else test
  let test := match select.condition? "where" with
    | some existing => Node.and [existing, test]
    | none => test
  let filtered := select.set "where" (some (.node (Node.wrap .where test)))
  makeResult env filtered [.from, .where] rel none

/-- The node kind of a set operator. -/
def setKind : SetOperator → Kind
  | .union => .union
  | .intersect => .intersect
  | .except => .except

/-- A set operation on queries, from left to right. -/
def setOpResult (op : SetOperator) (all : Bool) (rel : Rel) (selects : List Node) :
    ConvertM Result := do
  match selects with
  | [] => throw (.tooFewInputs op.toText)
  | first :: rest =>
    let n := rest.foldl (fun u n => Node.setOperation (setKind op) u n !all) first
    makeResult env n [.setOp] rel none

/-- A table function whose arguments may be whole inputs. -/
def tableFunctionResult (call : Expr) (rel : Rel) (selects : List Node) : ConvertM Result := do
  let n ← scalarNode env sub (.tableFunction selects) call
  makeResult env (Node.selectFrom (Node.wrap .tableFunction n)) [.select] rel none

/-! ## Plans -/

mutual

/-- The query for a plan; `root` says that nothing is above it. -/
def relationResult (root : Bool) : Rel → ConvertM Result
  | .scan table fields => scanResult env table (.scan table fields)
  | .filter input condition correlations => do
    let x ← relationResult false input
    filterResult env sub input condition correlations (.filter input condition correlations) x
  | .project input projects names distinct correlations => do
    let x ← relationResult false input
    projectResult env sub input projects distinct correlations
      (.project input projects names distinct correlations) x
  | .aggregate input groupSet sets calls => do
    let x ← relationResult false input
    aggregateResult env groupSet sets calls (.aggregate input groupSet sets calls) x
  | .join left right condition type correlations => do
    let l ← relationResult false left
    let r ← relationResult false right
    let rel := Rel.join left right condition type correlations
    if type.keepsLeftOnly then
      semiJoinResult env sub condition type correlations rel l.resetAlias r.resetAlias
    else joinResult env sub condition type correlations rel l.resetAlias r.resetAlias
  | .setOp op all inputs => do
    setOpResult env op all (.setOp op all inputs) (← relationSelects inputs)
  | .sort input collation offset fetch => do
    let x ← relationResult false input
    sortResult env sub root collation offset fetch (.sort input collation offset fetch) x
  | .window input groups constants names => do
    let x ← relationResult false input
    windowResult env sub input groups constants (.window input groups constants names) x
  | .tableFunction inputs call fields => do
    tableFunctionResult env sub call (.tableFunction inputs call fields) (← relationSelects inputs)
  | .values fields tuples => valuesResult env fields tuples (.values fields tuples)
  | .rowPattern input spec => do
    let x ← relationResult false input
    rowPatternResult env sub spec (.rowPattern input spec) x

/-- The queries for several plans, each with a select list. -/
def relationSelects : List Rel → ConvertM (List Node)
  | [] => return []
  | rel :: rels => do
    let x ← relationResult false rel
    let select ← x.asSelect env
    return select :: (← relationSelects rels)

end

end

/-! ## Sub-queries -/

/-- The query for a plan inside an expression; sub-queries below it may be nested `depth` deep. -/
def queryAt (env : Env) (depth : Nat) (root : Bool) (rel : Rel) : ConvertM Node := do
  let x ← match depth with
    | 0 => relationResult env (fun _ => pure Node.null) root rel
    | depth + 1 => relationResult env (queryAt env depth false) root rel
  x.asQuery env

/-- The result for a whole plan.  The plan's own depth bounds the rounds, so no sub-query meets the
last one. -/
def planResult (env : Env) (rel : Rel) : ConvertM Result :=
  relationResult env (queryAt env rel.queryDepth false) true rel

/-- The query for a whole plan inside an expression. -/
def planQuery (env : Env) (rel : Rel) : ConvertM Node :=
  queryAt env rel.queryDepth true rel

end AlgebraSql.Convert
