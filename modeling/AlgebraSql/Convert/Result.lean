import AlgebraSql.Convert.State
import AlgebraSql.Convert.Wrapping

/-!
# Results — the query for a relation, and what a parent needs to build on it.

A `Result` holds the query for a relation, the clauses it uses, the name by which it must be
referred to, and the named inputs through which the fields of the relation are found.  A parent
announces the clauses it wants to add and gets a `Builder`: either the same query, open for these
clauses, or a new query over the old one.  A builder refuses clauses that were not announced.
-/

namespace AlgebraSql.Convert

open Sql

/-- The query for a relation. -/
structure Result where
  node : Node
  clauses : List Clause
  /-- The name by which the query must be referred to, if its own name does not do. -/
  neededAlias : Option String
  /-- The columns of the query as SQL sees them. -/
  fields : RowType
  aliases : Aliases
  /-- The clauses that a parent wants to add. -/
  expected : List Clause := []
  /-- The parent adds its clauses whatever clauses there are. -/
  ignoreClauses : Bool := false

/-- A query that is being extended. -/
structure Builder where
  rel : Rel
  clauses : List Clause
  select : Node
  context : Context
  aliases : Option Aliases

/-! ## Making results -/

/-- The table that a relation reads directly. -/
def tableOf : Rel → Option (List String)
  | .scan table _ => some table
  | .filter (.scan table _) _ _ => some table
  | .project (.scan table _) _ _ _ _ => some table
  | _ => none

/-- The name with which columns of a relation could be confused. -/
def tableNameOf (aliasName : String) (rel : Rel) : String :=
  ((tableOf rel).bind (·.getLast?)).getD aliasName

mutual

/-- The leftmost query of nested set operations. -/
def leftmost : Node → Option Node
  | .mk kind args => if kind.isSetOperation then leftmostOf args else some (.mk kind args)

/-- The leftmost query of the first branch among arguments. -/
def leftmostOf : List (String × Arg) → Option Node
  | [] => none
  | (key, .node n) :: rest => if key = "this" then leftmost n else leftmostOf rest
  | (key, .nodes _) :: rest => if key = "this" then none else leftmostOf rest
  | (key, .text _) :: rest => if key = "this" then none else leftmostOf rest
  | (key, .number _) :: rest => if key = "this" then none else leftmostOf rest
  | (key, .flag _) :: rest => if key = "this" then none else leftmostOf rest
  | (key, .missing) :: rest => if key = "this" then none else leftmostOf rest

end

/-- The column names that a query declares: those of its select list or of its alias. -/
def declaredNames (fields : RowType) (n : Node) : List (Option String) :=
  match n.is .select, n.selectList? with
  | true, some items =>
    items.zipIdx.map fun (item, i) => item.aliasOf?.or (fields[i]?.map (·.name))
  | _, _ => n.aliasColumns.map some

/-- The columns of a relation under the names that its query declares for them. -/
def declaredFields (rel : Rel) (n : Node) : RowType :=
  match leftmost n with
  | none => rel.fields
  | some n =>
    let names := declaredNames rel.fields n
    if names.length = rel.fields.length then
      List.zipWith (fun f name => { f with name := name.getD f.name }) rel.fields names
    else rel.fields

/-- Records a query for a relation under a fresh name.  The query must be referred to by that name
unless the dialect lets its own name do. -/
def makeResult (env : Env) (n : Node) (clauses : List Clause) (rel : Rel)
    (aliases : Option Aliases) : ConvertM Result := do
  let own := n.aliasOf?
  let name ← freshName (own.getD "t")
  let fields := declaredFields rel n
  modify fun s =>
    { s with tableNamedAsColumn := fields.any (·.name == tableNameOf name rel) }
  let qualify := env.mustQualify (← get)
  match aliases with
  | some (a :: as) =>
    if qualify || !as.isEmpty then
      return { node := n, clauses, neededAlias := some name, fields, aliases := a :: as }
  | _ => pure ()
  let needed := own != some name || qualify
  return { node := n, clauses, neededAlias := if needed then some name else none, fields
           aliases := [(name, fields)] }

/-- The named inputs of a result as part of a join. -/
def Result.joinAliases (r : Result) : Aliases :=
  match r.neededAlias with
  | some aliasName => [(aliasName, r.fields)]
  | none => r.aliases

/-- Records the join of two results, whose named inputs follow each other. -/
def makeJoinResult (env : Env) (join : Node) (left right : Result) (rel : Rel) :
    ConvertM Result :=
  makeResult env join [.from] rel
    (some ((OrderedMap.putAll [] left.joinAliases).putAll right.joinAliases))

/-! ## Reading from a node -/

/-- A node in FROM needs an alias that it does not have. -/
def lacksAlias (env : Env) (s : State) (n : Node) : Bool :=
  env.dialect.capabilities.fromAliasRequired
    && match n.kind with
       | .table => !n.hasAlias && env.mustQualify s
       | .join => false
       | _ => !n.hasAlias

/-- `SELECT * FROM n`, where a query is put in parentheses and gets an alias if the dialect wants
one. -/
def wrapSelect (env : Env) (n : Node) : ConvertM Node := do
  let item := if n.isQuery && !(n.is .values && n.hasAlias) then Node.subquery n else n
  if lacksAlias env (← get) n then
    let aliasName ← freshName "t"
    return Node.selectFrom (← item.asFromItem aliasName)
  return Node.selectFrom item

/-- An item of a select list under the name of its column. -/
def namedItem (n : Node) (name : String) : Node :=
  if n.aliasOf? == some name then n else Node.aliased n name

/-- Adds an item to a select list under the name of the next column. -/
def addSelect (items : List Node) (n : Node) (fields : RowType) : Except Error (List Node) :=
  match fields[items.length]? with
  | some f => .ok (items ++ [namedItem n f.name])
  | none => .error (.selectItemBeyondType items.length)

/-- Adds several items to a select list. -/
def addSelects (fields : RowType) (items : List Node) (ns : List Node) :
    Except Error (List Node) :=
  ns.foldlM (fun items n => addSelect items n fields) items

namespace Result

/-! ## Using results -/

/-- The result with what a parent is about to add. -/
def expecting (r : Result) (expected : List Clause) (ignoreClauses : Bool := false) : Result :=
  { r with expected := expected.eraseDups, ignoreClauses }

/-- The result with the name by which it must be referred to as its only input. -/
def resetAlias (r : Result) : Result :=
  match r.neededAlias with
  | some aliasName => { r with aliases := [(aliasName, r.fields)] }
  | none => r

/-- The query as a FROM item, under the name it needs. -/
def asFrom (r : Result) : Except Error Node :=
  match r.neededAlias with
  | some aliasName => r.node.asFromItem aliasName
  | none => .ok r.node

/-- A new query that reads from the result. -/
def subSelect (env : Env) (r : Result) : ConvertM Node := do
  wrapSelect env (← r.asFrom)

/-- The result as a query with a select list. -/
def asSelect (env : Env) (r : Result) : ConvertM Node := do
  if r.node.is .select then return r.node
  if env.mustQualify (← get) then r.subSelect env else wrapSelect env r.node

/-- The result as a statement; a set operation is one as it is. -/
def asStatement (env : Env) (r : Result) : ConvertM Node := do
  if r.node.isSetOperation then return r.node
  r.asSelect env

/-- The result as a query inside an expression; constant rows without a name are one as they are. -/
def asQuery (env : Env) (r : Result) : ConvertM Node := do
  if r.node.isSetOperation then return r.node
  if r.node.is .values && !r.node.hasAlias then return r.node
  r.asSelect env

/-- A context in which all fields are qualified. -/
def qualifiedContext (r : Result) : Context := .aliases r.aliases true

/-! ## Extending results -/

/-- The columns of the first input of a relation. -/
def firstInputFields (rel : Rel) : Except Error RowType :=
  match rel.inputs with
  | input :: _ => .ok input.fields
  | [] => .error (.noInputs rel.operatorName)

/-- The result has to become a sub-query before the relation can add its clauses. -/
def mustWrap (env : Env) (r : Result) (rel : Rel) : Bool :=
  needsWrapping
    { node := r.node, rel, clauses := r.clauses
      expected := if r.ignoreClauses then [] else r.expected
      capabilities := env.dialect.capabilities }

/-- The context of a query with a select list. -/
def itemContext (env : Env) (r : Result) (rel : Rel) (items : List Node) : Context :=
  let capabilities := env.dialect.capabilities
  let sorts := match rel with
    | .sort .. => capabilities.sortByAlias
    | _ => false
  .selectList items ((r.expected.contains .having && capabilities.havingAlias) || sorts)
    (r.expected.contains .groupBy && capabilities.groupByAlias)

/-- The name that a wrapped result needs although its named inputs are others. -/
def newAlias? (r : Result) (wrapped : Bool) : Option String :=
  match r.neededAlias with
  | some aliasName =>
    if wrapped && (r.aliases.length != 1 || !r.aliases.has aliasName) then some aliasName else none
  | none => none

/-- Opens the result for the clauses of a relation. -/
def builder (env : Env) (r : Result) (rel : Rel) : ConvertM Builder := do
  let wrapped := r.mustWrap env rel
  let select ← if wrapped then r.subSelect env else r.asSelect env
  let clauses := if wrapped then r.expected else r.clauses ++ r.expected
  match select.selectList?, r.newAlias? wrapped with
  | some items, _ =>
    return { rel, clauses, select, context := r.itemContext env rel items
             aliases := some r.aliases }
  | none, some aliasName =>
    let inputs : Aliases := [(aliasName, ← firstInputFields rel)]
    let qualified := env.mustQualify (← get) || r.aliases.length > 1
    return { rel, clauses, select, context := .aliases inputs qualified
             aliases := some (if r.aliases.has aliasName then r.aliases else inputs) }
  | none, none =>
    let qualified := env.mustQualify (← get) || r.aliases.length > 1
    return { rel, clauses, select, context := .aliases r.aliases qualified
             aliases := some r.aliases }

end Result

namespace Builder

/-! ## Adding clauses -/

/-- Gives the query a select list. -/
def setSelect (b : Builder) (items : List Node) : Builder :=
  { b with select := b.select.set "expressions" (some (.nodes items)) }

/-- Makes the rows of the query distinct. -/
def setDistinct (b : Builder) : Builder :=
  { b with select := b.select.set "distinct" (some (.flag true)) }

/-- Puts a clause into the query that was announced. -/
def put (b : Builder) (clause : Clause) (key : String) (n : Node) : Except Error Builder :=
  if b.clauses.contains clause then .ok { b with select := b.select.set key (some (.node n)) }
  else .error (.undeclaredClause clause b.rel.operatorName)

def setWhere (b : Builder) (condition : Node) : Except Error Builder :=
  b.put .where "where" (Node.wrap .where condition)

def setGroupBy (b : Builder) (items : List Node) : Except Error Builder :=
  b.put .groupBy "group" (.mk .group [("expressions", .nodes items)])

def setHaving (b : Builder) (condition : Node) : Except Error Builder :=
  b.put .having "having" (Node.wrap .having condition)

def setQualify (b : Builder) (condition : Node) : Except Error Builder :=
  b.put .qualify "qualify" (Node.wrap .qualify condition)

def setOrderBy (b : Builder) (items : List Node) : Except Error Builder :=
  b.put .orderBy "order" (Node.order items)

def setFetch (b : Builder) (count : Node) : Except Error Builder :=
  b.put .fetch "limit" (Node.wrap .limit count)

def setOffset (b : Builder) (count : Node) : Except Error Builder :=
  b.put .offset "offset" (Node.wrap .offset count)

/-- A condition together with the one that a clause of the query already has. -/
def alongside (b : Builder) (key : String) (condition : Node) : Node :=
  match b.select.condition? key with
  | some existing => Node.and [existing, condition]
  | none => condition

/-- Records the extended query for its relation. -/
def result (env : Env) (b : Builder) : ConvertM Result :=
  makeResult env b.select b.clauses b.rel b.aliases

end Builder

end AlgebraSql.Convert
