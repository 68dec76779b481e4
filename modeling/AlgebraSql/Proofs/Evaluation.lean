import AlgebraSql.Proofs.Datum
import AlgebraSql.Proofs.Scope

/-!
# Evaluation — the rows of a query.

A node of a statement has a meaning as an expression, as a FROM item and as a query.  Which column a
name stands for is found before any row is read, so a meaning may be missing: a name that finds
nothing or too much, a windowed call where none is allowed, branches of different widths.  Truth
values, comparisons, numbers and case distinctions are those of SQL; what other operations and
aggregate functions compute is left to an engine, which is given the operation and the values of its
operands.  Operations compute the same from the same operands each time.

The clauses of a query are evaluated in the order FROM, WHERE, GROUP BY, HAVING, windowed calls,
QUALIFY, DISTINCT, ORDER BY, OFFSET and FETCH.
-/

namespace AlgebraSql.Sql

/-! ## What expressions are evaluated for -/

/-- What the columns of a query show, and the rows that its aggregate functions run over. -/
structure Level where
  row : Row
  group : List Row

/-- A level of a query and those of the queries around it, the innermost first. -/
abbrev Focus := List Level

namespace Focus

/-- The row that the columns of the innermost query show. -/
def row (f : Focus) : Row := (f.head?.map (·.row)).getD []

/-- The rows that the aggregate functions of the innermost query run over. -/
def group (f : Focus) : List Row := (f.head?.map (·.group)).getD []

/-- A row of the innermost query by itself. -/
def onRow (f : Focus) (row : Row) : Focus := ⟨row, [row]⟩ :: f.tail

/-- The same row beside another group. -/
def withGroup (f : Focus) (group : List Row) : Focus := ⟨f.row, group⟩ :: f.tail

/-- The columns of a query of a width, with further ones behind them. -/
def extend (f : Focus) (width : Nat) (more : Row) : Focus :=
  ⟨(List.range width).map (fun i => f.row.getD i .null) ++ more, f.group⟩ :: f.tail

/-- A level without rows in front: what stands beside a query is computed there. -/
def beside (f : Focus) : Focus := ⟨[], []⟩ :: f

@[simp] theorem row_cons (l : Level) (f : Focus) : row (l :: f) = l.row := rfl
@[simp] theorem group_cons (l : Level) (f : Focus) : group (l :: f) = l.group := rfl
@[simp] theorem onRow_cons (l : Level) (f : Focus) (row : Row) : onRow (l :: f) row = ⟨row, [row]⟩ :: f := rfl

end Focus

/-- One of the groups of a query; windowed calls see all of them. -/
structure Spot where
  all : List Focus
  place : Nat

namespace Spot

def focus (s : Spot) : Focus := s.all.getD s.place []

/-- Each of the groups of a query. -/
def each (all : List Focus) : List Spot := (List.range all.length).map fun place => ⟨all, place⟩

/-- The groups of a query are what its spots show. -/
theorem map_focus_each (all : List Focus) : (each all).map focus = all := by
  refine List.ext_getElem (by simp [each]) fun i hi hi' => ?_
  simp [each, focus, List.getD_eq_getElem?_getD, hi']

end Spot

/-! ## Names -/

/-- What a column name with or without qualifier stands for, if it stands for one thing. -/
abbrev Names := Option String → String → Option (Focus → Datum)

/-- All columns of a frame with the names of their items, from left to right. -/
def Frame.cells (F : Frame) : List (String × String) := F.flatMap fun item => item.2.map fun c => (item.1, c)

/-- The places of the columns that a name may stand for. -/
def Frame.places (F : Frame) (qualifier : Option String) (name : String) : List Nat :=
  (F.cells.zipIdx.filter fun p => p.1.2 == name && qualifier.all (· == p.1.1)).map (·.2)

namespace Names

/-- No name stands for anything. -/
def none : Names := fun _ _ => Option.none

/-- The names of a FROM clause; one that is not among them is looked up around the query. -/
def within (F : Frame) (outer : Names) : Names := fun qualifier name =>
  match F.places qualifier name with
  | [place] => some fun f => f.row.getD place .null
  | [] => (outer qualifier name).map fun v f => v f.tail
  | _ => Option.none

/-- The names around a query, for what stands beside its rows. -/
def beside (outer : Names) : Names := within [] outer

/-- The place of the only item of a name. -/
def itemPlace? (items : List String) (qualifier : Option String) (name : String) : Option Nat :=
  match qualifier, (items.zipIdx.filter (·.1 == name)).map (·.2) with
  | .none, [place] => some place
  | _, _ => Option.none

/-- The names of select items before all others. -/
def itemsFirst (items : List String) (values : Nat → Option (Focus → Datum)) (names : Names) :
    Names := fun qualifier name =>
  match itemPlace? items qualifier name with
  | some place => values place
  | Option.none => names qualifier name

/-- The names of select items behind those of a FROM clause. -/
def itemsBehind (F : Frame) (items : List String) (values : Nat → Option (Focus → Datum))
    (names : Names) : Names := fun qualifier name =>
  if F.places qualifier name = [] then itemsFirst items values names qualifier name
  else names qualifier name

end Names

/-! ## Engines and databases -/

/-- An argument without the nodes in it, of which only the number is left. -/
def Arg.bare : Arg → Arg
  | .node _ => .node Node.null
  | .nodes ns => .nodes (ns.map fun _ => Node.null)
  | a => a

/-- A node without its children. -/
def Node.bare (n : Node) : Node := .mk n.kind (n.args.map fun p => (p.1, p.2.bare))

/-- What a database computes where SQL leaves it to functions, and how it reads names. -/
structure Engine where
  /-- An operation on the values of its operands. -/
  operation : Node → List (List Datum) → Datum
  /-- An aggregate function on the values of its operands for each row. -/
  aggregate : Node → List (List (List Datum)) → Datum
  /-- A windowed call, from the values of its parts for each group, for one of the groups. -/
  window : Node → List (List (List Datum)) → Nat → Datum
  /-- The order of sort keys. -/
  precedes : List Datum → List Datum → Bool
  /-- The groups of rows with their keys where GROUP BY has other than plain items. -/
  regroup : Node → List (List Datum × Row) → List Level
  /-- GROUP BY may name a select item. -/
  groupByAlias : Bool
  /-- HAVING may name a select item. -/
  havingAlias : Bool

/-- The columns of the tables of a database, and their rows. -/
structure Database where
  schema : Schema
  rows : List String → List Row
  width : ∀ path, ∀ row ∈ rows path, row.length = (schema path).length

/-! ## Lists of rows -/

/-- The elements with keys that no element before them has. -/
def firsts {α β : Type} [DecidableEq β] (key : α → β) : List α → List α
  | [] => []
  | a :: as => a :: (firsts key as).filter fun b => key b ≠ key a

/-- Rows together under the values that they have in common. -/
def groupsBy (key : Row → List Datum) (rows : List Row) : List Level :=
  (firsts key rows).map fun row => ⟨row, rows.filter fun other => key other = key row⟩

/-- Elements in the order of their keys. -/
def arrange {α : Type} (E : Engine) (keyed : List (List Datum × α)) : List α :=
  (keyed.mergeSort fun a b => E.precedes a.1 b.1).map (·.2)

/-- The count that a limit stands for. -/
def count? : Datum → Option Nat
  | .number q => some q.floor.toNat
  | _ => none

/-- Elements behind some, and only so many of them. -/
def limited {α : Type} (limit offset : Option Datum) (as : List α) : List α :=
  let rest := match offset.bind count? with
    | some n => as.drop n
    | none => as
  match limit.bind count? with
  | some n => rest.take n
  | none => rest

namespace Node

/-! ## Operations -/

/-- The only value of an expression. -/
def single (values : List Datum) : Datum := values.headD .null

/-- A condition holds if it is true, not only if it is not false. -/
def holds (values : List Datum) : Bool := single values == .bool true

/-- A case distinction from the values of its parts. -/
def caseValue (n : Node) (values : List Datum) : Datum :=
  let (subject, values) :=
    if (n.arg? "this").isSome then (values.head?, values.tail) else (none, values)
  if (n.arg? "default").isSome then Datum.caseOf subject (values.getLastD .null) values.dropLast
  else Datum.caseOf subject .null values

/-- The comparison that a kind stands for. -/
def comparison? : Kind → Option (Ordering → Bool)
  | .eq => some (· == .eq)
  | .neq => some (· != .eq)
  | .gt => some (· == .gt)
  | .gte => some (· != .lt)
  | .lt => some (· == .lt)
  | .lte => some (· != .gt)
  | _ => none

/-- A truth value of an argument, missing if there is no argument. -/
def flagDatum (n : Node) (key : String) : Datum :=
  match (n.arg? key).bind (·.flag?) with
  | some b => .bool b
  | none => .null

/-- The values of a node that computes something from the values of its children. -/
def operate (E : Engine) (n : Node) (operands : List (List Datum)) : List Datum :=
  match n.kind, operands with
  | .tuple, _ | .branch, _ | .group, _ | .order, _ | .rollup, _ | .cube, _ | .groupingSets, _ =>
    operands.flatten
  | .ordered, _ => operands.flatten ++ [n.flagDatum "desc", n.flagDatum "nulls_first"]
  | .null, _ => [.null]
  | .boolean, _ => [.bool (n.flag "this")]
  | .literal, _ => [if n.isString then .text (n.text "this") else Datum.ofDigits (n.text "this")]
  | .aliased, v :: _ => v
  | .where, v :: _ | .having, v :: _ | .qualify, v :: _ | .limit, v :: _ | .offset, v :: _ => v
  | .and, [[a], [b]] => [a.and b]
  | .or, [[a], [b]] => [a.or b]
  | .not, [[a]] => [a.not]
  | .is, [[a], [b]] => [a.isTest b (n.flag "negated")]
  | .isDistinctFrom, [[a], [b]] => [a.isTest b !n.flag "negated"]
  | .add, [[a], [b]] => [a.arithmetic (· + ·) b]
  | .sub, [[a], [b]] => [a.arithmetic (· - ·) b]
  | .mul, [[a], [b]] => [a.arithmetic (· * ·) b]
  | .case, _ => [n.caseValue operands.flatten]
  | .cast, [.null] :: _ => [.null]
  | kind, [[a], [b]] =>
    match comparison? kind with
    | some test => [a.compare test b]
    | none => [E.operation n operands]
  | _, _ => [E.operation n operands]

/-- How a node gets its values. -/
inductive Manner where
  | operation | column | aggregate | filter | withinGroup | window | query | exists | membership
  deriving DecidableEq

/-- How a node gets its values. -/
def manner (n : Node) : Manner :=
  match n.kind with
  | .column => .column
  | .aggregate => .aggregate
  | .filter => .filter
  | .withinGroup => .withinGroup
  | .window => .window
  | .select | .setOperation | .union | .intersect | .except | .subquery | .values => .query
  | .exists => .exists
  | .in => if (n.arg? "query").isSome then .membership else .operation
  | _ => .operation

/-! ## Aggregate calls -/

/-- Whether aggregate functions are called in an expression, and whether in its children. -/
structure Calls where
  inside : Bool
  below : Bool

/-- The calls of a node from those of its children: a windowed call is none, and a query has its
own. -/
def callsStep (kind : Kind) (args : Args) (parts : OrderedMap (List Calls)) : Calls :=
  let below := parts.any fun p => p.2.any (·.inside)
  match (mk kind args).manner with
  | .aggregate => ⟨true, below⟩
  | .window => ⟨parts.any fun p => p.2.any fun c => if p.1 = "this" then c.below else c.inside, below⟩
  | .query | .exists => ⟨false, below⟩
  | .membership => ⟨parts.any fun p => p.1 = "this" && p.2.any (·.inside), below⟩
  | _ => ⟨below, below⟩

/-- **`aggregates`** — an aggregate function is called in an expression, outside of windowed calls
and queries. -/
def aggregates (n : Node) : Bool := (n.fold callsStep).inside

/-- The rows of a query are grouped: by keys, or because an aggregate function is called. -/
def isGrouped (n : Node) : Bool :=
  (n.child? "group").isSome || (n.child? "having").isSome || (n.list "expressions").any aggregates
    || ((n.child? "qualify").any aggregates || (n.child? "order").any aggregates)

/-! ## Stages -/

/-- The clauses of a query up to its groups, ready to be evaluated. -/
structure Grouping where
  source : Focus → List Row
  condition : Focus → List Datum
  levels : Focus → List Row → List Level

namespace Grouping

/-- The rows of the FROM clause on which WHERE holds. -/
def tuples (g : Grouping) (outer : Focus) : List Row :=
  (g.source outer).filter fun row => holds (g.condition (⟨row, [row]⟩ :: outer))

/-- The groups of the rows. -/
def run (g : Grouping) (outer : Focus) : List Level := g.levels outer (g.tuples outer)

end Grouping

/-- The clauses of a query, ready to be evaluated. -/
structure Stages extends Grouping where
  having : Focus → List Datum
  qualify : Spot → List Datum
  output : Spot → Row
  distinct : Bool
  /-- Sort keys see the columns of the output behind those of the FROM clause. -/
  order : Option (Spot → List Datum)
  limit : Focus → Option Datum
  offset : Focus → Option Datum
  /-- The number of columns of the FROM clause. -/
  width : Nat

namespace Stages

/-- The groups on which HAVING holds. -/
def groups (st : Stages) (outer : Focus) : List Focus :=
  ((st.toGrouping.run outer).map (· :: outer)).filter fun f => holds (st.having f)

/-- The groups on which QUALIFY holds, with their output. -/
def shown (st : Stages) (outer : Focus) : List (Focus × Row) :=
  ((Spot.each (st.groups outer)).filter fun s => holds (st.qualify s)).map fun s =>
    (s.focus, st.output s)

/-- The output in the order of sort keys. -/
def arranged (E : Engine) (st : Stages) (out : List (Focus × Row)) : List (Focus × Row) :=
  match st.order with
  | some key =>
    let all := out.map fun p => p.1.extend st.width p.2
    arrange E (out.zipIdx.map fun p => (key ⟨all, p.2⟩, p.1))
  | none => out

/-- **`run`** — the rows of a query. -/
def run (E : Engine) (st : Stages) (outer : Focus) : List Row :=
  let out := st.shown outer
  let out := if st.distinct then firsts (·.2) out else out
  (limited (st.limit outer) (st.offset outer) (st.arranged E out)).map (·.2)

end Stages

/-! ## Meanings -/

/-- What a node means, if the names in it stand for something. -/
structure Meaning where
  /-- Its values as an expression without windowed calls. -/
  scalar : Names → Option (Focus → List Datum)
  /-- Its values as an expression. -/
  analytic : Names → Option (Spot → List Datum)
  /-- The values of its children. -/
  operands : Names → Option (Spot → List (List Datum))
  /-- Its values as ORDER BY of a query with so many columns. -/
  keys : Nat → Names → Option (Spot → List Datum)
  /-- The rows of a FROM item. -/
  tuples : Names → Option (Focus → List Row)
  /-- The rows of a query. -/
  rows : Names → Option (Focus → List Row)

/-- A node without meaning. -/
def Meaning.missing : Meaning :=
  ⟨fun _ => none, fun _ => none, fun _ => none, fun _ _ => none, fun _ => none, fun _ => none⟩

instance : Inhabited Meaning := ⟨Meaning.missing⟩

/-- The meanings of the nodes under each name. -/
abbrev Parts := OrderedMap (List Meaning)

/-- The meanings of the nodes under a name. -/
def Parts.several (parts : Parts) (key : String) : List Meaning := (parts.get? key).getD []

/-- The meaning of the node under a name. -/
def Parts.only (parts : Parts) (key : String) : Meaning := (parts.several key).headD .missing

/-- All meanings, from left to right. -/
def Parts.flat (parts : Parts) : List Meaning := parts.flatMap (·.2)

/-- Several values, if each of them is there. -/
def together {α β : Type} : List (Option (α → β)) → Option (α → List β)
  | [] => some fun _ => []
  | some v :: vs => (together vs).map fun vs a => v a :: vs a
  | none :: _ => none

section

variable (E : Engine) (db : Database)

/-! ### Queries -/

/-- The values of a clause that is a condition; a clause that is not there always holds. -/
def conditionOf {α : Type} (n : Node) (key : String) (values : Option (α → List Datum)) :
    Option (α → List Datum) :=
  if (n.child? key).isSome then values else some fun _ => [.bool true]

/-- The rows that a query reads; without FROM it is one row without columns. -/
def sourceOf (n : Node) (rows : Option (Focus → List Row)) : Option (Focus → List Row) :=
  if (n.child? "from").isSome then rows else some fun _ => [[]]

/-- The value of a limit. -/
def limitOf (n : Node) (key : String) (values : Option (Focus → List Datum)) :
    Option (Focus → Option Datum) :=
  if (n.child? key).isSome then values.map fun v f => some (single (v f.beside))
  else some fun _ => none

/-- The names of the items of a select list; a star has none. -/
def itemNames (n : Node) : List String := (n.list "expressions").map outputName

/-- The value of the select item at a place, outside of windowed calls. -/
def itemValue (items : List Meaning) (names : Names) (place : Nat) : Option (Focus → Datum) :=
  (items[place]?).bind fun m => (m.scalar names).map fun v f => single (v f)

/-- A grouping item that stands for several sets of keys. -/
def isFamily (n : Node) : Bool := n.is .rollup || n.is .cube || n.is .groupingSets

/-- How the rows of a query are grouped. -/
def levelsOf (n : Node) (keys : Option (Focus → List Datum)) :
    Option (Focus → List Row → List Level) :=
  match n.child? "group" with
  | some g =>
    keys.map fun key outer rows =>
      if (g.list "expressions").any isFamily then
        E.regroup g (rows.map fun row => (key (⟨row, [row]⟩ :: outer), row))
      else if (g.list "expressions").isEmpty then [⟨rows.headD [], rows⟩]
      else groupsBy (fun row => key (⟨row, [row]⟩ :: outer)) rows
  | none =>
    if n.isGrouped then some fun _ rows => [⟨rows.headD [], rows⟩]
    else some fun _ rows => rows.map fun row => ⟨row, [row]⟩

/-- The output of a query: the items of its list, or all columns. -/
def outputOf (n : Node) (width : Nat) (items : List Meaning) (names : Names) :
    Option (Spot → Row) :=
  match n.list "expressions" with
  | [] => some fun s => (List.range width).map fun i => s.focus.row.getD i .null
  | _ => (together (items.map fun m => m.analytic names)).map fun vs s => (vs s).map single

/-- The position in the output that a sort key is. -/
def position? (n : Node) : Option Nat :=
  match n.this? with
  | some key => if key.is .literal && !key.isString then (key.text "this").toNat? else none
  | none => none

/-- The values of a sort key: of the output at its position, or its own. -/
def sortKeyOf (width : Nat) (names : Names) (key : Node) (m : Meaning) : Option (Spot → List Datum) :=
  match position? key with
  | some place => some fun s => operate E key.bare [[s.focus.row.getD (width + place - 1) .null]]
  | none => m.analytic names

/-- The values of sort keys, one after the other. -/
def sortKeysOf (width : Nat) (names : Names) (keys : List Node) (ms : List Meaning) :
    Option (Spot → List Datum) :=
  (together (List.zipWith (sortKeyOf E width names) keys ms)).map fun vs s => (vs s).flatten

/-- The sort keys of a query, if it has an order. -/
def orderOf (n : Node) (values : Option (Spot → List Datum)) : Option (Option (Spot → List Datum)) :=
  if (n.child? "order").isSome then values.map some else some none

/-- The clauses of a SELECT up to its groups. -/
def groupingOf (n : Node) (parts : Parts) (outer : Names) : Option Grouping := do
  let F := n.frame db.schema
  let names := Names.within F outer
  let source ← sourceOf n ((parts.only "from").tuples outer)
  let condition ← conditionOf n "where" ((parts.only "where").scalar names)
  let levels ← levelsOf E n ((parts.only "group").scalar (if E.groupByAlias then
    Names.itemsBehind F n.itemNames (itemValue (parts.several "expressions") names) names else names))
  return ⟨source, condition, levels⟩

/-- The clauses of a SELECT. -/
def stagesOf (n : Node) (parts : Parts) (outer : Names) : Option Stages := do
  let F := n.frame db.schema
  let width := F.cells.length
  let names := Names.within F outer
  let items := parts.several "expressions"
  let grouping ← groupingOf E db n parts outer
  let having ← conditionOf n "having" ((parts.only "having").scalar
    (if E.havingAlias then Names.itemsFirst n.itemNames (itemValue items names) names else names))
  let qualify ← conditionOf n "qualify" ((parts.only "qualify").analytic names)
  let output ← outputOf n width items names
  let order ← orderOf n ((parts.only "order").keys width (Names.itemsFirst n.itemNames
    (fun place => some fun f => f.row.getD (width + place) .null) names))
  let limit ← limitOf n "limit" ((parts.only "limit").scalar outer.beside)
  let offset ← limitOf n "offset" ((parts.only "offset").scalar outer.beside)
  return ⟨grouping, having, qualify, output, n.flag "distinct", order, limit, offset, width⟩

/-- The branches of a set operation have equally many columns. -/
def isLevel (n : Node) : Bool :=
  match n.child? "this", n.child? "expression" with
  | some left, some right =>
    (left.columns db.schema).length == (right.columns db.schema).length
  | _, _ => false

/-- The set operation of a kind. -/
def setOperator? : Kind → Option SetOperator
  | .union => some .union
  | .intersect => some .intersect
  | .except => some .except
  | _ => none

/-- The rows of a query. -/
def rowsStep (n : Node) (parts : Parts) (names : Names) : Option (Focus → List Row) :=
  match n.kind with
  | .select => (stagesOf E db n parts names).map (Stages.run E)
  | .values =>
    (together ((parts.several "expressions").map fun m => m.scalar names.beside)).map
      fun rows f => rows f.beside
  | .subquery => (parts.only "this").rows names
  | kind => do
    let op ← setOperator? kind
    let left ← (parts.only "this").rows names
    let right ← (parts.only "expression").rows names
    if n.isLevel db then some fun f => Row.combine op (n.flag "distinct") (left f) (right f) else none

/-! ### FROM items -/

/-- A row without values. -/
def nulls (width : Nat) : Row := List.replicate width .null

/-- Pairs of rows on which a condition holds, and rows without a partner on the sides that keep them. -/
def joinRows (left right : Bool) (leftWidth rightWidth : Nat) (matches? : Row → Row → Bool)
    (ls rs : List Row) : List Row :=
  (ls.flatMap fun l => (rs.filter (matches? l)).map (l ++ ·))
    ++ (if left then (ls.filter fun l => !rs.any (matches? l)).map (· ++ nulls rightWidth) else [])
    ++ (if right then (rs.filter fun r => !ls.any (matches? · r)).map (nulls leftWidth ++ ·) else [])

/-- The width of what a FROM item exposes. -/
def widthOf (n : Option Node) : Nat :=
  match n with
  | some n => (n.frame db.schema).cells.length
  | none => 0

/-- The rows of a FROM item. -/
def tuplesStep (n : Node) (parts : Parts) (names : Names) : Option (Focus → List Row) :=
  match n.kind with
  | .table => some fun _ => db.rows n.parts
  | .subquery | .values => rowsStep E db n parts names
  | .from => (parts.only "this").tuples names
  | .join => do
    let left ← (parts.only "this").tuples names
    let right ← (parts.only "expression").tuples names
    let on ← conditionOf n "on" ((parts.only "on").scalar (Names.within (n.frame db.schema) names))
    let kind := n.text "kind"
    return fun f => joinRows (kind == "LEFT" || kind == "FULL") (kind == "RIGHT" || kind == "FULL")
      (widthOf db (n.child? "this")) (widthOf db (n.child? "expression"))
      (fun l r => holds (on (⟨l ++ r, [l ++ r]⟩ :: f))) (left f) (right f)
  | _ => none

/-! ### Expressions -/

/-- The qualifier of a column. -/
def qualifier? (n : Node) : Option String :=
  if (n.child? "table").isSome then some n.table else none

/-- The first value of the first row. -/
def firstValue (rows : List Row) : Datum := single (rows.headD [])

/-- The values of an expression without windowed calls. -/
def scalarStep (n : Node) (parts : Parts) (names : Names) : Option (Focus → List Datum) :=
  match n.manner with
  | .operation =>
    (together (parts.flat.map fun m => m.scalar names)).map fun vs f => operate E n.bare (vs f)
  | .column => (names n.qualifier? n.name).map fun v f => [v f]
  | .aggregate =>
    (together (parts.flat.map fun m => m.scalar names)).map fun vs f =>
      [E.aggregate n.bare (f.group.map fun row => vs (f.onRow row))]
  | .filter => do
    let call ← (parts.only "this").scalar names
    let condition ← (parts.only "expression").scalar names
    return fun f => call (f.withGroup (f.group.filter fun row => holds (condition (f.onRow row))))
  | .withinGroup => do
    let call ← (parts.only "this").scalar names
    let keys ← (parts.only "expression").scalar names
    return fun f =>
      call (f.withGroup (arrange E (f.group.map fun row => (keys (f.onRow row), row))))
  | .window => none
  | .query => (rowsStep E db n parts names).map fun rows f => [firstValue (rows f)]
  | .exists => ((parts.only "this").rows names).map fun rows f => [.bool !(rows f).isEmpty]
  | .membership => do
    let left ← (parts.only "this").scalar names
    let rows ← (parts.only "query").rows names
    return fun f => [Datum.member (n.flag "negated") (left f) (rows f)]

/-- The values of an expression: those that it has without windowed calls, or those of an operation
on windowed calls. -/
def analyticStep (n : Node) (parts : Parts) (names : Names) : Option (Spot → List Datum) :=
  match scalarStep E db n parts names with
  | some v => some fun s => v s.focus
  | none =>
    match n.manner with
    | .operation =>
      (together (parts.flat.map fun m => m.analytic names)).map fun vs s => operate E n.bare (vs s)
    | .window => do
      let operands ← (parts.only "this").operands names
      let rest ← together ((Parts.flat (parts.filter (·.1 != "this"))).map fun m => m.analytic names)
      return fun s =>
        [E.window n.bare ((Spot.each s.all).map fun t => operands t ++ rest t) s.place]
    | _ => none

/-- The meaning of a node from those of its children. -/
def meaningStep (kind : Kind) (args : Args) (parts : Parts) : Meaning where
  scalar := scalarStep E db (.mk kind args) parts
  analytic := analyticStep E db (.mk kind args) parts
  operands := fun names => together (parts.flat.map fun m => m.analytic names)
  keys := fun width names => sortKeysOf E width names ((mk kind args).list "expressions")
    (parts.several "expressions")
  tuples := tuplesStep E db (.mk kind args) parts
  rows := rowsStep E db (.mk kind args) parts

/-- **`meaning`** — what a node means. -/
def meaning (n : Node) : Meaning := n.fold (meaningStep E db)

/-- **`results`** — the rows of a statement, if every name in it stands for something. -/
def results (n : Node) : Option (List Row) := ((n.meaning E db).rows Names.none).map fun rows => rows []

end

/-! ## Equations -/

variable {E : Engine} {db : Database}

/-- The meanings of the children of a node. -/
def partsOf (E : Engine) (db : Database) (n : Node) : Parts := childValues (meaningStep E db) n.args

/-- **`meaning`** of a node from those of its children. -/
theorem meaning_eq (n : Node) : n.meaning E db = meaningStep E db n.kind n.args (n.partsOf E db) := by
  obtain ⟨kind, args⟩ := n
  rw [meaning, fold_mk]
  rfl

theorem only_partsOf {n c : Node} {key : String} (h : n.child? key = some c) :
    (n.partsOf E db).only key = c.meaning E db := by
  have harg : n.args.get? key = some (.node c) := (child?_eq_some_iff n key c).mp h
  simp [partsOf, Parts.only, Parts.several, get?_childValues, harg, Arg.children, meaning]

theorem several_partsOf {n : Node} {ns : List Node} {key : String} (h : n.list? key = some ns) :
    (n.partsOf E db).several key = ns.map (meaning E db) := by
  have harg : n.args.get? key = some (.nodes ns) := (list?_eq_some_iff n key ns).mp h
  simp only [partsOf, Parts.several, get?_childValues, harg, Arg.children]
  rfl

theorem flat_partsOf (n : Node) : (n.partsOf E db).flat = n.children.map (meaning E db) := by
  simp only [partsOf, Parts.flat, childValues, List.flatMap_map, children, List.map_flatMap]
  rfl

/-- The values of an expression without windowed calls. -/
def scalar (E : Engine) (db : Database) (names : Names) (n : Node) : Option (Focus → List Datum) :=
  (n.meaning E db).scalar names

/-- The values of an expression. -/
def analytic (E : Engine) (db : Database) (names : Names) (n : Node) : Option (Spot → List Datum) :=
  (n.meaning E db).analytic names

/-- The rows of a query in a scope. -/
def rows (E : Engine) (db : Database) (names : Names) (n : Node) : Option (Focus → List Row) :=
  (n.meaning E db).rows names

/-- The rows of a FROM item in a scope. -/
def tuples (E : Engine) (db : Database) (names : Names) (n : Node) : Option (Focus → List Row) :=
  (n.meaning E db).tuples names

variable {names : Names}

theorem scalar_eq (n : Node) : n.scalar E db names = scalarStep E db n (n.partsOf E db) names := by
  obtain ⟨kind, args⟩ := n
  rw [scalar, meaning_eq]
  rfl

theorem analytic_eq (n : Node) :
    n.analytic E db names = analyticStep E db n (n.partsOf E db) names := by
  obtain ⟨kind, args⟩ := n
  rw [analytic, meaning_eq]
  rfl

theorem rows_eq (n : Node) : n.rows E db names = rowsStep E db n (n.partsOf E db) names := by
  obtain ⟨kind, args⟩ := n
  rw [rows, meaning_eq]
  rfl

theorem tuples_eq (n : Node) : n.tuples E db names = tuplesStep E db n (n.partsOf E db) names := by
  obtain ⟨kind, args⟩ := n
  rw [tuples, meaning_eq]
  rfl

/-- The groups of a query by itself. -/
def groups (E : Engine) (db : Database) (n : Node) : Option (List Level) :=
  (groupingOf E db n (n.partsOf E db) Names.none).map fun g => g.run []

/-- The values of an operation come from those of its children. -/
theorem scalar_of_operation {n : Node} (hn : n.manner = .operation) :
    n.scalar E db names = (together (n.children.map (scalar E db names))).map
      fun vs f => operate E n.bare (vs f) := by
  rw [scalar_eq, scalarStep, hn, flat_partsOf, List.map_map]
  rfl

/-- A column has the value that its name stands for. -/
theorem scalar_of_column {n : Node} (hn : n.kind = .column) :
    n.scalar E db names = (names n.qualifier? n.name).map fun v f => [v f] := by
  have hmanner : n.manner = .column := by simp [manner, hn]
  rw [scalar_eq, scalarStep, hmanner]

/-- An expression without windowed calls has the same values everywhere. -/
theorem analytic_of_scalar {n : Node} {v : Focus → List Datum} (h : n.scalar E db names = some v) :
    n.analytic E db names = some fun s => v s.focus := by
  rw [scalar_eq] at h
  rw [analytic_eq, analyticStep, h]

/-- Values are missing if one of them is. -/
theorem together_eq_none {α β : Type} {vs : List (Option (α → β))} (h : none ∈ vs) :
    together vs = none := by
  induction vs with
  | nil => cases h
  | cons o vs ih =>
    cases o with
    | none => rfl
    | some v =>
      have hrest : none ∈ vs := by simpa using h
      simp [together, ih hrest]

theorem together_map {α β γ : Type} (g : γ → α) {vs : List (Option (α → β))} {v : α → List β}
    (h : together vs = some v) :
    together (vs.map fun o => o.map fun u c => u (g c)) = some fun c => v (g c) := by
  induction vs generalizing v with
  | nil =>
    cases h
    rfl
  | cons o vs ih =>
    cases o with
    | none => cases h
    | some u =>
      simp only [together, Option.map_eq_some_iff] at h
      obtain ⟨w, hw, rfl⟩ := h
      simp only [List.map_cons, Option.map_some, together, ih hw]

/-- Windowed calls or not, the values of an operation come from those of its children. -/
theorem analytic_of_operation {n : Node} (hn : n.manner = .operation) :
    n.analytic E db names = (together (n.children.map (analytic E db names))).map
      fun vs s => operate E n.bare (vs s) := by
  have hsplit : n.analytic E db names = match n.scalar E db names with
      | some v => some fun s => v s.focus
      | none => (together (n.children.map (analytic E db names))).map
        fun vs s => operate E n.bare (vs s) := by
    rw [analytic_eq, analyticStep, hn, scalar_eq, flat_partsOf, List.map_map]
    rfl
  rw [hsplit, scalar_of_operation hn]
  cases hvs : together (n.children.map (scalar E db names)) with
  | none => rfl
  | some vs =>
    have hsame : n.children.map (analytic E db names) = (n.children.map (scalar E db names)).map
        fun o => o.map fun u s => u (Spot.focus s) := by
      rw [List.map_map]
      refine List.map_congr_left fun c hc => ?_
      obtain ⟨u, hu⟩ : ∃ u, c.scalar E db names = some u := by
        have hmem : c.scalar E db names ∈ n.children.map (scalar E db names) := List.mem_map_of_mem hc
        cases hcv : c.scalar E db names with
        | some u => exact ⟨u, rfl⟩
        | none =>
          rw [hcv] at hmem
          exact absurd hvs (by rw [together_eq_none hmem]; simp)
      simp [analytic_of_scalar hu, hu]
    rw [hsame, together_map Spot.focus hvs]
    rfl

end Node
end AlgebraSql.Sql
