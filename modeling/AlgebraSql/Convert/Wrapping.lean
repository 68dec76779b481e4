import AlgebraSql.Algebra.Relation
import AlgebraSql.Dialect.Capabilities
import AlgebraSql.Sql.Walk

/-!
# Wrapping — when a query has to become a sub-query before its parent can go on.

A parent would like to add its clauses to the query of its input.  A list of rules is asked in
order, each of which decides the question or leaves it open; the first verdict counts, and without
one the parent may go on.
-/

namespace AlgebraSql.Convert

open Sql

/-- What the rules look at. -/
structure WrapCheck where
  /-- The query built for the input. -/
  node : Node
  /-- The relation that will add clauses. -/
  rel : Rel
  /-- The clauses that the query uses. -/
  clauses : List Clause
  /-- The clauses that will be added. -/
  expected : List Clause
  capabilities : Capabilities

namespace WrapCheck

/-! ## Looking at the query -/

/-- The select list of a query. -/
def itemsOf (n : Node) : Option (List Node) := if n.is .select then n.selectList? else none

/-- The select list of the query for the input. -/
def items? (c : WrapCheck) : Option (List Node) := itemsOf c.node

/-- The grouping items of the query for the input. -/
def groupBy? (c : WrapCheck) : Option (List Node) :=
  if c.node.is .select then c.node.groupBy? else none

/-- The immediate operands of a select item; those of a named item are its expression. -/
def itemOperands (item : Node) : List Node :=
  match item.kind with
  | .aliased => item.this?.toList
  | .column | .literal => []
  | _ => item.children

/-- A call of an aggregate function, with or without a clause behind it. -/
def isAggregateCall (n : Node) : Bool :=
  n.is .aggregate || ((n.is .filter || n.is .withinGroup) && n.this?.any (·.is .aggregate))

/-- A windowed call occurs in the scope of a node. -/
def containsWindow (n : Node) : Bool := n.inScope.any (·.is .window)

/-- A windowed call, or a case distinction with a windowed call in a condition. -/
def isWindowedOrCase (n : Node) : Bool :=
  n.is .window
    || (n.is .case
      && ((n.list "ifs").filter (·.is .branch)).any fun b => b.this?.any containsWindow)

/-- An operand of a select item that an aggregate call takes satisfies `p`. -/
def hasNested (c : WrapCheck) (calls : List AggregateCall) (p : Node → Bool) : Bool :=
  match c.items? with
  | none => false
  | some items =>
    (calls.flatMap (·.args)).any fun arg => (nth? items arg).any fun i => (itemOperands i).any p

/-- The names that a select list gives to its items. -/
def aliasNames (items : List Node) : List String :=
  (items.filter (·.is .aliased)).map (·.aliasName)

/-- A grouping item refers to a named select item that a projection drops. -/
def groupsByDropped (c : WrapCheck) : Bool :=
  match c.groupBy? with
  | none => false
  | some groupBy =>
    groupBy.any fun item =>
      let name := if item.table == "" then item.name else item.table
      item.is .column && (aliasNames (c.items?.getD [])).contains name
        && !c.rel.fields.names.contains name

/-- The names of projected expressions that use an aggregate of the query. -/
def aggregateNames (items : List Node) (projects : List Expr) (fields : RowType) : List String :=
  (projects.zip fields).filterMap fun (e, f) =>
    let usesAggregate :=
      e.inputRefs.any fun i => (nth? items i).any fun n => n.subnodes.any (·.is .aggregate)
    if usesAggregate then some f.name else none

/-- A grouping item has the name of a projected expression that uses an aggregate. -/
def groupsByAggregate (c : WrapCheck) (projects : List Expr) : Bool :=
  match c.groupBy? with
  | none => false
  | some groupBy =>
    let names := aggregateNames (c.items?.getD []) projects c.rel.fields
    groupBy.any fun item => item.is .column && item.table == "" && names.contains item.name

/-- A windowed call uses a select item with a windowed call. -/
def nestsWindows (c : WrapCheck) (projects : List Expr) : Bool :=
  match c.items? with
  | none => false
  | some items =>
    projects.any fun e =>
      (e.subterms.filter (·.isOver)).any fun call =>
        call.inputRefs.any fun i => (nth? items i).any containsWindow

/-- HAVING refers to a named item of a select list of names and columns. -/
def havingUsesAlias (c : WrapCheck) : Bool :=
  match c.items?, c.node.condition? "having" with
  | some items, some having =>
    items.all (fun i => i.is .aliased || i.is .column)
      && having.inScope.any fun n =>
        n.is .column && n.table == "" && (aliasNames items).contains n.name
  | _, _ => false

/-! ## Looking at the relation -/

/-- The expressions of a projection. -/
def projects? : Rel → Option (List Expr)
  | .project _ projects _ _ _ => some projects
  | _ => none

/-- The relation is a projection with a windowed call. -/
def projectsWindow (r : Rel) : Bool := (projects? r).any (·.any (·.containsOver))

/-- The select list of the query is its last clause. -/
def selectsLast (c : WrapCheck) : Bool := Clause.last? c.clauses == some .select

end WrapCheck

/-! ## Rules -/

/-- A rule: its verdict, or nothing to leave the question open. -/
abbrev WrapRule := WrapCheck → Option Bool

/-- The verdict that a query has to be wrapped, on a condition. -/
def wrapIf (b : Bool) : Option Bool := if b then some true else none

open WrapCheck

/-- A query without clauses takes any. -/
def noClausesYet : WrapRule := fun c =>
  if c.clauses.isEmpty then some false else none

/-- A filter over windowed calls becomes QUALIFY of the same query. -/
def qualifyOverWindow : WrapRule := fun c =>
  match c.rel with
  | .filter input condition _ =>
    if c.capabilities.qualify && projectsWindow input && !condition.containsOver
        && c.selectsLast then
      some false
    else none
  | _ => none

/-- Clauses are added in the order of evaluation. -/
def clauseOrder : WrapRule := fun c => wrapIf !(Clause.fit c.clauses c.expected)

/-- A new select list over SELECT DISTINCT would change which rows are distinct. -/
def distinctProjection : WrapRule := fun c =>
  match c.rel with
  | .project .. | .window .. => wrapIf (c.node.flag "distinct")
  | _ => none

/-- A projection must not bring an aggregate into GROUP BY. -/
def aggregateInGroupBy : WrapRule := fun c =>
  match c.rel with
  | .project (.aggregate ..) projects _ _ _ =>
    wrapIf (!c.capabilities.aggregateInGroupBy && c.groupsByAggregate projects)
  | _ => none

/-- A projection must not put a windowed call into another one. -/
def nestedWindow : WrapRule := fun c =>
  match c.rel with
  | .project _ projects _ _ _ => wrapIf (!c.capabilities.nestedWindows && c.nestsWindows projects)
  | _ => none

/-- An aggregation must not put an aggregate into another one. -/
def nestedAggregate : WrapRule := fun c =>
  match c.rel with
  | .aggregate _ _ _ calls =>
    wrapIf (!c.capabilities.nestedAggregates
      && c.hasNested calls fun n => isAggregateCall n || n.is .window)
  | _ => none

/-- A projection must not drop a name that GROUP BY uses. -/
def groupByNameDropped : WrapRule := fun c =>
  match c.rel with
  | .project .. =>
    wrapIf (c.clauses.contains .groupBy && c.capabilities.groupByAlias && c.groupsByDropped)
  | _ => none

/-- Grouping by the name of a windowed call needs the call computed first. -/
def groupByWindow : WrapRule := fun c =>
  match c.rel with
  | .aggregate (.project ..) groupSet _ _ =>
    wrapIf (c.capabilities.groupByAlias
      && groupSet.any fun key => (c.items?.bind (nth? · key)).any containsWindow)
  | _ => none

/-- An aggregation must not put a windowed call into an aggregate. -/
def windowInAggregate : WrapRule := fun c =>
  match c.rel with
  | .aggregate _ _ _ calls =>
    wrapIf (!c.capabilities.windowInAggregate && c.hasNested calls isWindowedOrCase)
  | _ => none

/-- An intersection is not sorted by itself. -/
def sortOverIntersect : WrapRule := fun c =>
  match c.rel with
  | .sort .. => wrapIf (c.node.is .intersect)
  | _ => none

/-- A projection must not replace the select list whose names HAVING uses. -/
def havingNameUsed : WrapRule := fun c =>
  match c.rel with
  | .project .. =>
    wrapIf (c.clauses.contains .having && c.capabilities.havingAlias && c.havingUsesAlias)
  | _ => none

/-- Windowed calls over a select list need that list computed first. -/
def windowOverSelect : WrapRule := fun c =>
  match c.rel with
  | .window .. => wrapIf c.selectsLast
  | r => wrapIf (projectsWindow r && c.selectsLast)

/-- An aggregation over a grouped query needs its groups, except for a grand total over an
aggregate, which takes their place; over distinct rows it needs the distinct rows. -/
def aggregateOverAggregate : WrapRule := fun c =>
  match c.rel with
  | .aggregate input groupSet _ calls =>
    if c.clauses.contains .groupBy then
      some (!c.hasNested calls isAggregateCall || !groupSet.isEmpty)
    else
      match input with
      | .project _ _ _ distinct _ => wrapIf distinct
      | _ => none
  | _ => none

/-- A projection must not drop a name that GROUP BY uses under a HAVING that uses none. -/
def groupByNameInHaving : WrapRule := fun c =>
  match c.rel with
  | .project .. =>
    wrapIf (c.clauses.contains .having && !c.havingUsesAlias && c.groupsByDropped)
  | _ => none

/-- The rules in the order in which they are asked. -/
def wrapRules : List WrapRule :=
  [noClausesYet, qualifyOverWindow, clauseOrder, distinctProjection, aggregateInGroupBy,
    nestedWindow, nestedAggregate, groupByNameDropped, groupByWindow, windowInAggregate,
    sortOverIntersect, havingNameUsed, windowOverSelect, aggregateOverAggregate,
    groupByNameInHaving]

/-- The query has to become a sub-query before the relation can add its clauses. -/
def needsWrapping (c : WrapCheck) : Bool :=
  (wrapRules.findSome? fun rule => rule c).getD false

end AlgebraSql.Convert
