import AlgebraSql.Proofs.SoundInputs

/-!
# Clauses — how the query for a plan is built, one clause after the other.

A parent takes the query of its input as it is and adds clauses to it, or reads from it in a query of
its own.  Putting a clause into a query overwrites silently what stands there.  `Built` is the
discipline that this must not happen: every operator puts a clause only where there is none, or puts
the conjunction of the condition that is there with its own, and it never touches a query that a sort
has ordered or limited.  The conversion follows it for every plan whose aggregations group plainly,
whatever the dialect can do.
-/

namespace AlgebraSql.Convert

open Sql Node

/-! ## Queries that are read, and queries that are extended -/

/-- The clauses that a sort puts into a query. -/
def finishingKeys : List String := ["order", "limit", "offset"]

/-- No sort has ordered or limited the query. -/
def Unfinished (n : Node) : Prop := ∀ key ∈ finishingKeys, n.arg? key = none

/-- A query as it stands behind FROM: as it is, in parentheses, or under a name. -/
inductive Embeds (n : Node) : Node → Prop
  | itself : Embeds n n
  | parenthesised {item : Node} (name : Option String) (h : Embeds n item) :
    Embeds n (derived item name)
  | renamed {item : Node} (name : String) (h : Embeds n item) (hitem : item.isFromItem = true) :
    Embeds n (item.set "alias" (some (.node (tableAlias name item.aliasColumns))))

/-- A query is returned as it is, or read by `SELECT *`. -/
inductive Returned (n : Node) : Node → Prop
  | itself : Returned n n
  | read {item : Node} (h : Embeds n item) : Returned n (Node.selectFrom item)

/-- A query is opened for new clauses: a SELECT that no sort has finished as it is, anything by a
SELECT of its own. -/
inductive Opens (n : Node) : Node → Prop
  | itself (hkind : n.kind = .select) (h : Unfinished n) : Opens n n
  | read {item : Node} (h : Embeds n item) : Opens n (Node.selectFrom item)

/-! ## Single clauses -/

/-- A clause is put where there is none. -/
def Adds (key : String) (clause m n : Node) : Prop :=
  m.arg? key = none ∧ n = m.set key (some (.node clause))

/-- A condition is put where there is none, or joined to the one that is there. -/
def Conjoins (key : String) (kind : Kind) (condition m n : Node) : Prop :=
  Adds key (Node.wrap kind condition) m n
    ∨ ∃ existing, m.condition? key = some existing
      ∧ n = m.set key (some (.node (Node.wrap kind (Node.and [existing, condition]))))

/-- A clause that may be missing is put where there is none. -/
def MayAdd (key : String) (clause : Option Node) (m n : Node) : Prop :=
  match clause with
  | some c => Adds key c m n
  | none => n = m

/-- The select list is left alone or replaced. -/
def MayList (m n : Node) : Prop :=
  n = m ∨ ∃ items, n = m.set "expressions" (some (.nodes items))

section

variable (env : Env) (sub : Rel → ConvertM Node)

/-- A node that an expression is converted to in some context. -/
def Translates (e : Expr) (n : Node) : Prop :=
  ∃ ctx s s', (scalarNode env sub ctx e).Gives s n s'

/-! ## Operators -/

/-- A filter puts its condition into one clause. -/
def FilterAdds (input : Rel) (condition : Expr) (m n : Node) : Prop :=
  ∃ c, Translates env sub condition c ∧
    match filterClause env input condition with
    | .having => Conjoins "having" .having c m n
    | .qualify => Conjoins "qualify" .qualify c m n
    | _ => Adds "where" (Node.wrap .where c) m n

/-- A projection sets the select list, and makes rows distinct. -/
def ProjectSets (distinct : Bool) (m n : Node) : Prop :=
  ∃ m₁, MayList m m₁ ∧ n = if distinct then m₁.set "distinct" (some (.flag true)) else m₁

/-- An aggregation sets the select list and groups; without keys its calls make it one group. -/
def AggregateAdds (groupSet : List Ordinal) (sets : List (List Ordinal))
    (calls : List AggregateCall) (m n : Node) : Prop :=
  ∃ m₁ ctx keys, MayList m m₁ ∧ groupByNodes env ctx groupSet sets = .ok keys
    ∧ if keys.isEmpty && !calls.isEmpty then n = m₁
      else Adds "group" (.mk .group [("expressions", .nodes keys)]) m₁ n

/-- A sort spells the select list out, orders and limits. -/
def SortAdds (collation : List Collation) (offset fetch : Option Expr) (m n : Node) : Prop :=
  ∃ m₁ m₂ m₃ ctx keys limit skip, MayList m m₁ ∧ collationsNodes env ctx collation = .ok keys
    ∧ MayAdd "order" (if keys.isEmpty then none else some (Node.order keys)) m₁ m₂
    ∧ Option.Rel (Translates env sub) fetch limit
    ∧ MayAdd "limit" (limit.map (Node.wrap .limit)) m₂ m₃
    ∧ Option.Rel (Translates env sub) offset skip
    ∧ MayAdd "offset" (skip.map (Node.wrap .offset)) m₃ n

/-- A semi join tests for partners in WHERE. -/
def SemiJoinAdds (type : JoinType) (y m n : Node) : Prop :=
  ∃ item condition, Embeds y item
    ∧ Conjoins "where" .where
      (if type == .anti then Node.not (Node.wrap .exists (existenceQuery item condition))
        else Node.wrap .exists (existenceQuery item condition)) m n

mutual

/-- **`Built`** — the query for a plan is built from the queries of its inputs, and no clause gets
lost on the way. -/
def Built : Rel → Node → Prop
  | .scan table _, n => Node.table? table = .ok n
  | .filter input condition _, n =>
    ∃ x m, Built input x ∧ Opens x m ∧ FilterAdds env sub input condition m n
  | .project input _ _ distinct _, n =>
    ∃ x m, Built input x ∧ Opens x m ∧ ProjectSets distinct m n
  | .aggregate input groupSet sets calls, n =>
    ∃ x m, Built input x ∧ Opens x m ∧ AggregateAdds env groupSet sets calls m n
  | .join left right _ type _, n =>
    ∃ x y, Built left x ∧ Built right y ∧
      if type.keepsLeftOnly then ∃ m, Opens x m ∧ SemiJoinAdds type y m n
      else ∃ l r kind on, Embeds x l ∧ Embeds y r ∧ n = joinNode l r kind on
  | .setOp op all inputs, n =>
    ∃ first rest, BuiltAll inputs (first :: rest)
      ∧ n = rest.foldl (fun u n => Node.setOperation (setKind op) u n !all) first
  | .sort input collation offset fetch, n =>
    ∃ x m, Built input x ∧ Opens x m ∧ SortAdds env sub collation offset fetch m n
  | .window input _ _ _, n => ∃ x m, Built input x ∧ Opens x m ∧ MayList m n
  | .tableFunction _ _ _, n => ∃ item, n = Node.selectFrom item
  | .values fields tuples, n => ∃ name,
    (if env.dialect.capabilities.aliasedValues then aliasedValues env name fields tuples
      else unionValues env name fields tuples) = .ok n
  | .rowPattern input _, n =>
    ∃ x item, Built input x ∧ Embeds x item ∧ n.kind = .matchRecognize ∧ n.this? = some item

/-- Several queries are returned that are built for several plans. -/
def BuiltAll : List Rel → List Node → Prop
  | [], ns => ns = []
  | rel :: rels, ns =>
    ∃ x n rest, Built rel x ∧ Returned x n ∧ BuiltAll rels rest ∧ ns = n :: rest

end

end

end AlgebraSql.Convert
