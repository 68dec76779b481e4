/-!
# Clauses — the parts of a query in the order in which they are evaluated.

A parent may add its clauses to a query as long as each of them comes after everything the query
already does.  Only the select list may be set twice.
-/

namespace AlgebraSql

/-- A clause of a query, in evaluation order. -/
inductive Clause where
  | from | where | groupBy | having | qualify | select | setOp | orderBy | fetch | offset
  deriving Repr, DecidableEq, Inhabited

namespace Clause

/-- All clauses, first evaluated first. -/
def all : List Clause :=
  [.from, .where, .groupBy, .having, .qualify, .select, .setOp, .orderBy, .fetch, .offset]

/-- The place of a clause in the order of evaluation. -/
def rank : Clause → Nat
  | .from => 0
  | .where => 1
  | .groupBy => 2
  | .having => 3
  | .qualify => 4
  | .select => 5
  | .setOp => 6
  | .orderBy => 7
  | .fetch => 8
  | .offset => 9

/-- The written form of a clause. -/
def toText : Clause → String
  | .from => "FROM"
  | .where => "WHERE"
  | .groupBy => "GROUP_BY"
  | .having => "HAVING"
  | .qualify => "QUALIFY"
  | .select => "SELECT"
  | .setOp => "SET_OP"
  | .orderBy => "ORDER_BY"
  | .fetch => "FETCH"
  | .offset => "OFFSET"

/-- The clause written as `text`. -/
def ofText? (text : String) : Option Clause :=
  all.find? (·.toText == text)

/-- A query that has this clause may get it again. -/
def isMergeable : Clause → Bool
  | .select => true
  | _ => false

/-- The clause evaluated last. -/
def last? (clauses : List Clause) : Option Clause :=
  clauses.foldl
    (fun last clause =>
      match last with
      | none => some clause
      | some c => if c.rank < clause.rank then some clause else some c)
    none

/-- `clause` can be added to a query whose last clause is `last`. -/
def follows (last clause : Clause) : Bool :=
  last.rank < clause.rank || (last == clause && clause.isMergeable)

/-- The expected clauses can be added to a query with the used ones, judged by the order of
evaluation alone. -/
def fit (used expected : List Clause) : Bool :=
  match last? used with
  | none => true
  | some last => expected.all (follows last)

end Clause

end AlgebraSql
