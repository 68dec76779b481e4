import AlgebraSql.Algebra.Literal
import AlgebraSql.Sql.Build
import AlgebraSql.Sql.Walk

/-!
# Trivial aliases — dropping the names that the algebra gives to unnamed expressions.

The names are dropped in the select list of a statement and of each branch of a set operation at its
top.  A name that another clause of the same query refers to is kept, and nested queries keep all of
theirs, because the surrounding query may refer to them.
-/

namespace AlgebraSql.Sql

/-- A name of the form `EXPR$` with digits behind it. -/
def isTrivialAlias (name : String) : Bool :=
  match name.toList with
  | 'E' :: 'X' :: 'P' :: 'R' :: '$' :: digits => !digits.isEmpty && digits.all Char.isDigit
  | _ => false

namespace Node

/-- The clauses of a query that may refer to the select list. -/
def referringClauses : List String := ["group", "having", "qualify", "order"]

/-- The unqualified column names, in small letters, to which the clauses behind the select list
refer. -/
def referencedNames (n : Node) : List String :=
  (referringClauses.filterMap n.child?).flatMap fun clause =>
    ((clause.findAllInScope [.column]).filter (·.table == "")).map fun c => Text.lower c.name

/-- The expression of a select item whose trivial alias nothing refers to. -/
def withoutTrivialAlias? (referenced : List String) (item : Node) : Option Node :=
  match item.this? with
  | some inner =>
    if item.is .aliased && isTrivialAlias item.aliasName
        && !referenced.contains (Text.lower item.aliasName) then
      some inner
    else none
  | none => none

/-- A query without the trivial aliases in its select list. -/
def stripSelect (n : Node) : Node :=
  match n.selectList? with
  | none => n
  | some items =>
    let stripped := items.map (withoutTrivialAlias? n.referencedNames)
    if stripped.any (·.isSome) then
      n.set "expressions" (some (.nodes (List.zipWith (fun item s => s.getD item) items stripped)))
    else n

mutual

/-- A statement without trivial aliases at its top. -/
def stripTrivialAliases : Node → Node
  | .mk kind args =>
    if kind.isSetOperation then .mk kind (stripBranches args)
    else if kind == .select then stripSelect (.mk kind args)
    else .mk kind args

/-- The arguments of a set operation with both branches stripped. -/
def stripBranches : List (String × Arg) → List (String × Arg)
  | [] => []
  | (key, .node n) :: rest =>
    (key, .node (if key = "this" ∨ key = "expression" then stripTrivialAliases n else n))
      :: stripBranches rest
  | (key, .nodes ns) :: rest => (key, .nodes ns) :: stripBranches rest
  | (key, .text s) :: rest => (key, .text s) :: stripBranches rest
  | (key, .number q) :: rest => (key, .number q) :: stripBranches rest
  | (key, .flag b) :: rest => (key, .flag b) :: stripBranches rest
  | (key, .missing) :: rest => (key, .missing) :: stripBranches rest

end

end Node

end AlgebraSql.Sql
