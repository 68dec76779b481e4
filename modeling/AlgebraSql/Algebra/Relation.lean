import AlgebraSql.Algebra.Scalar
import AlgebraSql.OrderedMap

/-!
# Relations — the operators of a plan, their row types, and the checks made when one is built.

A relation is a tree whose leaves are tables, constant rows and table functions.  Its row type is
computed from the tree: `Rel.fields` names and types the columns, and columns that would share a
name are renamed by numeric suffixes.  The functions that end in `?` build a relation after checking
that its parts fit together.
-/

namespace AlgebraSql

/-! ## Parts of relations -/

inductive JoinType where
  | inner | left | right | full | semi | anti
  deriving Repr, DecidableEq, Inhabited

/-- The written form of a join type. -/
def JoinType.toText : JoinType → String
  | .inner => "INNER"
  | .left => "LEFT"
  | .right => "RIGHT"
  | .full => "FULL"
  | .semi => "SEMI"
  | .anti => "ANTI"

/-- The join type written as `text`. -/
def JoinType.ofText? (text : String) : Option JoinType :=
  [JoinType.inner, .left, .right, .full, .semi, .anti].find? (·.toText == text)

/-- A join that only tests for partners keeps the columns of its left input alone. -/
def JoinType.keepsLeftOnly : JoinType → Bool
  | .semi | .anti => true
  | _ => false

inductive SetOperator where
  | union | intersect | except
  deriving Repr, DecidableEq, Inhabited

/-- The written form of a set operator. -/
def SetOperator.toText : SetOperator → String
  | .union => "UNION"
  | .intersect => "INTERSECT"
  | .except => "EXCEPT"

/-- The set operator written as `text`. -/
def SetOperator.ofText? (text : String) : Option SetOperator :=
  [SetOperator.union, .intersect, .except].find? (·.toText == text)

/-- An aggregate function applied to input fields. -/
structure AggregateCall where
  op : Operator
  args : List Ordinal
  distinct : Bool := false
  /-- The field that says which rows count. -/
  filter : Option Ordinal := none
  /-- The order in which the rows are taken. -/
  collation : List Collation := []
  name : Option String := none
  type : Option DataType := none

/-- A windowed call whose window is defined elsewhere. -/
structure WindowCall (α : Type) where
  op : Operator
  operands : List α
  distinct : Bool
  type : DataType

/-- Windowed calls that share one window over input fields. -/
structure WindowGroup (α : Type) where
  keys : List Ordinal
  order : List Collation
  frame : Frame α
  calls : List (WindowCall α)

/-- Where the next attempt starts once a row pattern has matched. -/
inductive AfterMatch where
  | nextRow
  | pastLastRow
  | skipTo (place symbol : String)
  deriving Repr, DecidableEq

/-- The words for where the next attempt starts, without the symbol. -/
def AfterMatch.toText : AfterMatch → String
  | .nextRow => "SKIP TO NEXT ROW"
  | .pastLastRow => "SKIP PAST LAST ROW"
  | .skipTo place _ => "SKIP TO " ++ place

/-- The place that some words name without a symbol. -/
def AfterMatch.ofText? (text : String) : Option AfterMatch :=
  [AfterMatch.nextRow, .pastLastRow].find? (·.toText == text)

/-- Row pattern recognition: the pattern, what its symbols mean, and what a match yields. -/
structure RowPattern (α : Type) where
  pattern : α
  /-- A condition for each symbol, in order. -/
  definitions : List (String × α)
  measures : List (String × α) := []
  strictStart : Bool := false
  strictEnd : Bool := false
  after : AfterMatch := .nextRow
  subsets : List (String × List String) := []
  allRows : Bool := false
  partition : List Ordinal := []
  order : List Collation := []
  within : Option Literal := none

/-! ## Relations -/

/-- A relational plan. -/
inductive Rel where
  | scan (table : List String) (fields : RowType)
  | filter (input : Rel) (condition : Scalar Rel) (correlations : List String)
  | project (input : Rel) (projects : List (Scalar Rel)) (names : List String) (distinct : Bool)
      (correlations : List String)
  | aggregate (input : Rel) (groupSet : List Ordinal) (groupSets : List (List Ordinal))
      (calls : List AggregateCall)
  | join (left right : Rel) (condition : Scalar Rel) (type : JoinType) (correlations : List String)
  | setOp (op : SetOperator) (all : Bool) (inputs : List Rel)
  | sort (input : Rel) (collation : List Collation) (offset fetch : Option (Scalar Rel))
  | window (input : Rel) (groups : List (WindowGroup (Scalar Rel))) (constants : List Literal)
      (names : List String)
  | tableFunction (inputs : List Rel) (call : Scalar Rel) (fields : RowType)
  | values (fields : RowType) (tuples : List (List Literal))
  | rowPattern (input : Rel) (spec : RowPattern (Scalar Rel))

/-- A scalar expression of a plan. -/
abbrev Expr := Scalar Rel

instance : Inhabited Rel := ⟨.values [] []⟩

namespace Rel

/-- The word for the operator at the root of a plan. -/
def operatorName : Rel → String
  | .scan .. => "scan"
  | .filter .. => "filter"
  | .project .. => "project"
  | .aggregate .. => "aggregate"
  | .join .. => "join"
  | .setOp .. => "setOp"
  | .sort .. => "sort"
  | .window .. => "window"
  | .tableFunction .. => "tableFunctionScan"
  | .values .. => "values"
  | .rowPattern .. => "match"

/-- The inputs of a plan's root, from left to right. -/
def inputs : Rel → List Rel
  | .scan .. | .values .. => []
  | .join left right .. => [left, right]
  | .setOp _ _ inputs => inputs
  | .tableFunction inputs .. => inputs
  | .filter input .. | .project input .. | .aggregate input .. | .sort input ..
  | .window input .. | .rowPattern input _ => [input]

/-! ## Row types -/

/-- The field of a row type at a position, if the position is in it. -/
def pick (fields : RowType) (keys : List Ordinal) : RowType :=
  keys.filterMap (nth? fields)

/-- The type of an aggregate call over rows of the given fields. -/
def aggregateType (fields : RowType) (call : AggregateCall) : DataType :=
  match call.type with
  | some t => t
  | none =>
    if call.op.kind == .count then DataType.bigint
    else (((call.args.head?).bind (nth? fields)).map (·.type)).getD DataType.any

/-- The name of a column that nobody named. -/
def unnamedColumn (i : Nat) : String := "$f" ++ toString i

/-- The columns that aggregate calls add behind `offset` others. -/
def aggregateFields (fields : RowType) (offset : Nat) (calls : List AggregateCall) : RowType :=
  calls.zipIdx.map fun (call, i) =>
    ⟨call.name.getD (unnamedColumn (offset + i)), aggregateType fields call⟩

/-- The name of the windowed call `i` of group `g` that nobody named. -/
def unnamedWindowed (g i : Nat) : String := "w" ++ toString g ++ "$o" ++ toString i

/-- The default names and the types of all windowed calls. -/
def windowFields (groups : List (WindowGroup Expr)) : RowType :=
  (groups.zipIdx.map fun (group, g) =>
    group.calls.zipIdx.map fun (call, i) => ⟨unnamedWindowed g i, call.type⟩).flatten

/-- The given names take the place of the first columns' own. -/
def renameFirst (names : List String) (fields : RowType) : RowType :=
  fields.zipIdx.map fun (field, i) => { field with name := names[i]?.getD field.name }

/-- The columns that a match yields over rows of the given fields. -/
def patternFields (fields : RowType) (spec : RowPattern Expr) : RowType :=
  let kept := if spec.allRows then fields else pick fields spec.partition
  RowType.unique (kept ++ spec.measures.map fun (name, e) => ⟨name, e.type⟩)

mutual

/-- The columns of a plan. -/
def fields : Rel → RowType
  | .scan _ fields => fields
  | .filter input _ _ => input.fields
  | .project _ projects names _ _ => List.zipWith (fun name e => ⟨name, e.type⟩) names projects
  | .aggregate input groupSet _ calls =>
    RowType.unique
      (pick input.fields groupSet ++ aggregateFields input.fields groupSet.length calls)
  | .join left right _ type _ =>
    if type.keepsLeftOnly then left.fields else RowType.unique (left.fields ++ right.fields)
  | .setOp _ _ inputs => fieldsOfFirst inputs
  | .sort input _ _ _ => input.fields
  | .window input groups _ names => input.fields ++ renameFirst names (windowFields groups)
  | .tableFunction _ _ fields => fields
  | .values fields _ => fields
  | .rowPattern input spec => patternFields input.fields spec

/-- The columns of the first of several plans. -/
def fieldsOfFirst : List Rel → RowType
  | [] => []
  | input :: _ => input.fields

end

/-! ## Building relations -/

/-- The field of an input at a position, which has to be in it. -/
def inputField (input : Rel) (ordinal : Ordinal) : Except Error Field :=
  match nth? input.fields ordinal with
  | some f => .ok f
  | none => .error (.inputOrdinalOutOfRange ordinal input.fields.length)

/-- Expressions over an input, each with a name. -/
def project? (input : Rel) (projects : List Expr) (names : List String) (distinct : Bool := false)
    (correlations : List String := []) : Except Error Rel :=
  if names.length = projects.length then .ok (.project input projects names distinct correlations)
  else .error (.projectionNames projects.length names.length)

/-- The argument that fixes the type of an aggregate call has to be an input field. -/
def checkCall (input : Rel) (call : AggregateCall) : Except Error Unit :=
  match call.type, call.args.head? with
  | none, some arg => if call.op.kind == .count then .ok () else do discard (inputField input arg)
  | _, _ => .ok ()

/-- Rows grouped by fields, with one column for each key and each call; the keys are put into
ascending order, and without grouping sets all keys form the only one. -/
def aggregate? (input : Rel) (groupSet : List Ordinal) (calls : List AggregateCall)
    (groupSets : Option (List (List Ordinal)) := none) : Except Error Rel := do
  let keys := Ordinal.ascending groupSet
  keys.forM fun key => discard (inputField input key)
  calls.forM (checkCall input)
  return .aggregate input keys (groupSets.getD [keys]) calls

/-- A set operation on at least two inputs. -/
def setOp? (op : SetOperator) (inputs : List Rel) (all : Bool := false) : Except Error Rel :=
  if inputs.length < 2 then .error (.tooFewInputs op.toText) else .ok (.setOp op all inputs)

/-- Constant rows, each as wide as the row type. -/
def values? (fields : RowType) (tuples : List (List Literal)) : Except Error Rel := do
  tuples.forM fun tuple =>
    if tuple.length = fields.length then pure () else throw (.tupleWidth tuple.length fields.length)
  return .values fields tuples

/-- Row pattern recognition; its partition keys have to be input fields unless all rows are kept. -/
def rowPattern? (input : Rel) (spec : RowPattern Expr) : Except Error Rel := do
  unless spec.allRows do
    spec.partition.forM fun key => discard (inputField input key)
  return .rowPattern input spec

end Rel

namespace Scalar

/-! ## Sub-queries -/

/-- The test whether a row of expressions is among the rows of a relation. -/
def inQuery (operands : List Expr) (relation : Rel) : Expr :=
  .subQuery Operator.in operands relation DataType.boolean

/-- The test whether a relation has rows. -/
def existsQuery (relation : Rel) : Expr :=
  .subQuery Operator.exists [] relation DataType.boolean

/-- The value of the only row of a relation. -/
def scalarQuery (relation : Rel) : Expr :=
  .subQuery Operator.scalarQuery [] relation
    ((relation.fields.head?.map (·.type)).getD DataType.any)

end Scalar

end AlgebraSql
