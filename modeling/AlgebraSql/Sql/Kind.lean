/-!
# Node kinds — what the nodes of a statement are.

Kinds form a hierarchy: an equality is a binary operation, which is a condition, which is an
expression.  `isA` says whether a kind lies below another one.  Each kind also has a name and a
usual order of its arguments.
-/

namespace AlgebraSql.Sql

/-- The kind of a node. -/
inductive Kind where
  | expression | condition | predicate | binary | function | identifier | star | column | dot
  | bracket | tableAlias | table | aliased | literal | boolean | null | word | typedLiteral
  | interval | hexString | placeholder | dataType | eq | neq | gt | gte | lt | lte | connector
  | and | or | add | sub | mul | div | mod | concat | negatableBinary | like | similarTo
  | isDistinctFrom | is | not | neg | in | exists | tuple | branch | case | cast | call
  | aggregate | windowSpec | window | filter | withinGroup | cursor | from | where | group
  | groupingSets | rollup | cube | having | qualify | order | ordered | limit | offset | join
  | subquery | tableFunction | matchRecognize | patternConcat | patternAlternation
  | patternQuantifier | select | setOperation | union | intersect | except | values
  deriving Repr, DecidableEq, Inhabited

namespace Kind

/-- All kinds. -/
def all : List Kind :=
  [.expression, .condition, .predicate, .binary, .function, .identifier, .star, .column, .dot,
    .bracket, .tableAlias, .table, .aliased, .literal, .boolean, .null, .word, .typedLiteral,
    .interval, .hexString, .placeholder, .dataType, .eq, .neq, .gt, .gte, .lt, .lte, .connector,
    .and, .or, .add, .sub, .mul, .div, .mod, .concat, .negatableBinary, .like, .similarTo,
    .isDistinctFrom, .is, .not, .neg, .in, .exists, .tuple, .branch, .case, .cast, .call,
    .aggregate, .windowSpec, .window, .filter, .withinGroup, .cursor, .from, .where, .group,
    .groupingSets, .rollup, .cube, .having, .qualify, .order, .ordered, .limit, .offset, .join,
    .subquery, .tableFunction, .matchRecognize, .patternConcat, .patternAlternation,
    .patternQuantifier, .select, .setOperation, .union, .intersect, .except, .values]

/-- The name of a kind. -/
def name : Kind → String
  | .expression => "Expression"
  | .condition => "Condition"
  | .predicate => "Predicate"
  | .binary => "Binary"
  | .function => "Func"
  | .identifier => "Identifier"
  | .star => "Star"
  | .column => "Column"
  | .dot => "Dot"
  | .bracket => "Bracket"
  | .tableAlias => "TableAlias"
  | .table => "Table"
  | .aliased => "Alias"
  | .literal => "Literal"
  | .boolean => "Boolean"
  | .null => "Null"
  | .word => "Var"
  | .typedLiteral => "TypedLiteral"
  | .interval => "Interval"
  | .hexString => "HexString"
  | .placeholder => "Placeholder"
  | .dataType => "DataType"
  | .eq => "EQ"
  | .neq => "NEQ"
  | .gt => "GT"
  | .gte => "GTE"
  | .lt => "LT"
  | .lte => "LTE"
  | .connector => "Connector"
  | .and => "And"
  | .or => "Or"
  | .add => "Add"
  | .sub => "Sub"
  | .mul => "Mul"
  | .div => "Div"
  | .mod => "Mod"
  | .concat => "DPipe"
  | .negatableBinary => "NegatableBinary"
  | .like => "Like"
  | .similarTo => "SimilarTo"
  | .isDistinctFrom => "IsDistinctFrom"
  | .is => "Is"
  | .not => "Not"
  | .neg => "Neg"
  | .in => "In"
  | .exists => "Exists"
  | .tuple => "Tuple"
  | .branch => "If"
  | .case => "Case"
  | .cast => "Cast"
  | .call => "Anonymous"
  | .aggregate => "AggFunc"
  | .windowSpec => "WindowSpec"
  | .window => "Window"
  | .filter => "Filter"
  | .withinGroup => "WithinGroup"
  | .cursor => "Cursor"
  | .from => "From"
  | .where => "Where"
  | .group => "Group"
  | .groupingSets => "GroupingSets"
  | .rollup => "Rollup"
  | .cube => "Cube"
  | .having => "Having"
  | .qualify => "Qualify"
  | .order => "Order"
  | .ordered => "Ordered"
  | .limit => "Limit"
  | .offset => "Offset"
  | .join => "Join"
  | .subquery => "Subquery"
  | .tableFunction => "TableFunction"
  | .matchRecognize => "MatchRecognize"
  | .patternConcat => "PatternConcat"
  | .patternAlternation => "PatternAlternation"
  | .patternQuantifier => "PatternQuantifier"
  | .select => "Select"
  | .setOperation => "SetOperation"
  | .union => "Union"
  | .intersect => "Intersect"
  | .except => "Except"
  | .values => "Values"

/-- The kind with this name. -/
def ofName? (name : String) : Option Kind :=
  all.find? (·.name == name)

/-- The name of a kind in small letters. -/
def key (k : Kind) : String := k.name.toLower

/-! ## Hierarchy -/

/-- The kind directly above. -/
def parent : Kind → Option Kind
  | .expression => none
  | .predicate | .binary | .function | .column | .bracket | .literal | .boolean | .null
  | .typedLiteral | .interval | .hexString | .placeholder | .not | .neg | .branch | .window =>
    some .condition
  | .dot | .eq | .neq | .gt | .gte | .lt | .lte | .connector | .add | .sub | .mul | .div
  | .mod | .concat | .negatableBinary =>
    some .binary
  | .and | .or =>
    some .connector
  | .like | .similarTo | .isDistinctFrom | .is =>
    some .negatableBinary
  | .in | .exists =>
    some .predicate
  | .case | .cast | .call | .aggregate =>
    some .function
  | .union | .intersect | .except =>
    some .setOperation
  | _ => some .expression

/-- The kind and up to `steps` kinds above it. -/
def lineage : Nat → Kind → List Kind
  | 0, k => [k]
  | steps + 1, k =>
    match k.parent with
    | none => [k]
    | some p => k :: lineage steps p

/-- The kind is `other` or lies below it; no kind has more than four above it. -/
def isA (k other : Kind) : Bool := (lineage 4 k).contains other

/-- Set operations. -/
def isSetOperation : Kind → Bool
  | .setOperation | .union | .intersect | .except => true
  | _ => false

/-- Nodes that are queries by themselves. -/
def isQuery : Kind → Bool
  | .select | .values => true
  | k => k.isSetOperation

/-! ## Arguments -/

/-- The usual order of the arguments. -/
def argumentOrder : Kind → List String
  | .binary | .dot | .eq | .neq | .gt | .gte | .lt | .lte | .connector | .and | .or | .add
  | .sub | .mul | .div | .mod | .concat | .filter | .withinGroup =>
    ["this", "expression"]
  | .function | .call | .aggregate =>
    ["this", "expressions", "distinct"]
  | .identifier => ["this", "quoted"]
  | .star | .null =>
    []
  | .column => ["this", "table"]
  | .bracket | .dataType =>
    ["this", "expressions"]
  | .tableAlias => ["this", "columns"]
  | .table => ["this", "db", "catalog", "alias"]
  | .aliased | .subquery | .tableFunction =>
    ["this", "alias"]
  | .literal => ["this", "is_string"]
  | .typedLiteral => ["this", "kind"]
  | .interval => ["this", "unit", "negative"]
  | .placeholder => ["index"]
  | .negatableBinary | .like | .similarTo | .isDistinctFrom | .is =>
    ["this", "expression", "negated", "escape"]
  | .in => ["this", "expressions", "query", "negated"]
  | .tuple | .group | .groupingSets | .rollup | .cube | .order | .patternConcat
  | .patternAlternation =>
    ["expressions"]
  | .branch => ["this", "true"]
  | .case => ["this", "ifs", "default"]
  | .cast => ["this", "to"]
  | .windowSpec => ["kind", "start", "start_side", "end", "end_side"]
  | .window => ["this", "partition_by", "order", "spec"]
  | .ordered => ["this", "desc", "nulls_first"]
  | .join => ["this", "expression", "kind", "on"]
  | .matchRecognize => ["this", "partition_by", "order", "measures", "rows", "after",
    "after_variable", "pattern", "strict_start", "strict_end", "within", "subsets", "define",
    "alias"]
  | .patternQuantifier => ["this", "min", "max", "reluctant"]
  | .select => ["expressions", "distinct", "from", "where", "group", "having", "qualify", "order",
    "limit", "offset"]
  | .setOperation | .union | .intersect | .except =>
    ["this", "expression", "distinct"]
  | .values => ["expressions", "alias"]
  | _ => ["this"]

end Kind

end AlgebraSql.Sql
