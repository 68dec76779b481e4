import AlgebraSql.Text.CaseMap

/-!
# Operators — what a call in a scalar expression applies.

An operator has a name, a kind that fixes its meaning as far as this library knows it, and the form
in which a call is written.  Functions of particular libraries also say which libraries define them
and which functions they can stand for.
-/

namespace AlgebraSql

/-- What an operator means. -/
inductive OperatorKind where
  | equals | notEquals | greaterThan | greaterThanOrEqual | lessThan | lessThanOrEqual
  | and | or | not
  | plus | minus | times | divide | mod | negate
  | isNull | isNotNull | isTrue | isNotTrue | isFalse | isNotFalse
  | isDistinctFrom | isNotDistinctFrom
  | like | similar | in | notIn | search | case | cast | concat | item | row | coalesce
  | exists | scalarQuery | cursor
  | sum | sumOrZero | count | min | max | avg
  | rowNumber | rank | denseRank | lag | lead | firstValue | lastValue | listAgg
  | patternConcat | patternAlter | patternQuantifier
  | otherFunction
  deriving Repr, DecidableEq, Inhabited

/-- How a call of an operator is written. -/
inductive Form where
  | binary | leading | trailing | function | special
  deriving Repr, DecidableEq, Inhabited

/-- A collection of functions that a database offers. -/
inductive Library where
  | standard | postgres | mysql | bigQuery | snowflake | spark | hive | oracle
  deriving Repr, DecidableEq, Inhabited

/-- An operator. -/
structure Operator where
  name : String
  kind : OperatorKind
  form : Form
  isAggregate : Bool := false
  /-- A window frame may follow the call. -/
  allowsFraming : Bool := false
  /-- The operator denies what its kind says, as `NOT LIKE` does. -/
  negated : Bool := false
  /-- The libraries that define a function; none for an operator of the language itself. -/
  libraries : Option (List Library) := none
  /-- The name of a set of functions that can replace each other. -/
  group : Option String := none
  deriving Repr, DecidableEq, Inhabited

/-! ## Written forms -/

namespace OperatorKind

/-- The written form of a kind. -/
def toText : OperatorKind → String
  | .equals => "EQUALS"
  | .notEquals => "NOT_EQUALS"
  | .greaterThan => "GREATER_THAN"
  | .greaterThanOrEqual => "GREATER_THAN_OR_EQUAL"
  | .lessThan => "LESS_THAN"
  | .lessThanOrEqual => "LESS_THAN_OR_EQUAL"
  | .and => "AND"
  | .or => "OR"
  | .not => "NOT"
  | .plus => "PLUS"
  | .minus => "MINUS"
  | .times => "TIMES"
  | .divide => "DIVIDE"
  | .mod => "MOD"
  | .negate => "MINUS_PREFIX"
  | .isNull => "IS_NULL"
  | .isNotNull => "IS_NOT_NULL"
  | .isTrue => "IS_TRUE"
  | .isNotTrue => "IS_NOT_TRUE"
  | .isFalse => "IS_FALSE"
  | .isNotFalse => "IS_NOT_FALSE"
  | .isDistinctFrom => "IS_DISTINCT_FROM"
  | .isNotDistinctFrom => "IS_NOT_DISTINCT_FROM"
  | .like => "LIKE"
  | .similar => "SIMILAR"
  | .in => "IN"
  | .notIn => "NOT_IN"
  | .search => "SEARCH"
  | .case => "CASE"
  | .cast => "CAST"
  | .concat => "CONCAT"
  | .item => "ITEM"
  | .row => "ROW"
  | .coalesce => "COALESCE"
  | .exists => "EXISTS"
  | .scalarQuery => "SCALAR_QUERY"
  | .cursor => "CURSOR"
  | .sum => "SUM"
  | .sumOrZero => "SUM0"
  | .count => "COUNT"
  | .min => "MIN"
  | .max => "MAX"
  | .avg => "AVG"
  | .rowNumber => "ROW_NUMBER"
  | .rank => "RANK"
  | .denseRank => "DENSE_RANK"
  | .lag => "LAG"
  | .lead => "LEAD"
  | .firstValue => "FIRST_VALUE"
  | .lastValue => "LAST_VALUE"
  | .listAgg => "LISTAGG"
  | .patternConcat => "PATTERN_CONCAT"
  | .patternAlter => "PATTERN_ALTER"
  | .patternQuantifier => "PATTERN_QUANTIFIER"
  | .otherFunction => "OTHER_FUNCTION"

/-- The six comparisons. -/
def isComparison : OperatorKind → Bool
  | .equals | .notEquals | .greaterThan | .greaterThanOrEqual | .lessThan | .lessThanOrEqual => true
  | _ => false

/-- A call is a truth value whatever its operands are. -/
def isPredicate : OperatorKind → Bool
  | .and | .or | .not | .isNull | .isNotNull | .isTrue | .isNotTrue | .isFalse | .isNotFalse
  | .isDistinctFrom | .isNotDistinctFrom | .like | .similar | .in | .notIn | .search
  | .exists => true
  | kind => kind.isComparison

end OperatorKind

/-- The written form of a form. -/
def Form.toText : Form → String
  | .binary => "binary"
  | .leading => "prefix"
  | .trailing => "postfix"
  | .function => "function"
  | .special => "special"

namespace Library

/-- All libraries. -/
def all : List Library :=
  [.standard, .postgres, .mysql, .bigQuery, .snowflake, .spark, .hive, .oracle]

/-- The written form of a library. -/
def toText : Library → String
  | .standard => "STANDARD"
  | .postgres => "POSTGRESQL"
  | .mysql => "MYSQL"
  | .bigQuery => "BIG_QUERY"
  | .snowflake => "SNOWFLAKE"
  | .spark => "SPARK"
  | .hive => "HIVE"
  | .oracle => "ORACLE"

/-- The library written as `text`. -/
def ofText? (text : String) : Option Library :=
  all.find? (·.toText == text)

end Library

namespace Operator

/-- The operator is one of the six comparisons. -/
def isComparison (op : Operator) : Bool := op.kind.isComparison

/-- A call of the operator is a truth value whatever its operands are. -/
def isPredicate (op : Operator) : Bool := op.kind.isPredicate

/-! ## Making operators -/

/-- A scalar function that no catalog lists. -/
def function (name : String) : Operator :=
  { name := Text.upper name, kind := .otherFunction, form := .function }

/-- An aggregate function, whose windowed calls may have a frame unless said otherwise. -/
def aggregateOf (name : String) (kind : OperatorKind) (allowsFraming : Bool := true) : Operator :=
  { name, kind, form := .function, isAggregate := true, allowsFraming }

/-- An aggregate function that no catalog lists. -/
def aggregate (name : String) : Operator :=
  aggregateOf (Text.upper name) .otherFunction

end Operator

end AlgebraSql
