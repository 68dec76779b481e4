import AlgebraSql.Operator.Basic

/-!
# Standard operators — the catalog of operators that every plan may use.

The catalog lists each operator under a key, which is not its name: several operators share a name,
as subtraction and sign change do.
-/

namespace AlgebraSql.Operator

/-- A function about which nothing but its name is known. -/
def named (name : String) : Operator :=
  { name, kind := .otherFunction, form := .function }

/-! ## The operators -/

def equals : Operator := { name := "=", kind := .equals, form := .binary }
def notEquals : Operator := { name := "<>", kind := .notEquals, form := .binary }
def greaterThan : Operator := { name := ">", kind := .greaterThan, form := .binary }
def greaterThanOrEqual : Operator := { name := ">=", kind := .greaterThanOrEqual, form := .binary }
def lessThan : Operator := { name := "<", kind := .lessThan, form := .binary }
def lessThanOrEqual : Operator := { name := "<=", kind := .lessThanOrEqual, form := .binary }
def and : Operator := { name := "AND", kind := .and, form := .binary }
def or : Operator := { name := "OR", kind := .or, form := .binary }
def not : Operator := { name := "NOT", kind := .not, form := .leading }
def plus : Operator := { name := "+", kind := .plus, form := .binary }
def minus : Operator := { name := "-", kind := .minus, form := .binary }
def multiply : Operator := { name := "*", kind := .times, form := .binary }
def divide : Operator := { name := "/", kind := .divide, form := .binary }
def mod : Operator := { name := "MOD", kind := .mod, form := .function }
def negate : Operator := { name := "-", kind := .negate, form := .leading }
def isNull : Operator := { name := "IS NULL", kind := .isNull, form := .trailing }
def isNotNull : Operator := { name := "IS NOT NULL", kind := .isNotNull, form := .trailing }
def isTrue : Operator := { name := "IS TRUE", kind := .isTrue, form := .trailing }
def isNotTrue : Operator := { name := "IS NOT TRUE", kind := .isNotTrue, form := .trailing }
def isFalse : Operator := { name := "IS FALSE", kind := .isFalse, form := .trailing }
def isNotFalse : Operator := { name := "IS NOT FALSE", kind := .isNotFalse, form := .trailing }
def isDistinctFrom : Operator :=
  { name := "IS DISTINCT FROM", kind := .isDistinctFrom, form := .binary }
def isNotDistinctFrom : Operator :=
  { name := "IS NOT DISTINCT FROM", kind := .isNotDistinctFrom, form := .binary }
def like : Operator := { name := "LIKE", kind := .like, form := .special }
def notLike : Operator := { name := "NOT LIKE", kind := .like, form := .special, negated := true }
def similarTo : Operator := { name := "SIMILAR TO", kind := .similar, form := .special }
def notSimilarTo : Operator :=
  { name := "NOT SIMILAR TO", kind := .similar, form := .special, negated := true }
def «in» : Operator := { name := "IN", kind := .in, form := .binary }
def notIn : Operator := { name := "NOT IN", kind := .notIn, form := .binary }
def search : Operator := { name := "SEARCH", kind := .search, form := .function }
def case : Operator := { name := "CASE", kind := .case, form := .special }
def cast : Operator := { name := "CAST", kind := .cast, form := .special }
def concat : Operator := { name := "||", kind := .concat, form := .binary }
def item : Operator := { name := "ITEM", kind := .item, form := .special }
def row : Operator := { name := "ROW", kind := .row, form := .special }
def coalesce : Operator := { name := "COALESCE", kind := .coalesce, form := .function }
def «exists» : Operator := { name := "EXISTS", kind := .exists, form := .leading }
def scalarQuery : Operator := { name := "$SCALAR_QUERY", kind := .scalarQuery, form := .special }
def cursor : Operator := { name := "CURSOR", kind := .cursor, form := .special }
def sum : Operator := aggregateOf "SUM" .sum
def sumOrZero : Operator := aggregateOf "$SUM0" .sumOrZero
def count : Operator := aggregateOf "COUNT" .count
def min : Operator := aggregateOf "MIN" .min
def max : Operator := aggregateOf "MAX" .max
def avg : Operator := aggregateOf "AVG" .avg
def rowNumber : Operator := aggregateOf "ROW_NUMBER" .rowNumber false
def rank : Operator := aggregateOf "RANK" .rank false
def denseRank : Operator := aggregateOf "DENSE_RANK" .denseRank false
def lag : Operator := aggregateOf "LAG" .lag false
def lead : Operator := aggregateOf "LEAD" .lead false
def firstValue : Operator := aggregateOf "FIRST_VALUE" .firstValue
def lastValue : Operator := aggregateOf "LAST_VALUE" .lastValue
def listAgg : Operator := aggregateOf "LISTAGG" .listAgg false
def upper : Operator := named "UPPER"
def lower : Operator := named "LOWER"
def charLength : Operator := named "CHAR_LENGTH"
def substring : Operator := named "SUBSTRING"
def abs : Operator := named "ABS"
def patternConcat : Operator :=
  { name := "PATTERN_CONCAT", kind := .patternConcat, form := .special }
def patternAlter : Operator := { name := "|", kind := .patternAlter, form := .special }
def patternQuantifier : Operator :=
  { name := "PATTERN_QUANTIFIER", kind := .patternQuantifier, form := .special }
def prev : Operator := named "PREV"
def next : Operator := named "NEXT"
def first : Operator := named "FIRST"
def last : Operator := named "LAST"
def classifier : Operator := named "CLASSIFIER"
def matchNumber : Operator := named "MATCH_NUMBER"

/-! ## The catalog -/

/-- The standard operators with their keys. -/
def catalog : List (String × Operator) :=
  [
    ("EQUALS", equals), ("NOT_EQUALS", notEquals), ("GREATER_THAN", greaterThan),
    ("GREATER_THAN_OR_EQUAL", greaterThanOrEqual), ("LESS_THAN", lessThan),
    ("LESS_THAN_OR_EQUAL", lessThanOrEqual), ("AND", and), ("OR", or), ("NOT", not),
    ("PLUS", plus), ("MINUS", minus), ("MULTIPLY", multiply), ("DIVIDE", divide), ("MOD", mod),
    ("UNARY_MINUS", negate), ("IS_NULL", isNull), ("IS_NOT_NULL", isNotNull),
    ("IS_TRUE", isTrue), ("IS_NOT_TRUE", isNotTrue), ("IS_FALSE", isFalse),
    ("IS_NOT_FALSE", isNotFalse), ("IS_DISTINCT_FROM", isDistinctFrom),
    ("IS_NOT_DISTINCT_FROM", isNotDistinctFrom), ("LIKE", like), ("NOT_LIKE", notLike),
    ("SIMILAR_TO", similarTo), ("NOT_SIMILAR_TO", notSimilarTo), ("IN", «in»),
    ("NOT_IN", notIn), ("SEARCH", search), ("CASE", case), ("CAST", cast), ("CONCAT", concat),
    ("ITEM", item), ("ROW", row), ("COALESCE", coalesce), ("EXISTS", «exists»),
    ("SCALAR_QUERY", scalarQuery), ("CURSOR", cursor), ("SUM", sum), ("SUM0", sumOrZero),
    ("COUNT", count), ("MIN", min), ("MAX", max), ("AVG", avg), ("ROW_NUMBER", rowNumber),
    ("RANK", rank), ("DENSE_RANK", denseRank), ("LAG", lag), ("LEAD", lead),
    ("FIRST_VALUE", firstValue), ("LAST_VALUE", lastValue), ("LISTAGG", listAgg),
    ("UPPER", upper), ("LOWER", lower), ("CHAR_LENGTH", charLength), ("SUBSTRING", substring),
    ("ABS", abs), ("PATTERN_CONCAT", patternConcat), ("PATTERN_ALTER", patternAlter),
    ("PATTERN_QUANTIFIER", patternQuantifier), ("PREV", prev), ("NEXT", next), ("FIRST", first),
    ("LAST", last), ("CLASSIFIER", classifier), ("MATCH_NUMBER", matchNumber)
  ]

/-- The standard operator with this key. -/
def standard? (key : String) : Option Operator :=
  (catalog.find? (·.1 == key)).map (·.2)

/-! ## Swapped operands -/

/-- The comparison that says of swapped operands what `op` says of them: `a < b` is `b > a`.
Any other operator is its own reversal. -/
def reversed (op : Operator) : Operator :=
  match op.kind with
  | .greaterThan => lessThan
  | .greaterThanOrEqual => lessThanOrEqual
  | .lessThan => greaterThan
  | .lessThanOrEqual => greaterThanOrEqual
  | _ => op

end AlgebraSql.Operator
