import AlgebraSql.Error
import AlgebraSql.Operator.Standard

/-!
# Library functions — functions that particular databases define.

An entry of the catalog names the libraries that define a function and, where there is one, the
group of functions of the same meaning.  A function that a library lacks is replaced by a member of
its group: one that the library itself defines if possible, otherwise a standard one.
-/

namespace AlgebraSql

/-- An entry of the catalog of library functions. -/
structure LibraryFunction where
  name : String
  libraries : List Library
  group : Option String := none
  kind : OperatorKind := .otherFunction
  isAggregate : Bool := false

namespace LibraryFunction

/-- The operator that calls the function; a windowed call may have a frame if it aggregates. -/
def operator (f : LibraryFunction) : Operator :=
  { name := f.name, kind := f.kind, form := .function, isAggregate := f.isAggregate
    allowsFraming := f.isAggregate, libraries := some f.libraries, group := f.group }

/-- The functions that particular libraries define. -/
def catalog : List LibraryFunction :=
  [
    { name := "NVL", libraries := [.oracle, .hive, .spark, .snowflake], group := some "nvl" },
    { name := "IFNULL", libraries := [.bigQuery, .mysql, .snowflake, .spark], group := some "nvl" },
    { name := "COALESCE", libraries := [.standard], group := some "nvl" },
    { name := "IF", libraries := [.bigQuery, .hive, .spark, .mysql], group := some "if" },
    { name := "IFF", libraries := [.snowflake], group := some "if" },
    { name := "DECODE", libraries := [.oracle, .snowflake] },
    { name := "LEN", libraries := [.snowflake], group := some "length" },
    { name := "LENGTH",
      libraries := [.bigQuery, .mysql, .postgres, .spark, .hive, .oracle], group := some "length" },
    { name := "CHAR_LENGTH", libraries := [.standard], group := some "length" },
    { name := "GREATEST",
      libraries := [.oracle, .bigQuery, .mysql, .postgres, .spark, .snowflake] },
    { name := "LEAST", libraries := [.oracle, .bigQuery, .mysql, .postgres, .spark, .snowflake] },
    { name := "DATE_ADD", libraries := [.bigQuery, .hive, .spark], kind := .plus },
    { name := "DATE_SUB", libraries := [.bigQuery, .hive, .spark], kind := .minus },
    { name := "TIMESTAMP_ADD", libraries := [.bigQuery], kind := .plus },
    { name := "TIMESTAMP_SUB", libraries := [.bigQuery], kind := .minus },
    { name := "ADD_MONTHS", libraries := [.hive, .spark, .snowflake, .oracle] },
    { name := "REGEXP_CONTAINS", libraries := [.bigQuery], group := some "regexp_like" },
    { name := "RLIKE", libraries := [.spark, .hive, .snowflake], group := some "regexp_like" },
    { name := "REGEXP_REPLACE",
      libraries := [.mysql, .oracle, .bigQuery, .postgres, .spark, .snowflake] },
    { name := "TO_DATE", libraries := [.postgres, .oracle, .spark, .snowflake] },
    { name := "TO_TIMESTAMP", libraries := [.postgres, .oracle, .snowflake, .spark] },
    { name := "LEFT", libraries := [.mysql, .postgres, .snowflake, .spark] },
    { name := "RIGHT", libraries := [.mysql, .postgres, .snowflake, .spark] },
    { name := "REPEAT", libraries := [.mysql, .postgres, .snowflake, .spark, .hive] },
    { name := "MD5", libraries := [.mysql, .postgres, .bigQuery, .snowflake, .spark] },
    { name := "INSTR", libraries := [.snowflake, .bigQuery, .mysql, .oracle, .spark] },
    { name := "DATE_TRUNC", libraries := [.spark, .bigQuery, .postgres, .snowflake] },
    { name := "BOOL_AND",
      libraries := [.postgres, .snowflake, .spark], group := some "bool_and", isAggregate := true },
    { name := "LOGICAL_AND",
      libraries := [.bigQuery], group := some "bool_and", isAggregate := true },
    { name := "BOOL_OR",
      libraries := [.postgres, .snowflake, .spark], group := some "bool_or", isAggregate := true },
    { name := "LOGICAL_OR",
      libraries := [.bigQuery], group := some "bool_or", isAggregate := true },
    { name := "COUNTIF", libraries := [.bigQuery, .snowflake], isAggregate := true },
    { name := "ARRAY_AGG", libraries := [.postgres, .bigQuery, .snowflake], isAggregate := true },
    { name := "STRING_AGG", libraries := [.postgres, .bigQuery], isAggregate := true }
  ]

end LibraryFunction

namespace Operator

/-- The operators of all library functions, in the order of the catalog. -/
def libraryOperators : List Operator :=
  LibraryFunction.catalog.map (·.operator)

/-- The library function of this name, in whatever letters. -/
def library (name : String) : Except Error Operator :=
  match libraryOperators.find? (·.name == Text.upper name) with
  | some op => .ok op
  | none => .error (.unknownLibraryFunction name)

/-! ## Availability -/

/-- The operator is among the functions that `library` itself defines. -/
def definedBy (op : Operator) (library : Library) : Bool :=
  match op.libraries with
  | some libraries => libraries.contains library
  | none => false

/-- A database with this library knows the operator. -/
def availableIn (op : Operator) (library : Library) : Bool :=
  op.libraries.isNone || op.definedBy .standard || op.definedBy library

/-- The other members of the group of `op`. -/
def alternatives (op : Operator) : List Operator :=
  match op.group with
  | none => []
  | some group => libraryOperators.filter fun c => c.group == some group && c.name != op.name

/-- What to call for `op` in a database with this library, if anything. -/
def substitute (op : Operator) (library : Library) : Option Operator :=
  if op.availableIn library then some op
  else
    (op.alternatives.find? (·.definedBy library)).or (op.alternatives.find? (·.availableIn library))

end Operator

end AlgebraSql
