import AlgebraSql.Names
import AlgebraSql.Numeric.Decimal

/-!
# Types — the data types of fields and expressions.

A type has a name and, depending on the name, a precision, a scale, an interval qualifier, the
fields of a row or the value type of a search argument.
-/

namespace AlgebraSql

/-! ## Names and families -/

/-- The name of a data type. -/
inductive TypeName where
  | boolean | tinyint | smallint | integer | bigint | decimal | float | real | double
  | char | varchar | binary | varbinary | date | time | timestamp | localTimestamp
  | yearMonthInterval | dayTimeInterval | null | symbol | row | array | map | multiset
  | cursor | sarg | any
  deriving Repr, DecidableEq, Inhabited

/-- A group of types whose values mix. -/
inductive TypeFamily where
  | boolean | numeric | character | binary | date | time | timestamp | interval | null
  | struct | collection | cursor | other
  deriving Repr, DecidableEq, Inhabited

namespace TypeName

/-- All type names. -/
def all : List TypeName :=
  [.boolean, .tinyint, .smallint, .integer, .bigint, .decimal, .float, .real, .double, .char,
    .varchar, .binary, .varbinary, .date, .time, .timestamp, .localTimestamp, .yearMonthInterval,
    .dayTimeInterval, .null, .symbol, .row, .array, .map, .multiset, .cursor, .sarg, .any]

/-- The written form of a type name. -/
def toText : TypeName → String
  | .boolean => "BOOLEAN"
  | .tinyint => "TINYINT"
  | .smallint => "SMALLINT"
  | .integer => "INTEGER"
  | .bigint => "BIGINT"
  | .decimal => "DECIMAL"
  | .float => "FLOAT"
  | .real => "REAL"
  | .double => "DOUBLE"
  | .char => "CHAR"
  | .varchar => "VARCHAR"
  | .binary => "BINARY"
  | .varbinary => "VARBINARY"
  | .date => "DATE"
  | .time => "TIME"
  | .timestamp => "TIMESTAMP"
  | .localTimestamp => "TIMESTAMP_WITH_LOCAL_TIME_ZONE"
  | .yearMonthInterval => "INTERVAL_YEAR_MONTH"
  | .dayTimeInterval => "INTERVAL_DAY_TIME"
  | .null => "NULL"
  | .symbol => "SYMBOL"
  | .row => "ROW"
  | .array => "ARRAY"
  | .map => "MAP"
  | .multiset => "MULTISET"
  | .cursor => "CURSOR"
  | .sarg => "SARG"
  | .any => "ANY"

/-- The type name written as `text`. -/
def ofText? (text : String) : Option TypeName :=
  all.find? (·.toText == text)

/-- The family of a type. -/
def family : TypeName → TypeFamily
  | .boolean => .boolean
  | .tinyint | .smallint | .integer | .bigint | .decimal | .float | .real | .double => .numeric
  | .char | .varchar => .character
  | .binary | .varbinary => .binary
  | .date => .date
  | .time => .time
  | .timestamp | .localTimestamp => .timestamp
  | .yearMonthInterval | .dayTimeInterval => .interval
  | .null => .null
  | .row => .struct
  | .array | .map | .multiset => .collection
  | .cursor => .cursor
  | .symbol | .sarg | .any => .other

/-- Types whose values are floating-point numbers. -/
def isApproximate : TypeName → Bool
  | .float | .real | .double => true
  | _ => false

end TypeName

/-- The written form of a type family. -/
def TypeFamily.toText : TypeFamily → String
  | .boolean => "BOOLEAN"
  | .numeric => "NUMERIC"
  | .character => "CHARACTER"
  | .binary => "BINARY"
  | .date => "DATE"
  | .time => "TIME"
  | .timestamp => "TIMESTAMP"
  | .interval => "INTERVAL"
  | .null => "NULL"
  | .struct => "STRUCT"
  | .collection => "COLLECTION"
  | .cursor => "CURSOR"
  | .other => "OTHER"

/-! ## Types and fields -/

mutual

/-- A data type. -/
structure DataType where
  name : TypeName
  precision : Option Decimal := none
  scale : Option Decimal := none
  /-- Units of an interval, such as `DAY` or `YEAR TO MONTH`. -/
  qualifier : Option String := none
  /-- Fields of a row. -/
  fields : Option (List Field) := none
  /-- Value type of a search argument. -/
  component : Option DataType := none

/-- A named column. -/
structure Field where
  name : String
  type : DataType

end

instance : Inhabited DataType := ⟨{ name := .any }⟩
instance : Inhabited Field := ⟨⟨"", default⟩⟩

/-- The columns of a relation, in order. -/
abbrev RowType := List Field

namespace DataType

/-- The family of a type. -/
def family (t : DataType) : TypeFamily := t.name.family

/-- The type holds texts. -/
def isCharacter (t : DataType) : Bool := t.family == .character

/-! ## Building types -/

/-- A type that is nothing but its name. -/
def plain (name : TypeName) : DataType := { name }

def boolean : DataType := plain .boolean
def integer : DataType := plain .integer
def bigint : DataType := plain .bigint
def double : DataType := plain .double
def any : DataType := plain .any

/-- A decimal number with `precision` digits, `scale` of them behind the point. -/
def decimal (precision : Decimal) (scale : Decimal := 0) : DataType :=
  { name := .decimal, precision := some precision, scale := some scale }

/-- A text of fixed length. -/
def char (precision : Decimal) : DataType :=
  { name := .char, precision := some precision }

/-- A text of bounded length, or of any length. -/
def varchar (precision : Option Decimal := none) : DataType :=
  { name := .varchar, precision }

/-- The name of the timestamp type with or without a local time zone. -/
def timestampName (localZone : Bool) : TypeName :=
  if localZone then .localTimestamp else .timestamp

/-- A point in time with `precision` digits of a second. -/
def timestamp (precision : Decimal := 0) (localZone : Bool := false) : DataType :=
  { name := timestampName localZone, precision := some precision }

/-- The name of the interval type with this qualifier: months are counted apart from days. -/
def intervalName (qualifier : String) : TypeName :=
  if "YEAR".toList.isPrefixOf qualifier.toList || "MONTH".toList.isPrefixOf qualifier.toList then
    .yearMonthInterval
  else .dayTimeInterval

/-- A span of time in the units of its qualifier. -/
def interval (qualifier : String) : DataType :=
  { name := intervalName qualifier, qualifier := some qualifier }

/-- A row of fields. -/
def row (fields : List Field) : DataType :=
  { name := .row, fields := some fields }

end DataType

/-! ## Row types -/

namespace RowType

/-- The names of the columns. -/
def names (fields : RowType) : List String := fields.map (·.name)

/-- The same columns, renamed by numeric suffixes so that no two names agree. -/
def unique (fields : RowType) : RowType :=
  List.zipWith (fun field name => { field with name }) fields
    (UsedNames.uniquifyAll [] fields.names).1

end RowType

end AlgebraSql
