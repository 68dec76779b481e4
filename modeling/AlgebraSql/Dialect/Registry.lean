import AlgebraSql.Dialect.Basic

/-!
# The known dialects — their records, and finding one by its name.

A dialect is named by a word, in whatever letters, with settings behind it:
`mysql, groupByAlias=false` is the dialect `mysql` without that feature.  The empty name is the
standard dialect.
-/

namespace AlgebraSql.Dialect

/-! ## Records -/

/-- The standard dialect. -/
def ansi : Dialect := { name := "ansi" }

def postgres : Dialect :=
  { name := "postgres"
    capabilities :=
      { nestedAggregates := false, fromAliasRequired := true, library := .postgres }
    style :=
      { limitForm := .limit
        typeNames := [("TINYINT", "SMALLINT"), ("FLOAT", "REAL"), ("DOUBLE", "DOUBLE PRECISION"),
          ("BINARY", "BYTEA"), ("VARBINARY", "BYTEA"),
          ("TIMESTAMP WITH LOCAL TIME ZONE", "TIMESTAMPTZ")] }
    timestampDigits := some 6 }

def mysql : Dialect :=
  { name := "mysql"
    capabilities :=
      { aggregateFilter := false, nestedAggregates := false, aliasedValues := false
        groupingSets := false, fromAliasRequired := true, nullsOrdering := false
        groupByAlias := true, havingAlias := true, nullCollation := .low, library := .mysql }
    style :=
      { nameQuote := '\x60', quoteEscape := .backslash, limitForm := .limit, nullOrdering := false
        typeNames := [("VARCHAR", "CHAR"), ("TINYINT", "SIGNED"), ("SMALLINT", "SIGNED"),
          ("INTEGER", "SIGNED"), ("BIGINT", "SIGNED"), ("BOOLEAN", "SIGNED"),
          ("TIMESTAMP", "DATETIME"), ("VARBINARY", "BINARY")] }
    singlePrecision := some .double }

/-- The functions for adding intervals to dates and timestamps, and for taking them away. -/
def intervalFunctions : List TargetFunction :=
  [⟨.plus, .date, .interval, named "DATE_ADD"⟩, ⟨.minus, .date, .interval, named "DATE_SUB"⟩,
    ⟨.plus, .timestamp, .interval, named "TIMESTAMP_ADD"⟩,
    ⟨.minus, .timestamp, .interval, named "TIMESTAMP_SUB"⟩]
where
  /-- The library function of a name that the catalog holds. -/
  named (name : String) : Operator :=
    match Operator.library name with
    | .ok op => op
    | .error _ => Operator.function name

def bigQuery : Dialect :=
  { name := "bigquery"
    capabilities :=
      { qualify := true, aggregateFilter := false, nestedAggregates := false, nestedWindows := false
        windowInAggregate := false, aliasedValues := false, groupByAlias := true
        havingAlias := true, nullCollation := .low, library := .bigQuery }
    style :=
      { nameQuote := '\x60', quoteEscape := .backslash, limitForm := .limit, plainIntervals := true
        typeNames := [("TINYINT", "INT64"), ("SMALLINT", "INT64"), ("INTEGER", "INT64"),
          ("BIGINT", "INT64"), ("DECIMAL", "NUMERIC"), ("FLOAT", "FLOAT64"), ("REAL", "FLOAT64"),
          ("DOUBLE", "FLOAT64"), ("BOOLEAN", "BOOL"), ("CHAR", "STRING"), ("VARCHAR", "STRING"),
          ("BINARY", "BYTES"), ("VARBINARY", "BYTES"), ("TIMESTAMP", "DATETIME"),
          ("TIMESTAMP WITH LOCAL TIME ZONE", "TIMESTAMP")] }
    targetFunctions := intervalFunctions
    sizedTexts := false
    timestampDigits := some 6 }

def snowflake : Dialect :=
  { name := "snowflake"
    capabilities :=
      { qualify := true, aggregateFilter := false, nestedAggregates := false, groupByAlias := true
        havingAlias := true, library := .snowflake }
    style :=
      { limitForm := .limit
        typeNames := [("TIMESTAMP WITH LOCAL TIME ZONE", "TIMESTAMP_LTZ"),
          ("TIMESTAMP", "TIMESTAMP_NTZ")] } }

def spark : Dialect :=
  { name := "spark"
    capabilities :=
      { nestedAggregates := false, groupByAlias := true, havingAlias := true, nullCollation := .low
        library := .spark }
    style :=
      { nameQuote := '\x60', quoteEscape := .backslash, limitForm := .limit
        typeNames := [("VARCHAR", "STRING"), ("INTEGER", "INT"), ("VARBINARY", "BINARY")] } }

/-- The known dialects in the order of their names. -/
def all : List Dialect := [ansi, bigQuery, mysql, postgres, snowflake, spark]

/-- The names of the known dialects. -/
def names : List String := all.map (·.name)

/-! ## Finding a dialect -/

/-- The dialect of a name, in whatever letters. -/
def named (name : String) : Except Error Dialect :=
  match all.find? (·.name == Text.lower name) with
  | some d => .ok d
  | none => .error (.unknownDialect name)

/-- A text cut at a character, which always leaves a first part. -/
def cut (separator : Char) (s : String) : String × List String :=
  match s.splitOn separator.toString with
  | first :: rest => (first, rest)
  | [] => ("", [])

/-- Reads `key=value`; blanks around either do not count, nor does anything behind a second sign. -/
def readSetting (text : String) : Except Error CapabilitySetting :=
  let (key, rest) := cut '=' text
  CapabilitySetting.read (Text.trim key) (Text.trim (rest.head?.getD ""))

/-- The dialect that a text asks for: a name, then settings. -/
def ofText (text : String) : Except Error Dialect := do
  if Text.trim text == "" then return ansi
  let (name, settings) := cut ',' text
  let dialect ← named (Text.trim name)
  return dialect.withSettings (← settings.mapM readSetting)

end AlgebraSql.Dialect
