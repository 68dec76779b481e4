import AlgebraSql.Operator.Library

/-!
# Capabilities — what a dialect understands.

Most capabilities are features that a dialect has or lacks.  The others say where rows without a
value sort, how a full product is written, and which library of functions is at hand.  A capability
is changed by a setting, and settings can be read from text.
-/

namespace AlgebraSql

/-- Where rows without a value go when a sort key does not say. -/
inductive NullCollation where
  | high | low | first | last
  deriving Repr, DecidableEq, Inhabited

/-- The written form. -/
def NullCollation.toText : NullCollation → String
  | .high => "high"
  | .low => "low"
  | .first => "first"
  | .last => "last"

/-- How a product of two FROM items is written. -/
inductive CrossJoinStyle where
  | cross | comma
  deriving Repr, DecidableEq, Inhabited

/-- The written form. -/
def CrossJoinStyle.toText : CrossJoinStyle → String
  | .cross => "CROSS"
  | .comma => "COMMA"

/-- What a dialect understands. -/
structure Capabilities where
  /-- A query may filter by windowed calls. -/
  qualify : Bool := false
  /-- `AGG(x) FILTER (WHERE …)` is understood. -/
  aggregateFilter : Bool := true
  /-- An aggregate may stand inside another one. -/
  nestedAggregates : Bool := true
  /-- An aggregate may stand in GROUP BY. -/
  aggregateInGroupBy : Bool := true
  /-- A windowed call may stand inside another one. -/
  nestedWindows : Bool := true
  /-- A windowed call may stand inside an aggregate. -/
  windowInAggregate : Bool := true
  /-- `(VALUES …) AS t (a, b)` is understood. -/
  aliasedValues : Bool := true
  /-- ROLLUP, CUBE and GROUPING SETS are understood. -/
  groupingSets : Bool := true
  /-- A sub-query in FROM needs an alias. -/
  fromAliasRequired : Bool := false
  /-- `FROM emp` can be referred to as `emp`. -/
  implicitTableAlias : Bool := true
  /-- A table may share its name with one of its columns. -/
  columnNamedAsTable : Bool := true
  /-- Texts are converted in comparisons. -/
  implicitCoercion : Bool := true
  /-- A sort key may say NULLS FIRST or NULLS LAST. -/
  nullsOrdering : Bool := true
  /-- GROUP BY may use the names of select items. -/
  groupByAlias : Bool := false
  /-- HAVING may use the names of select items. -/
  havingAlias : Bool := false
  /-- ORDER BY may use the names of select items. -/
  sortByAlias : Bool := true
  nullCollation : NullCollation := .high
  crossJoin : CrossJoinStyle := .cross
  library : Library := .standard
  deriving Repr, DecidableEq, Inhabited

/-! ## Settings -/

/-- A capability that a dialect has or lacks. -/
inductive Feature where
  | qualify | aggregateFilter | nestedAggregates | aggregateInGroupBy | nestedWindows
  | windowInAggregate | aliasedValues | groupingSets | fromAliasRequired | implicitTableAlias
  | columnNamedAsTable | implicitCoercion | nullsOrdering | groupByAlias | havingAlias
  | sortByAlias
  deriving Repr, DecidableEq

namespace Feature

/-- All features. -/
def all : List Feature :=
  [.qualify, .aggregateFilter, .nestedAggregates, .aggregateInGroupBy, .nestedWindows,
    .windowInAggregate, .aliasedValues, .groupingSets, .fromAliasRequired, .implicitTableAlias,
    .columnNamedAsTable, .implicitCoercion, .nullsOrdering, .groupByAlias, .havingAlias,
    .sortByAlias]

/-- The key of a feature in a setting. -/
def key : Feature → String
  | .qualify => "supportsQualify"
  | .aggregateFilter => "supportsAggregateFilter"
  | .nestedAggregates => "supportsNestedAggregations"
  | .aggregateInGroupBy => "supportsAggInGroupBy"
  | .nestedWindows => "supportsNestedAnalyticalFunctions"
  | .windowInAggregate => "supportsAnalyticalFunctionInAggregate"
  | .aliasedValues => "supportsAliasedValues"
  | .groupingSets => "supportsGroupingSets"
  | .fromAliasRequired => "requiresAliasForFromItems"
  | .implicitTableAlias => "hasImplicitTableAlias"
  | .columnNamedAsTable => "supportsIdenticalTableAndColumnName"
  | .implicitCoercion => "supportsImplicitTypeCoercion"
  | .nullsOrdering => "supportsNullsOrdering"
  | .groupByAlias => "groupByAlias"
  | .havingAlias => "havingAlias"
  | .sortByAlias => "sortByAlias"

/-- A dialect has the feature. -/
def get (c : Capabilities) : Feature → Bool
  | .qualify => c.qualify
  | .aggregateFilter => c.aggregateFilter
  | .nestedAggregates => c.nestedAggregates
  | .aggregateInGroupBy => c.aggregateInGroupBy
  | .nestedWindows => c.nestedWindows
  | .windowInAggregate => c.windowInAggregate
  | .aliasedValues => c.aliasedValues
  | .groupingSets => c.groupingSets
  | .fromAliasRequired => c.fromAliasRequired
  | .implicitTableAlias => c.implicitTableAlias
  | .columnNamedAsTable => c.columnNamedAsTable
  | .implicitCoercion => c.implicitCoercion
  | .nullsOrdering => c.nullsOrdering
  | .groupByAlias => c.groupByAlias
  | .havingAlias => c.havingAlias
  | .sortByAlias => c.sortByAlias

/-- The capabilities with or without the feature. -/
def set (c : Capabilities) (b : Bool) : Feature → Capabilities
  | .qualify => { c with qualify := b }
  | .aggregateFilter => { c with aggregateFilter := b }
  | .nestedAggregates => { c with nestedAggregates := b }
  | .aggregateInGroupBy => { c with aggregateInGroupBy := b }
  | .nestedWindows => { c with nestedWindows := b }
  | .windowInAggregate => { c with windowInAggregate := b }
  | .aliasedValues => { c with aliasedValues := b }
  | .groupingSets => { c with groupingSets := b }
  | .fromAliasRequired => { c with fromAliasRequired := b }
  | .implicitTableAlias => { c with implicitTableAlias := b }
  | .columnNamedAsTable => { c with columnNamedAsTable := b }
  | .implicitCoercion => { c with implicitCoercion := b }
  | .nullsOrdering => { c with nullsOrdering := b }
  | .groupByAlias => { c with groupByAlias := b }
  | .havingAlias => { c with havingAlias := b }
  | .sortByAlias => { c with sortByAlias := b }

/-- A feature that is set is what it was set to. -/
@[simp] theorem get_set_self (c : Capabilities) (b : Bool) (f : Feature) :
    f.get (f.set c b) = b := by
  cases f <;> rfl

end Feature

/-- A changed capability. -/
inductive CapabilitySetting where
  | feature (f : Feature) (b : Bool)
  | nullCollation (c : NullCollation)
  | crossJoin (s : CrossJoinStyle)
  | library (l : Library)
  deriving Repr, DecidableEq

namespace CapabilitySetting

/-- The capabilities after a change. -/
def apply (c : Capabilities) : CapabilitySetting → Capabilities
  | .feature f b => f.set c b
  | .nullCollation n => { c with nullCollation := n }
  | .crossJoin s => { c with crossJoin := s }
  | .library l => { c with library := l }

/-- A truth value by its word. -/
def flag? : String → Option Bool
  | "true" => some true
  | "false" => some false
  | _ => none

/-- A null collation by its word. -/
def nullCollation? (value : String) : Option NullCollation :=
  [NullCollation.high, .low, .first, .last].find? (·.toText == value)

/-- A way to write products by its word. -/
def crossJoin? (value : String) : Option CrossJoinStyle :=
  [CrossJoinStyle.cross, .comma].find? (·.toText == value)

/-- The setting `key=value`, if the key is known and the value fits. -/
def read? (key value : String) : Option CapabilitySetting :=
  match Feature.all.find? (·.key == key) with
  | some f => (flag? value).map (.feature f)
  | none =>
    match key with
    | "nullCollation" => (nullCollation? value).map .nullCollation
    | "crossJoinStyle" => (crossJoin? value).map .crossJoin
    | "library" => (Library.ofText? value).map .library
    | _ => none

/-- The setting `key=value`, or a complaint about it. -/
def read (key value : String) : Except Error CapabilitySetting :=
  match read? key value with
  | some setting => .ok setting
  | none => .error (.invalidSetting key value)

end CapabilitySetting

end AlgebraSql
