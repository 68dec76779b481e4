import AlgebraSql.Convert.Context

/-!
# State — what a conversion remembers from one relation to the next.

A conversion keeps the names that it has given away, the contexts of the enclosing relations to
which sub-queries may refer, and whether the last result is a table that shares its name with one of
its columns.  A conversion that fails keeps the state it had reached.
-/

namespace AlgebraSql.Convert

/-- The memory of a conversion. -/
structure State where
  usedNames : UsedNames := []
  /-- The fields of enclosing relations. -/
  correlations : OrderedMap Context := []
  /-- The table of the last result shares its name with one of its columns. -/
  tableNamedAsColumn : Bool := false

/-- A step of a conversion. -/
abbrev ConvertM := ExceptT Error (StateM State)

/-- A name that nothing else has, starting with the given one; it is taken from then on. -/
def freshName (name : String) : ConvertM String := do
  let (chosen, used) := (← get).usedNames.uniquify name
  modify fun s => { s with usedNames := used }
  return chosen

/-- The name that the next unnamed item will get; it stays free. -/
def nextName : ConvertM String := do
  return (← get).usedNames.unique "t"

/-- A table shares its name with one of its columns, and the dialect objects to that. -/
def Env.nameClash (env : Env) (s : State) : Bool :=
  s.tableNamedAsColumn && !env.dialect.capabilities.columnNamedAsTable

/-- Fields have to be qualified even if there is only one input. -/
def Env.mustQualify (env : Env) (s : State) : Bool :=
  !env.dialect.capabilities.implicitTableAlias || env.nameClash s

/-- Makes the fields of named inputs known under the ids of correlation variables. -/
def registerCorrelations (ids : List String) (inputs : Aliases) : ConvertM Unit :=
  modify fun s =>
    { s with correlations := s.correlations.putAll (ids.map fun id => (id, .aliases inputs true)) }

/-- The fields known under the id of a correlation variable. -/
def correlated (id : String) : ConvertM Context := do
  match (← get).correlations.get? id with
  | some ctx => return ctx
  | none => throw (.unknownCorrelation id)

end AlgebraSql.Convert
