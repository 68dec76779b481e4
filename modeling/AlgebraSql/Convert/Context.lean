import AlgebraSql.Dialect.Registry
import AlgebraSql.Sql.FromItem

/-!
# Contexts — what the fields of an input are called in a query.

An expression refers to fields by position.  A context turns a position into a node: a column of one
of several named inputs, an item of the select list that is being extended, or the whole input of a
table function.  Fields are named differently where the query sorts or groups by them.
-/

namespace AlgebraSql.Convert

open Sql

/-- The inputs of a query by name, with their columns; positions run across them. -/
abbrev Aliases := OrderedMap RowType

/-- What does not change while a plan is converted. -/
structure Env where
  dialect : Dialect
  /-- What to write for a field of a given name in small letters. -/
  fieldMap : OrderedMap Node := []

/-- What to write for a field of this name, if anything but the name. -/
def Env.mapped? (env : Env) (name : String) : Option Node :=
  env.fieldMap.get? (Text.lower name)

/-- The same environment with something to write for the fields of a name. -/
def Env.mapField (env : Env) (name : String) (n : Node) : Env :=
  { env with fieldMap := env.fieldMap.put (Text.lower name) n }

/-- What fields are called. -/
inductive Context where
  /-- Columns of named inputs, with the name of the input in front if `qualified`. -/
  | aliases (inputs : Aliases) (qualified : Bool)
  /-- The same inside a row pattern, where a text names a pattern variable. -/
  | rowPattern (inputs : Aliases) (qualified : Bool)
  /-- The fields of two contexts, one after the other. -/
  | join (left right : Context)
  /-- Whole inputs of a table function. -/
  | tableFunction (inputs : List Node)
  /-- Items of a select list, by their name if `aliasRef`. -/
  | selectList (items : List Node) (aliasRef groupByAlias : Bool)

namespace Context

/-! ## Positions -/

/-- The number of fields of named inputs. -/
def width : Aliases → Nat
  | [] => 0
  | (_, fields) :: rest => fields.length + width rest

/-- The number of fields. -/
def fieldCount : Context → Nat
  | .aliases inputs _ => width inputs
  | .rowPattern inputs _ => width inputs
  | .join left right => left.fieldCount + right.fieldCount
  | .tableFunction inputs => inputs.length
  | .selectList items _ _ => items.length

/-- The input that owns the field at a position, and the field. -/
def owner? : Aliases → Nat → Option (String × Field)
  | [], _ => none
  | (aliasName, fields) :: rest, i =>
    match fields[i]? with
    | some f => some (aliasName, f)
    | none => owner? rest (i - fields.length)

/-- The complaint about a position outside the fields. -/
def outOfRange (ctx : Context) (ordinal : Ordinal) : Error :=
  .ordinalOutOfRange ordinal ctx.fieldCount

/-! ## Fields -/

/-- The column at a position of named inputs, or what is written for it. -/
def aliasField (env : Env) (inputs : Aliases) (qualified : Bool) (ordinal : Ordinal) :
    Except Error Node :=
  match ordinal.nat? with
  | some i =>
    match owner? inputs i with
    | some (aliasName, f) =>
      let table := if qualified then some aliasName else none
      .ok ((env.mapped? f.name).getD (Node.column f.name table))
    | none => .error (.ordinalOutOfRange ordinal (width inputs))
  | none => .error (.ordinalOutOfRange ordinal (width inputs))

/-- A select item as an expression: its name, or what it computes. -/
def itemField (aliasRef : Bool) (ordinal : Ordinal) (item : Node) : Except Error Node :=
  if item.is .aliased then
    if aliasRef then .ok (Node.column item.aliasName)
    else
      match item.this? with
      | some inner => .ok inner
      | none => .error (.emptySelectItem ordinal)
  else .ok item

/-- The node for a field. -/
def field (env : Env) (ctx : Context) (ordinal : Ordinal) : Except Error Node :=
  match ctx with
  | .aliases inputs qualified => aliasField env inputs qualified ordinal
  | .rowPattern inputs qualified => aliasField env inputs qualified ordinal
  | .join left right =>
    match ordinal.nat? with
    | some i =>
      if i < left.fieldCount then left.field env i
      else if i < left.fieldCount + right.fieldCount then
        right.field env (i - left.fieldCount : Nat)
      else .error (.ordinalOutOfRange ordinal (left.fieldCount + right.fieldCount))
    | none => .error (.ordinalOutOfRange ordinal (left.fieldCount + right.fieldCount))
  | .tableFunction inputs =>
    match nth? inputs ordinal with
    | some input => .ok input
    | none => .error (.ordinalOutOfRange ordinal inputs.length)
  | .selectList items aliasRef _ =>
    match nth? items ordinal with
    | some item => itemField aliasRef ordinal item
    | none => .error (.ordinalOutOfRange ordinal items.length)

/-- Another item than the one with `n` before it is known by a name in small letters. -/
def isShadowed (items : List Node) (n : Nat) (name : String) : Bool :=
  items.zipIdx.any fun (item, i) => i != n && (item.aliasOf?.map Text.lower) == some name

/-- The item with `i` before it as a sort key of a select list.  A number would be read as a
position, so a text takes its place, and a name that another item has too gives way to the item's
position. -/
def sortKeyOf (items : List Node) (i : Nat) (n : Node) : Node :=
  if n.is .literal && !n.isString then Node.string (n.text "this")
  else if n.is .column && n.table == "" && isShadowed items i (Text.lower n.name) then
    Node.number (toString (i + 1))
  else n

/-- The node for a field in ORDER BY. -/
def orderField (env : Env) (ctx : Context) (ordinal : Ordinal) : Except Error Node :=
  match ctx with
  | .selectList items _ _ => do
    let n ← ctx.field env ordinal
    return (ordinal.nat?.map fun i => sortKeyOf items i n).getD n
  | _ => ctx.field env ordinal

/-- An item that computes something, and so may be grouped by its name. -/
def isComputed (item : Node) : Bool :=
  item.is .aliased && !(item.this?.any (·.is .column))

/-- The node for a field in GROUP BY. -/
def groupField (env : Env) (ctx : Context) (ordinal : Ordinal) : Except Error Node :=
  match ctx with
  | .selectList items _ true =>
    match nth? items ordinal with
    | some item =>
      if isComputed item then .ok (Node.column item.aliasName) else ctx.field env ordinal
    | none => ctx.field env ordinal
  | _ => ctx.field env ordinal

end Context

end AlgebraSql.Convert
