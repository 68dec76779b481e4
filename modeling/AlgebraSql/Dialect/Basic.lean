import AlgebraSql.Algebra.Relation
import AlgebraSql.Dialect.Capabilities
import AlgebraSql.Render.Node
import AlgebraSql.Sql.Build
import AlgebraSql.Text.Blank
import AlgebraSql.Text.Fraction

/-!
# Dialects — what a target database understands and how it is written.

A dialect is a record: its name, its capabilities, its style, and the few places where it writes
types, times or operators in a way of its own.  Everything else about a dialect is computed from
that record.
-/

namespace AlgebraSql

open Sql

/-- A sum or difference of operands of two families that is written as a function. -/
structure TargetFunction where
  kind : OperatorKind
  left : TypeFamily
  right : TypeFamily
  operator : Operator

/-- A target database. -/
structure Dialect where
  name : String
  capabilities : Capabilities := {}
  style : Render.Style := {}
  /-- Wishes about rendering that hold unless the caller has others. -/
  options : Render.Options := {}
  targetFunctions : List TargetFunction := []
  /-- Types of texts and binary data take a length. -/
  sizedTexts : Bool := true
  /-- The type to write for single-precision numbers, if not their own. -/
  singlePrecision : Option TypeName := none
  /-- The most digits that a timestamp keeps of a second. -/
  timestampDigits : Option Decimal := none

namespace Dialect

/-! ## Capabilities -/

/-- The dialect with changed capabilities. -/
def withSettings (d : Dialect) (settings : List CapabilitySetting) : Dialect :=
  { d with capabilities := settings.foldl CapabilitySetting.apply d.capabilities }

/-! ## Rendering -/

/-- How the dialect writes nodes for a caller. -/
def setting (d : Dialect) (options : Render.Options := {}) : Render.Setting :=
  { style := d.style, options := options.withDefaults d.options, dialect := d.name }

/-- The text of a statement in the dialect. -/
def render (d : Dialect) (n : Node) (options : Render.Options := {}) : Render.RenderM String :=
  Render.render (d.setting options) n

/-! ## Rows without a value -/

/-- Where rows without a value go when a sort key does not say. -/
def defaultPlacement (d : Dialect) (direction : Direction) : NullPlacement :=
  match d.capabilities.nullCollation with
  | .high => NullPlacement.high direction
  | .low =>
    match direction with
    | .descending => .last
    | .ascending => .first
  | .first => .first
  | .last => .last

/-- Rows without a value go where `nullsFirst` wants them anyway. -/
def isDefaultPlacement (d : Dialect) (nullsFirst descending : Bool) : Bool :=
  match d.capabilities.nullCollation with
  | .high => nullsFirst == descending
  | .low => nullsFirst == !descending
  | .first => nullsFirst
  | .last => !nullsFirst

/-- A sort key that puts rows without a value where they should be, for a dialect that has no words
for it; nothing if they are there anyway. -/
def emulatePlacement (d : Dialect) (n : Node) (nullsFirst descending : Bool) : Option Node :=
  if d.capabilities.nullsOrdering || d.isDefaultPlacement nullsFirst descending then none
  else if nullsFirst then
    some (.mk .ordered [("this", .node (Node.isNull n)), ("desc", .flag true)])
  else some (Node.isNull n)

/-! ## Literals -/

/-- `DATE 'text'` -/
def dateLiteral (text : String) : Node := Node.typedLiteral "DATE" text

/-- `TIME 'text'` -/
def timeLiteral (text : String) (precision : Decimal) : Node :=
  Node.typedLiteral "TIME" (Text.withPrecision text precision)

/-- The smaller of two numbers. -/
def atMost (limit : Option Decimal) (n : Decimal) : Decimal :=
  match limit with
  | some m => if n.compare m == .gt then m else n
  | none => n

/-- `TIMESTAMP 'text'` -/
def timestampLiteral (d : Dialect) (text : String) (precision : Decimal) : Node :=
  Node.typedLiteral "TIMESTAMP" (Text.withPrecision text (atMost d.timestampDigits precision))

/-! ## Types -/

/-- The parameters of a type with a length. -/
def lengthParams (d : Dialect) (type : DataType) : List String :=
  if d.sizedTexts then (type.precision.map (·.toText)).toList else []

/-- The node that names a type in a conversion. -/
def typeSpec (d : Dialect) (type : DataType) : Node :=
  match type.name with
  | .char | .varchar | .binary | .varbinary => Node.dataType type.name.toText (d.lengthParams type)
  | .decimal =>
    Node.dataType "DECIMAL"
      (match type.precision with
       | some p => [p.toText, (type.scale.getD 0).toText]
       | none => [])
  | .localTimestamp => Node.dataType "TIMESTAMP WITH LOCAL TIME ZONE"
  | .yearMonthInterval | .dayTimeInterval =>
    Node.dataType (Text.trim ("INTERVAL " ++ type.qualifier.getD ""))
  | .float | .real => Node.dataType ((d.singlePrecision.getD type.name).toText)
  | name => Node.dataType name.toText

/-- A node converted to a type. -/
def castNode (d : Dialect) (n : Node) (type : DataType) : Node :=
  .mk .cast [("this", .node n), ("to", .node (d.typeSpec type))]

/-- A conversion of these operands may be left to the database in a comparison. -/
def coerces {ρ : Type} (d : Dialect) (operands : List (Scalar ρ)) : Bool :=
  d.capabilities.implicitCoercion && operands.head?.any (·.type.isCharacter)

/-! ## Operators -/

/-- The operator to write for a sum or difference of operands of these types. -/
def targetFunction (d : Dialect) (op : Operator) (types : List DataType) : Operator :=
  match types with
  | left :: right :: _ =>
    match d.targetFunctions.find? fun f =>
        f.kind == op.kind && f.left == left.family && f.right == right.family with
    | some f => f.operator
    | none => op
  | _ => op

/-- The operator to write for a function call: an equivalent one if the dialect lacks it. -/
def availableFunction (d : Dialect) (op : Operator) : Except Error Operator :=
  match op.substitute d.capabilities.library with
  | some op => .ok op
  | none => .error (.unsupportedFunction op.name d.name)

/-- The operator actually written for a call of `op` on operands of these types. -/
def retarget (d : Dialect) (op : Operator) (types : List DataType) : Except Error Operator :=
  match op.kind with
  | .sumOrZero => .ok Operator.sum
  | .plus | .minus => .ok (d.targetFunction op types)
  | .otherFunction => d.availableFunction op
  | _ => .ok op

end Dialect

end AlgebraSql
