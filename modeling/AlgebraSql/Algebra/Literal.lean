import AlgebraSql.Numeric.PlainText
import AlgebraSql.RangeSet.Basic

/-!
# Literals — constants of a plan, each with its type.

Numbers are kept as plain decimal text, times and dates as written, and binary data as capital
hexadecimal digits.  `Literal.ofValue` turns the endpoint of a range into a literal of a given type.
-/

namespace AlgebraSql

mutual

/-- What a literal stands for. -/
inductive LiteralValue where
  | null
  | character (text : String)
  | exact (text : String)
  | approximate (text : String)
  | boolean (value : Bool)
  | interval (text : String) (negative : Bool) (qualifier : String)
  | date (text : String)
  | time (text : String)
  | timestamp (text : String)
  | binary (digits : String)
  | symbol (word : String)
  | row (values : List Literal)
  | sarg (sarg : Sarg)

/-- A constant with its type. -/
structure Literal where
  value : LiteralValue
  type : DataType

end

instance : Inhabited Literal := ⟨⟨.null, DataType.plain .null⟩⟩

namespace LiteralValue

/-- The word for the sort of a value. -/
def sortName : LiteralValue → String
  | .null => "null"
  | .character _ => "character"
  | .exact _ => "exact"
  | .approximate _ => "approx"
  | .boolean _ => "boolean"
  | .interval .. => "interval"
  | .date _ => "date"
  | .time _ => "time"
  | .timestamp _ => "timestamp"
  | .binary _ => "binary"
  | .symbol _ => "symbol"
  | .row _ => "row"
  | .sarg _ => "sarg"

/-- The text that a value is kept as. -/
def text? : LiteralValue → Option String
  | .character s | .exact s | .approximate s | .interval s _ _ | .date s | .time s | .timestamp s
  | .binary s | .symbol s => some s
  | .null | .boolean _ | .row _ | .sarg _ => none

end LiteralValue

namespace Literal

/-! ## Building literals -/

def null (type : DataType := DataType.plain .null) : Literal := ⟨.null, type⟩

/-- A text, which has the fixed length of its own units unless a type is given. -/
def char (text : String) (type : Option DataType := none) : Literal :=
  ⟨.character text, type.getD (DataType.char (Decimal.ofInt (Text.length16 text)))⟩

/-- An exact number, in plain digits. -/
def exact (value : Value) (type : DataType := DataType.integer) : Literal :=
  ⟨.exact (plainText value.toText), type⟩

/-- A floating-point number, in plain digits. -/
def approximate (value : Value) (type : DataType := DataType.double) : Literal :=
  ⟨.approximate (plainText value.toText), type⟩

def boolean (value : Bool) : Literal := ⟨.boolean value, DataType.boolean⟩

def date (text : String) : Literal := ⟨.date text, DataType.plain .date⟩

def time (text : String) (precision : Decimal := 0) : Literal :=
  ⟨.time text, { name := .time, precision := some precision }⟩

def timestamp (text : String) (precision : Decimal := 0) (localZone : Bool := false) : Literal :=
  ⟨.timestamp text, DataType.timestamp precision localZone⟩

/-- A span of time; `text` is what stands between the quotes. -/
def interval (text qualifier : String) (negative : Bool := false) : Literal :=
  ⟨.interval text negative qualifier, DataType.interval qualifier⟩

/-- Binary data; two hexadecimal digits are one byte. -/
def binary (digits : String) : Literal :=
  ⟨.binary (Text.upper digits),
    { name := .binary, precision := some ⟨5 * Text.length16 digits, 1⟩ }⟩

def symbol (word : String) : Literal := ⟨.symbol word, DataType.plain .symbol⟩

/-- The name of an expression that nobody named. -/
def unnamed (i : Nat) : String := "EXPR$" ++ toString i

/-- A row of constants. -/
def row (values : List Literal) : Literal :=
  ⟨.row values, DataType.row (values.zipIdx.map fun (v, i) => ⟨unnamed i, v.type⟩)⟩

/-- A search argument, with the type of the values searched for. -/
def sarg (sarg : Sarg) (component : Option DataType) : Literal :=
  ⟨.sarg sarg, { name := .sarg, component }⟩

/-- The number that a truth value counts for; any other value is itself. -/
def countingFlag : Value → Value
  | .flag b => .integer b.toNat
  | v => v

/-- A literal of a given type that holds a range endpoint. -/
def ofValue (value : Value) (type : DataType) : Except Error Literal :=
  let text := value.toText
  match type.family with
  | .character => .ok (char text (some type))
  | .boolean => .ok (boolean (text == "true"))
  | .date => .ok (date text)
  | .time => .ok (time text (type.precision.getD 0))
  | .timestamp => .ok ⟨.timestamp text, type⟩
  | .numeric =>
    .ok (if type.name.isApproximate then approximate value type
         else exact (countingFlag value) type)
  | _ => .error (.noLiteralOfType type.name value)

/-! ## Questions -/

/-- The literal is the truth value `TRUE`. -/
def isTrue (l : Literal) : Bool :=
  match l.value with
  | .boolean b => b
  | _ => false

end Literal

end AlgebraSql
