import AlgebraSql.Algebra.Literal
import AlgebraSql.Operator.Library
import AlgebraSql.Ordinal

/-!
# Scalar expressions — what a plan computes for one row.

Expressions refer to the fields of their input by position.  The type `Scalar ρ` leaves open what a
relation is: a sub-query holds a value of `ρ`.  So everything that is said about expressions alone
is said without relations, and the algebra closes the knot by `ρ := Rel`.
-/

namespace AlgebraSql

/-! ## Sort keys, frames and windows -/

/-- The direction of a sort key. -/
inductive Direction where
  | ascending | descending
  deriving Repr, DecidableEq, Inhabited

/-- Where rows without a value go. -/
inductive NullPlacement where
  | first | last | unspecified
  deriving Repr, DecidableEq, Inhabited

/-- The written form of a direction. -/
def Direction.toText : Direction → String
  | .ascending => "ASC"
  | .descending => "DESC"

/-- The direction written as `text`. -/
def Direction.ofText? (text : String) : Option Direction :=
  [Direction.ascending, .descending].find? (·.toText == text)

/-- The written form of a placement. -/
def NullPlacement.toText : NullPlacement → String
  | .first => "FIRST"
  | .last => "LAST"
  | .unspecified => "UNSPECIFIED"

/-- The placement written as `text`. -/
def NullPlacement.ofText? (text : String) : Option NullPlacement :=
  [NullPlacement.first, .last, .unspecified].find? (·.toText == text)

/-- A sort key: what is compared, which way, and where rows without a value go. -/
structure SortKey (α : Type) where
  key : α
  direction : Direction
  nulls : NullPlacement
  deriving Repr, DecidableEq, Inhabited

/-- A sort key over an input field. -/
abbrev Collation := SortKey Ordinal

/-- Missing values count as the largest unless a sort key says otherwise. -/
def NullPlacement.high : Direction → NullPlacement
  | .ascending => .last
  | .descending => .first

/-- A sort key with the usual direction and placement where none is given. -/
def SortKey.of {α : Type} (key : α) (direction : Direction := .ascending)
    (nulls : Option NullPlacement := none) : SortKey α :=
  ⟨key, direction, nulls.getD (NullPlacement.high direction)⟩

/-- One end of a window frame. -/
inductive Bound (α : Type) where
  | unboundedPreceding
  | unboundedFollowing
  | currentRow
  | preceding (offset : α)
  | following (offset : α)

/-- The word for the sort of a bound. -/
def Bound.sortName {α : Type} : Bound α → String
  | .unboundedPreceding => "unboundedPreceding"
  | .unboundedFollowing => "unboundedFollowing"
  | .currentRow => "currentRow"
  | .preceding _ => "preceding"
  | .following _ => "following"

/-- A window frame, counted in rows or by the range of the sort key. -/
structure Frame (α : Type) where
  rows : Bool := false
  lower : Option (Bound α) := none
  upper : Option (Bound α) := none

/-- A window: how rows are grouped, ordered and framed. -/
structure Window (α : Type) where
  partition : List α := []
  order : List (SortKey α) := []
  frame : Frame α := {}

/-! ## Expressions -/

/-- A scalar expression over relations of type `ρ`. -/
inductive Scalar (ρ : Type) where
  /-- A field of the input. -/
  | inputRef (index : Ordinal) (type : DataType)
  /-- An entry of a shared list of expressions. -/
  | localRef (index : Ordinal) (shared : List (Scalar ρ)) (type : DataType)
  | literal (literal : Literal)
  | call (op : Operator) (operands : List (Scalar ρ)) (type : DataType)
  /-- An aggregate or ranking function over a window. -/
  | overWindow (op : Operator) (operands : List (Scalar ρ)) (window : Window (Scalar ρ))
      (distinct : Bool) (type : DataType)
  /-- A field of a row value. -/
  | fieldAccess (row : Scalar ρ) (field : String) (index : Nat) (type : DataType)
  /-- The current row of an enclosing relation. -/
  | correlation (id : String) (type : DataType)
  | subQuery (op : Operator) (operands : List (Scalar ρ)) (relation : ρ) (type : DataType)
  | parameter (index : Ordinal) (type : DataType)
  /-- A field of the rows that a pattern variable stands for. -/
  | patternField (symbol : String) (index : Ordinal) (type : DataType)

instance {ρ : Type} : Inhabited (Scalar ρ) := ⟨.literal default⟩

namespace Scalar

variable {ρ : Type}

/-- The type of an expression. -/
def type : Scalar ρ → DataType
  | .inputRef _ t => t
  | .localRef _ _ t => t
  | .literal l => l.type
  | .call _ _ t => t
  | .overWindow _ _ _ _ t => t
  | .fieldAccess _ _ _ t => t
  | .correlation _ t => t
  | .subQuery _ _ _ t => t
  | .parameter _ t => t
  | .patternField _ _ t => t

/-- The operator of a call, a windowed call or a sub-query. -/
def operator? : Scalar ρ → Option Operator
  | .call op _ _ => some op
  | .overWindow op _ _ _ _ => some op
  | .subQuery op _ _ _ => some op
  | _ => none

/-- The word for the shape of an expression. -/
def shapeName : Scalar ρ → String
  | .inputRef .. => "inputRef"
  | .localRef .. => "localRef"
  | .literal .. => "literal"
  | .call .. => "call"
  | .overWindow .. => "over"
  | .fieldAccess .. => "fieldAccess"
  | .correlation .. => "correlVariable"
  | .subQuery .. => "subQuery"
  | .parameter .. => "dynamicParam"
  | .patternField .. => "patternFieldRef"

/-- The kind of an expression: that of its operator if it has one, otherwise its shape. -/
def kindName (e : Scalar ρ) : String :=
  match e.operator? with
  | some op => op.kind.toText
  | none => e.shapeName

/-! ## Building expressions -/

/-- The type of the first expression of a list. -/
def firstType (es : List (Scalar ρ)) (fallback : DataType) : DataType :=
  (es.head?.map type).getD fallback

/-- A reference into a shared list, which has to reach an entry. -/
def local? (index : Ordinal) (shared : List (Scalar ρ)) : Except Error (Scalar ρ) :=
  match nth? shared index with
  | some e => .ok (.localRef index shared e.type)
  | none => .error (.localRefOutOfRange index shared.length)

/-- The type of a call when none is given. -/
def callType (op : Operator) (operands : List (Scalar ρ)) : DataType :=
  if op.isPredicate then DataType.boolean else firstType operands DataType.any

/-- A call of an operator. -/
def apply (op : Operator) (operands : List (Scalar ρ)) (type : Option DataType := none) :
    Scalar ρ :=
  .call op operands (type.getD (callType op operands))

/-- An expression converted to a type. -/
def castTo (operand : Scalar ρ) (type : DataType) : Scalar ρ :=
  apply Operator.cast [operand] (some type)

/-- The test whether a search argument accepts the value of an expression. -/
def searched (operand : Scalar ρ) (sarg : Sarg) : Scalar ρ :=
  apply Operator.search [operand, .literal (Literal.sarg sarg (some operand.type))]

def not (operand : Scalar ρ) : Scalar ρ := apply Operator.not [operand]
def and (operands : List (Scalar ρ)) : Scalar ρ := apply Operator.and operands
def or (operands : List (Scalar ρ)) : Scalar ρ := apply Operator.or operands
def equals (left right : Scalar ρ) : Scalar ρ := apply Operator.equals [left, right]

/-- A windowed call. -/
def windowed (op : Operator) (operands : List (Scalar ρ)) (window : Window (Scalar ρ))
    (distinct : Bool := false) (type : Option DataType := none) : Scalar ρ :=
  .overWindow op operands window distinct (type.getD (firstType operands DataType.bigint))

/-- A field of a row value by its name. -/
def field? (row : Scalar ρ) (name : String) : Except Error (Scalar ρ) :=
  let fields := row.type.fields.getD []
  match fields.findIdx? (·.name == name) with
  | some i =>
    match fields[i]? with
    | some f => .ok (.fieldAccess row name i f.type)
    | none => .error (.noSuchField name row.type.name)
  | none => .error (.noSuchField name row.type.name)

/-- Patterns one after the other. -/
def patternConcat (items : List (Scalar ρ)) : Scalar ρ :=
  apply Operator.patternConcat items (some DataType.any)

/-- One of several patterns. -/
def patternAlter (items : List (Scalar ρ)) : Scalar ρ :=
  apply Operator.patternAlter items (some DataType.any)

/-- A repeated pattern; a maximum of `-1` leaves the repetition unbounded. -/
def patternQuantifier (pattern : Scalar ρ) (min : Value) (max : Value := .integer (-1))
    (reluctant : Bool := false) : Scalar ρ :=
  apply Operator.patternQuantifier
    [pattern, .literal (Literal.exact min), .literal (Literal.exact max),
      .literal (Literal.boolean reluctant)]
    (some DataType.any)

/-! ## Looking inside -/

/-- The immediate parts of an expression; a sub-query's relation is not one. -/
def operands : Scalar ρ → List (Scalar ρ)
  | .call _ operands _ => operands
  | .overWindow _ operands window _ _ => operands ++ window.partition ++ window.order.map (·.key)
  | .fieldAccess row _ _ _ => [row]
  | .localRef index shared _ => (nth? shared index).toList
  | .subQuery _ operands _ _ => operands
  | _ => []

mutual

/-- The expression and all its parts, each before its own parts, from left to right. -/
def subterms : Scalar ρ → List (Scalar ρ)
  | .inputRef i t => [.inputRef i t]
  | .localRef i shared t =>
    .localRef i shared t :: (match i.nat? with
      | some n => subtermsAt n shared
      | none => [])
  | .literal l => [.literal l]
  | .call op operands t => .call op operands t :: subtermsOf operands
  | .overWindow op operands window distinct t =>
    .overWindow op operands window distinct t
      :: (subtermsOf operands ++ subtermsOf window.partition ++ subtermsOfKeys window.order)
  | .fieldAccess row field i t => .fieldAccess row field i t :: subterms row
  | .correlation id t => [.correlation id t]
  | .subQuery op operands r t => .subQuery op operands r t :: subtermsOf operands
  | .parameter i t => [.parameter i t]
  | .patternField v i t => [.patternField v i t]

/-- The parts of the expressions of a list. -/
def subtermsOf : List (Scalar ρ) → List (Scalar ρ)
  | [] => []
  | e :: es => subterms e ++ subtermsOf es

/-- The parts of sort keys. -/
def subtermsOfKeys : List (SortKey (Scalar ρ)) → List (Scalar ρ)
  | [] => []
  | ⟨e, _, _⟩ :: ks => subterms e ++ subtermsOfKeys ks

/-- The parts of the entry of a list that has `n` others before it. -/
def subtermsAt (n : Nat) : List (Scalar ρ) → List (Scalar ρ)
  | [] => []
  | e :: es => if n = 0 then subterms e else subtermsAt (n - 1) es

end

/-- The expression is a windowed call. -/
def isOver : Scalar ρ → Bool
  | .overWindow .. => true
  | _ => false

/-- A windowed call occurs in the expression. -/
def containsOver (e : Scalar ρ) : Bool := e.subterms.any isOver

/-- The input field that an expression is. -/
def inputRef? : Scalar ρ → Option Ordinal
  | .inputRef i _ => some i
  | _ => none

/-- The positions of the input fields that occur in the expression. -/
def inputRefs (e : Scalar ρ) : List Ordinal := e.subterms.filterMap inputRef?

/-- The literal that an expression is. -/
def literal? : Scalar ρ → Option Literal
  | .literal l => some l
  | _ => none

/-- The expression is the truth value `TRUE`. -/
def isLiteralTrue (e : Scalar ρ) : Bool := e.literal?.any (·.isTrue)

/-- The expression is a conversion to a type. -/
def isCast : Scalar ρ → Bool
  | .call op _ _ => op.kind == .cast
  | _ => false

end Scalar

end AlgebraSql
