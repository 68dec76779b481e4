import AlgebraSql.Algebra.Relation
import Mathlib.Data.List.Dedup
import Mathlib.Data.Rat.Defs
import Mathlib.Order.Compare

/-!
# Data — the values that queries compute with.

A missing value is a value of its own, and a test with a missing operand has no outcome.  An
operation on operands that do not fit together, which a database would refuse, has a value here too:
no result speaks about plans that are well typed only.
-/

namespace AlgebraSql

/-- A value in a row. -/
inductive Datum where
  | null
  | bool (b : Bool)
  | number (q : ℚ)
  | text (s : String)
  /-- A value of any other type, such as a date. -/
  | other (code : Nat)
  deriving DecidableEq, Inhabited

/-- A row of values. -/
abbrev Row := List Datum

namespace Datum

/-! ## Three-valued logic -/

/-- A conjunction is decided by one false operand. -/
def and : Datum → Datum → Datum
  | .bool false, _ => .bool false
  | _, .bool false => .bool false
  | .bool true, .bool true => .bool true
  | _, _ => .null

/-- A disjunction is decided by one true operand. -/
def or : Datum → Datum → Datum
  | .bool true, _ => .bool true
  | _, .bool true => .bool true
  | .bool false, .bool false => .bool false
  | _, _ => .null

/-- The denial of a truth value; what is none stays as it is. -/
def not : Datum → Datum
  | .bool b => .bool !b
  | d => d

@[simp]
theorem not_not (d : Datum) : d.not.not = d := by
  cases d with
  | bool b => simp [not]
  | _ => rfl

/-- Values that are connected from left to right. -/
def connect (op : Datum → Datum → Datum) (unit : Datum) : List Datum → Datum
  | [] => unit
  | d :: ds => ds.foldl op d

/-! ## Comparisons -/

/-- The order of two values of one type; texts are in the order of range endpoints. -/
def order? : Datum → Datum → Option Ordering
  | .bool a, .bool b => some (cmp a b)
  | .number a, .number b => some (cmp a b)
  | .text a, .text b => some (Text.compare16 a b)
  | .other a, .other b => some (cmp a b)
  | _, _ => none

/-- A comparison, without outcome where there is no order. -/
def compare (test : Ordering → Bool) (a b : Datum) : Datum :=
  match a.order? b with
  | some o => .bool (test o)
  | none => .null

def equal : Datum → Datum → Datum := compare (· == .eq)

/-- `a IS b` for a word `b`, which always has an outcome. -/
def isTest (a b : Datum) (negated : Bool) : Datum := .bool (decide (a = b) != negated)

/-! ## Membership -/

/-- Values are equal place by place; one missing value leaves it open unless others differ. -/
def equalAll (as bs : List Datum) : Datum :=
  if as.length = bs.length then connect and (.bool true) (List.zipWith equal as bs) else .bool false

/-- `as [NOT] IN (rows)` -/
def member (negated : Bool) (as : List Datum) (rows : List (List Datum)) : Datum :=
  let found := connect or (.bool false) (rows.map (equalAll as))
  if negated then found.not else found

/-! ## Numbers -/

/-- An operation on numbers, missing where an operand is no number. -/
def arithmetic (op : ℚ → ℚ → ℚ) : Datum → Datum → Datum
  | .number a, .number b => .number (op a b)
  | _, _ => .null

/-- The number that a numeral stands for. -/
def ofScientific (n : Scientific) : Datum :=
  let size : ℚ := Decimal.digitsValue (n.whole ++ n.fraction)
  .number ((if n.negative then -size else size) * 10 ^ (n.exponent - n.fraction.length))

/-- A numeral behind its sign, with or without a power of ten. -/
def ofUnsigned (negative : Bool) (cs : List Char) : Datum :=
  let (whole, fraction, rest) := Scientific.splitMantissa cs
  match (if rest.isEmpty then some 0 else Scientific.readPower rest) with
  | some exponent => ofScientific ⟨negative, whole, fraction, exponent⟩
  | none => .null

/-- The number that a text stands for. -/
def ofDigits (text : String) : Datum :=
  match text.toList with
  | '-' :: cs => ofUnsigned true cs
  | '+' :: cs => ofUnsigned false cs
  | cs => ofUnsigned false cs

/-! ## Case distinctions -/

/-- The value behind the first condition that holds, among alternating conditions and values. -/
def choose (holds : Datum → Bool) (default : Datum) : List Datum → Datum
  | condition :: value :: rest => if holds condition then value else choose holds default rest
  | _ => default

/-- A case distinction: the conditions are tests, or values to compare a subject with. -/
def caseOf (subject : Option Datum) (default : Datum) (pairs : List Datum) : Datum :=
  match subject with
  | none => choose (· == .bool true) default pairs
  | some s => choose (fun d => s.equal d == .bool true) default pairs

end Datum

/-! ## Rows -/

namespace Row

/-- The rows that satisfy a condition: it has to be true, not only not false. -/
def satisfying (condition : Row → Datum) (rows : List Row) : List Row :=
  rows.filter fun row => condition row == .bool true

/-- Rows without repetitions, if they have to be distinct. -/
def distinctIf (distinct : Bool) (rows : List Row) : List Row :=
  if distinct then rows.dedup else rows

/-- A set operation on rows.  It counts how often a row occurs, unless its result is distinct. -/
def combine (op : SetOperator) (distinct : Bool) (left right : List Row) : List Row :=
  match op, distinct with
  | .union, distinct => distinctIf distinct (left ++ right)
  | .intersect, true => (left.filter (· ∈ right)).dedup
  | .intersect, false => left.bagInter right
  | .except, true => (left.filter (· ∉ right)).dedup
  | .except, false => left.diff right

end Row

end AlgebraSql
