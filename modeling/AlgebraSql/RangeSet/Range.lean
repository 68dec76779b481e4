import AlgebraSql.Error

/-!
# Ranges — intervals of values, open or closed, bounded or not on either side.
-/

namespace AlgebraSql

namespace Value

/-- The order of two values, or the complaint that there is none. -/
def order (a b : Value) : Except Error Ordering :=
  match a.compare? b with
  | some o => .ok o
  | none => .error (.incomparable a b)

end Value

/-- An endpoint, which belongs to the range when it is closed. -/
structure Endpoint where
  value : Value
  closed : Bool
  deriving Repr, DecidableEq, Inhabited

/-- An interval; a side without an endpoint is unbounded. -/
structure Range where
  lower : Option Endpoint := none
  upper : Option Endpoint := none
  deriving Repr, DecidableEq, Inhabited

namespace Range

/-! ## Building ranges -/

def all : Range := {}
def atLeast (v : Value) : Range := { lower := some ⟨v, true⟩ }
def atMost (v : Value) : Range := { upper := some ⟨v, true⟩ }
def greaterThan (v : Value) : Range := { lower := some ⟨v, false⟩ }
def lessThan (v : Value) : Range := { upper := some ⟨v, false⟩ }

/-- The range from `a` to `b` with the given ends included. -/
def between (a : Value) (aIn : Bool) (b : Value) (bIn : Bool) : Range :=
  { lower := some ⟨a, aIn⟩, upper := some ⟨b, bIn⟩ }

def singleton (v : Value) : Range := between v true v true
def closed (a b : Value) : Range := between a true b true
def closedOpen (a b : Value) : Range := between a true b false
def openClosed (a b : Value) : Range := between a false b true
def «open» (a b : Value) : Range := between a false b false

/-! ## Shape -/

/-- The shape of a range. -/
inductive Shape where
  | all | atLeast | atMost | greaterThan | lessThan | singleton
  | closed | closedOpen | openClosed | «open»
  deriving Repr, DecidableEq

/-- The written form of a shape. -/
def Shape.toText : Shape → String
  | .all => "all"
  | .atLeast => "atLeast"
  | .atMost => "atMost"
  | .greaterThan => "greaterThan"
  | .lessThan => "lessThan"
  | .singleton => "singleton"
  | .closed => "closed"
  | .closedOpen => "closedOpen"
  | .openClosed => "openClosed"
  | .open => "open"

/-- The shape written as `text`. -/
def Shape.ofText? (text : String) : Option Shape :=
  [Shape.all, .atLeast, .atMost, .greaterThan, .lessThan, .singleton, .closed, .closedOpen,
    .openClosed, .open].find? (·.toText == text)

/-- The range of a shape with its ends, the first of which is `a`. -/
def Shape.toRange (shape : Shape) (a b : Value) : Range :=
  match shape with
  | .all => Range.all
  | .atLeast => Range.atLeast a
  | .atMost => Range.atMost a
  | .greaterThan => Range.greaterThan a
  | .lessThan => Range.lessThan a
  | .singleton => Range.singleton a
  | .closed => Range.closed a b
  | .closedOpen => Range.closedOpen a b
  | .openClosed => Range.openClosed a b
  | .open => Range.open a b

/-- The shape of a range; only a range with two closed ends has to compare them. -/
def shape (r : Range) : Except Error Shape :=
  match r.lower, r.upper with
  | none, none => .ok .all
  | some l, none => .ok (if l.closed then .atLeast else .greaterThan)
  | none, some u => .ok (if u.closed then .atMost else .lessThan)
  | some l, some u =>
    match l.closed, u.closed with
    | true, true => do
      return if (← l.value.order u.value) == .eq then .singleton else .closed
    | true, false => .ok .closedOpen
    | false, true => .ok .openClosed
    | false, false => .ok .open

/-! ## Membership -/

/-- `v` is not below the lower endpoint. -/
def aboveLower (v : Value) : Option Endpoint → Except Error Bool
  | none => .ok true
  | some l => do
    match ← v.order l.value with
    | .lt => return false
    | .eq => return l.closed
    | .gt => return true

/-- `v` is not above the upper endpoint. -/
def belowUpper (v : Value) : Option Endpoint → Except Error Bool
  | none => .ok true
  | some u => do
    match ← v.order u.value with
    | .gt => return false
    | .eq => return u.closed
    | .lt => return true

/-- `v` lies in the range. -/
def contains (r : Range) (v : Value) : Except Error Bool := do
  if ← aboveLower v r.lower then belowUpper v r.upper else return false

/-- No value lies between the ends of the range. -/
def isEmpty (r : Range) : Except Error Bool :=
  match r.lower, r.upper with
  | some l, some u => do
    match ← l.value.order u.value with
    | .gt => return true
    | .eq => return !(l.closed && u.closed)
    | .lt => return false
  | _, _ => .ok false

/-! ## Neighbours -/

/-- The order of two ranges by where they start; at equal values a closed end starts earlier. -/
def compareLower (a b : Range) : Except Error Ordering :=
  match a.lower, b.lower with
  | none, none => .ok .eq
  | none, some _ => .ok .lt
  | some _, none => .ok .gt
  | some l, some m => do
    return (← l.value.order m.value).then (compare (!l.closed).toNat (!m.closed).toNat)

/-- `next` starts inside `r` or right at its end. -/
def connected (r next : Range) : Except Error Bool :=
  match r.upper, next.lower with
  | some u, some l => do
    match ← u.value.order l.value with
    | .gt => return true
    | .eq => return u.closed || l.closed
    | .lt => return false
  | _, _ => .ok true

/-- The later of two upper ends. -/
def maxUpper : Option Endpoint → Option Endpoint → Except Error (Option Endpoint)
  | some a, some b => do
    match ← a.value.order b.value with
    | .gt => return some a
    | .lt => return some b
    | .eq => return some ⟨a.value, a.closed || b.closed⟩
  | _, _ => .ok none

/-- One range for two that are connected, the first of which starts no later. -/
def hull (a b : Range) : Except Error Range := do
  return { lower := a.lower, upper := ← maxUpper a.upper b.upper }

end Range

end AlgebraSql
