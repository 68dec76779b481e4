import AlgebraSql.RangeSet.Range

/-!
# Range sets — unions of intervals in normal form.

`RangeSet.ofRanges` drops empty ranges, sorts the rest by their lower ends and joins those that
overlap or touch, so that what remains are separate intervals in ascending order.  A search argument
is a range set together with whether a missing value is accepted.
-/

namespace AlgebraSql

/-- Separate, non-empty ranges in ascending order. -/
structure RangeSet where
  ranges : List Range
  deriving Repr, DecidableEq, Inhabited

namespace RangeSet

/-! ## Normal form -/

/-- The ranges that are not empty. -/
def nonEmpty : List Range → Except Error (List Range)
  | [] => .ok []
  | r :: rs => do
    let empty ← r.isEmpty
    let rest ← nonEmpty rs
    return if empty then rest else r :: rest

/-- Puts a range behind those that start no later. -/
def insertRange (r : Range) : List Range → Except Error (List Range)
  | [] => .ok [r]
  | s :: ss => do
    if (← r.compareLower s) == .lt then return r :: s :: ss
    else return s :: (← insertRange r ss)

/-- Sorts ranges by their lower ends; ranges that start alike keep their order. -/
def sortFrom (sorted : List Range) : List Range → Except Error (List Range)
  | [] => .ok sorted
  | r :: rs => do sortFrom (← insertRange r sorted) rs

/-- Joins connected neighbours; `current` is the range that is being extended. -/
def joinFrom (current : Range) : List Range → Except Error (List Range)
  | [] => .ok [current]
  | r :: rs => do
    if ← current.connected r then joinFrom (← current.hull r) rs
    else return current :: (← joinFrom r rs)

/-- Joins connected neighbours of a sorted list. -/
def join : List Range → Except Error (List Range)
  | [] => .ok []
  | r :: rs => joinFrom r rs

/-- The normal form of a union of ranges. -/
def ofRanges (ranges : List Range) : Except Error RangeSet := do
  return ⟨← join (← sortFrom [] (← nonEmpty ranges))⟩

/-- The set of the given values. -/
def ofPoints (values : List Value) : Except Error RangeSet :=
  ofRanges (values.map Range.singleton)

/-! ## Questions -/

/-- The set holds nothing. -/
def isEmpty (s : RangeSet) : Bool := s.ranges.isEmpty

/-- The set holds everything. -/
def isAll (s : RangeSet) : Except Error Bool :=
  match s.ranges with
  | [r] => do return (← r.shape) == .all
  | _ => .ok false

/-- Every range is a single value. -/
def isPoints (s : RangeSet) : Except Error Bool :=
  s.ranges.allM fun r => do return (← r.shape) == .singleton

/-- The value of a range that holds exactly one. -/
def pointOf (r : Range) : Except Error (Option Value) := do
  if (← r.shape) == .singleton then return r.lower.map (·.value) else return none

/-- The values of the ranges that hold exactly one, in ascending order. -/
def points (s : RangeSet) : Except Error (List Value) := do
  return (← s.ranges.mapM pointOf).filterMap id

/-- `v` lies in one of the ranges. -/
def contains (s : RangeSet) (v : Value) : Except Error Bool :=
  s.ranges.anyM (·.contains v)

end RangeSet

/-- A search argument: the values accepted, and whether a missing value is. -/
structure Sarg where
  rangeSet : RangeSet
  containsNull : Bool
  deriving Repr, DecidableEq, Inhabited

namespace Sarg

/-- The search argument that accepts the values of some ranges. -/
def ofRanges (ranges : List Range) (containsNull : Bool := false) : Except Error Sarg := do
  return ⟨← RangeSet.ofRanges ranges, containsNull⟩

/-- The search argument that accepts the given values. -/
def ofPoints (values : List Value) (containsNull : Bool := false) : Except Error Sarg := do
  return ⟨← RangeSet.ofPoints values, containsNull⟩

end Sarg

end AlgebraSql
