import AlgebraSql.Algebra.Relation

/-!
# Depth — how deeply sub-queries of a plan are nested in each other.

A plan without sub-queries has depth zero, and a sub-query is one deeper than its own plan.  A
conversion of plans that calls itself for sub-queries needs at most that many rounds.
-/

namespace AlgebraSql

mutual

/-- The nesting depth of the sub-queries of a plan. -/
def Rel.queryDepth : Rel → Nat
  | .scan _ _ => 0
  | .filter input condition _ => max input.queryDepth condition.queryDepth
  | .project input projects _ _ _ => max input.queryDepth (Scalar.queryDepths projects)
  | .aggregate input _ _ _ => input.queryDepth
  | .join left right condition _ _ =>
    max (max left.queryDepth right.queryDepth) condition.queryDepth
  | .setOp _ _ inputs => Rel.queryDepths inputs
  | .sort input _ offset fetch =>
    max input.queryDepth (max (Scalar.queryDepth? offset) (Scalar.queryDepth? fetch))
  | .window input groups _ _ => max input.queryDepth (Scalar.queryDepthOfGroups groups)
  | .tableFunction inputs call _ => max (Rel.queryDepths inputs) call.queryDepth
  | .values _ _ => 0
  | .rowPattern input spec => max input.queryDepth (Scalar.queryDepthOfPattern spec)

/-- The depth of the deepest of several plans. -/
def Rel.queryDepths : List Rel → Nat
  | [] => 0
  | r :: rs => max r.queryDepth (Rel.queryDepths rs)

/-- The nesting depth of the sub-queries of an expression. -/
def Scalar.queryDepth : Scalar Rel → Nat
  | .inputRef _ _ => 0
  | .localRef _ shared _ => Scalar.queryDepths shared
  | .literal _ => 0
  | .call _ operands _ => Scalar.queryDepths operands
  | .overWindow _ operands window _ _ =>
    max (Scalar.queryDepths operands) (Scalar.queryDepthOfWindow window)
  | .fieldAccess row _ _ _ => row.queryDepth
  | .correlation _ _ => 0
  | .subQuery _ operands relation _ => max (Scalar.queryDepths operands) (relation.queryDepth + 1)
  | .parameter _ _ => 0
  | .patternField _ _ _ => 0

/-- The depth of the deepest of several expressions. -/
def Scalar.queryDepths : List (Scalar Rel) → Nat
  | [] => 0
  | e :: es => max e.queryDepth (Scalar.queryDepths es)

/-- The depth of an expression that may be missing. -/
def Scalar.queryDepth? : Option (Scalar Rel) → Nat
  | none => 0
  | some e => e.queryDepth

/-- The depth of the deepest of several named expressions. -/
def Scalar.queryDepthOfNamed : List (String × Scalar Rel) → Nat
  | [] => 0
  | (_, e) :: es => max e.queryDepth (Scalar.queryDepthOfNamed es)

/-- The depth of the deepest of several sort keys. -/
def Scalar.queryDepthOfKeys : List (SortKey (Scalar Rel)) → Nat
  | [] => 0
  | ⟨e, _, _⟩ :: ks => max e.queryDepth (Scalar.queryDepthOfKeys ks)

/-- The depth of the offset of a frame's end. -/
def Scalar.queryDepthOfBound : Option (Bound (Scalar Rel)) → Nat
  | some (.preceding e) => e.queryDepth
  | some (.following e) => e.queryDepth
  | some .unboundedPreceding => 0
  | some .unboundedFollowing => 0
  | some .currentRow => 0
  | none => 0

/-- The depth of the offsets of a frame. -/
def Scalar.queryDepthOfFrame : Frame (Scalar Rel) → Nat
  | ⟨_, lower, upper⟩ => max (Scalar.queryDepthOfBound lower) (Scalar.queryDepthOfBound upper)

/-- The depth of the expressions of a window. -/
def Scalar.queryDepthOfWindow : Window (Scalar Rel) → Nat
  | ⟨partition, order, frame⟩ =>
    max (Scalar.queryDepths partition)
      (max (Scalar.queryDepthOfKeys order) (Scalar.queryDepthOfFrame frame))

/-- The depth of the operands of windowed calls. -/
def Scalar.queryDepthOfCalls : List (WindowCall (Scalar Rel)) → Nat
  | [] => 0
  | ⟨_, operands, _, _⟩ :: cs => max (Scalar.queryDepths operands) (Scalar.queryDepthOfCalls cs)

/-- The depth of the expressions of window groups. -/
def Scalar.queryDepthOfGroups : List (WindowGroup (Scalar Rel)) → Nat
  | [] => 0
  | ⟨_, _, frame, calls⟩ :: gs =>
    max (max (Scalar.queryDepthOfFrame frame) (Scalar.queryDepthOfCalls calls))
      (Scalar.queryDepthOfGroups gs)

/-- The depth of the expressions of a row pattern. -/
def Scalar.queryDepthOfPattern : RowPattern (Scalar Rel) → Nat
  | ⟨pattern, definitions, measures, _, _, _, _, _, _, _, _⟩ =>
    max pattern.queryDepth
      (max (Scalar.queryDepthOfNamed definitions) (Scalar.queryDepthOfNamed measures))

end

end AlgebraSql
