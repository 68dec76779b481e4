import AlgebraSql.Proofs.PlanCheck
import AlgebraSql.Convert.Relation

/-!
# Mapped operators — a plan in which other operators are called.

The operators of calls, of windowed calls and of aggregate calls are replaced throughout a plan, and nothing
else is.  What is said of a plan without regard to its operators stays true: its row type, the fields and the
windowed calls of its expressions, and whether a query has to be wrapped before a relation can go on.
-/

namespace AlgebraSql

/-! ## Plans -/

mutual

/-- The plan that calls `g op` wherever this one calls `op`. -/
def Rel.mapOperators (g : Operator → Operator) : Rel → Rel
  | .scan table fields => .scan table fields
  | .filter input condition ids => .filter (input.mapOperators g) (condition.mapOperators g) ids
  | .project input projects names distinct ids =>
    .project (input.mapOperators g) (Scalar.mapOperatorsOf g projects) names distinct ids
  | .aggregate input keys sets calls =>
    .aggregate (input.mapOperators g) keys sets (calls.map fun c => { c with op := g c.op })
  | .join left right condition type ids =>
    .join (left.mapOperators g) (right.mapOperators g) (condition.mapOperators g) type ids
  | .setOp op all inputs => .setOp op all (Rel.mapOperatorsOf g inputs)
  | .sort input collation offset fetch =>
    .sort (input.mapOperators g) collation (Scalar.mapOperators? g offset) (Scalar.mapOperators? g fetch)
  | .window input groups constants names =>
    .window (input.mapOperators g) (Scalar.mapOperatorsOfGroups g groups) constants names
  | .tableFunction inputs call fields =>
    .tableFunction (Rel.mapOperatorsOf g inputs) (call.mapOperators g) fields
  | .values fields tuples => .values fields tuples
  | .rowPattern input spec => .rowPattern (input.mapOperators g) (Scalar.mapOperatorsOfPattern g spec)

/-- The same for several plans. -/
def Rel.mapOperatorsOf (g : Operator → Operator) : List Rel → List Rel
  | [] => []
  | r :: rs => r.mapOperators g :: Rel.mapOperatorsOf g rs

/-- The expression that calls `g op` wherever this one calls `op`. -/
def Scalar.mapOperators (g : Operator → Operator) : Scalar Rel → Scalar Rel
  | .inputRef i t => .inputRef i t
  | .localRef i shared t => .localRef i (Scalar.mapOperatorsOf g shared) t
  | .literal l => .literal l
  | .call op operands t => .call (g op) (Scalar.mapOperatorsOf g operands) t
  | .overWindow op operands window distinct t =>
    .overWindow (g op) (Scalar.mapOperatorsOf g operands) (Scalar.mapOperatorsOfWindow g window) distinct t
  | .fieldAccess row field i t => .fieldAccess (row.mapOperators g) field i t
  | .correlation id t => .correlation id t
  | .subQuery op operands relation t =>
    .subQuery op (Scalar.mapOperatorsOf g operands) (relation.mapOperators g) t
  | .parameter i t => .parameter i t
  | .patternField symbol i t => .patternField symbol i t

/-- The same for several expressions. -/
def Scalar.mapOperatorsOf (g : Operator → Operator) : List (Scalar Rel) → List (Scalar Rel)
  | [] => []
  | e :: es => e.mapOperators g :: Scalar.mapOperatorsOf g es

/-- The same for an expression that may be missing. -/
def Scalar.mapOperators? (g : Operator → Operator) : Option (Scalar Rel) → Option (Scalar Rel)
  | none => none
  | some e => some (e.mapOperators g)

/-- The same for named expressions. -/
def Scalar.mapOperatorsOfNamed (g : Operator → Operator) : List (String × Scalar Rel) → List (String × Scalar Rel)
  | [] => []
  | (name, e) :: es => (name, e.mapOperators g) :: Scalar.mapOperatorsOfNamed g es

/-- The same for sort keys. -/
def Scalar.mapOperatorsOfKeys (g : Operator → Operator) : List (SortKey (Scalar Rel)) → List (SortKey (Scalar Rel))
  | [] => []
  | ⟨e, direction, nulls⟩ :: ks => ⟨e.mapOperators g, direction, nulls⟩ :: Scalar.mapOperatorsOfKeys g ks

/-- The same for an end of a frame. -/
def Scalar.mapOperatorsOfBound (g : Operator → Operator) : Option (Bound (Scalar Rel)) → Option (Bound (Scalar Rel))
  | some (.preceding e) => some (.preceding (e.mapOperators g))
  | some (.following e) => some (.following (e.mapOperators g))
  | some .unboundedPreceding => some .unboundedPreceding
  | some .unboundedFollowing => some .unboundedFollowing
  | some .currentRow => some .currentRow
  | none => none

/-- The same for a frame. -/
def Scalar.mapOperatorsOfFrame (g : Operator → Operator) : Frame (Scalar Rel) → Frame (Scalar Rel)
  | ⟨rows, lower, upper⟩ => ⟨rows, Scalar.mapOperatorsOfBound g lower, Scalar.mapOperatorsOfBound g upper⟩

/-- The same for a window. -/
def Scalar.mapOperatorsOfWindow (g : Operator → Operator) : Window (Scalar Rel) → Window (Scalar Rel)
  | ⟨partition, order, frame⟩ =>
    ⟨Scalar.mapOperatorsOf g partition, Scalar.mapOperatorsOfKeys g order, Scalar.mapOperatorsOfFrame g frame⟩

/-- The same for windowed calls whose window is defined elsewhere. -/
def Scalar.mapOperatorsOfCalls (g : Operator → Operator) : List (WindowCall (Scalar Rel)) → List (WindowCall (Scalar Rel))
  | [] => []
  | ⟨op, operands, distinct, type⟩ :: cs =>
    ⟨g op, Scalar.mapOperatorsOf g operands, distinct, type⟩ :: Scalar.mapOperatorsOfCalls g cs

/-- The same for window groups. -/
def Scalar.mapOperatorsOfGroups (g : Operator → Operator) :
    List (WindowGroup (Scalar Rel)) → List (WindowGroup (Scalar Rel))
  | [] => []
  | ⟨keys, order, frame, calls⟩ :: gs =>
    ⟨keys, order, Scalar.mapOperatorsOfFrame g frame, Scalar.mapOperatorsOfCalls g calls⟩
      :: Scalar.mapOperatorsOfGroups g gs

/-- The same for a row pattern. -/
def Scalar.mapOperatorsOfPattern (g : Operator → Operator) : RowPattern (Scalar Rel) → RowPattern (Scalar Rel)
  | ⟨pattern, definitions, measures, strictStart, strictEnd, after, subsets, allRows, partition, order, within⟩ =>
    ⟨pattern.mapOperators g, Scalar.mapOperatorsOfNamed g definitions, Scalar.mapOperatorsOfNamed g measures,
      strictStart, strictEnd, after, subsets, allRows, partition, order, within⟩

end

variable {g : Operator → Operator}

/-! ## Lists -/

theorem Rel.mapOperatorsOf_eq (rels : List Rel) : Rel.mapOperatorsOf g rels = rels.map (·.mapOperators g) := by
  induction rels with
  | nil => rfl
  | cons r rels ih => simp [mapOperatorsOf, ih]

namespace Scalar

theorem mapOperatorsOf_eq (es : List Expr) : mapOperatorsOf g es = es.map (·.mapOperators g) := by
  induction es with
  | nil => rfl
  | cons e es ih => simp [mapOperatorsOf, ih]

theorem mapOperatorsOfNamed_eq (entries : List (String × Expr)) :
    mapOperatorsOfNamed g entries = entries.map fun q => (q.1, q.2.mapOperators g) := by
  induction entries with
  | nil => rfl
  | cons q entries ih => simp [mapOperatorsOfNamed, ih]

theorem mapOperatorsOfCalls_eq (calls : List (WindowCall Expr)) : mapOperatorsOfCalls g calls
    = calls.map fun c => { c with op := g c.op, operands := mapOperatorsOf g c.operands } := by
  induction calls with
  | nil => rfl
  | cons c calls ih => simp [mapOperatorsOfCalls, ih]

theorem mapOperatorsOfGroups_eq (groups : List (WindowGroup Expr)) : mapOperatorsOfGroups g groups
    = groups.map fun w =>
      { w with frame := mapOperatorsOfFrame g w.frame, calls := mapOperatorsOfCalls g w.calls } := by
  induction groups with
  | nil => rfl
  | cons w groups ih => simp [mapOperatorsOfGroups, ih]

/-! ## Expressions -/

@[simp]
theorem type_mapOperators (e : Expr) : (e.mapOperators g).type = e.type := by
  cases e <;> rfl

@[simp]
theorem isOver_mapOperators (e : Expr) : (e.mapOperators g).isOver = e.isOver := by
  cases e <;> rfl

@[simp]
theorem inputRef?_mapOperators (e : Expr) : (e.mapOperators g).inputRef? = e.inputRef? := by
  cases e <;> rfl

@[simp]
theorem isLiteralTrue_mapOperators (e : Expr) : (e.mapOperators g).isLiteralTrue = e.isLiteralTrue := by
  cases e <;> rfl

mutual

theorem subterms_mapOperators : ∀ e : Expr, (e.mapOperators g).subterms = e.subterms.map (·.mapOperators g)
  | .inputRef i t => rfl
  | .localRef i shared t => by
    simp only [mapOperators, subterms, List.map_cons, List.cons.injEq, true_and]
    cases i.nat? with
    | none => rfl
    | some n => exact subtermsAt_mapOperators n shared
  | .literal l => rfl
  | .call op operands t => by
    simp only [mapOperators, subterms, List.map_cons, subtermsOf_mapOperators operands]
  | .overWindow op operands ⟨partition, order, frame⟩ distinct t => by
    simp only [mapOperators, mapOperatorsOfWindow, subterms, List.map_cons, List.map_append,
      subtermsOf_mapOperators operands, subtermsOf_mapOperators partition, subtermsOfKeys_mapOperators order]
  | .fieldAccess row field i t => by
    simp only [mapOperators, subterms, List.map_cons, subterms_mapOperators row]
  | .correlation id t => rfl
  | .subQuery op operands relation t => by
    simp only [mapOperators, subterms, List.map_cons, subtermsOf_mapOperators operands]
  | .parameter i t => rfl
  | .patternField symbol i t => rfl

theorem subtermsOf_mapOperators :
    ∀ es : List Expr, subtermsOf (mapOperatorsOf g es) = (subtermsOf es).map (·.mapOperators g)
  | [] => rfl
  | e :: es => by
    simp only [mapOperatorsOf, subtermsOf, List.map_append, subterms_mapOperators e, subtermsOf_mapOperators es]

theorem subtermsOfKeys_mapOperators :
    ∀ ks : List (SortKey Expr), subtermsOfKeys (mapOperatorsOfKeys g ks) = (subtermsOfKeys ks).map (·.mapOperators g)
  | [] => rfl
  | ⟨e, direction, nulls⟩ :: ks => by
    simp only [mapOperatorsOfKeys, subtermsOfKeys, List.map_append, subterms_mapOperators e,
      subtermsOfKeys_mapOperators ks]

theorem subtermsAt_mapOperators (n : Nat) :
    ∀ es : List Expr, subtermsAt n (mapOperatorsOf g es) = (subtermsAt n es).map (·.mapOperators g)
  | [] => rfl
  | e :: es => by
    simp only [mapOperatorsOf, subtermsAt]
    split
    · exact subterms_mapOperators e
    · exact subtermsAt_mapOperators (n - 1) es

end

@[simp]
theorem containsOver_mapOperators (e : Expr) : (e.mapOperators g).containsOver = e.containsOver := by
  simp [containsOver, subterms_mapOperators, List.any_map, Function.comp_def]

@[simp]
theorem inputRefs_mapOperators (e : Expr) : (e.mapOperators g).inputRefs = e.inputRefs := by
  simp only [inputRefs, subterms_mapOperators, List.filterMap_map, Function.comp_def, inputRef?_mapOperators]

end Scalar

/-! ## Relations -/

namespace Rel

/-- A count is still a count. -/
theorem aggregateFields_mapOperators (hg : ∀ op, (g op).kind = op.kind) (fields : RowType) (offset : Nat)
    (calls : List AggregateCall) :
    aggregateFields fields offset (calls.map fun c => { c with op := g c.op }) = aggregateFields fields offset calls := by
  simp [aggregateFields, aggregateType, List.zipIdx_map, Function.comp_def, hg]

theorem windowFields_mapOperators (groups : List (WindowGroup Expr)) :
    windowFields (Scalar.mapOperatorsOfGroups g groups) = windowFields groups := by
  simp [windowFields, Scalar.mapOperatorsOfGroups_eq, Scalar.mapOperatorsOfCalls_eq, List.zipIdx_map, Function.comp_def]

theorem patternFields_mapOperators (fields : RowType) (spec : RowPattern Expr) :
    patternFields fields (Scalar.mapOperatorsOfPattern g spec) = patternFields fields spec := by
  obtain ⟨pattern, definitions, measures, _, _, _, _, _, _, _, _⟩ := spec
  simp [patternFields, Scalar.mapOperatorsOfPattern, Scalar.mapOperatorsOfNamed_eq, Function.comp_def]

mutual

/-- The columns of a plan do not depend on its operators. -/
theorem fields_mapOperators (hg : ∀ op, (g op).kind = op.kind) : ∀ rel : Rel, (rel.mapOperators g).fields = rel.fields
  | .scan table fields => rfl
  | .filter input condition ids => by simp only [mapOperators, fields, fields_mapOperators hg input]
  | .project input projects names distinct ids => by
    simp [mapOperators, fields, Scalar.mapOperatorsOf_eq, List.zipWith_map_right]
  | .aggregate input keys sets calls => by
    simp only [mapOperators, fields, fields_mapOperators hg input, aggregateFields_mapOperators hg]
  | .join left right condition type ids => by
    simp only [mapOperators, fields, fields_mapOperators hg left, fields_mapOperators hg right]
  | .setOp op all inputs => by simp only [mapOperators, fields, fieldsOfFirst_mapOperators hg inputs]
  | .sort input collation offset fetch => by simp only [mapOperators, fields, fields_mapOperators hg input]
  | .window input groups constants names => by
    simp only [mapOperators, fields, fields_mapOperators hg input, windowFields_mapOperators]
  | .tableFunction inputs call fields => rfl
  | .values fields tuples => rfl
  | .rowPattern input spec => by
    simp only [mapOperators, fields, fields_mapOperators hg input, patternFields_mapOperators]

theorem fieldsOfFirst_mapOperators (hg : ∀ op, (g op).kind = op.kind) :
    ∀ rels : List Rel, fieldsOfFirst (mapOperatorsOf g rels) = fieldsOfFirst rels
  | [] => rfl
  | rel :: rels => by simp only [mapOperatorsOf, fieldsOfFirst, fields_mapOperators hg rel]

end

@[simp]
theorem operatorName_mapOperators (rel : Rel) : (rel.mapOperators g).operatorName = rel.operatorName := by
  cases rel <;> rfl

theorem inputs_mapOperators (rel : Rel) : (rel.mapOperators g).inputs = rel.inputs.map (·.mapOperators g) := by
  cases rel <;> simp [mapOperators, inputs, mapOperatorsOf_eq]

end Rel

/-! ## Depth -/

mutual

/-- The sub-queries of a plan are nested as they were. -/
theorem Rel.queryDepth_mapOperators : ∀ rel : Rel, (rel.mapOperators g).queryDepth = rel.queryDepth
  | .scan table fields => rfl
  | .filter input condition ids => by
    simp only [Rel.mapOperators, Rel.queryDepth, Rel.queryDepth_mapOperators input, Scalar.queryDepth_mapOperators condition]
  | .project input projects names distinct ids => by
    simp only [Rel.mapOperators, Rel.queryDepth, Rel.queryDepth_mapOperators input, Scalar.queryDepths_mapOperators projects]
  | .aggregate input keys sets calls => by simp only [Rel.mapOperators, Rel.queryDepth, Rel.queryDepth_mapOperators input]
  | .join left right condition type ids => by
    simp only [Rel.mapOperators, Rel.queryDepth, Rel.queryDepth_mapOperators left, Rel.queryDepth_mapOperators right,
      Scalar.queryDepth_mapOperators condition]
  | .setOp op all inputs => by simp only [Rel.mapOperators, Rel.queryDepth, Rel.queryDepths_mapOperators inputs]
  | .sort input collation offset fetch => by
    simp only [Rel.mapOperators, Rel.queryDepth, Rel.queryDepth_mapOperators input, Scalar.queryDepth?_mapOperators offset,
      Scalar.queryDepth?_mapOperators fetch]
  | .window input groups constants names => by
    simp only [Rel.mapOperators, Rel.queryDepth, Rel.queryDepth_mapOperators input, Scalar.queryDepthOfGroups_mapOperators groups]
  | .tableFunction inputs call fields => by
    simp only [Rel.mapOperators, Rel.queryDepth, Rel.queryDepths_mapOperators inputs, Scalar.queryDepth_mapOperators call]
  | .values fields tuples => rfl
  | .rowPattern input spec => by
    simp only [Rel.mapOperators, Rel.queryDepth, Rel.queryDepth_mapOperators input, Scalar.queryDepthOfPattern_mapOperators spec]

theorem Rel.queryDepths_mapOperators : ∀ rels : List Rel, Rel.queryDepths (Rel.mapOperatorsOf g rels) = Rel.queryDepths rels
  | [] => rfl
  | r :: rs => by
    simp only [Rel.mapOperatorsOf, Rel.queryDepths, Rel.queryDepth_mapOperators r, Rel.queryDepths_mapOperators rs]

theorem Scalar.queryDepth_mapOperators : ∀ e : Expr, (e.mapOperators g).queryDepth = e.queryDepth
  | .inputRef i t => rfl
  | .localRef i shared t => by simp only [Scalar.mapOperators, Scalar.queryDepth, Scalar.queryDepths_mapOperators shared]
  | .literal l => rfl
  | .call op operands t => by simp only [Scalar.mapOperators, Scalar.queryDepth, Scalar.queryDepths_mapOperators operands]
  | .overWindow op operands window distinct t => by
    simp only [Scalar.mapOperators, Scalar.queryDepth, Scalar.queryDepths_mapOperators operands, Scalar.queryDepthOfWindow_mapOperators window]
  | .fieldAccess row field i t => by simp only [Scalar.mapOperators, Scalar.queryDepth, Scalar.queryDepth_mapOperators row]
  | .correlation id t => rfl
  | .subQuery op operands relation t => by
    simp only [Scalar.mapOperators, Scalar.queryDepth, Scalar.queryDepths_mapOperators operands, Rel.queryDepth_mapOperators relation]
  | .parameter i t => rfl
  | .patternField symbol i t => rfl

theorem Scalar.queryDepths_mapOperators : ∀ es : List Expr, Scalar.queryDepths (Scalar.mapOperatorsOf g es) = Scalar.queryDepths es
  | [] => rfl
  | e :: es => by simp only [Scalar.mapOperatorsOf, Scalar.queryDepths, Scalar.queryDepth_mapOperators e, Scalar.queryDepths_mapOperators es]

theorem Scalar.queryDepth?_mapOperators : ∀ e : Option Expr, Scalar.queryDepth? (Scalar.mapOperators? g e) = Scalar.queryDepth? e
  | none => rfl
  | some e => Scalar.queryDepth_mapOperators e

theorem Scalar.queryDepthOfNamed_mapOperators :
    ∀ es : List (String × Expr), Scalar.queryDepthOfNamed (Scalar.mapOperatorsOfNamed g es) = Scalar.queryDepthOfNamed es
  | [] => rfl
  | (name, e) :: es => by
    simp only [Scalar.mapOperatorsOfNamed, Scalar.queryDepthOfNamed, Scalar.queryDepth_mapOperators e, Scalar.queryDepthOfNamed_mapOperators es]

theorem Scalar.queryDepthOfKeys_mapOperators :
    ∀ ks : List (SortKey Expr), Scalar.queryDepthOfKeys (Scalar.mapOperatorsOfKeys g ks) = Scalar.queryDepthOfKeys ks
  | [] => rfl
  | ⟨e, direction, nulls⟩ :: ks => by
    simp only [Scalar.mapOperatorsOfKeys, Scalar.queryDepthOfKeys, Scalar.queryDepth_mapOperators e, Scalar.queryDepthOfKeys_mapOperators ks]

theorem Scalar.queryDepthOfBound_mapOperators :
    ∀ b : Option (Bound Expr), Scalar.queryDepthOfBound (Scalar.mapOperatorsOfBound g b) = Scalar.queryDepthOfBound b
  | some (.preceding e) => Scalar.queryDepth_mapOperators e
  | some (.following e) => Scalar.queryDepth_mapOperators e
  | some .unboundedPreceding => rfl
  | some .unboundedFollowing => rfl
  | some .currentRow => rfl
  | none => rfl

theorem Scalar.queryDepthOfFrame_mapOperators :
    ∀ f : Frame Expr, Scalar.queryDepthOfFrame (Scalar.mapOperatorsOfFrame g f) = Scalar.queryDepthOfFrame f
  | ⟨rows, lower, upper⟩ => by
    simp only [Scalar.mapOperatorsOfFrame, Scalar.queryDepthOfFrame, Scalar.queryDepthOfBound_mapOperators lower,
      Scalar.queryDepthOfBound_mapOperators upper]

theorem Scalar.queryDepthOfWindow_mapOperators :
    ∀ w : Window Expr, Scalar.queryDepthOfWindow (Scalar.mapOperatorsOfWindow g w) = Scalar.queryDepthOfWindow w
  | ⟨partition, order, frame⟩ => by
    simp only [Scalar.mapOperatorsOfWindow, Scalar.queryDepthOfWindow, Scalar.queryDepths_mapOperators partition,
      Scalar.queryDepthOfKeys_mapOperators order, Scalar.queryDepthOfFrame_mapOperators frame]

theorem Scalar.queryDepthOfCalls_mapOperators :
    ∀ cs : List (WindowCall Expr), Scalar.queryDepthOfCalls (Scalar.mapOperatorsOfCalls g cs) = Scalar.queryDepthOfCalls cs
  | [] => rfl
  | ⟨op, operands, distinct, type⟩ :: cs => by
    simp only [Scalar.mapOperatorsOfCalls, Scalar.queryDepthOfCalls, Scalar.queryDepths_mapOperators operands,
      Scalar.queryDepthOfCalls_mapOperators cs]

theorem Scalar.queryDepthOfGroups_mapOperators :
    ∀ gs : List (WindowGroup Expr), Scalar.queryDepthOfGroups (Scalar.mapOperatorsOfGroups g gs) = Scalar.queryDepthOfGroups gs
  | [] => rfl
  | ⟨keys, order, frame, calls⟩ :: gs => by
    simp only [Scalar.mapOperatorsOfGroups, Scalar.queryDepthOfGroups, Scalar.queryDepthOfFrame_mapOperators frame,
      Scalar.queryDepthOfCalls_mapOperators calls, Scalar.queryDepthOfGroups_mapOperators gs]

theorem Scalar.queryDepthOfPattern_mapOperators :
    ∀ spec : RowPattern Expr, Scalar.queryDepthOfPattern (Scalar.mapOperatorsOfPattern g spec) = Scalar.queryDepthOfPattern spec
  | ⟨pattern, definitions, measures, _, _, _, _, _, _, _, _⟩ => by
    simp only [Scalar.mapOperatorsOfPattern, Scalar.queryDepthOfPattern, Scalar.queryDepth_mapOperators pattern,
      Scalar.queryDepthOfNamed_mapOperators definitions, Scalar.queryDepthOfNamed_mapOperators measures]

end

namespace Convert

open Sql

/-! ## Wrapping -/

namespace WrapCheck

/-- The check of the same query for a relation with other operators. -/
def mapOperators (g : Operator → Operator) (c : WrapCheck) : WrapCheck := { c with rel := c.rel.mapOperators g }

theorem projectsWindow_mapOperators (rel : Rel) : projectsWindow (rel.mapOperators g) = projectsWindow rel := by
  cases rel <;> simp [projectsWindow, projects?, Rel.mapOperators, Scalar.mapOperatorsOf_eq, List.any_map, Function.comp_def]

theorem groupsByAggregate_mapOperators (hg : ∀ op, (g op).kind = op.kind) (c : WrapCheck) (projects : List Expr) :
    (c.mapOperators g).groupsByAggregate (Scalar.mapOperatorsOf g projects) = c.groupsByAggregate projects := by
  have hnames : ∀ items fields, aggregateNames items (Scalar.mapOperatorsOf g projects) fields
      = aggregateNames items projects fields := by
    intro items fields
    rw [aggregateNames, aggregateNames, Scalar.mapOperatorsOf_eq, List.zip_map_left, List.filterMap_map]
    simp only [Function.comp_def, Prod.map, id, Scalar.inputRefs_mapOperators]
  simp only [groupsByAggregate, mapOperators, groupBy?, items?, hnames, Rel.fields_mapOperators hg]
  rfl

theorem nestsWindows_mapOperators (c : WrapCheck) (projects : List Expr) :
    (c.mapOperators g).nestsWindows (Scalar.mapOperatorsOf g projects) = c.nestsWindows projects := by
  simp [nestsWindows, mapOperators, items?, Scalar.mapOperatorsOf_eq, List.any_map, Function.comp_def,
    Scalar.subterms_mapOperators]

theorem hasNested_mapOperators (c : WrapCheck) (calls : List AggregateCall) (p : Node → Bool) :
    (c.mapOperators g).hasNested (calls.map fun call => { call with op := g call.op }) p = c.hasNested calls p := by
  simp [hasNested, mapOperators, items?, List.flatMap_map]

theorem groupsByDropped_mapOperators (hg : ∀ op, (g op).kind = op.kind) (c : WrapCheck) :
    (c.mapOperators g).groupsByDropped = c.groupsByDropped := by
  simp only [groupsByDropped, mapOperators, groupBy?, items?, Rel.fields_mapOperators hg]
  rfl

end WrapCheck

/-- No rule looks at the operators of the relation that goes on. -/
theorem rule_mapOperators (hg : ∀ op, (g op).kind = op.kind) (c : WrapCheck) :
    ∀ rule ∈ wrapRules, rule (c.mapOperators g) = rule c := by
  have hdropped := c.groupsByDropped_mapOperators hg
  have haggregate := c.groupsByAggregate_mapOperators hg
  have hwindows := c.nestsWindows_mapOperators (g := g)
  have hnested := c.hasNested_mapOperators (g := g)
  obtain ⟨node, rel, clauses, expected, capabilities⟩ := c
  intro rule hrule
  simp only [wrapRules, List.mem_cons, List.not_mem_nil, or_false] at hrule
  rcases hrule with rfl | rfl | rfl | rfl | rfl | rfl | rfl | rfl | rfl | rfl | rfl | rfl | rfl | rfl | rfl
  · rfl
  · cases rel with
    | filter input condition ids =>
      simp only [qualifyOverWindow, WrapCheck.mapOperators, Rel.mapOperators, WrapCheck.projectsWindow_mapOperators,
        Scalar.containsOver_mapOperators]
      rfl
    | _ => rfl
  · rfl
  · cases rel <;> rfl
  · cases rel with
    | project input projects names distinct ids =>
      cases input with
      | aggregate => exact congrArg (fun b => wrapIf (!capabilities.aggregateInGroupBy && b)) (haggregate projects)
      | _ => rfl
    | _ => rfl
  · cases rel with
    | project input projects names distinct ids =>
      exact congrArg (fun b => wrapIf (!capabilities.nestedWindows && b)) (hwindows projects)
    | _ => rfl
  · cases rel with
    | aggregate input keys sets calls =>
      exact congrArg (fun b => wrapIf (!capabilities.nestedAggregates && b)) (hnested calls _)
    | _ => rfl
  · cases rel with
    | project =>
      exact congrArg (fun b => wrapIf (clauses.contains .groupBy && capabilities.groupByAlias && b)) hdropped
    | _ => rfl
  · cases rel with
    | aggregate input => cases input <;> rfl
    | _ => rfl
  · cases rel with
    | aggregate input keys sets calls =>
      exact congrArg (fun b => wrapIf (!capabilities.windowInAggregate && b)) (hnested calls _)
    | _ => rfl
  · cases rel <;> rfl
  · cases rel <;> rfl
  · cases rel with
    | window => rfl
    | _ =>
      refine congrArg (fun b => wrapIf (b && (Clause.last? clauses == some .select))) ?_
      exact WrapCheck.projectsWindow_mapOperators (g := g) _
  · cases rel with
    | aggregate input keys sets calls =>
      have hcalls := hnested calls WrapCheck.isAggregateCall
      simp only [aggregateOverAggregate, WrapCheck.mapOperators, Rel.mapOperators] at hcalls ⊢
      rw [hcalls]
      cases input <;> rfl
    | _ => rfl
  · cases rel with
    | project =>
      refine congrArg (fun b => wrapIf (clauses.contains .having && _ && b)) hdropped
    | _ => rfl

/-- **`needsWrapping`** — whether a query has to be wrapped does not depend on the operators of the relation. -/
theorem needsWrapping_mapOperators (hg : ∀ op, (g op).kind = op.kind) (c : WrapCheck) :
    needsWrapping (c.mapOperators g) = needsWrapping c := by
  have hsame : ∀ rules : List WrapRule, (∀ rule ∈ rules, rule (c.mapOperators g) = rule c) →
      rules.findSome? (fun rule => rule (c.mapOperators g)) = rules.findSome? fun rule => rule c := by
    intro rules h
    induction rules with
    | nil => rfl
    | cons rule rules ih =>
      rw [List.findSome?_cons, List.findSome?_cons, h rule (by simp), ih fun r hr => h r (by simp [hr])]
  rw [needsWrapping, hsame wrapRules (rule_mapOperators hg c), needsWrapping]

end Convert

end AlgebraSql
