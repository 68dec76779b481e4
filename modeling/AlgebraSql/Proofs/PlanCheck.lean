import AlgebraSql.Algebra.Relation

/-!
# Plan checks — a property of every relation and every expression of a plan.

A check looks at one relation or one expression at a time.  A plan satisfies it when all its
relations and expressions do, those of sub-queries included.  An expression is told whether it may
refer to the fields of an input: the limits of a sort may not be meant to.
-/

namespace AlgebraSql

/-- A property of single relations and expressions. -/
structure PlanCheck where
  relation : Rel → Bool
  /-- The property of an expression, given whether input fields are meant to occur in it. -/
  expression : Bool → Expr → Bool

/-- The check lets no references pass but those to fields, and those only where they are meant.  It
does not look at constants and calls. -/
structure PlanCheck.Uncorrelated (k : PlanCheck) : Prop where
  literal : ∀ fields l, k.expression fields (.literal l) = true
  call : ∀ fields op operands t, k.expression fields (.call op operands t) = true
  correlation : ∀ fields id t, k.expression fields (.correlation id t) = false
  patternField : ∀ fields symbol i t, k.expression fields (.patternField symbol i t) = false
  inputRef : ∀ i t, k.expression false (.inputRef i t) = false

mutual

/-- Every relation and every expression of a plan satisfies the check. -/
def Rel.satisfies (k : PlanCheck) : Rel → Bool
  | .scan table fields => k.relation (.scan table fields)
  | .filter input condition ids =>
    k.relation (.filter input condition ids) && input.satisfies k && condition.satisfies k true
  | .project input projects names distinct ids =>
    k.relation (.project input projects names distinct ids) && input.satisfies k
      && Scalar.allSatisfy k true projects
  | .aggregate input groupSet sets calls =>
    k.relation (.aggregate input groupSet sets calls) && input.satisfies k
  | .join left right condition type ids =>
    k.relation (.join left right condition type ids) && left.satisfies k && right.satisfies k
      && condition.satisfies k true
  | .setOp op all inputs => k.relation (.setOp op all inputs) && Rel.allSatisfy k inputs
  | .sort input collation offset fetch =>
    k.relation (.sort input collation offset fetch) && input.satisfies k
      && Scalar.satisfies? k offset && Scalar.satisfies? k fetch
  | .window input groups constants names =>
    k.relation (.window input groups constants names) && input.satisfies k
      && Scalar.groupsSatisfy k groups
  | .tableFunction inputs call fields =>
    k.relation (.tableFunction inputs call fields) && Rel.allSatisfy k inputs
      && call.satisfies k true
  | .values fields tuples => k.relation (.values fields tuples)
  | .rowPattern input spec =>
    k.relation (.rowPattern input spec) && input.satisfies k && Scalar.patternSatisfies k spec

/-- Several plans satisfy the check. -/
def Rel.allSatisfy (k : PlanCheck) : List Rel → Bool
  | [] => true
  | r :: rs => r.satisfies k && Rel.allSatisfy k rs

/-- Every part of an expression satisfies the check; `fields` says whether input fields are meant to
occur in it. -/
def Scalar.satisfies (k : PlanCheck) (fields : Bool) : Scalar Rel → Bool
  | .inputRef i t => k.expression fields (.inputRef i t)
  | .localRef i shared t =>
    k.expression fields (.localRef i shared t) && Scalar.allSatisfy k fields shared
  | .literal l => k.expression fields (.literal l)
  | .call op operands t =>
    k.expression fields (.call op operands t) && Scalar.allSatisfy k fields operands
  | .overWindow op operands window distinct t =>
    k.expression fields (.overWindow op operands window distinct t)
      && Scalar.allSatisfy k fields operands && Scalar.windowSatisfies k fields window
  | .fieldAccess row field i t =>
    k.expression fields (.fieldAccess row field i t) && row.satisfies k fields
  | .correlation id t => k.expression fields (.correlation id t)
  | .subQuery op operands relation t =>
    k.expression fields (.subQuery op operands relation t) && Scalar.allSatisfy k fields operands
      && relation.satisfies k
  | .parameter i t => k.expression fields (.parameter i t)
  | .patternField symbol i t => k.expression fields (.patternField symbol i t)

/-- Several expressions satisfy the check. -/
def Scalar.allSatisfy (k : PlanCheck) (fields : Bool) : List (Scalar Rel) → Bool
  | [] => true
  | e :: es => e.satisfies k fields && Scalar.allSatisfy k fields es

/-- A limit, if there is one, satisfies the check; no input fields are meant to occur in it. -/
def Scalar.satisfies? (k : PlanCheck) : Option (Scalar Rel) → Bool
  | none => true
  | some e => e.satisfies k false

/-- Named expressions satisfy the check. -/
def Scalar.namedSatisfy (k : PlanCheck) : List (String × Scalar Rel) → Bool
  | [] => true
  | (_, e) :: es => e.satisfies k true && Scalar.namedSatisfy k es

/-- Sort keys satisfy the check. -/
def Scalar.keysSatisfy (k : PlanCheck) (fields : Bool) : List (SortKey (Scalar Rel)) → Bool
  | [] => true
  | ⟨e, _, _⟩ :: ks => e.satisfies k fields && Scalar.keysSatisfy k fields ks

/-- The offset of a frame's end, if there is one, satisfies the check. -/
def Scalar.boundSatisfies (k : PlanCheck) (fields : Bool) : Option (Bound (Scalar Rel)) → Bool
  | some (.preceding e) => e.satisfies k fields
  | some (.following e) => e.satisfies k fields
  | some .unboundedPreceding => true
  | some .unboundedFollowing => true
  | some .currentRow => true
  | none => true

/-- The offsets of a frame satisfy the check. -/
def Scalar.frameSatisfies (k : PlanCheck) (fields : Bool) : Frame (Scalar Rel) → Bool
  | ⟨_, lower, upper⟩ =>
    Scalar.boundSatisfies k fields lower && Scalar.boundSatisfies k fields upper

/-- The expressions of a window satisfy the check. -/
def Scalar.windowSatisfies (k : PlanCheck) (fields : Bool) : Window (Scalar Rel) → Bool
  | ⟨partition, order, frame⟩ =>
    Scalar.allSatisfy k fields partition && Scalar.keysSatisfy k fields order
      && Scalar.frameSatisfies k fields frame

/-- The operands of windowed calls satisfy the check. -/
def Scalar.callsSatisfy (k : PlanCheck) : List (WindowCall (Scalar Rel)) → Bool
  | [] => true
  | ⟨_, operands, _, _⟩ :: cs => Scalar.allSatisfy k true operands && Scalar.callsSatisfy k cs

/-- The expressions of window groups satisfy the check. -/
def Scalar.groupsSatisfy (k : PlanCheck) : List (WindowGroup (Scalar Rel)) → Bool
  | [] => true
  | ⟨_, _, frame, calls⟩ :: gs =>
    Scalar.frameSatisfies k true frame && Scalar.callsSatisfy k calls && Scalar.groupsSatisfy k gs

/-- The expressions of a row pattern satisfy the check. -/
def Scalar.patternSatisfies (k : PlanCheck) : RowPattern (Scalar Rel) → Bool
  | ⟨pattern, definitions, measures, _, _, _, _, _, _, _, _⟩ =>
    pattern.satisfies k true && Scalar.namedSatisfy k definitions
      && Scalar.namedSatisfy k measures

end

mutual

/-- Every operator of a plan has a property; the plans of sub-queries are not looked at. -/
def Rel.every (p : Rel → Bool) : Rel → Bool
  | .scan table fields => p (.scan table fields)
  | .filter input condition ids => p (.filter input condition ids) && input.every p
  | .project input projects names distinct ids =>
    p (.project input projects names distinct ids) && input.every p
  | .aggregate input groupSet sets calls =>
    p (.aggregate input groupSet sets calls) && input.every p
  | .join left right condition type ids =>
    p (.join left right condition type ids) && left.every p && right.every p
  | .setOp op all inputs => p (.setOp op all inputs) && Rel.everyOf p inputs
  | .sort input collation offset fetch => p (.sort input collation offset fetch) && input.every p
  | .window input groups constants names =>
    p (.window input groups constants names) && input.every p
  | .tableFunction inputs call fields =>
    p (.tableFunction inputs call fields) && Rel.everyOf p inputs
  | .values fields tuples => p (.values fields tuples)
  | .rowPattern input spec => p (.rowPattern input spec) && input.every p

/-- Every operator of several plans has a property. -/
def Rel.everyOf (p : Rel → Bool) : List Rel → Bool
  | [] => true
  | r :: rs => r.every p && Rel.everyOf p rs

end

/-! ## Lists -/

theorem Rel.everyOf_iff (p : Rel → Bool) (rels : List Rel) :
    Rel.everyOf p rels = true ↔ ∀ r ∈ rels, r.every p = true := by
  induction rels with
  | nil => simp [everyOf]
  | cons r rels ih => simp [everyOf, ih]

variable {k : PlanCheck}

theorem Rel.allSatisfy_iff (rels : List Rel) :
    Rel.allSatisfy k rels = true ↔ ∀ r ∈ rels, r.satisfies k = true := by
  induction rels with
  | nil => simp [allSatisfy]
  | cons r rels ih => simp [allSatisfy, ih]

namespace Scalar

theorem allSatisfy_iff (fields : Bool) (es : List Expr) :
    allSatisfy k fields es = true ↔ ∀ e ∈ es, e.satisfies k fields = true := by
  induction es with
  | nil => simp [allSatisfy]
  | cons e es ih => simp [allSatisfy, ih]

theorem namedSatisfy_iff (entries : List (String × Expr)) :
    namedSatisfy k entries = true ↔ ∀ q ∈ entries, q.2.satisfies k true = true := by
  induction entries with
  | nil => simp [namedSatisfy]
  | cons q entries ih => simp [namedSatisfy, ih]

theorem callsSatisfy_iff (calls : List (WindowCall Expr)) :
    callsSatisfy k calls = true ↔ ∀ c ∈ calls, ∀ e ∈ c.operands, e.satisfies k true = true := by
  induction calls with
  | nil => simp [callsSatisfy]
  | cons c calls ih => simp [callsSatisfy, allSatisfy_iff, ih]

theorem groupsSatisfy_iff (groups : List (WindowGroup Expr)) :
    groupsSatisfy k groups = true ↔ ∀ g ∈ groups, frameSatisfies k true g.frame = true
      ∧ ∀ c ∈ g.calls, ∀ e ∈ c.operands, e.satisfies k true = true := by
  induction groups with
  | nil => simp [groupsSatisfy]
  | cons g groups ih => simp [groupsSatisfy, callsSatisfy_iff, ih]

end Scalar

/-! ## Checks without a demand -/

/-- The check asks for nothing. -/
structure PlanCheck.Trivial (k : PlanCheck) : Prop where
  relation : ∀ rel, k.relation rel = true
  expression : ∀ fields e, k.expression fields e = true

mutual

/-- Every plan satisfies a check that asks for nothing. -/
theorem Rel.satisfies_trivial (h : k.Trivial) : ∀ rel : Rel, rel.satisfies k = true
  | .scan table fields => h.relation _
  | .filter input condition ids => by
    rw [Rel.satisfies, h.relation, Rel.satisfies_trivial h input, Scalar.satisfies_trivial h true condition]
    rfl
  | .project input projects names distinct ids => by
    rw [Rel.satisfies, h.relation, Rel.satisfies_trivial h input, Scalar.allSatisfy_trivial h true projects]
    rfl
  | .aggregate input groupSet sets calls => by
    rw [Rel.satisfies, h.relation, Rel.satisfies_trivial h input]
    rfl
  | .join left right condition type ids => by
    rw [Rel.satisfies, h.relation, Rel.satisfies_trivial h left, Rel.satisfies_trivial h right,
      Scalar.satisfies_trivial h true condition]
    rfl
  | .setOp op all inputs => by
    rw [Rel.satisfies, h.relation, Rel.allSatisfy_trivial h inputs]
    rfl
  | .sort input collation offset fetch => by
    rw [Rel.satisfies, h.relation, Rel.satisfies_trivial h input, Scalar.satisfies?_trivial h offset,
      Scalar.satisfies?_trivial h fetch]
    rfl
  | .window input groups constants names => by
    rw [Rel.satisfies, h.relation, Rel.satisfies_trivial h input, Scalar.groupsSatisfy_trivial h groups]
    rfl
  | .tableFunction inputs call fields => by
    rw [Rel.satisfies, h.relation, Rel.allSatisfy_trivial h inputs, Scalar.satisfies_trivial h true call]
    rfl
  | .values fields tuples => h.relation _
  | .rowPattern input spec => by
    rw [Rel.satisfies, h.relation, Rel.satisfies_trivial h input, Scalar.patternSatisfies_trivial h spec]
    rfl

theorem Rel.allSatisfy_trivial (h : k.Trivial) : ∀ rels : List Rel, Rel.allSatisfy k rels = true
  | [] => rfl
  | rel :: rels => by
    rw [Rel.allSatisfy, Rel.satisfies_trivial h rel, Rel.allSatisfy_trivial h rels]
    rfl

/-- Every expression satisfies a check that asks for nothing. -/
theorem Scalar.satisfies_trivial (h : k.Trivial) (fields : Bool) : ∀ e : Expr, e.satisfies k fields = true
  | .inputRef i t => h.expression _ _
  | .localRef i shared t => by
    rw [Scalar.satisfies, h.expression, Scalar.allSatisfy_trivial h fields shared]
    rfl
  | .literal l => h.expression _ _
  | .call op operands t => by
    rw [Scalar.satisfies, h.expression, Scalar.allSatisfy_trivial h fields operands]
    rfl
  | .overWindow op operands window distinct t => by
    rw [Scalar.satisfies, h.expression, Scalar.allSatisfy_trivial h fields operands, Scalar.windowSatisfies_trivial h fields window]
    rfl
  | .fieldAccess row field i t => by
    rw [Scalar.satisfies, h.expression, Scalar.satisfies_trivial h fields row]
    rfl
  | .correlation id t => h.expression _ _
  | .subQuery op operands relation t => by
    rw [Scalar.satisfies, h.expression, Scalar.allSatisfy_trivial h fields operands, Rel.satisfies_trivial h relation]
    rfl
  | .parameter i t => h.expression _ _
  | .patternField symbol i t => h.expression _ _

theorem Scalar.allSatisfy_trivial (h : k.Trivial) (fields : Bool) : ∀ es : List Expr, Scalar.allSatisfy k fields es = true
  | [] => rfl
  | e :: es => by
    rw [Scalar.allSatisfy, Scalar.satisfies_trivial h fields e, Scalar.allSatisfy_trivial h fields es]
    rfl

theorem Scalar.satisfies?_trivial (h : k.Trivial) : ∀ e : Option Expr, Scalar.satisfies? k e = true
  | none => rfl
  | some e => Scalar.satisfies_trivial h false e

theorem Scalar.namedSatisfy_trivial (h : k.Trivial) : ∀ entries : List (String × Expr), Scalar.namedSatisfy k entries = true
  | [] => rfl
  | (_, e) :: entries => by
    rw [Scalar.namedSatisfy, Scalar.satisfies_trivial h true e, Scalar.namedSatisfy_trivial h entries]
    rfl

theorem Scalar.keysSatisfy_trivial (h : k.Trivial) (fields : Bool) :
    ∀ keys : List (SortKey Expr), Scalar.keysSatisfy k fields keys = true
  | [] => rfl
  | ⟨e, _, _⟩ :: keys => by
    rw [Scalar.keysSatisfy, Scalar.satisfies_trivial h fields e, Scalar.keysSatisfy_trivial h fields keys]
    rfl

theorem Scalar.boundSatisfies_trivial (h : k.Trivial) (fields : Bool) :
    ∀ b : Option (Bound Expr), Scalar.boundSatisfies k fields b = true
  | some (.preceding e) => Scalar.satisfies_trivial h fields e
  | some (.following e) => Scalar.satisfies_trivial h fields e
  | some .unboundedPreceding | some .unboundedFollowing | some .currentRow | none => rfl

theorem Scalar.frameSatisfies_trivial (h : k.Trivial) (fields : Bool) : ∀ f : Frame Expr, Scalar.frameSatisfies k fields f = true
  | ⟨_, lower, upper⟩ => by
    rw [Scalar.frameSatisfies, Scalar.boundSatisfies_trivial h fields lower, Scalar.boundSatisfies_trivial h fields upper]
    rfl

theorem Scalar.windowSatisfies_trivial (h : k.Trivial) (fields : Bool) : ∀ w : Window Expr, Scalar.windowSatisfies k fields w = true
  | ⟨partition, order, frame⟩ => by
    rw [Scalar.windowSatisfies, Scalar.allSatisfy_trivial h fields partition, Scalar.keysSatisfy_trivial h fields order,
      Scalar.frameSatisfies_trivial h fields frame]
    rfl

theorem Scalar.callsSatisfy_trivial (h : k.Trivial) : ∀ calls : List (WindowCall Expr), Scalar.callsSatisfy k calls = true
  | [] => rfl
  | ⟨_, operands, _, _⟩ :: calls => by
    rw [Scalar.callsSatisfy, Scalar.allSatisfy_trivial h true operands, Scalar.callsSatisfy_trivial h calls]
    rfl

theorem Scalar.groupsSatisfy_trivial (h : k.Trivial) : ∀ groups : List (WindowGroup Expr), Scalar.groupsSatisfy k groups = true
  | [] => rfl
  | ⟨_, _, frame, calls⟩ :: groups => by
    rw [Scalar.groupsSatisfy, Scalar.frameSatisfies_trivial h true frame, Scalar.callsSatisfy_trivial h calls,
      Scalar.groupsSatisfy_trivial h groups]
    rfl

theorem Scalar.patternSatisfies_trivial (h : k.Trivial) : ∀ spec : RowPattern Expr, Scalar.patternSatisfies k spec = true
  | ⟨pattern, definitions, measures, _, _, _, _, _, _, _, _⟩ => by
    rw [Scalar.patternSatisfies, Scalar.satisfies_trivial h true pattern, Scalar.namedSatisfy_trivial h definitions,
      Scalar.namedSatisfy_trivial h measures]
    rfl

end

end AlgebraSql
