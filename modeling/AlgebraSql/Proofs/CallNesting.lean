import AlgebraSql.Proofs.CallScopes

/-!
# Call nesting — no windowed call in another one, and no aggregate in another one.

A parent inlines the items of a select list, and so a windowed call of the input could get into a windowed
call of the parent.  The rules about wrapping prevent it: as long as an item calls a windowed function the
select list is declared, and a parent with windowed calls of its own does not go on with a declared list.  In
the same way the items that aggregate are accompanied by a declared grouping, and an aggregation does not go
on with one if the dialect does not nest aggregates.  So neither kind of call gets into itself, however many
operators are stacked, unless an expression nests them already.
-/

namespace AlgebraSql

open Sql

/-! ## Plans -/

namespace Scalar

/-- No windowed call occurs in an expression. -/
def isStill {ρ : Type} (e : Scalar ρ) : Bool := e.parts.all (!·.isOver)

/-- If an expression is a windowed call, none occurs in its operands, its keys and its frame. -/
def nestsNoOver {ρ : Type} (e : Scalar ρ) : Bool := !e.isOver || e.immediate.all isStill

theorem isStill_iff {ρ : Type} (e : Scalar ρ) : e.isStill = true ↔ ∀ p ∈ e.parts, p.isOver = false := by
  simp [isStill]

/-- What contains no windowed call nests none. -/
theorem nestsNoOver_of_isOver {ρ : Type} {e : Scalar ρ} (h : e.isOver = false) : e.nestsNoOver = true := by
  simp [nestsNoOver, h]

end Scalar

namespace Operator

/-- A call of the operator may be written as a call of an aggregate function. -/
def mayAggregate (op : Operator) : Bool :=
  op.isAggregate || op.kind == .sumOrZero || op.alternatives.any (·.isAggregate)

end Operator

/-- Windowed calls occur in projections and window groups only, and none of them in another one. -/
def callsApartIn : Rel → Bool
  | .scan .. | .values .. | .aggregate .. | .setOp .. => true
  | .filter _ condition _ => condition.isStill
  | .join _ _ condition _ _ => condition.isStill
  | .sort _ _ offset fetch => (offset.toList ++ fetch.toList).all (·.isStill)
  | .project _ projects _ _ _ => projects.all fun e => e.parts.all (·.nestsNoOver)
  | .window _ groups _ _ =>
    groups.all fun g => (frameExprs g.frame ++ g.calls.flatMap (·.operands)).all (·.isStill)
  | .tableFunction .. | .rowPattern .. => false

/-- Aggregate functions are called by aggregations and over windows only, and each relation has a property. -/
def PlanCheck.ofRelations (relation : Rel → Bool) : PlanCheck where
  relation := relation
  expression _ e :=
    match e with
    | .call op _ _ => !op.mayAggregate
    | _ => true

/-- **The plans in question**: windowed calls occur in projections and window groups only and are not nested, and
aggregate functions are called by aggregations and over windows only. -/
def callsApart : PlanCheck := .ofRelations callsApartIn

namespace Convert

open Node

/-! ## Statements -/

/-- No windowed call of a statement lies inside another one of the same SELECT. -/
def WindowsApart (n : Node) : Prop :=
  ∀ m ∈ n.subnodes, m.is .window = true → ∀ w ∈ scopeOfArgs m.args, w.is .window = false

/-- No aggregate function of a statement that is not the function of a windowed call is called in the arguments of
another one of the same SELECT. -/
def AggregatesApart (n : Node) : Prop :=
  ∀ m ∈ n.subnodes, ∀ p ∈ m.args, (m.is .window = true → p.1 ≠ "this") →
    ∀ a ∈ p.2.children, a.is .aggregate = true → a.children.any aggregates = false

variable {nested : Bool} {n : Node}

/-- **`Unnested`** — calls do not nest in a node, which may be an argument of another one. -/
structure Unnested (nested : Bool) (n : Node) : Prop where
  windows : WindowsApart n
  aggregates : nested = false → AggregatesApart n
  arguments : nested = false → n.is .aggregate = true → ∀ c ∈ n.children, Unaggregated c

theorem windowsApart_iff (n : Node) : WindowsApart n ↔
    (n.is .window = true → ∀ w ∈ scopeOfArgs n.args, w.is .window = false) ∧ ∀ c ∈ n.children, WindowsApart c := by
  rw [WindowsApart, subnodes_eq]
  simp only [List.forall_mem_cons, List.mem_flatMap, forall_exists_index, and_imp, WindowsApart]
  exact ⟨fun h => ⟨h.1, fun c hc m hm => h.2 m c hc hm⟩, fun h => ⟨h.1, fun m c hc hm => h.2 c hc m hm⟩⟩

theorem aggregatesApart_iff (n : Node) : AggregatesApart n ↔
    (∀ p ∈ n.args, (n.is .window = true → p.1 ≠ "this") →
      ∀ a ∈ p.2.children, a.is .aggregate = true → a.children.any Node.aggregates = false)
    ∧ ∀ c ∈ n.children, AggregatesApart c := by
  rw [AggregatesApart, subnodes_eq]
  simp only [List.forall_mem_cons, List.mem_flatMap, forall_exists_index, and_imp, AggregatesApart]
  exact ⟨fun h => ⟨h.1, fun c hc m hm => h.2 m c hc hm⟩, fun h => ⟨h.1, fun m c hc hm => h.2 c hc m hm⟩⟩

/-- A node that is no windowed call nests no calls exactly when its children do not, and then it may be an argument
unless it is an aggregate. -/
theorem unnested_iff (hwindow : n.kind ≠ .window) (haggregate : n.kind ≠ .aggregate) :
    Unnested nested n ↔ ∀ c ∈ n.children, Unnested nested c := by
  have hplain : n.is .window = false := by simpa [Node.is] using hwindow
  constructor
  · intro h c hc
    obtain ⟨p, hp, hmem⟩ := List.mem_flatMap.mp hc
    refine ⟨((windowsApart_iff n).mp h.windows).2 c hc, fun hn => ((aggregatesApart_iff n).mp (h.aggregates hn)).2 c hc,
      fun hn hkind => ?_⟩
    exact (unaggregated_children_iff c).mp
      (((aggregatesApart_iff n).mp (h.aggregates hn)).1 p hp (by simp [hplain]) c hmem hkind)
  · intro h
    refine ⟨(windowsApart_iff n).mpr ⟨by simp [hplain], fun c hc => (h c hc).windows⟩, fun hn => ?_, fun _ hkind => ?_⟩
    · refine (aggregatesApart_iff n).mpr ⟨fun p hp _ a ha hkind => ?_, fun c hc => (h c hc).aggregates hn⟩
      exact (unaggregated_children_iff a).mpr ((h a (List.mem_flatMap.mpr ⟨p, hp, ha⟩)).arguments hn hkind)
    · exact absurd ((is_eq_true_iff _ _).mp hkind) haggregate

theorem structural_unnested (nested : Bool) : Structural (Unnested nested) where
  assembly := fun {n} hkind => unnested_iff (by rintro heq; rw [heq] at hkind; cases hkind)
    (by rintro heq; rw [heq] at hkind; cases hkind)
  row := fun {ns} h => (unnested_iff (by simp [Node.call]) (by simp [Node.call])).mpr
    (by simpa [Node.call, children] using h)

/-- An aggregate of arguments that call no aggregate function. -/
theorem unnested_aggregate {name : String} {args : List Node} {distinct : Bool}
    (h : ∀ c ∈ args, Unnested nested c ∧ (nested = false → Unaggregated c)) :
    Unnested nested (Node.aggregate name args distinct) := by
  have hchildren : (Node.aggregate name args distinct).children = args := by simp [Node.aggregate, children]
  refine ⟨(windowsApart_iff _).mpr ⟨by simp [Node.aggregate], fun c hc => ?_⟩, fun hn => (aggregatesApart_iff _).mpr ⟨?_, ?_⟩, ?_⟩
  · rw [hchildren] at hc
    exact (h c hc).1.windows
  · intro p hp _ a ha hkind
    have hmem : a ∈ args := by
      rw [← hchildren]
      exact List.mem_flatMap.mpr ⟨p, hp, ha⟩
    exact (unaggregated_children_iff a).mpr ((h a hmem).1.arguments hn hkind)
  · intro c hc
    rw [hchildren] at hc
    exact (h c hc).1.aggregates hn
  · intro hn _ c hc
    rw [hchildren] at hc
    exact (h c hc).2 hn

/-- A windowed call of parts without windowed calls. -/
theorem unnested_overNode {name : String} {args : List Node} {distinct : Bool} {parts : WindowParts}
    (h : ∀ c ∈ args ++ parts.partition ++ parts.order ++ parts.frame.toList, Unnested nested c ∧ Unwindowed c) :
    Unnested nested (overNode name args distinct parts) := by
  simp only [List.mem_append, Option.mem_toList] at h
  have hargs : ∀ c ∈ (Node.aggregate name args distinct).children, Unnested nested c ∧ Unwindowed c := fun c hc =>
    h c (.inl (.inl (.inl (by simpa [Node.aggregate, children] using hc))))
  have horder : Unnested nested (Node.order parts.order) ∧ Unwindowed (Node.order parts.order) :=
    ⟨inherited_order (structural_unnested nested).inherited fun k hk => (h k (.inl (.inr hk))).1,
      inherited_order inherited_unwindowed fun k hk => (h k (.inl (.inr hk))).2⟩
  have hpart : ∀ c, c ∈ parts.partition ∨ c = Node.order parts.order ∨ parts.frame = some c →
      Unnested nested c ∧ Unwindowed c := by
    rintro c (hc | rfl | hc)
    · exact h c (.inl (.inl (.inr hc)))
    · exact horder
    · exact h c (.inr hc)
  -- the function is exempt from the second property, but its arguments are not
  have hfunction : WindowsApart (Node.aggregate name args distinct)
      ∧ (nested = false → AggregatesApart (Node.aggregate name args distinct))
      ∧ Unwindowed (Node.aggregate name args distinct) := by
    refine ⟨(windowsApart_iff _).mpr ⟨by simp [Node.aggregate], fun c hc => (hargs c hc).1.windows⟩, fun hn => ?_,
      .of_children (by simp [Node.aggregate]) fun c hc => (hargs c hc).2⟩
    refine (aggregatesApart_iff _).mpr ⟨fun p hp _ a ha hkind => ?_, fun c hc => (hargs c hc).1.aggregates hn⟩
    exact (unaggregated_children_iff a).mpr ((hargs a (List.mem_flatMap.mpr ⟨p, hp, ha⟩)).1.arguments hn hkind)
  have hchild : ∀ c ∈ (overNode name args distinct parts).children,
      c = Node.aggregate name args distinct ∨ (Unnested nested c ∧ Unwindowed c) := by
    intro c hc
    obtain ⟨p, hp, hmem⟩ := List.mem_flatMap.mp hc
    rcases mem_args_overNode hp with rfl | ⟨-, hparts⟩
    · exact .inl (List.mem_singleton.mp hmem)
    · exact .inr (hpart c (hparts c hmem))
  refine ⟨(windowsApart_iff _).mpr ⟨fun _ w hw => ?_, fun c hc => ?_⟩, fun hn => (aggregatesApart_iff _).mpr ⟨?_, ?_⟩, ?_⟩
  · rw [scopeOfArgs_eq] at hw
    obtain ⟨c, hc, hw⟩ := List.mem_flatMap.mp hw
    rcases hchild c hc with rfl | hc
    · exact hfunction.2.2 w hw
    · exact hc.2 w hw
  · rcases hchild c hc with rfl | hc
    · exact hfunction.1
    · exact hc.1.windows
  · intro p hp hkey a ha hkind
    rcases mem_args_overNode hp with rfl | ⟨-, hparts⟩
    · exact absurd rfl (hkey rfl)
    · exact (unaggregated_children_iff a).mpr ((hpart a (hparts a ha)).1.arguments hn hkind)
  · intro c hc
    rcases hchild c hc with rfl | hc
    · exact hfunction.2.1 hn
    · exact hc.1.aggregates hn
  · intro _ hkind
    cases hkind

theorem unnested_orZero {c : Node} (hc : Unnested nested c) : Unnested nested (orZero c) := by
  refine (unnested_iff (by simp [orZero, Node.call]) (by simp [orZero, Node.call])).mpr ?_
  simpa [orZero, Node.call, children] using
    ⟨hc, inherited_number (structural_unnested nested).inherited _⟩

/-- **An aggregate** of arguments that call no aggregate function is written without nesting. -/
theorem unnested_aggregateNode {env : Env} {ctx : Context} {call : AggregateCall}
    (hfields : FieldsHave (Unnested nested) env ctx) (hplain : nested = false → FieldsHave Unaggregated env ctx)
    (h : aggregateNode env ctx call = .ok n) : Unnested nested n := by
  have hG := (structural_unnested nested).inherited
  refine good_aggregateNode (hG.and (inherited_unaggregated.imp (nested = false))) hG (fun c _ => hfields c.key)
    (fun i _ m hm => ⟨hfields i m hm, fun hn => hplain hn i m hm⟩)
    (fun _ _ hargs => unnested_aggregate hargs) (fun hc hcondition => ?_) (fun hc hitems => ?_) unnested_orZero h
  · refine (unnested_iff (by simp [filtered]) (by simp [filtered])).mpr ?_
    simpa [filtered, children] using ⟨hc, inherited_wrap hG rfl hcondition.1⟩
  · refine (unnested_iff (by simp [withinGroup]) (by simp [withinGroup])).mpr ?_
    simpa [withinGroup, children] using ⟨hc, inherited_order hG hitems⟩

/-- A query in an expression: its own calls do not nest, and none of them belongs to the expression. -/
structure Separate (nested : Bool) (q : Node) : Prop where
  unnested : Unnested nested q
  unwindowed : Unwindowed q
  unaggregated : Unaggregated q

/-! ## Expressions -/

/-- What is called for a function of a library is that function or another one of its group. -/
theorem mem_alternatives_of_availableFunction {d : Dialect} {op written : Operator}
    (h : d.availableFunction op = .ok written) : written = op ∨ written ∈ op.alternatives := by
  unfold Dialect.availableFunction at h
  split at h
  · rename_i op' hsubstitute
    cases h
    unfold Operator.substitute at hsubstitute
    split at hsubstitute
    · exact .inl (Option.some.inj hsubstitute).symm
    · rw [Option.or_eq_some_iff] at hsubstitute
      rcases hsubstitute with hfound | ⟨-, hfound⟩
      all_goals exact .inr (List.mem_of_find?_eq_some hfound)
  · cases h

/-- The known dialects write no sum or difference as an aggregate. -/
theorem targets_plain {d : Dialect} (hd : d ∈ Dialect.all) :
    d.targetFunctions.all (!·.operator.isAggregate) = true := by
  simp only [Dialect.all, List.mem_cons, List.not_mem_nil, or_false] at hd
  rcases hd with rfl | rfl | rfl | rfl | rfl | rfl <;> decide +kernel

/-- Functions of the language and of libraries call an aggregate function only where one is meant. -/
theorem isAggregate_of_retarget {d : Dialect} (hd : d.targetFunctions.all (!·.operator.isAggregate) = true)
    {op written : Operator} {types : List DataType} (hop : op.mayAggregate = false)
    (h : d.retarget op types = .ok written) : written.isAggregate = false := by
  simp only [Operator.mayAggregate, Bool.or_eq_false_iff, beq_eq_false_iff_ne, List.any_eq_false] at hop
  obtain ⟨⟨hself, hsum⟩, halternatives⟩ := hop
  unfold Dialect.retarget at h
  split at h
  · exact absurd ‹_› hsum
  all_goals try
    cases h
    exact hself
  all_goals try
    cases h
    unfold Dialect.targetFunction
    split
    · split
      · rename_i f hf
        simpa using List.all_eq_true.mp hd f (List.mem_of_find?_eq_some hf)
      · exact hself
    · exact hself
  rcases mem_alternatives_of_availableFunction h with rfl | halternative
  · exact hself
  · simpa using halternatives _ halternative

/-- An expression of a plan that may be converted in a context: its windowed calls are not nested, and no field
brings one into them. -/
def Admissible (env : Env) (ctx : Context) (fields : Bool) (e : Expr) : Prop :=
  (∀ p ∈ e.parts, p.nestsNoOver = true ∧ (p.isOver = true → FieldsHave Unwindowed env ctx))
    ∧ e.satisfies callsApart fields = true

/-- An expression of a plan without windowed calls. -/
def Still (fields : Bool) (e : Expr) : Prop := (∀ p ∈ e.parts, p.isOver = false) ∧ e.satisfies callsApart fields = true

section Expressions

variable {env : Env} {ctx : Context} {sub : Rel → ConvertM Node} {fields : Bool} {e : Expr}

theorem Still.admissible (h : Still fields e) : Admissible env ctx fields e :=
  ⟨fun p hp => ⟨Scalar.nestsNoOver_of_isOver (h.1 p hp), fun hover => by simp [h.1 p hp] at hover⟩, h.2⟩

theorem partClosed_admissible : PartClosed (Admissible env ctx fields) :=
  (partClosed_parts _).and (partClosed_satisfies _ _)

theorem partClosed_still : PartClosed (Still fields) := (partClosed_parts _).and (partClosed_satisfies _ _)

theorem mayAggregate_of_satisfies {relation : Rel → Bool} {op : Operator} {es : List Expr} {t : DataType}
    (h : (Scalar.call op es t : Expr).satisfies (.ofRelations relation) fields = true) : op.mayAggregate = false := by
  simp only [Scalar.satisfies, PlanCheck.ofRelations, Bool.and_eq_true, Bool.not_eq_true'] at h
  exact h.1

theorem satisfies_of_subQuery {k : PlanCheck} {op : Operator} {es : List Expr} {rel : Rel} {t : DataType}
    (h : (Scalar.subQuery op es rel t).satisfies k fields = true) : rel.satisfies k = true := by
  simp only [Scalar.satisfies, Bool.and_eq_true] at h
  exact h.2

/-- A comparison that is turned round calls no aggregate function either. -/
theorem mayAggregate_reversed {op : Operator} (h : op.mayAggregate = false) : op.reversed.mayAggregate = false := by
  unfold Operator.reversed
  split
  · decide
  · decide
  · decide
  · decide
  · exact h

theorem closedUnderTurning_still : ClosedUnderTurning env.dialect (Still true) := by
  refine closedUnderTurning (C := fun op => op.mayAggregate = false) partClosed_still (fun hop hes => ?_)
    fun he => ⟨mayAggregate_of_satisfies he.2, mayAggregate_reversed (mayAggregate_of_satisfies he.2)⟩
  refine ⟨fun p hp => ?_, ?_⟩
  · rw [Scalar.parts_eq] at hp
    rcases List.mem_cons.mp hp with rfl | hp
    · rfl
    · obtain ⟨c, hc, hp⟩ := List.mem_flatMap.mp hp
      exact (hes c hc).1 p hp
  · simp only [Scalar.satisfies, Scalar.allSatisfy_iff, callsApart, PlanCheck.ofRelations, hop, Bool.and_eq_true]
    exact ⟨rfl, fun c hc => (hes c hc).2⟩

variable (hd : env.dialect.targetFunctions.all (!·.operator.isAggregate) = true) (henv : env.fieldMap = [])
  (hsub : ∀ rel, rel.satisfies callsApart = true → Maintains OnlyColumns (Separate nested) (sub rel))

include hd henv hsub

omit hd in
/-- Expressions without windowed calls over fields without them. -/
theorem admits_still (hfields : FieldsHave Unwindowed env ctx) :
    Admits env sub OnlyColumns Unwindowed ctx (Still fields) :=
  admits_unwindowed partClosed_still henv (fun e he => he.1 e e.mem_parts_self) (fun _ hn => hfields _ _ hn)
    fun he => (hsub _ (satisfies_of_subQuery he.2)).mono fun _ hq => hq.unwindowed

/-- Expressions over fields that call no aggregate function. -/
theorem admits_plain (hfields : FieldsHave Unaggregated env ctx) :
    Admits env sub OnlyColumns Unaggregated ctx (Admissible env ctx fields) :=
  admits_unaggregated partClosed_admissible henv
    (fun he => isAggregate_of_retarget hd (mayAggregate_of_satisfies he.2)) hfields
    fun he => (hsub _ (satisfies_of_subQuery he.2)).mono fun _ hq => hq.unaggregated

/-- **Expressions** whose windowed calls are not nested are written without nesting. -/
theorem admits_unnested (hfields : FieldsHave (Unnested nested) env ctx) :
    Admits env sub OnlyColumns (Unnested nested) ctx (Admissible env ctx fields) where
  inherited := (structural_unnested nested).inherited
  closed := partClosed_admissible
  field := fun _ hn => hfields _ _ hn
  correlated := fun _ => maintains_correlatedField (structural_unnested nested).hasColumns henv _ _
  patternField := fun _ => (structural_unnested nested).hasColumns.patternField
  query := fun he => (hsub _ (satisfies_of_subQuery he.2)).mono fun _ hq => hq.unnested
  call := fun he hwritten _ hns => by
    rw [isAggregate_of_retarget hd (mayAggregate_of_satisfies he.2) hwritten]
    refine (unnested_iff (by simp [Node.call]) (by simp [Node.call])).mpr ?_
    simpa [Node.call, children] using hns
  windowed := fun {op es window distinct t written args partition order frame} he _ hgivena has hgivenp hps hgiveno hos
      hframe => by
    obtain ⟨hnests, hplain⟩ := he.1 _ (Scalar.mem_parts_self _)
    -- the parts of the call have no windowed calls, and its fields neither
    have hstill : ∀ c ∈ (Scalar.overWindow op es window distinct t).immediate, Still fields c := fun c hc =>
      ⟨(Scalar.isStill_iff c).mp (List.all_eq_true.mp (by simpa [Scalar.nestsNoOver, Scalar.isOver] using hnests) c hc),
        (partClosed_admissible _ he c hc).2⟩
    have hadmits : Admits env sub OnlyColumns Unwindowed ctx (Still fields) := admits_still henv hsub (hplain rfl)
    have hargs := hgivena.property (inherited_scalarNodes hadmits es fun c hc =>
      hstill c (by simp [Scalar.immediate, hc]))
    have hpartition := hgivenp.property (inherited_scalarNodes hadmits window.partition fun c hc =>
      hstill c (by simp [Scalar.immediate, windowExprs, hc]))
    have horder := hgiveno.property (inherited_sortKeyNodes hadmits window.order fun k hk =>
      hstill k.key (by simpa [Scalar.immediate, windowExprs] using .inr (.inr (.inl ⟨k, hk, rfl⟩))))
    refine good_windowedNode (fun name => unnested_overNode fun c hc => ?_) unnested_orZero
    simp only [List.mem_append, Option.mem_toList] at hc
    rcases hc with ((hc | hc) | hc) | hc
    · exact ⟨has c hc, hargs c hc⟩
    · exact ⟨hps c hc, hpartition c hc⟩
    · exact ⟨hos c hc, horder c hc⟩
    · refine ⟨(hframe c hc).2, (hframe c hc).1.property (inherited_frameNodeOf hadmits window.frame fun d hmem => ?_) c rfl⟩
      exact hstill d (by simp [Scalar.immediate, windowExprs, hmem])

end Expressions

end Convert

end AlgebraSql
