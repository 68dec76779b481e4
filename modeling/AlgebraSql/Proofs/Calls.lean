import AlgebraSql.Convert.Relation
import AlgebraSql.Proofs.Expressions

/-!
# Calls, reference by reference — aggregates, groupings and windowed calls find what they name.

These are built from fields of a context, so they resolve wherever the fields do.
-/

namespace AlgebraSql.Convert

open Sql Node

variable {schema : Schema} {env : Env} {ctx : Context} {sc : Scope}

/-! ## Aggregates -/

theorem allResolve_fields (h : ctx.ReadsAt env schema sc) {keys : List Ordinal} {ns : List Node}
    (hns : keys.mapM (ctx.field env) = .ok ns) : AllResolve schema sc ns :=
  forall_of_mapM hns fun i _ n hn => h i n hn

theorem allResolve_conditionalArgs {condition : Node} {args : List Node}
    (hcondition : condition.resolves schema sc = true) (hargs : AllResolve schema sc args) :
    AllResolve schema sc (conditionalArgs condition args) := by
  have hfirst : (args.head?.getD (Node.number "1")).resolves schema sc = true := by
    cases args with
    | nil => exact resolves_number _
    | cons a as => exact ((allResolve_cons _ _).mp hargs).1
  have hrest : AllResolve schema sc (args.drop 1) := fun n hn => hargs n (List.mem_of_mem_drop hn)
  simp (disch := decide) [conditionalArgs, hcondition, hfirst, hrest, -List.drop_one]

theorem allResolve_aggregateArgs (op : Operator) {args : List Node}
    (hargs : AllResolve schema sc args) : AllResolve schema sc (aggregateArgs op args) := by
  unfold aggregateArgs
  split
  · simp
  · exact hargs

theorem resolves_plainAggregate (h : ctx.ReadsAt env schema sc) {op : Operator} {distinct : Bool}
    {args : List Node} {filter : Option Ordinal} {collation : List Collation} {n : Node}
    (hargs : AllResolve schema sc args)
    (hn : plainAggregate env ctx op distinct args filter collation = .ok n) :
    n.resolves schema sc = true := by
  have hcollated : ∀ {call : Node}, call.resolves schema sc = true →
      (if collation.isEmpty then pure call
        else return withinGroup call (← collationsNodes env ctx collation) : Except Error Node)
        = .ok n → n.resolves schema sc = true := by
    intro call hcall hn
    split at hn
    · cases hn
      exact hcall
    · simp only [bind_eq_ok_iff, pure_eq_ok_iff] at hn
      obtain ⟨items, hitems, rfl⟩ := hn
      have := allResolve_collationsNodes h hitems
      simp (disch := decide) [withinGroup, hcall, this]
  unfold plainAggregate at hn
  cases filter with
  | none =>
    simp only [pure_bind, bind_eq_ok_iff] at hn
    obtain ⟨name, -, hn⟩ := hn
    exact hcollated (by simpa using allResolve_aggregateArgs op hargs) hn
  | some i =>
    by_cases hplace : env.dialect.capabilities.aggregateFilter = true
    · simp only [hplace, if_true, pure_bind, bind_eq_ok_iff] at hn
      obtain ⟨name, -, condition, hcondition, hn⟩ := hn
      have hall := allResolve_aggregateArgs op hargs
      refine hcollated ?_ hn
      simp (disch := decide) [filtered, hall, h i condition hcondition]
    · simp only [hplace, Bool.false_eq_true, if_false, pure_bind, bind_eq_ok_iff] at hn
      obtain ⟨condition, hcondition, name, -, hn⟩ := hn
      have hall := allResolve_conditionalArgs (h i condition hcondition) hargs
      exact hcollated (by simpa using allResolve_aggregateArgs op hall) hn

/-- The node for an aggregate call resolves where fields do. -/
theorem resolves_aggregateNode (h : ctx.ReadsAt env schema sc) {call : AggregateCall} {n : Node}
    (hn : aggregateNode env ctx call = .ok n) : n.resolves schema sc = true := by
  simp only [aggregateNode, bind_eq_ok_iff] at hn
  obtain ⟨args, hargs, hn⟩ := hn
  have hall := allResolve_fields h hargs
  split at hn
  · simp only [bind_eq_ok_iff, pure_eq_ok_iff] at hn
    obtain ⟨m, hm, rfl⟩ := hn
    simpa [orZero] using resolves_plainAggregate h hall hm
  · exact resolves_plainAggregate h hall hn

/-! ## Groupings -/

/-- Grouping items resolve where fields do, in a context that groups by fields themselves. -/
theorem allResolve_groupByNodes (h : ctx.ReadsAt env schema sc)
    (hgroup : ∀ i, ctx.groupField env i = ctx.field env i) {groupSet : List Ordinal}
    {sets : List (List Ordinal)} {ns : List Node}
    (hns : groupByNodes env ctx groupSet sets = .ok ns) : AllResolve schema sc ns := by
  have hkeys : ∀ {keys : List Ordinal} {ms : List Node}, keyNodes env ctx keys = .ok ms →
      AllResolve schema sc ms := fun hms =>
    forall_of_mapM hms fun i _ n hn => h i n (by rwa [hgroup] at hn)
  unfold groupByNodes at hns
  simp only at hns
  split at hns
  · cases hns
  · split at hns
    · exact hkeys hns
    · simp only [bind_eq_ok_iff, pure_eq_ok_iff] at hns
      obtain ⟨keys, hms, rfl⟩ := hns
      simpa (disch := decide) [listNode] using hkeys hms
    · simp only [bind_eq_ok_iff, pure_eq_ok_iff] at hns
      obtain ⟨keys, hms, rfl⟩ := hns
      simpa (disch := decide) [listNode] using hkeys hms
    · simp only [bind_eq_ok_iff, pure_eq_ok_iff] at hns
      obtain ⟨items, hitems, rfl⟩ := hns
      have hall : AllResolve schema sc items := forall_of_mapM hitems fun set _ n hn => by
        unfold groupingSetNode at hn
        split at hn
        · rw [hgroup] at hn
          exact h _ n hn
        · simp only [bind_eq_ok_iff, pure_eq_ok_iff] at hn
          obtain ⟨keys, hms, rfl⟩ := hn
          simpa using hkeys hms
      simpa (disch := decide) [listNode] using hall

/-! ## Windowed calls -/

section Windows

variable {k : PlanCheck} {sub : Rel → ConvertM Node}

/-- The operands of a call of a window group are expressions of the plan or constants. -/
theorem keeps_windowOperand (h : Setting k schema sub) (ctx : Context) {constants : List Literal}
    {width : Ordinal} {operand : Expr} (he : operand.satisfies k true = true) :
    Keeps (FieldsAt env schema ctx true) (Resolved schema)
      (windowOperand env sub ctx constants width operand) := by
  unfold windowOperand
  refine .lift_bind fun e hresolved => keeps_scalarNode h ctx true e ?_
  unfold resolveConstant at hresolved
  split at hresolved
  · split at hresolved
    · cases hresolved
      exact he
    · split at hresolved
      · cases hresolved
        exact h.uncorrelated.literal true _
      · cases hresolved
  · cases hresolved
    exact he

/-- A call of a window group resolves if the keys of its window do. -/
theorem keeps_windowCallNode (h : Setting k schema sub) (ctx : Context) {frame : Frame Expr}
    {constants : List Literal} {width : Ordinal} {partition order : List Node}
    {call : WindowCall Expr} (hframe : Scalar.frameSatisfies k true frame = true)
    (hcall : ∀ e ∈ call.operands, e.satisfies k true = true) :
    Keeps (fun sc => FieldsAt env schema ctx true sc ∧ AllResolve schema sc partition
        ∧ AllResolve schema sc order) (Resolved schema)
      (windowCallNode env sub ctx frame constants width partition order call) := by
  unfold windowCallNode
  refine .lift_bind fun written _ => ?_
  refine .bind ((Keeps.mapM call.operands fun e he =>
    keeps_windowOperand h ctx (hcall e he)).mono fun sc hsc => hsc.1) fun args => ?_
  have hwindowed : ∀ f : Option Node, Keeps (fun sc => ((FieldsAt env schema ctx true sc
      ∧ AllResolve schema sc partition ∧ AllResolve schema sc order) ∧ ∀ n ∈ args, Resolved schema sc n)
      ∧ ∀ n, f = some n → n.resolves schema sc = true) (Resolved schema)
      (pure (windowedNode written args call.distinct ⟨partition, order, f⟩)) :=
    fun f => .pure fun sc hsc => resolves_windowedNode hsc.1.2 hsc.1.1.2.1 hsc.1.1.2.2 hsc.2
  simp only
  split
  · exact .bind ((keeps_frameNodeOf h ctx true frame hframe).mono fun sc hsc => hsc.1.1) hwindowed
  · exact .bind (.pure fun sc _ n hn => by cases hn) hwindowed

/-- The calls of a window group resolve. -/
theorem keeps_windowGroupNodes (h : Setting k schema sub) (ctx : Context) {constants : List Literal}
    {width : Ordinal} {group : WindowGroup Expr}
    (hframe : Scalar.frameSatisfies k true group.frame = true)
    (hcalls : ∀ c ∈ group.calls, ∀ e ∈ c.operands, e.satisfies k true = true) :
    Keeps (FieldsAt env schema ctx true) (AllResolve schema)
      (windowGroupNodes env sub ctx constants width group) := by
  unfold windowGroupNodes
  refine .bind (Keeps.mapM (p := Resolved schema) group.keys fun i _ =>
    .lift fun n hn sc hsc => hsc rfl i n hn) fun partition => ?_
  have horder : Keeps (fun sc => FieldsAt env schema ctx true sc ∧ AllResolve schema sc partition)
      (AllResolve schema) (liftM (collationsNodes env ctx group.order)) :=
    .lift fun ns hns sc hsc => allResolve_collationsNodes (hsc.1 rfl) hns
  refine .bind horder fun order => ?_
  exact Keeps.mapM group.calls fun c hc =>
    (keeps_windowCallNode h ctx hframe (hcalls c hc)).mono fun sc hsc => ⟨hsc.1.1, hsc.1.2, hsc.2⟩

end Windows

end AlgebraSql.Convert
