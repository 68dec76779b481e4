import AlgebraSql.Proofs.Congruence
import AlgebraSql.Proofs.Written

/-!
# One value — the nodes of expressions have a single value each.

A node has a list of values, because tuples, grouping items and sort keys have several.  The node of
an expression has one, so nothing is lost where it becomes an item of a select list.
-/

namespace AlgebraSql.Sql.Node

/-- **`OneValued`** — a node has one value wherever it has a meaning. -/
structure OneValued (n : Node) : Prop where
  scalar : ∀ {E : Engine} {db : Database} {names : Names} {v : Focus → List Datum},
    n.scalar E db names = some v → ∀ f, v f = [single (v f)]
  analytic : ∀ {E : Engine} {db : Database} {names : Names} {v : Spot → List Datum},
    n.analytic E db names = some v → ∀ s, v s = [single (v s)]

variable {E : Engine} {db : Database} {names : Names}

/-- Operations compute one value, unless they put values together. -/
theorem operate_single {n : Node} (h : n.kind ∉ Convert.partKinds) (operands : List (List Datum)) :
    operate E n operands = [single (operate E n operands)] := by
  have hparts : n.kind ≠ .aliased ∧ n.kind ≠ .where ∧ n.kind ≠ .having ∧ n.kind ≠ .qualify
      ∧ n.kind ≠ .limit ∧ n.kind ≠ .offset ∧ n.kind ≠ .tuple ∧ n.kind ≠ .branch ∧ n.kind ≠ .group
      ∧ n.kind ≠ .order ∧ n.kind ≠ .rollup ∧ n.kind ≠ .cube ∧ n.kind ≠ .groupingSets
      ∧ n.kind ≠ .ordered := by
    refine ⟨?_, ?_, ?_, ?_, ?_, ?_, ?_, ?_, ?_, ?_, ?_, ?_, ?_, ?_⟩ <;>
      exact fun hk => h (by rw [hk]; decide)
  unfold operate
  split <;> simp_all [single]
  split <;> rfl

/-- A node whose values without windowed calls are single ones has single values. -/
theorem OneValued.of_scalar {n : Node}
    (h : ∀ {E : Engine} {db : Database} {names : Names} {v : Focus → List Datum},
      n.scalar E db names = some v → ∀ f, v f = [single (v f)])
    (hanalytic : ∀ {E : Engine} {db : Database} {names : Names} {v : Spot → List Datum},
      n.scalar E db names = none → n.analytic E db names = some v → ∀ s, v s = [single (v s)]) :
    n.OneValued := by
  refine ⟨h, fun {E db names v} hv s => ?_⟩
  cases hscalar : n.scalar E db names with
  | some u =>
    rw [analytic_of_scalar hscalar] at hv
    cases hv
    exact h hscalar s.focus
  | none => exact hanalytic hscalar hv s

/-- The manners in which a node gets its value without looking at its kind again. -/
theorem OneValued.of_manner {n : Node} (hfilter : n.manner ≠ .filter) (hwithin : n.manner ≠ .withinGroup)
    (hoperation : n.manner = .operation → n.kind ∉ Convert.partKinds) : n.OneValued := by
  refine .of_scalar (fun {E db names v} hv f => ?_) (fun {E db names v} hnone hv s => ?_)
  · rw [scalar_eq, scalarStep] at hv
    cases hmanner : n.manner with
    | operation =>
      simp only [hmanner, Option.map_eq_some_iff] at hv
      obtain ⟨vs, -, rfl⟩ := hv
      have hbare : n.bare.kind = n.kind := rfl
      exact operate_single (by rw [hbare]; exact hoperation hmanner) _
    | filter => exact absurd hmanner hfilter
    | withinGroup => exact absurd hmanner hwithin
    | window => simp [hmanner] at hv
    | membership =>
      simp only [hmanner, Option.bind_eq_bind, Option.bind_eq_some_iff, Option.some.injEq,
        Option.pure_def] at hv
      obtain ⟨left, -, rows, -, rfl⟩ := hv
      rfl
    | _ =>
      simp only [hmanner, Option.map_eq_some_iff] at hv
      obtain ⟨vs, -, rfl⟩ := hv
      rfl
  · rw [analytic_eq, analyticStep, ← scalar_eq, hnone] at hv
    cases hmanner : n.manner with
    | operation =>
      simp only [hmanner, Option.map_eq_some_iff] at hv
      obtain ⟨vs, -, rfl⟩ := hv
      have hbare : n.bare.kind = n.kind := rfl
      exact operate_single (by rw [hbare]; exact hoperation hmanner) _
    | window =>
      simp only [hmanner, Option.bind_eq_bind, Option.bind_eq_some_iff, Option.some.injEq,
        Option.pure_def] at hv
      obtain ⟨operands, -, rest, -, rfl⟩ := hv
      rfl
    | _ => simp [hmanner] at hv

theorem oneValued_column (name : String) (table : Option String) : (Node.column name table).OneValued := by
  refine .of_manner ?_ ?_ ?_ <;> simp [manner, Node.column]

/-- **Expressions** have one value if their fields have. -/
theorem produced_oneValued : Convert.Produced OneValued where
  of_kind {n} h := by
    refine .of_manner (fun hm => h ?_) (fun hm => h ?_) fun _ => h
    · unfold manner at hm
      split at hm <;> simp_all
      split at hm <;> simp_all
    · unfold manner at hm
      split at hm <;> simp_all
      split at hm <;> simp_all
  subquery q := by
    refine .of_manner ?_ ?_ ?_ <;> simp [manner, Node.subquery, Node.wrap]
  qualified name table := oneValued_column name (some table)

/-! ## Aggregates -/

/-- A clause behind an aggregate call only changes the rows that it runs over. -/
theorem OneValued.behind {n call : Node} (hcall : call.OneValued) (hthis : n.child? "this" = some call)
    (hmanner : n.manner = .filter ∨ n.manner = .withinGroup) : n.OneValued := by
  refine .of_scalar (fun {E db names v} hv f => ?_) (fun {E db names v} hnone hv s => ?_)
  · rw [scalar_eq, scalarStep, only_partsOf hthis] at hv
    rcases hmanner with hmanner | hmanner <;>
      simp only [hmanner, Option.bind_eq_bind, Option.bind_eq_some_iff, Option.some.injEq,
        Option.pure_def] at hv <;>
      obtain ⟨u, hu, w, -, rfl⟩ := hv <;> exact hcall.scalar hu _
  · rw [analytic_eq, analyticStep, ← scalar_eq, hnone] at hv
    rcases hmanner with hmanner | hmanner <;> simp [hmanner] at hv

end AlgebraSql.Sql.Node

namespace AlgebraSql.Convert

open Sql Node

variable {env : Env} {ctx : Context} {n : Node}

/-- A call of an aggregate function, perhaps with clauses behind it. -/
inductive IsAggregate : Node → Prop
  | call (name : String) (args : List Node) (distinct : Bool) : IsAggregate (Node.aggregate name args distinct)
  | filtered {call : Node} (h : IsAggregate call) (condition : Node) : IsAggregate (filtered call condition)
  | within {call : Node} (h : IsAggregate call) (items : List Node) : IsAggregate (withinGroup call items)

theorem isAggregate_plainAggregate {op : Operator} {distinct : Bool} {args : List Node}
    {filter : Option Ordinal} {collation : List Collation}
    (h : plainAggregate env ctx op distinct args filter collation = .ok n) : IsAggregate n := by
  have hcollated : ∀ {call : Node}, IsAggregate call →
      (if collation.isEmpty then pure call
        else return withinGroup call (← collationsNodes env ctx collation) : Except Error Node)
        = .ok n → IsAggregate n := by
    intro call hcall hn
    split at hn
    · cases hn
      exact hcall
    · simp only [bind_eq_ok_iff, pure_eq_ok_iff] at hn
      obtain ⟨items, -, rfl⟩ := hn
      exact .within hcall items
  unfold plainAggregate at h
  cases filter with
  | none =>
    simp only [pure_bind, bind_eq_ok_iff] at h
    obtain ⟨name, -, h⟩ := h
    exact hcollated (.call _ _ _) h
  | some i =>
    by_cases hplace : env.dialect.capabilities.aggregateFilter = true
    · simp only [hplace, if_true, pure_bind, bind_eq_ok_iff] at h
      obtain ⟨name, -, condition, -, h⟩ := h
      exact hcollated (.filtered (.call _ _ _) _) h
    · simp only [hplace, Bool.false_eq_true, if_false, pure_bind, bind_eq_ok_iff] at h
      obtain ⟨condition, -, name, -, h⟩ := h
      exact hcollated (.call _ _ _) h

/-- An aggregate, with a zero where there are no rows if it is such a sum. -/
theorem isAggregate_aggregateNode {call : AggregateCall} (h : aggregateNode env ctx call = .ok n) :
    IsAggregate n ∨ ∃ m, IsAggregate m ∧ n = orZero m := by
  simp only [aggregateNode, bind_eq_ok_iff] at h
  obtain ⟨args, -, h⟩ := h
  split at h
  · simp only [bind_eq_ok_iff, pure_eq_ok_iff] at h
    obtain ⟨m, hm, rfl⟩ := h
    exact .inr ⟨m, isAggregate_plainAggregate hm, rfl⟩
  · exact .inl (isAggregate_plainAggregate h)

/-- **An aggregate** has one value. -/
theorem oneValued_aggregateNode {call : AggregateCall} (h : aggregateNode env ctx call = .ok n) :
    n.OneValued := by
  rcases isAggregate_aggregateNode h with haggregate | ⟨m, -, rfl⟩
  · clear h
    induction haggregate with
    | call => exact produced_oneValued.of_kind (by simp [Node.aggregate])
    | filtered _ _ ih => exact ih.behind (by simp [filtered, child?]) (.inl rfl)
    | within _ _ ih => exact ih.behind (by simp [withinGroup, child?]) (.inr rfl)
  · exact produced_oneValued.of_kind (by simp [orZero, Node.call])

end AlgebraSql.Convert

namespace AlgebraSql.Sql.Node

open AlgebraSql.Convert

/-! ## Calls of aggregate functions -/

variable {n : Node}

/-- An operation calls an aggregate function if one of its children does. -/
theorem aggregates_of_operation (h : n.manner = .operation ∨ n.manner = .filter ∨ n.manner = .withinGroup) :
    n.aggregates = n.children.any aggregates := by
  obtain ⟨kind, args⟩ := n
  have hbelow : ((childValues callsStep args).any fun p => p.2.any (·.inside))
      = (Node.mk kind args).children.any aggregates := by
    simp only [childValues, List.any_map, children, args_mk, List.any_flatMap, Function.comp_def]
    rfl
  rw [aggregates, fold_mk, ← hbelow]
  unfold callsStep
  rcases h with h | h | h <;> simp only [h]

/-- An aggregate calls an aggregate function. -/
theorem aggregates_aggregateNode {env : Env} {ctx : Context} {call : AggregateCall}
    (h : aggregateNode env ctx call = .ok n) : n.aggregates = true := by
  have hcall : ∀ {m : Node}, IsAggregate m → m.aggregates = true := by
    intro m hm
    induction hm with
    | call name args distinct =>
      rw [aggregates, Node.aggregate, fold_mk]
      rfl
    | filtered _ _ ih =>
      rw [aggregates_of_operation (.inr (.inl rfl))]
      simp [Convert.filtered, children, Arg.children, ih]
    | within _ _ ih =>
      rw [aggregates_of_operation (.inr (.inr rfl))]
      simp [Convert.withinGroup, children, Arg.children, ih]
  rcases isAggregate_aggregateNode h with h | ⟨m, hm, rfl⟩
  · exact hcall h
  · rw [aggregates_of_operation (.inl rfl)]
    simp [orZero, Node.call, children, Arg.children, hcall hm]

/-- Whether aggregate functions are called in an expression follows from its fields. -/
theorem congruent_aggregates (P : Prop) : Congruent fun m _ => m.aggregates = true → P where
  args {k as bs} hk h hm := by
    rw [aggregates_of_operation (.inl hk), List.any_eq_true] at hm
    obtain ⟨c, hc, hcall⟩ := hm
    have hchildren := children_rel h (k := k)
    generalize (Node.mk k as).children = cs at hc hchildren
    generalize (Node.mk k bs).children = ds at hchildren
    induction hchildren with
    | nil => cases hc
    | cons hab _ ih =>
      rcases List.mem_cons.mp hc with rfl | hc
      · exact hab hcall
      · exact ih hc

end AlgebraSql.Sql.Node
