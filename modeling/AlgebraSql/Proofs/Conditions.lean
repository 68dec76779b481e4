import AlgebraSql.Proofs.FlatPlans

/-!
# Conditions — what HAVING and QUALIFY leave of the rows of a query.

A condition on groups or on windowed calls is evaluated before DISTINCT.  Where it only depends on the row
that is put out, the query with the condition has those rows of the query without it on which the
condition holds.
-/

namespace AlgebraSql.Sql

variable {E : Engine} {db : Database}

/-! ## Rows that are left out -/

/-- Leaving out elements by their keys, before or after repeated keys are. -/
theorem firsts_filter {α β : Type} [DecidableEq β] {key : α → β} (p : β → Bool) (as : List α) :
    firsts key (as.filter fun a => p (key a)) = (firsts key as).filter fun a => p (key a) := by
  induction as with
  | nil => rfl
  | cons a as ih =>
    by_cases ha : p (key a) = true
    · simp only [firsts, List.filter_cons, ha, if_true, ih]
      rw [List.filter_comm]
    · simp only [firsts, List.filter_cons, ha, Bool.false_eq_true, if_false, ih]
      rw [List.filter_filter]
      refine List.filter_congr fun b _ => ?_
      -- what is left has another key than what was left out
      cases hb : p (key b) with
      | false => rfl
      | true =>
        have hne : key b ≠ key a := fun he => ha (he ▸ hb)
        simp [hne]

namespace Node.Stages

variable {st : Stages} {outer : Focus}

/-- Nothing is done to the output of the groups but to leave out repeated rows. -/
structure Unsorted (st : Stages) : Prop where
  order : st.order = none
  limit : st.limit = fun _ => none
  offset : st.offset = fun _ => none

theorem Unsorted.run_eq (h : st.Unsorted) : st.run E outer
    = (if st.distinct then firsts (·.2) (st.shown outer) else st.shown outer).map (·.2) := by
  simp [Stages.run, Stages.arranged, h.order, h.limit, h.offset, limited]

/-- Of the output, the rows are left on which a condition on rows holds. -/
theorem Unsorted.run_filter (h : st.Unsorted) {st' : Stages} (h' : st'.Unsorted) (hdistinct : st'.distinct = st.distinct)
    (p : Row → Bool) (hshown : st'.shown outer = (st.shown outer).filter fun out => p out.2) :
    st'.run E outer = (st.run E outer).filter p := by
  rw [h.run_eq, h'.run_eq, hdistinct, hshown]
  cases st.distinct with
  | false => simp only [Bool.false_eq_true, if_false, List.filter_map, Function.comp_def]
  | true => simp only [if_true, firsts_filter p, List.filter_map, Function.comp_def]

/-- **HAVING** leaves the rows on which it holds, if the output is that of the groups by themselves. -/
theorem run_having (h : st.Unsorted) (hhaving : st.having = always) (hqualify : st.qualify = always)
    {out : Focus → Row} (hout : ∀ s, st.output s = out s.focus) {having : Focus → List Datum} (p : Row → Bool)
    (hp : ∀ level : Level, holds (having (level :: outer)) = p (out (level :: outer))) :
    Stages.run E { st with having } outer = (st.run E outer).filter p := by
  have h' : Unsorted { st with having } := ⟨h.order, h.limit, h.offset⟩
  refine h.run_filter h' rfl p ?_
  have hshown : ∀ fs : List Focus, (((Spot.each fs).filter fun s => holds (st.qualify s)).map fun s =>
      (s.focus, st.output s)) = fs.map fun f => (f, out f) := by
    intro fs
    rw [hqualify]
    simp only [holds_always, List.filter_true, hout]
    conv_rhs => rw [← Spot.map_focus_each fs, List.map_map]
    rfl
  unfold shown groups
  simp only
  rw [hshown, hshown, hhaving]
  simp only [holds_always, List.filter_true, List.filter_map, List.map_map, Function.comp_def, hp]

/-- **QUALIFY** leaves the rows on which it holds. -/
theorem run_qualify (h : st.Unsorted) (hqualify : st.qualify = always) {qualify : Spot → List Datum}
    (p : Row → Bool) (hp : ∀ s ∈ Spot.each (st.groups outer), holds (qualify s) = p (st.output s)) :
    Stages.run E { st with qualify } outer = (st.run E outer).filter p := by
  have h' : Unsorted { st with qualify } := ⟨h.order, h.limit, h.offset⟩
  refine h.run_filter h' rfl p ?_
  have hgroups : groups { st with qualify } outer = st.groups outer := rfl
  unfold shown
  rw [hgroups, hqualify]
  simp only [holds_always, List.filter_true, List.filter_map, Function.comp_def]
  exact congrArg _ (List.filter_congr hp)

end Node.Stages

/-! ## Queries with a condition -/

namespace Node

open AlgebraSql.Convert (groupConditions)

/-- A condition in its clause has the values of the condition. -/
theorem operation_condition {k : Kind} (hk : k ∈ [Kind.where, .having, .qualify]) (c : Node) :
    (wrap k c).manner = .operation ∧ (wrap k c).children = [c]
      ∧ ∀ vs, operate E (wrap k c).bare [vs] = vs := by
  refine ⟨?_, by simp [wrap, children, Arg.children], fun vs => ?_⟩ <;>
    · simp only [List.mem_cons, List.not_mem_nil, or_false] at hk
      rcases hk with rfl | rfl | rfl <;> rfl

theorem scalar_condition {k : Kind} (hk : k ∈ [Kind.where, .having, .qualify]) (c : Node) (names : Names) :
    (wrap k c).scalar E db names = c.scalar E db names := by
  obtain ⟨hmanner, hchildren, hvalue⟩ := operation_condition (E := E) hk c
  rw [scalar_of_operation hmanner, hchildren, List.map_singleton]
  cases c.scalar E db names with
  | none => rfl
  | some v => simp only [together, Option.map_some, hvalue]

theorem analytic_condition {k : Kind} (hk : k ∈ [Kind.where, .having, .qualify]) (c : Node) (names : Names) :
    (wrap k c).analytic E db names = c.analytic E db names := by
  obtain ⟨hmanner, hchildren, hvalue⟩ := operation_condition (E := E) hk c
  rw [analytic_of_operation hmanner, hchildren, List.map_singleton]
  cases c.analytic E db names with
  | none => rfl
  | some v => simp only [together, Option.map_some, hvalue]

/-- **A star under a condition** has the rows on which the condition holds. -/
theorem rows_selectWhere {item test : Node} {outer : Names} {v : Focus → List Row}
    (hv : item.tuples E db outer = some v)
    (hwide : ∀ f, ∀ row ∈ v f, row.length = (item.frame db.schema).cells.length) {c : Focus → List Datum}
    (hc : test.scalar E db (Names.within (item.frame db.schema) outer) = some c) :
    ((selectFrom item).set "where" (some (.node (wrap .where test)))).rows E db outer
      = some fun f => (v f).filter fun row => holds (c (⟨row, [row]⟩ :: f)) := by
  set q := (selectFrom item).set "where" (some (.node (wrap .where test))) with hq
  have hstar : IsStar q item := (isStar_selectFrom item).set_where (wrap .where test)
  have hclause : q.clause "where" always (scalar E db (q.fromNames db outer)) = some c := by
    rw [clause, fromNames, hstar.frame_eq, hq, child?_set_self]
    exact (scalar_condition (by simp) test _).trans hc
  rw [hstar.rows_eq, hclause, hv]
  refine congrArg some (funext fun f => (List.map_congr_left fun row hrow => ?_).trans (List.map_id _))
  exact Row.pad_of_length (hwide f row (List.mem_filter.mp hrow).1)

/-- **`Conditioned`** — a query gets a condition in a clause that it lacks, which leaves it grouped or not. -/
structure Conditioned (key : String) (k : Kind) (c n n' : Node) : Prop where
  clause_mem : (key, k) ∈ groupConditions
  kind : n.kind = .select
  absent : n.child? key = none
  eq : n' = n.set key (some (.node (wrap k c)))
  grouped : n'.isGrouped = n.isGrouped

namespace Conditioned

variable {key : String} {k : Kind} {c n n' : Node} {names outer : Names}

theorem ne_key (h : Conditioned key k c n n') {other : String} (hother : other ∉ groupConditions.map (·.1)) :
    key ≠ other := by
  rintro rfl
  exact hother (List.mem_map_of_mem h.clause_mem)

theorem arg?_eq (h : Conditioned key k c n n') {other : String} (hne : key ≠ other) :
    n'.arg? other = n.arg? other := by
  rw [h.eq, arg?_set_of_ne n _ hne]

theorem child?_eq (h : Conditioned key k c n n') {other : String} (hne : key ≠ other) :
    n'.child? other = n.child? other := by
  simp only [child?, h.arg?_eq hne]

theorem child?_self (h : Conditioned key k c n n') : n'.child? key = some (wrap k c) := by
  rw [h.eq, child?_set_self]

theorem clause_eq (h : Conditioned key k c n n') {α : Type} {other : String} (hne : key ≠ other) (absent : α)
    (value : Node → Option α) : n'.clause other absent value = n.clause other absent value := by
  simp only [clause, h.child?_eq hne]

theorem list_eq (h : Conditioned key k c n n') : n'.list "expressions" = n.list "expressions" := by
  simp only [list, list?, h.arg?_eq (h.ne_key (show "expressions" ∉ _ by decide))]

theorem flag_eq (h : Conditioned key k c n n') : n'.flag "distinct" = n.flag "distinct" := by
  simp only [flag, h.arg?_eq (h.ne_key (show "distinct" ∉ _ by decide))]

theorem frame_eq (h : Conditioned key k c n n') (schema : Schema) : n'.frame schema = n.frame schema := by
  rw [h.eq]
  exact frame_set h.kind (h.ne_key (by decide)) _

theorem itemNames_eq (h : Conditioned key k c n n') : n'.itemNames = n.itemNames := by
  simp only [itemNames, h.list_eq]

theorem itemAt_eq (h : Conditioned key k c n n') : n'.itemAt E db = n.itemAt E db := by
  funext names place
  simp only [itemAt, h.list_eq]

theorem fromNames_eq (h : Conditioned key k c n n') : n'.fromNames db outer = n.fromNames db outer := by
  simp only [fromNames, h.frame_eq]

theorem output_eq (h : Conditioned key k c n n') : n'.output E db names = n.output E db names := by
  simp only [output, h.list_eq, h.frame_eq]

theorem groupingIn_eq (h : Conditioned key k c n n') : n'.groupingIn E db outer = n.groupingIn E db outer := by
  have hlevels : ∀ keys, levelsOf E n' keys = levelsOf E n keys := fun keys => by
    simp only [levelsOf, h.child?_eq (h.ne_key (show "group" ∉ _ by decide)), h.grouped]
  have hnames : n'.groupNames E db outer = n.groupNames E db outer := by
    simp only [groupNames, h.fromNames_eq, h.frame_eq, h.itemNames_eq, h.itemAt_eq]
  unfold groupingIn
  rw [h.clause_eq (h.ne_key (by decide)), h.clause_eq (h.ne_key (by decide)), h.fromNames_eq, hlevels,
    hnames, h.child?_eq (h.ne_key (by decide))]

theorem havingNames_eq (h : Conditioned key k c n n') : n'.havingNames E db outer = n.havingNames E db outer := by
  simp only [havingNames, h.fromNames_eq, h.itemNames_eq, h.itemAt_eq]

theorem orderNames_eq (h : Conditioned key k c n n') : n'.orderNames db outer = n.orderNames db outer := by
  simp only [orderNames, h.fromNames_eq, h.itemNames_eq, h.frame_eq]

/-- A condition in HAVING is evaluated with the names there, and changes no other stage. -/
theorem stagesIn_having (h : Conditioned "having" .having c n n') : n'.stagesIn E db outer = (do
    let st ← n.stagesIn E db outer
    let having ← c.scalar E db (n.havingNames E db outer)
    return { st with having }) := by
  have hhaving : n'.clause "having" always (scalar E db (n.havingNames E db outer))
      = c.scalar E db (n.havingNames E db outer) := by
    simp only [clause, h.child?_self, scalar_condition (show Kind.having ∈ _ by simp)]
  have habsent : n.clause "having" always (scalar E db (n.havingNames E db outer)) = some always := by
    simp only [clause, h.absent]
  unfold stagesIn
  simp only [h.groupingIn_eq, h.havingNames_eq, h.fromNames_eq, h.output_eq, h.orderNames_eq, h.frame_eq,
    h.flag_eq, hhaving, habsent, h.clause_eq (show "having" ≠ "qualify" by decide),
    h.clause_eq (show "having" ≠ "order" by decide), h.clause_eq (show "having" ≠ "limit" by decide),
    h.clause_eq (show "having" ≠ "offset" by decide), Option.bind_eq_bind, Option.bind_some, Option.pure_def]
  generalize c.scalar E db (n.havingNames E db outer) = having
  cases having with
  | none => simp
  | some having => simp [Option.bind_assoc]

/-- A condition in QUALIFY is evaluated with the names of FROM, and changes no other stage. -/
theorem stagesIn_qualify (h : Conditioned "qualify" .qualify c n n') : n'.stagesIn E db outer = (do
    let st ← n.stagesIn E db outer
    let qualify ← c.analytic E db (n.fromNames db outer)
    return { st with qualify }) := by
  have hqualify : n'.clause "qualify" always (analytic E db (n.fromNames db outer))
      = c.analytic E db (n.fromNames db outer) := by
    simp only [clause, h.child?_self, analytic_condition (show Kind.qualify ∈ _ by simp)]
  have habsent : n.clause "qualify" always (analytic E db (n.fromNames db outer)) = some always := by
    simp only [clause, h.absent]
  unfold stagesIn
  simp only [h.groupingIn_eq, h.havingNames_eq, h.fromNames_eq, h.output_eq, h.orderNames_eq, h.frame_eq,
    h.flag_eq, hqualify, habsent, h.clause_eq (show "qualify" ≠ "having" by decide),
    h.clause_eq (show "qualify" ≠ "order" by decide), h.clause_eq (show "qualify" ≠ "limit" by decide),
    h.clause_eq (show "qualify" ≠ "offset" by decide), Option.bind_eq_bind, Option.bind_some, Option.pure_def]
  generalize c.analytic E db (n.fromNames db outer) = qualify
  cases qualify with
  | none => simp
  | some qualify => simp [Option.bind_assoc]

end Conditioned

/-- A query without ORDER BY and limits. -/
structure Unlimited (n : Node) : Prop where
  order : n.child? "order" = none
  limit : n.child? "limit" = none
  offset : n.child? "offset" = none

/-- The stages of a query without a clause do nothing in its place. -/
theorem Unlimited.stages {n : Node} (h : n.Unlimited) {outer : Names} {st : Stages}
    (hst : n.stagesIn E db outer = some st) : st.Unsorted
      ∧ (n.child? "having" = none → st.having = always) ∧ (n.child? "qualify" = none → st.qualify = always)
      ∧ n.output E db (n.fromNames db outer) = some st.output := by
  unfold stagesIn at hst
  simp only [clause, h.order, h.limit, h.offset, Option.bind_eq_bind, Option.bind_some,
    Option.bind_eq_some_iff, Option.pure_def, Option.some.injEq] at hst
  obtain ⟨grouping, -, having, hhaving, qualify, hqualify, output, houtput, rfl⟩ := hst
  refine ⟨⟨rfl, rfl, rfl⟩, fun hnone => ?_, fun hnone => ?_, houtput⟩
  · simpa [hnone, eq_comm] using hhaving
  · simpa [hnone, eq_comm] using hqualify

end Node

end AlgebraSql.Sql
