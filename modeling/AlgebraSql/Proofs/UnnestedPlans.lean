import AlgebraSql.Proofs.CallNesting

/-!
# Unnested plans — whatever operators are stacked, calls do not get into each other.

Every result keeps account of its select list: either no item has a windowed call or the select list is
declared, and either no item aggregates or a grouping is declared.  The rules about wrapping read the
declarations, so an operator that calls functions itself gets to see columns instead of such items.
-/

namespace AlgebraSql.Convert

open Sql Node

variable {nested : Bool} {env : Env} {sub : Rel → ConvertM Node} {rel : Rel} {x : Result} {b : Builder}

/-! ## Results -/

/-- A relation that is a projection. -/
def isProjection : Rel → Bool
  | .project .. => true
  | _ => false

/-- **`Separated`** — calls do not nest in the query of a result, and what its select list calls is declared. -/
structure Separated (nested : Bool) (rel : Rel) (r : Result) : Prop where
  assembled : Assembled (Unnested nested) r
  windows : (∃ c ∈ [Clause.select, .setOp], c ∈ r.clauses) ∨ ListHas Unwindowed r.node
  aggregates : (∃ c ∈ [Clause.groupBy, .setOp], c ∈ r.clauses) ∨ ListHas Unaggregated r.node
  /-- No set operation is in the query of a projection. -/
  projected : isProjection rel = true → .setOp ∉ r.clauses

/-- A query without a select list has nothing to declare. -/
theorem Separated.unlisted {r : Result} (h : Assembled (Unnested nested) r) (hnone : r.node.selectList? = none)
    (hrel : isProjection rel = false) : Separated nested rel r := by
  have hlist : ∀ P, ListHas P r.node := by
    intro P items hitems
    rw [hnone] at hitems
    cases hitems
  exact ⟨h, .inr (hlist Unwindowed), .inr (hlist Unaggregated), fun h => by simp [hrel] at h⟩

theorem Separated.resetAlias {r : Result} (h : Separated nested rel r) : Separated nested rel r.resetAlias := by
  unfold Result.resetAlias
  split
  · exact ⟨⟨h.assembled.good, h.assembled.named, h.assembled.clausal⟩, h.windows, h.aggregates, h.projected⟩
  · exact h

/-- A select list fits behind clauses that may be a select list only if there is one, and it is the last of them. -/
theorem last?_of_fit {clauses : List Clause} {c : Clause} (hc : c ∈ clauses) (hlate : Clause.rank .select ≤ c.rank)
    (hfit : Clause.fit clauses [.select] = true) : Clause.last? clauses = some .select := by
  unfold Clause.fit at hfit
  split at hfit
  · rename_i hnone
    exact absurd hnone (last?_ne_none hc)
  · rename_i last hlast
    have hrank : c.rank ≤ last.rank := (rank_le_foldl clauses hlast).1 _ hc
    simp only [List.all_cons, List.all_nil, Bool.and_true, Clause.follows, Bool.or_eq_true, decide_eq_true_eq,
      Bool.and_eq_true, beq_iff_eq] at hfit
    rcases hfit with hlt | ⟨rfl, -⟩
    · omega
    · exact hlast

/-- A relation that calls functions over windows. -/
def isWindowing (rel : Rel) : Bool :=
  match rel with
  | .window .. => true
  | r => WrapCheck.projectsWindow r

/-- A query that was opened for a select list is no set operation. -/
theorem OpenedAs.setOp_not_mem (hb : OpenedAs env (x.expecting [.select]) rel b)
    (hrel : ∀ input condition ids, rel ≠ .filter input condition ids) : .setOp ∉ b.clauses := by
  have hdups : [Clause.select].eraseDups = [Clause.select] := by decide
  rw [hb.clauses]
  split
  · simp [Result.expecting, hdups]
  · rename_i hwrap
    simp only [Result.expecting, hdups, List.mem_append, List.mem_singleton, reduceCtorEq, or_false]
    intro hc
    obtain ⟨input, condition, ids, heq, -⟩ | ⟨hfit, -⟩ :=
      unwrapped_cases (r := x.expecting [.select]) (List.ne_nil_of_mem hc) (by simpa using hwrap)
    · exact hrel input condition ids heq
    · rcases rank_of_fit hfit hc (e := .select) (by simp [Result.expecting, hdups]) with hlt | ⟨-, hle⟩
      · exact absurd hlt (by decide)
      · exact absurd hle (by decide)

section Opened

variable (henv : env.fieldMap = [])

include henv

/-- **Windowed calls** go on with fields that have none. -/
theorem Separated.fields_unwindowed {input : Rel} (hx : Separated nested input x)
    (hb : OpenedAs env (x.expecting [.select]) rel b) (hrel : isWindowing rel = true) :
    FieldsHave Unwindowed env b.context := by
  refine (hb.fields_or inherited_unwindowed hasColumns_unwindowed Unwindowed.inner henv hx.windows).resolve_right ?_
  rintro ⟨⟨c, hcs, hc⟩, hwrap⟩
  have hlate : Clause.rank .select ≤ c.rank := by
    simp only [List.mem_cons, List.not_mem_nil, or_false] at hcs
    rcases hcs with rfl | rfl <;> decide
  have hused : (x.expecting [.select]).clauses ≠ [] := List.ne_nil_of_mem hc
  have hqualify : qualifyOverWindow (wrapCheck env (x.expecting [.select]) rel) ≠ some false := by
    unfold qualifyOverWindow wrapCheck
    split
    · rename_i heq
      dsimp only at heq
      subst heq
      simp [isWindowing, WrapCheck.projectsWindow, WrapCheck.projects?] at hrel
    · simp
  -- the select list is the last clause, so that the rule about windows wraps the query
  have horder := middleRule_ne_true hused hqualify hwrap (by simp [middleRules] : clauseOrder ∈ middleRules)
  have hlast : Clause.last? x.clauses = some .select := by
    apply last?_of_fit hc hlate
    have hdups : [Clause.select].eraseDups = [Clause.select] := by decide
    simpa [clauseOrder, wrapIf, wrapCheck, Result.expecting, hdups] using horder
  have hwindow := middleRule_ne_true hused hqualify hwrap (by simp [middleRules] : windowOverSelect ∈ middleRules)
  have hselects : (wrapCheck env (x.expecting [.select]) rel).selectsLast = true := by
    simpa [WrapCheck.selectsLast, wrapCheck, Result.expecting] using hlast
  unfold windowOverSelect at hwindow
  rw [hselects] at hwindow
  cases rel <;> simp_all [wrapIf, wrapCheck, isWindowing]

/-- **Aggregations** go on with fields that call no aggregate function, if the dialect does not nest them. -/
theorem Separated.fields_unaggregated (hnested : env.dialect.capabilities.nestedAggregates = false)
    {input : Rel} (hx : Separated nested input x) {keys : List Ordinal} {sets : List (List Ordinal)}
    {calls : List AggregateCall} (hrel : rel = .aggregate input keys sets calls)
    (hb : OpenedAs env (x.expecting [.groupBy] (ignoresClauses rel)) rel b) : FieldsHave Unaggregated env b.context := by
  refine (hb.fields_or inherited_unaggregated hasColumns_unaggregated Unaggregated.inner henv hx.aggregates).resolve_right ?_
  rintro ⟨⟨c, hcs, hc⟩, hwrap⟩
  have hdeclared : .groupBy ∈ x.clauses := by
    simp only [List.mem_cons, List.not_mem_nil, or_false] at hcs
    rcases hcs with rfl | rfl
    · exact hc
    · -- a grouping does not fit behind a set operation, and there is none in a projection
      have hplain : isProjection input = false := by
        by_contra hproject
        exact hx.projected (by simpa using hproject) hc
      have hheeded : ignoresClauses rel = false := by
        rw [hrel]
        cases input <;> simp_all [ignoresClauses, isProjection]
      obtain ⟨_, _, _, heq, -⟩ | ⟨hfit, -⟩ :=
        unwrapped_cases (r := x.expecting [.groupBy] (ignoresClauses rel)) (List.ne_nil_of_mem hc) hwrap
      · rw [hrel] at heq
        cases heq
      · have hdups : [Clause.groupBy].eraseDups = [Clause.groupBy] := by decide
        rw [hheeded] at hfit
        rcases rank_of_fit hfit hc (e := .groupBy) (by simp [Result.expecting, hdups]) with hlt | ⟨heq, -⟩
        · exact absurd hlt (by decide)
        · cases heq
  subst hrel
  generalize ignoresClauses (.aggregate input keys sets calls) = ignores at hb hwrap
  have hused : (x.expecting [.groupBy] ignores).clauses ≠ [] := List.ne_nil_of_mem hdeclared
  have hrule := middleRule_ne_true hused (by simp [qualifyOverWindow, wrapCheck]) hwrap
    (by simp [middleRules] : nestedAggregate ∈ middleRules)
  have hplain : (wrapCheck env (x.expecting [.groupBy] ignores) (.aggregate input keys sets calls)).hasNested calls
      (fun n => WrapCheck.isAggregateCall n || n.is .window) = false := by
    simpa [nestedAggregate, wrapCheck, hnested, wrapIf] using hrule
  -- over a grouping, only a grand total of aggregates goes on, and there is none
  obtain ⟨_, _, _, heq, -⟩ | ⟨-, htotal⟩ := unwrapped_cases hused hwrap
  · cases heq
  have hgrand : (wrapCheck env (x.expecting [.groupBy] ignores) (.aggregate input keys sets calls)).hasNested calls
      WrapCheck.isAggregateCall = true := by
    have hcontains : (x.expecting [.groupBy] ignores).clauses.contains .groupBy = true := by
      simpa [Result.expecting] using hdeclared
    simp only [aggregateOverAggregate, wrapCheck, hcontains, if_true, ne_eq, Option.some.injEq, Bool.or_eq_true,
      Bool.not_eq_true', not_or, Bool.not_eq_false] at htotal
    exact htotal.1
  have := hasNested_mono (q := fun n => WrapCheck.isAggregateCall n || n.is .window) (by simp_all) hgrand
  rw [hplain] at this
  cases this

end Opened

/-! ## Operators -/

section Operators

variable (hd : env.dialect.targetFunctions.all (!·.operator.isAggregate) = true) (henv : env.fieldMap = [])
  (hsub : ∀ rel, rel.satisfies callsApart = true → Maintains OnlyColumns (Separate nested) (sub rel))

include hd henv hsub

theorem separated_filterResult {input : Rel} {condition : Expr} {ids : List String}
    (hrel : rel = .filter input condition ids) (hx : Separated nested input x) (hcondition : Still true condition) :
    Maintains OnlyColumns (Separated nested rel) (filterResult env sub input condition ids rel x) := by
  have hG := structural_unnested nested
  refine (assembled_filterResult hG ids hx.assembled fun b hb => ?_).mono fun r hr =>
    ⟨hr.1, hr.2.listHas hx.windows, hr.2.listHas hx.aggregates, fun hproject => by simp [hrel, isProjection] at hproject⟩
  exact inherited_scalarNode (admits_unnested hd henv hsub (hb.fields hG henv hx.assembled.good)) condition
    hcondition.admissible

/-- **A projection** that calls functions over windows sees no such call, and it brings no aggregates. -/
theorem separated_projectResult {input : Rel} {projects : List Expr} {names : List String} {distinct : Bool}
    {ids : List String} (hrel : rel = .project input projects names distinct ids) (hx : Separated nested input x)
    (hprojects : ∀ e ∈ projects, (∀ p ∈ e.parts, p.nestsNoOver = true) ∧ e.satisfies callsApart true = true) :
    Maintains OnlyColumns (Separated nested rel) (projectResult env sub input projects distinct ids rel x) := by
  have hG := structural_unnested nested
  refine (assembled_projectResult hG (fun ctx _ n => FieldsHave Unaggregated env ctx → Unaggregated n) distinct ids
    hx.assembled fun b hb e he => ?_).mono ?_
  · have hadmissible : Admissible env b.context true e := by
      refine ⟨fun p hp => ⟨(hprojects e he).1 p hp, fun hover => ?_⟩, (hprojects e he).2⟩
      refine hx.fields_unwindowed henv hb ?_
      have hcontains : e.containsOver = true := by
        by_contra hnone
        rw [Scalar.isOver_of_containsOver (by simpa using hnone) p hp] at hover
        cases hover
      rw [hrel]
      simp only [isWindowing, WrapCheck.projectsWindow, WrapCheck.projects?, Option.any_some, List.any_eq_true]
      exact ⟨e, he, hcontains⟩
    refine .and_imp (.projectedNode hG.inherited ?_) fun hplain => .projectedNode inherited_unaggregated ?_
    · exact inherited_scalarNode (admits_unnested hd henv hsub (hb.fields hG henv hx.assembled.good)) e hadmissible
    · exact inherited_scalarNode (admits_plain hd henv hsub hplain) e hadmissible
  · have hordered : ∀ b, OpenedAs env (x.expecting [.select]) rel b → .setOp ∉ b.clauses := fun b hb =>
      hb.setOp_not_mem (by simp [hrel])
    rintro r ⟨hr, ⟨-, hkept⟩ | hlisted⟩
    · refine ⟨hr, .inl ⟨.select, by simp, hkept.mem_expected (by simp)⟩, hkept.listHas hx.aggregates, fun _ => ?_⟩
      obtain ⟨b, hb, hclauses, -⟩ := hkept
      exact hclauses ▸ hordered b hb
    · refine ⟨hr, .inl ⟨.select, by simp, hlisted.mem_expected (by simp)⟩, ?_, fun _ => ?_⟩
      swap
      · obtain ⟨b, -, hb, hclauses, -⟩ := hlisted
        exact hclauses ▸ hordered b hb
      refine hlisted.listHas inherited_unaggregated hasColumns_unaggregated Unaggregated.inner henv hx.aggregates ?_
      rintro ctx items hplain ⟨ns, hns, -, rfl⟩ item hitem
      have hnodes : ∀ n ∈ ns, Unaggregated n := forall_right_of_forall₂ (hns.imp fun _ _ h => ⟨h hplain, trivial⟩)
      exact inherited_unaggregated.isNamed (isNamed_namedItems hnodes rel.fields item hitem)

omit hd hsub in
/-- **An aggregation** of a dialect that does not nest aggregates sees no aggregates, and it brings no windowed calls. -/
theorem separated_aggregateResult (hnested : nested = false → env.dialect.capabilities.nestedAggregates = false)
    {input : Rel} {keys : List Ordinal} {sets : List (List Ordinal)} {calls : List AggregateCall}
    (hrel : rel = .aggregate input keys sets calls) (hx : Separated nested input x) :
    Maintains OnlyColumns (Separated nested rel) (aggregateResult env keys sets calls rel x) := by
  have hG := structural_unnested nested
  refine (assembled_aggregateResult hG henv hx.assembled fun b hb call _ n hn => ?_).mono ?_
  · exact unnested_aggregateNode (hb.fields hG henv hx.assembled.good)
      (fun hn => hx.fields_unaggregated henv (hnested hn) hrel hb) hn
  · rintro r ⟨hr, hlisted⟩
    refine ⟨hr, ?_, .inl ⟨.groupBy, by simp, hlisted.mem_expected (by simp)⟩,
      fun hproject => by simp [hrel, isProjection] at hproject⟩
    refine hlisted.listHas inherited_unwindowed hasColumns_unwindowed Unwindowed.inner henv hx.windows
      fun ctx items hplain hitems item hmem => ?_
    obtain ⟨ks, ns, hks, hns, rfl | ⟨-, rfl⟩⟩ := hitems
    · refine inherited_unwindowed.isNamed (isNamed_namedItems (fun n hn => ?_) rel.fields item hmem)
      rcases List.mem_append.mp hn with hn | hn
      · exact forall_of_mapM hks (fun k _ n hn => hplain k n hn) n hn
      · exact forall_of_mapM hns (fun call _ n hn => unwindowed_aggregateNode (fun c _ => hplain c.key)
          (fun i _ => hplain i) hn) n hn
    · obtain rfl := List.mem_singleton.mp hmem
      exact inherited_number inherited_unwindowed _

/-- **Windowed calls** of a group see no windowed calls, and bring no aggregates of their own. -/
theorem separated_windowResult {input : Rel} {groups : List (WindowGroup Expr)} {constants : List Literal}
    {names : List String} (hrel : rel = .window input groups constants names) (hx : Separated nested input x)
    (hgroups : ∀ g ∈ groups, (∀ e ∈ frameExprs g.frame, Still true e) ∧ ∀ c ∈ g.calls, ∀ e ∈ c.operands, Still true e) :
    Maintains OnlyColumns (Separated nested rel) (windowResult env sub input groups constants rel x) := by
  have hG := structural_unnested nested
  refine (assembled_windowResult hG (fun ctx n => FieldsHave Unaggregated env ctx → Unaggregated n) henv hx.assembled
    fun b hb g hg width => ?_).mono ?_
  · obtain ⟨hframe, hcalls⟩ := hgroups g hg
    have hfields := hx.fields_unwindowed henv hb (by rw [hrel]; rfl)
    have hstill : Admits env sub OnlyColumns Unwindowed b.context (Still true) := admits_still henv hsub hfields
    have hclosed : ∀ l, Still true (.literal l) := fun l => ⟨by simp [Scalar.parts, Scalar.isOver], rfl⟩
    have hunnested : Admits env sub OnlyColumns (Unnested nested) b.context (Still true) :=
      (admits_unnested hd henv hsub (hb.fields hG henv hx.assembled.good)).restrict partClosed_still fun e he => he.admissible
    have hcalled : Maintains OnlyColumns (fun ns => ∀ n ∈ ns, Unnested nested n)
        (windowGroupNodes env sub b.context constants width g) :=
      inherited_windowGroupNodes (hunnested.and hstill)
        (fun i n hn => ⟨hb.fields hG henv hx.assembled.good i n hn, hfields i n hn⟩) hclosed constants width hframe hcalls
        fun c _ written args parts _ hparts => good_windowedNode (fun name => unnested_overNode hparts) unnested_orZero
    have hquiet : FieldsHave Unaggregated env b.context → Maintains OnlyColumns (fun ns => ∀ n ∈ ns, Unaggregated n)
        (windowGroupNodes env sub b.context constants width g) := fun hplain =>
      inherited_windowGroupNodes ((admits_plain hd henv hsub hplain).restrict partClosed_still fun e he => he.admissible)
        hplain hclosed constants width hframe hcalls fun c _ written args parts _ hparts => unaggregated_windowedNode hparts
    refine (hcalled.and_imp hquiet).mono ?_
    rintro ns ⟨hns, hplain⟩ n hn
    exact ⟨hns n hn, fun hfields => hplain hfields n hn⟩
  · rintro r ⟨hr, hlisted⟩
    refine ⟨hr, .inl ⟨.select, by simp, hlisted.mem_expected (by simp)⟩, ?_,
      fun hproject => by simp [hrel, isProjection] at hproject⟩
    refine hlisted.listHas inherited_unaggregated hasColumns_unaggregated Unaggregated.inner henv hx.aggregates
      fun ctx items hplain hitems item hmem => ?_
    obtain ⟨n, name, hn, rfl⟩ := hitems item hmem
    refine inherited_unaggregated.isNamed ⟨n, name, ?_, rfl⟩
    rcases hn with ⟨i, hn⟩ | hn
    · exact hplain i n hn
    · exact hn hplain

theorem separated_sortResult {root : Bool} {input : Rel} {collation : List Collation} {offset fetch : Option Expr}
    (hrel : rel = .sort input collation offset fetch) (hx : Separated nested input x)
    (hlimits : ∀ e, offset = some e ∨ fetch = some e → Still false e) :
    Maintains OnlyColumns (Separated nested rel) (sortResult env sub root collation offset fetch rel x) := by
  have hG := structural_unnested nested
  refine (assembled_sortResult hG henv hx.assembled fun b hb e he => ?_).mono ?_
  · exact inherited_scalarNode (admits_unnested hd henv hsub (hb.fields hG henv hx.assembled.good)) e
      (hlimits e he).admissible
  · have hplain : isProjection rel = true → False := by simp [hrel, isProjection]
    rintro r ⟨hr, hkept | hlisted⟩
    · exact ⟨hr, hkept.listHas hx.windows, hkept.listHas hx.aggregates, fun hproject => (hplain hproject).elim⟩
    · have hcolumns : ∀ {P : Node → Prop}, Inherited P → ∀ (ctx : Context) (items : List Node), FieldsHave P env ctx →
          ((∃ inputs qualified, ctx = .aliases inputs qualified)
            ∧ ∀ item ∈ items, IsNamed (fun n => ∃ i, ctx.field env i = .ok n) item) → ∀ item ∈ items, P item := by
        rintro P hP ctx items hfields ⟨-, hitems⟩ item hmem
        obtain ⟨n, name, ⟨i, hn⟩, rfl⟩ := hitems item hmem
        exact hP.isNamed ⟨n, name, hfields i n hn, rfl⟩
      exact ⟨hr,
        hlisted.listHas inherited_unwindowed hasColumns_unwindowed Unwindowed.inner henv hx.windows
          (hcolumns inherited_unwindowed),
        hlisted.listHas inherited_unaggregated hasColumns_unaggregated Unaggregated.inner henv hx.aggregates
          (hcolumns inherited_unaggregated),
        fun hproject => (hplain hproject).elim⟩

/-- **Joins** of either kind list nothing. -/
theorem separated_join {l r : Rel} {condition : Expr} {type : JoinType} {ids : List String} {left right : Result}
    (hrel : rel = .join l r condition type ids) (hleft : Separated nested l left) (hright : Separated nested r right)
    (hcondition : Still true condition) :
    Maintains OnlyColumns (Separated nested rel) (if type.keepsLeftOnly then
      semiJoinResult env sub condition type ids rel left right
      else joinResult env sub condition type ids rel left right) := by
  have hG := structural_unnested nested
  have hfields : FieldsHave (Unnested nested) env (.join left.qualifiedContext right.qualifiedContext) :=
    .join (hG.hasColumns.aliasField henv _ _) (hG.hasColumns.aliasField henv _ _)
  have hadmits : Admits env sub OnlyColumns (Unnested nested) (.join left.qualifiedContext right.qualifiedContext)
      (Still true) :=
    (admits_unnested hd henv hsub hfields).restrict partClosed_still fun e he => he.admissible
  have hon := inherited_conditionNode hadmits closedUnderTurning_still condition hcondition
  split
  · exact (assembled_semiJoinResult hG ids hleft.assembled hright.assembled hon).mono fun r hr =>
      .unlisted hr.1 hr.2 (by rw [hrel]; rfl)
  · exact (assembled_joinResult hG ids hleft.assembled hright.assembled hon).mono fun r hr =>
      .unlisted hr.1 hr.2 (by rw [hrel]; rfl)

end Operators

/-! ## Plans -/

mutual

/-- **`relationResult`** — calls do not nest in the query for a plan. -/
theorem separated_relationResult
    (hd : env.dialect.targetFunctions.all (!·.operator.isAggregate) = true) (henv : env.fieldMap = [])
    (hnested : nested = false → env.dialect.capabilities.nestedAggregates = false)
    (hsub : ∀ rel, rel.satisfies callsApart = true → Maintains OnlyColumns (Separate nested) (sub rel)) (root : Bool) :
    ∀ rel : Rel, rel.satisfies callsApart = true → Maintains OnlyColumns (Separated nested rel) (relationResult env sub root rel)
  | .scan table fields, _ => by
    rw [relationResult]
    exact (assembled_scanResult (structural_unnested nested)).mono fun r ⟨hr, hnone⟩ => .unlisted hr hnone rfl
  | .values fields tuples, _ => by
    rw [relationResult]
    refine (assembled_valuesResult (structural_unnested nested)).mono fun r ⟨hr, hlist⟩ => ⟨hr, ?_, ?_, nofun⟩
    · exact .inr fun items hitems => hlist items hitems Unwindowed inherited_unwindowed
    · exact .inr fun items hitems => hlist items hitems Unaggregated inherited_unaggregated
  | .filter input condition ids, hrel => by
    simp only [Rel.satisfies, callsApart, PlanCheck.ofRelations, callsApartIn, Bool.and_eq_true] at hrel
    obtain ⟨⟨hstill, hinput⟩, hcondition⟩ := hrel
    rw [relationResult]
    refine .bind (separated_relationResult hd henv hnested hsub false input hinput) fun x hx => ?_
    exact separated_filterResult hd henv hsub rfl hx ⟨(Scalar.isStill_iff _).mp hstill, hcondition⟩
  | .project input projects names distinct ids, hrel => by
    simp only [Rel.satisfies, Bool.and_eq_true, Scalar.allSatisfy_iff] at hrel
    obtain ⟨⟨happart, hinput⟩, hprojects⟩ := hrel
    rw [relationResult]
    refine .bind (separated_relationResult hd henv hnested hsub false input hinput) fun x hx => ?_
    refine separated_projectResult hd henv hsub rfl hx fun e he => ⟨?_, hprojects e he⟩
    exact List.all_eq_true.mp (List.all_eq_true.mp happart e he)
  | .aggregate input keys sets calls, hrel => by
    simp only [Rel.satisfies, Bool.and_eq_true] at hrel
    rw [relationResult]
    refine .bind (separated_relationResult hd henv hnested hsub false input hrel.2) fun x hx => ?_
    exact separated_aggregateResult henv hnested rfl hx
  | .join left right condition type ids, hrel => by
    simp only [Rel.satisfies, callsApart, PlanCheck.ofRelations, callsApartIn, Bool.and_eq_true] at hrel
    obtain ⟨⟨⟨hstill, hleft⟩, hright⟩, hcondition⟩ := hrel
    rw [relationResult]
    refine .bind (separated_relationResult hd henv hnested hsub false left hleft) fun x hx => ?_
    refine .bind (separated_relationResult hd henv hnested hsub false right hright) fun y hy => ?_
    exact separated_join hd henv hsub rfl hx.resetAlias hy.resetAlias
      ⟨(Scalar.isStill_iff _).mp hstill, hcondition⟩
  | .setOp op all inputs, hrel => by
    simp only [Rel.satisfies, Bool.and_eq_true] at hrel
    rw [relationResult]
    refine .bind (separated_relationSelects hd henv hnested hsub inputs hrel.2) fun ns hns => ?_
    refine (assembled_setOpResult (structural_unnested nested) hns).mono fun r ⟨hr, hclauses⟩ => ?_
    exact ⟨hr, .inl ⟨.setOp, by simp, by simp [hclauses]⟩, .inl ⟨.setOp, by simp, by simp [hclauses]⟩, nofun⟩
  | .sort input collation offset fetch, hrel => by
    simp only [Rel.satisfies, Bool.and_eq_true] at hrel
    obtain ⟨⟨⟨hstill, hinput⟩, hoffset⟩, hfetch⟩ := hrel
    simp only [callsApart, PlanCheck.ofRelations, callsApartIn, List.all_eq_true, List.mem_append, Option.mem_toList] at hstill
    rw [relationResult]
    refine .bind (separated_relationResult hd henv hnested hsub false input hinput) fun x hx => ?_
    refine separated_sortResult hd henv hsub rfl hx fun e he => ⟨(Scalar.isStill_iff e).mp (hstill e he), ?_⟩
    rcases he with rfl | rfl
    · exact hoffset
    · exact hfetch
  | .window input groups constants names, hrel => by
    simp only [Rel.satisfies, Bool.and_eq_true, Scalar.groupsSatisfy_iff] at hrel
    obtain ⟨⟨hstill, hinput⟩, hgroups⟩ := hrel
    simp only [callsApart, PlanCheck.ofRelations, callsApartIn, List.all_eq_true, List.mem_append, List.mem_flatMap] at hstill
    rw [relationResult]
    refine .bind (separated_relationResult hd henv hnested hsub false input hinput) fun x hx => ?_
    refine separated_windowResult hd henv hsub rfl hx fun g hg => ⟨fun e he => ?_, fun c hc e he => ?_⟩
    · exact ⟨(Scalar.isStill_iff e).mp (hstill g hg e (.inl he)), Scalar.satisfies_of_frameSatisfies (hgroups g hg).1 e he⟩
    · exact ⟨(Scalar.isStill_iff e).mp (hstill g hg e (.inr ⟨c, hc, he⟩)), (hgroups g hg).2 c hc e he⟩
  | .tableFunction inputs call fields, hrel => by simp [Rel.satisfies, callsApart, PlanCheck.ofRelations, callsApartIn] at hrel
  | .rowPattern input spec, hrel => by simp [Rel.satisfies, callsApart, PlanCheck.ofRelations, callsApartIn] at hrel

/-- **`relationSelects`** — nor in the queries for several plans. -/
theorem separated_relationSelects
    (hd : env.dialect.targetFunctions.all (!·.operator.isAggregate) = true) (henv : env.fieldMap = [])
    (hnested : nested = false → env.dialect.capabilities.nestedAggregates = false)
    (hsub : ∀ rel, rel.satisfies callsApart = true → Maintains OnlyColumns (Separate nested) (sub rel)) :
    ∀ rels : List Rel, Rel.allSatisfy callsApart rels = true →
    Maintains OnlyColumns (fun ns => ∀ n ∈ ns, Unnested nested n ∧ (n.kind = .select → Clausal n))
      (relationSelects env sub rels)
  | [], _ => by
    rw [relationSelects]
    exact .pure (by simp)
  | rel :: rels, hrels => by
    simp only [Rel.allSatisfy, Bool.and_eq_true] at hrels
    rw [relationSelects]
    refine .bind (separated_relationResult hd henv hnested hsub false rel hrels.1) fun x hx => ?_
    refine .bind (assembled_asSelect (structural_unnested nested) hx.assembled) fun n hn => ?_
    refine .bind (separated_relationSelects hd henv hnested hsub rels hrels.2) fun ns hns => .pure ?_
    simpa using ⟨hn, hns⟩

end

section Plans

variable (hd : env.dialect.targetFunctions.all (!·.operator.isAggregate) = true) (henv : env.fieldMap = [])
  (hnested : nested = false → env.dialect.capabilities.nestedAggregates = false)

/-- A query in an expression is a query. -/
theorem isQuery_of_asQuery {r : Result} {n : Node} {s s' : State} (h : (r.asQuery env).Gives s n s') :
    n.isQuery = true := by
  unfold Result.asQuery at h
  split at h
  · rename_i hset
    obtain ⟨rfl, -⟩ := (ConvertM.gives_pure _ _ _ _).mp h
    unfold isSetOperation at hset
    unfold isQuery Kind.isQuery
    split <;> simp_all
  · split at h
    · rename_i hvalues
      obtain ⟨rfl, -⟩ := (ConvertM.gives_pure _ _ _ _).mp h
      simp only [Bool.and_eq_true] at hvalues
      rw [isQuery, (is_eq_true_iff _ _).mp hvalues.1]
      rfl
    · rcases asSelect_reads h with ⟨hkind, rfl⟩ | ⟨item, rfl, -⟩
      · rw [isQuery, hkind]
        rfl
      · rfl

include hd henv hnested

/-- **`queryAt`** — calls do not nest in sub-queries of any depth. -/
theorem separate_queryAt (depth : Nat) (root : Bool) {rel : Rel} (hrel : rel.satisfies callsApart = true) :
    Maintains OnlyColumns (Separate nested) (queryAt env depth root rel) := by
  have hquery : ∀ {rel : Rel} {r : Result}, Separated nested rel r → Maintains OnlyColumns (Separate nested) (r.asQuery env) :=
    fun {rel r} hr => .of_spares (fun _ => r.steady_asQuery) fun s n s' h =>
      ⟨(structural_unnested nested).returned hr.assembled.good (returned_asQuery h), .of_query (isQuery_of_asQuery h),
        .of_query (isQuery_of_asQuery h)⟩
  have hnull : Separate nested Node.null :=
    ⟨inherited_null (structural_unnested nested).inherited, inherited_null inherited_unwindowed,
      inherited_null inherited_unaggregated⟩
  induction depth generalizing root rel with
  | zero =>
    unfold queryAt
    exact .bind (separated_relationResult hd henv hnested (fun _ _ => .pure hnull) root rel hrel) fun r => hquery
  | succ depth ih =>
    unfold queryAt
    exact .bind (separated_relationResult hd henv hnested (fun rel hrel => ih false hrel) root rel hrel) fun r => hquery

end Plans

/-- **`statement`** — in every statement for a plan whose expressions nest no calls, no windowed call lies in another
one of the same SELECT, and if the dialect does not nest aggregates, neither does an aggregate function that is not
called over a window lie in the arguments of another one. -/
theorem statement_callsApart {d : Dialect} (hd : d ∈ Dialect.all) (capabilities : Capabilities) {rel : Rel}
    (hrel : rel.satisfies callsApart = true) {n : Node} (hn : statement { d with capabilities } rel = .ok n) :
    WindowsApart n ∧ (capabilities.nestedAggregates = false → AggregatesApart n) := by
  have htargets := targets_plain hd
  rw [statement_eq, ConvertM.value_eq_ok_iff] at hn
  obtain ⟨s, hn⟩ := hn
  rw [planStatement, planResult, ConvertM.gives_bind] at hn
  obtain ⟨r, s₁, hr, hn⟩ := hn
  have hseparated : Separated capabilities.nestedAggregates rel r :=
    (separated_relationResult htargets rfl (fun h => h)
      (fun sub hsub => separate_queryAt htargets rfl (fun h => h) _ false hsub) true rel hrel {} r s₁
      onlyColumns_start hr).2
  have hunnested : Unnested capabilities.nestedAggregates n :=
    (structural_unnested _).returned hseparated.assembled.good (returned_asStatement hn)
  exact ⟨hunnested.windows, hunnested.aggregates⟩

/-- Orders are counted for each customer, customers are ranked by these counts, the ranks are summed for all customers
with the same count, and the largest of these sums is looked for. -/
def largestRanks : Rel :=
  .aggregate
    (.project
      (.project
        (.aggregate (.scan ["orders"] [⟨"customer", DataType.integer⟩, ⟨"price", DataType.integer⟩]) [.whole 0] [[.whole 0]]
          [{ op := Operator.count, args := [], name := some "number" }])
        [.inputRef (.whole 1) DataType.integer,
          .overWindow Operator.rank [] { order := [⟨.inputRef (.whole 1) DataType.integer, .descending, .last⟩] } false
            DataType.integer]
        ["number", "place"] false [])
      [.overWindow Operator.sum [.inputRef (.whole 1) DataType.integer]
        { partition := [.inputRef (.whole 0) DataType.integer] } false DataType.integer]
      ["places"] false [])
    [] [[]] [{ op := Operator.max, args := [.whole 0], name := some "largest" }]

/-- The counts, their ranks and the sums of the ranks are calls of three different queries. -/
theorem statement_callsApart_largestRanks :
    ∃ n, statement { Dialect.postgres with capabilities := { Dialect.postgres.capabilities with nestedWindows := true } }
        largestRanks = .ok n ∧ WindowsApart n ∧ AggregatesApart n := by
  have hok : (statement { Dialect.postgres with
      capabilities := { Dialect.postgres.capabilities with nestedWindows := true } } largestRanks).toOption.isSome = true := by
    decide +kernel
  cases hn : statement { Dialect.postgres with
      capabilities := { Dialect.postgres.capabilities with nestedWindows := true } } largestRanks with
  | error e => simp [hn, Except.toOption] at hok
  | ok n =>
    obtain ⟨hwindows, haggregates⟩ := statement_callsApart (by simp [Dialect.all]) _ (by decide +kernel) hn
    exact ⟨n, rfl, hwindows, haggregates rfl⟩

end AlgebraSql.Convert
