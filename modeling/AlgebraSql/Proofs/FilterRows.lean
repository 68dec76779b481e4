import AlgebraSql.Proofs.Convertible
import AlgebraSql.Proofs.GroupQueries
import AlgebraSql.Proofs.SpelledStars
import AlgebraSql.Proofs.SubQueries

/-!
# Filter rows — a filter leaves the rows on which its condition holds.

The condition of a filter stands in WHERE of a query around the input, in HAVING of the query of an
aggregation, or in QUALIFY of the query of a projection with windowed calls.  In each case the statement
for the filter has the rows of the statement for its input on which the condition is true.
-/

namespace AlgebraSql.Convert

open Sql Node

variable {env : Env} {sub : Rel → ConvertM Node} {s s' : State} {schema : Schema}

/-! ## Conditions in their places -/

section

variable {E : Engine} {db : Database} {fields : RowType} {outer : Names} {condition : Expr} {t t' : State}
  {c c' : Node} {w : Focus → List Datum}

/-- A condition over columns has a value. -/
theorem exists_value (hmap : env.fieldMap = []) (hnodup : fields.names.Nodup)
    (hcondition : QueryFree env.dialect condition)
    (hc : (scalarNode env sub (.aliases [("", fields)] false) condition).Gives t c t') :
    ∃ w, c.scalar E db (Names.within [("", fields.names)] outer) = some w := by
  have hrow : (Context.aliases [("", fields)] false).ShowsRow env
      (Reading.scalar E db (Names.within [("", fields.names)] outer)) fields.length Focus.row :=
    showsRow_columns hmap hnodup "" "" outer
  obtain ⟨n, -, v, -, hv, -⟩ := agrees_of_showsRow hrow hrow (fun i m hi => field_columns_range hmap hi) hcondition hc
  exact ⟨v, hv⟩

/-- **A condition** has the same value wherever its place shows the row. -/
theorem value_in_place (hmap : env.fieldMap = []) (hnodup : fields.names.Nodup)
    (hcondition : QueryFree env.dialect condition)
    (hc : (scalarNode env sub (.aliases [("", fields)] false) condition).Gives t c t')
    (hw : c.scalar E db (Names.within [("", fields.names)] outer) = some w) {ctx : Context} {β : Type}
    {W : Reading E β} {row : β → Row} (hshows : ctx.ShowsRow env W fields.length row)
    (hc' : (scalarNode env sub ctx condition).Gives s c' s') :
    ∃ v, W.value c' = some v ∧ ∀ f b, Focus.row f = row b → w f = v b := by
  have hrow : (Context.aliases [("", fields)] false).ShowsRow env
      (Reading.scalar E db (Names.within [("", fields.names)] outer)) fields.length Focus.row :=
    showsRow_columns hmap hnodup "" "" outer
  obtain ⟨n, hn, v, u, hv, hu, hagree⟩ :=
    agrees_of_showsRow hrow hshows (fun i m hi => field_columns_range hmap hi) hcondition hc
  obtain ⟨rfl, -⟩ := (hn s).unique hc'
  obtain rfl : v = w := by
    rw [show (Reading.scalar E db (Names.within [("", fields.names)] outer)).value c = some w from hw] at hv
    exact (Option.some.inj hv).symm
  exact ⟨u, hu, hagree⟩

/-- **WHERE** of a star leaves the rows on which the condition holds. -/
theorem rows_where (hmap : env.fieldMap = []) (hnodup : fields.names.Nodup)
    (hcondition : QueryFree env.dialect condition)
    (hc : (scalarNode env sub (.aliases [("", fields)] false) condition).Gives t c t')
    (hw : c.scalar E db (Names.within [("", fields.names)] outer) = some w) {q item : Node}
    (hshows : Shows schema q item) (hcolumns : q.columns schema = fields.names ∨ fields = []) (hwide : Wide schema q)
    {name : String} (hc' : (scalarNode env sub (.aliases [(name, fields)] false) condition).Gives s c' s')
    (hdb : db.schema = schema) :
    ((selectFrom item).set "where" (some (.node (Node.wrap .where c')))).rows E db outer
      = (q.rows E db outer).map fun v f => (v f).filter fun row => holds (w (⟨row, [row]⟩ :: f)) := by
  obtain ⟨own, hframe⟩ := hshows.frame
  have hrow : (Context.aliases [(name, fields)] false).ShowsRow env
      (Reading.scalar E db (Names.within [(own, q.columns schema)] outer)) fields.length Focus.row := by
    rcases hcolumns with hcolumns | rfl
    · rw [hcolumns]
      exact showsRow_columns hmap hnodup name own outer
    · exact ⟨fun i hi => absurd hi (Nat.not_lt_zero i), fun l => by simp [literalIn]⟩
  obtain ⟨u, hu, hagree⟩ := value_in_place hmap hnodup hcondition hc hw hrow hc'
  have hvalue : c'.scalar E db (Names.within (item.frame db.schema) outer) = some u := by
    rw [hdb, hframe]
    exact hu
  have htuples := hshows.tuples (E := E) outer hdb
  cases hv : q.rows E db outer with
  | none =>
    rw [((isStar_selectFrom item).set_where (Node.wrap .where c')).rows_eq, htuples, hv]
    rfl
  | some v =>
    have hlength : ∀ f, ∀ row ∈ v f, row.length = (item.frame db.schema).cells.length := fun f row hrow => by
      rw [hdb, hframe, length_cells, Frame.columns_single, hwide hdb hv f row hrow]
    rw [rows_selectWhere (htuples.trans hv) hlength hvalue, Option.map_some, Option.some.injEq]
    funext f
    exact List.filter_congr fun row _ => by rw [hagree (⟨row, [row]⟩ :: f) (⟨row, [row]⟩ :: f) rfl]

/-- **HAVING** of a query that groups leaves the rows on which the condition holds. -/
theorem GroupQuery.rows_having (hmap : env.fieldMap = []) (hnodup : fields.names.Nodup) (hne : fields ≠ [])
    (hcondition : QueryFree env.dialect condition)
    (hc : (scalarNode env sub (.aliases [("", fields)] false) condition).Gives t c t')
    (hw : c.scalar E db (Names.within [("", fields.names)] outer) = some w) {groupByAlias : Bool} {q : Node}
    {ks : List Node} (hq : GroupQuery groupByAlias fields q ks)
    (halias : E.groupByAlias = groupByAlias) {listAlias : Bool}
    (hc' : (scalarNode env sub (.selectList (namedItems ks fields) E.havingAlias listAlias) condition).Gives s c' s') :
    (withCondition .having q c').rows E db outer
      = (q.rows E db outer).map fun v f => (v f).filter fun row => holds (w (⟨row, [row]⟩ :: f)) := by
  have hconditioned : Conditioned "having" .having c' q (withCondition .having q c') :=
    { clause_mem := by simp [groupConditions]
      kind := hq.kind
      absent := hq.having
      eq := by simp [withCondition, conjoined, condition?, hq.having]
      grouped := by
        rw [hq.grouped]
        simp [isGrouped, withCondition] }
  rw [rows_select hq.kind, rows_select (by simp [withCondition, hq.kind]), hconditioned.stagesIn_having]
  cases hst : q.stagesIn E db outer with
  | none => rfl
  | some st =>
    obtain ⟨hunsorted, hhaving, hqualify, houtput⟩ := hq.unlimited.stages hst
    obtain ⟨v, hv⟩ := Option.isSome_iff_exists.mp
      ((together_isSome_iff (scalar E db (q.fromNames db outer)) ks).mpr (hq.values halias hst))
    rw [hq.listed.output_of_scalar hne hv, Option.some.injEq] at houtput
    obtain ⟨u, hu, hagree⟩ := value_in_place hmap hnodup hcondition hc hw
      (showsRow_having hq.listed hnodup outer hv listAlias) hc'
    have hu' : c'.scalar E db (q.havingNames E db outer) = some u := hu
    simp only [hu', Option.bind_eq_bind, Option.bind_some, Option.pure_def, Option.map_some, Option.some.injEq]
    funext f
    refine @Stages.run_having E st f hunsorted (hhaving hq.having) (hqualify hq.qualify)
      (fun g => (v g).map single) (fun s => by rw [← houtput]) _ _ fun level => ?_
    rw [hagree (⟨(v (level :: f)).map single, [(v (level :: f)).map single]⟩ :: f) (level :: f) rfl]

/-- A condition on the items of a list calls an aggregate only if the list does. -/
theorem Listed.aggregates_of_condition {q : Node} {ks : List Node} (h : Listed fields q ks)
    (hcondition : QueryFree env.dialect condition) {listAlias : Bool}
    (hc' : (scalarNode env sub (.selectList (namedItems ks fields) false listAlias) condition).Gives s c' s') :
    c'.aggregates = true → (q.list "expressions").any aggregates = true := by
  have halike : Alike env sub (fun _ => False)
      (fun m _ => m.aggregates = true → (q.list "expressions").any aggregates = true)
      (.selectList (namedItems ks fields) false listAlias) (.selectList (namedItems ks fields) false listAlias) :=
    { congruent := congruent_aggregates _
      queries := fun _ hfalse => hfalse.elim
      field := fun i m hi => ⟨m, hi, fun hcall => by
        obtain ⟨name, hmem⟩ := h.exists_named (h.mem_of_field hi)
        exact List.any_eq_true.mpr ⟨_, hmem, by rw [aggregates_namedItem, hcall]⟩⟩
      literal := fun l => by simp [literalIn]
      literal' := fun l => by simp [literalIn] }
  obtain ⟨n, -, hpaired⟩ := matches_scalarNode halike condition hcondition s c' s' hc'
  exact hpaired.rel

/-- **QUALIFY** of a query with a select list leaves the rows on which the condition holds. -/
theorem rows_qualify (hmap : env.fieldMap = []) (hnodup : fields.names.Nodup) (hne : fields ≠ [])
    (hcondition : QueryFree env.dialect condition)
    (hc : (scalarNode env sub (.aliases [("", fields)] false) condition).Gives t c t')
    (hw : c.scalar E db (Names.within [("", fields.names)] outer) = some w) {q : Node} {ks : List Node}
    (hkind : q.kind = .select) (hlisted : Listed fields q ks) (hunlimited : q.Unlimited)
    (hqualify : q.child? "qualify" = none) {listAlias : Bool}
    (hc' : (scalarNode env sub (.selectList (namedItems ks fields) false listAlias) condition).Gives s c' s') :
    (withCondition .qualify q c').rows E db outer
      = (q.rows E db outer).map fun v f => (v f).filter fun row => holds (w (⟨row, [row]⟩ :: f)) := by
  have hgrouped : (withCondition .qualify q c').isGrouped = q.isGrouped := by
    have hcalls := hlisted.aggregates_of_condition hcondition hc'
    have hchild : (Node.wrap .qualify c').aggregates = c'.aggregates := by
      have hchildren : (Node.wrap .qualify c').children = [c'] := by simp [Node.wrap, children, Arg.children]
      rw [aggregates_of_operation (.inl rfl), hchildren]
      simp
    have hcondition : conjoined q "qualify" c' = c' := by simp [conjoined, condition?, hqualify]
    have hlist : (withCondition .qualify q c').list "expressions" = q.list "expressions" := by
      simp [withCondition, list, list?, arg?_set_of_ne]
    simp only [isGrouped, hlist]
    simp only [withCondition, hcondition, child?_set_self, child?_set_of_ne _ _ (show "qualify" ≠ "group" by decide),
      child?_set_of_ne _ _ (show "qualify" ≠ "having" by decide), child?_set_of_ne _ _ (show "qualify" ≠ "order" by decide),
      hqualify, Option.any_some, Option.any_none, hchild]
    cases hcall : c'.aggregates with
    | false => simp
    | true => simp [hcalls hcall]
  have hconditioned : Conditioned "qualify" .qualify c' q (withCondition .qualify q c') :=
    { clause_mem := by simp [groupConditions]
      kind := hkind
      absent := hqualify
      eq := by simp [withCondition, conjoined, condition?, hqualify]
      grouped := hgrouped }
  rw [rows_select hkind, rows_select (by simp [withCondition, hkind]), hconditioned.stagesIn_qualify]
  cases hst : q.stagesIn E db outer with
  | none => rfl
  | some st =>
    obtain ⟨hunsorted, -, halways, houtput⟩ := hunlimited.stages hst
    rw [hlisted.output_eq hne, Option.map_eq_some_iff] at houtput
    obtain ⟨v, hv, houtput⟩ := houtput
    have hone : ∀ k ∈ ks, ∀ u, (Reading.analytic E db (q.fromNames db outer)).value k = some u →
        ∀ a, u a = [single (u a)] := fun k hk u hu => (hlisted.items k hk).oneValued.analytic hu
    obtain ⟨u, hu, hagree⟩ := value_in_place hmap hnodup hcondition hc hw
      (showsRow_items hlisted.full hlisted.items _ hone hv listAlias) hc'
    have hu' : c'.analytic E db (q.fromNames db outer) = some u := hu
    simp only [hu', Option.bind_eq_bind, Option.bind_some, Option.pure_def, Option.map_some, Option.some.injEq]
    funext f
    refine Stages.run_qualify hunsorted (halways hqualify) _ fun s _ => ?_
    rw [← houtput, hagree (⟨(v s).map single, [(v s).map single]⟩ :: f) s rfl]

end

/-! ## Filters -/

/-- **`KeepsGroups`** — a condition on the groups of an aggregation may be put into its query: keys have
values before windowed calls are evaluated, and no condition on windowed calls or on other groups is there. -/
structure KeepsGroups (d : Dialect) (input : Rel) (keys : List Ordinal) (sets : List (List Ordinal)) : Prop where
  /-- Where GROUP BY has no names, every key is in a grouping set. -/
  grouped : d.capabilities.groupByAlias = false → ∀ key ∈ keys, ∃ set ∈ sets, key ∈ set
  /-- Windowed calls are not filtered right below. -/
  unfiltered : filtersWindows d input = false
  /-- A grand total does not take the place of other groups. -/
  single : d.capabilities.nestedAggregates = true → input.every ungrouped = true

section

variable {input : Rel} {condition : Expr} {ids : List String} {x r : Result} {E : Engine} {db : Database}
  {outer : Names} {t t' : State} {c : Node} {w : Focus → List Datum}

/-- A filter on rows. -/
theorem Flat.rows_filterResult_where (henv : env.NeverQualifies) (hmap : env.fieldMap = []) (hx : Flat schema input x)
    (hnodup : input.fields.names.Nodup) (hcondition : QueryFree env.dialect condition)
    (hc : (scalarNode env sub (.aliases [("", input.fields)] false) condition).Gives t c t')
    (hw : c.scalar E db (Names.within [("", input.fields.names)] outer) = some w)
    (hclause : filterClause env input condition = .where)
    (h : (filterResult env sub input condition ids (.filter input condition ids) x).Gives s r s')
    (hdb : db.schema = schema) : r.query.rows E db outer
      = (x.query.rows E db outer).map fun v f => (v f).filter fun row => holds (w (⟨row, [row]⟩ :: f)) := by
  obtain ⟨name, hsingle, -⟩ := hx.single
  obtain ⟨y, m, s₁, s₂, c', s₃, rfl, hm, hc', hr⟩ := hsingle.filter_step henv h
  rw [hclause] at hm hc' hr
  obtain ⟨item, rfl, hshows⟩ : ∃ item, m = selectFrom item ∧ Shows schema x.query item := by
    rcases hx.opened henv hm with ⟨-, hkind, hwrap⟩ | hstar
    · rw [hx.not_merges_where hkind hclause] at hwrap
      cases hwrap
    · exact hstar
  have hcontext : ((x.expecting [.where] (ignoresClauses (.filter input condition ids))).contextOver env
      (.filter input condition ids) (selectFrom item)) = .aliases [(name, input.fields)] false := by
    have hnone : (selectFrom item).selectList? = none := by simp [selectFrom, selectList?, list?]
    simp only [Result.contextOver, hnone, (hsingle.expecting _ _).aliases]
    rw [show (x.expecting [.where] (ignoresClauses (.filter input condition ids))).fields = x.fields from rfl, hx.fields]
  rw [hcontext] at hc'
  have hshaped := (hx.shaped_selectFrom hshows).withCondition .where c'
  rw [Result.query_of_plain (by rw [hr.node_eq]; exact hshaped.plain), hr.node_eq]
  exact rows_where hmap hnodup hcondition hc hw hshows hx.columns hx.wide hc' hdb

/-- What is merged is put into the query of the input. -/
theorem Flat.opened_merged (henv : env.NeverQualifies) (hx : Flat schema input x) (hkind : x.node.kind = .select)
    {expected : List Clause} {ignores : Bool} {rel : Rel}
    (hwrap : (x.expecting expected ignores).mustWrap env rel = false) {m : Node}
    (hm : Opening env (x.expecting expected ignores) rel s m s') : m = x.node := by
  obtain ⟨name, -, hneeded⟩ := hx.single
  have hplain := (hx.shaped hkind).plain
  have hopened := Opening.of_select (x := x.expecting expected ignores) henv hplain hkind (hneeded hplain) hm
  rwa [hwrap, if_neg (by simp)] at hopened

/-- A filter on groups. -/
theorem GroupQuery.rows_filterResult (henv : env.NeverQualifies) (hmap : env.fieldMap = [])
    (hx : Flat schema input x) (ho : Origins env.dialect input x) {i : Rel} {keys : List Ordinal}
    {sets : List (List Ordinal)} {calls : List AggregateCall} (hinput : input = .aggregate i keys sets calls)
    (hnodup : input.fields.names.Nodup) (hne : input.fields ≠ []) (hcondition : QueryFree env.dialect condition)
    (hc : (scalarNode env sub (.aliases [("", input.fields)] false) condition).Gives t c t')
    (hw : c.scalar E db (Names.within [("", input.fields.names)] outer) = some w) {ks : List Node}
    (hq : GroupQuery env.dialect.capabilities.groupByAlias input.fields x.node ks)
    (halias : E.groupByAlias = env.dialect.capabilities.groupByAlias)
    (hhaving : E.havingAlias = env.dialect.capabilities.havingAlias)
    (h : (filterResult env sub input condition ids (.filter input condition ids) x).Gives s r s') :
    r.query.rows E db outer
      = (x.query.rows E db outer).map fun v f => (v f).filter fun row => holds (w (⟨row, [row]⟩ :: f)) := by
  obtain ⟨name, hsingle, -⟩ := hx.single
  obtain ⟨y, m, s₁, s₂, c', s₃, rfl, hm, hc', hr⟩ := hsingle.filter_step henv h
  have hclause : filterClause env input condition = .having := by rw [hinput]; rfl
  rw [hclause] at hm hc' hr
  have hmerged : (x.expecting [.having] (ignoresClauses (.filter input condition ids))).mustWrap env
      (.filter input condition ids) = false := by
    subst hinput
    exact ho.merges_having hx.tracked
  obtain rfl := hx.opened_merged henv hq.kind hmerged hm
  have hcontext : (x.expecting [.having] (ignoresClauses (.filter input condition ids))).contextOver env
      (.filter input condition ids) x.node = .selectList (namedItems ks input.fields) E.havingAlias false := by
    simp [Result.contextOver, hq.listed.list, Result.itemContext, Result.expecting, hhaving]
  rw [hcontext] at hc'
  have hshaped := (hx.shaped hq.kind).withCondition .having c'
  rw [Result.query_of_plain (by rw [hr.node_eq]; exact hshaped.plain), hr.node_eq,
    Result.query_of_plain (hx.shaped hq.kind).plain]
  exact hq.rows_having hmap hnodup hne hcondition hc hw halias hc'

/-- A filter on windowed calls. -/
theorem Flat.rows_filterResult_qualify (henv : env.NeverQualifies) (hmap : env.fieldMap = [])
    (hx : Flat schema input x) (hnodup : input.fields.names.Nodup) (hne : input.fields ≠ [])
    (hcondition : QueryFree env.dialect condition)
    (hc : (scalarNode env sub (.aliases [("", input.fields)] false) condition).Gives t c t')
    (hw : c.scalar E db (Names.within [("", input.fields.names)] outer) = some w)
    (hclause : filterClause env input condition = .qualify)
    (hmerged : (x.expecting [.qualify] (ignoresClauses (.filter input condition ids))).mustWrap env
      (.filter input condition ids) = false)
    {ks : List Node} (hkind : x.node.kind = .select) (hlisted : Listed input.fields x.node ks)
    (hunlimited : x.node.Unlimited) (hqualify : x.node.child? "qualify" = none)
    (h : (filterResult env sub input condition ids (.filter input condition ids) x).Gives s r s') :
    r.query.rows E db outer
      = (x.query.rows E db outer).map fun v f => (v f).filter fun row => holds (w (⟨row, [row]⟩ :: f)) := by
  obtain ⟨name, hsingle, -⟩ := hx.single
  obtain ⟨y, m, s₁, s₂, c', s₃, rfl, hm, hc', hr⟩ := hsingle.filter_step henv h
  rw [hclause] at hm hc' hr
  obtain rfl := hx.opened_merged henv hkind hmerged hm
  have hcontext : (x.expecting [.qualify] (ignoresClauses (.filter input condition ids))).contextOver env
      (.filter input condition ids) x.node = .selectList (namedItems ks input.fields) false false := by
    simp [Result.contextOver, hlisted.list, Result.itemContext, Result.expecting]
  rw [hcontext] at hc'
  have hshaped := (hx.shaped hkind).withCondition .qualify c'
  rw [Result.query_of_plain (by rw [hr.node_eq]; exact hshaped.plain), hr.node_eq,
    Result.query_of_plain (hx.shaped hkind).plain]
  exact rows_qualify hmap hnodup hne hcondition hc hw hkind hlisted hunlimited hqualify hc'

/-- **A projection of windowed calls** gives a query with a select list that is ready for a condition. -/
theorem Origins.windowQuery (henv : env.NeverQualifies) (hmap : env.fieldMap = []) (hx : Flat schema input x)
    (ho : Origins env.dialect input x) {projects : List Expr} {names : List String} {distinct : Bool}
    (hnames : names.length = projects.length) (houter : ∀ e ∈ projects, readsOuter e = false)
    (hwindow : projects.any (·.containsOver) = true)
    (h : (projectResult env sub input projects distinct ids (.project input projects names distinct ids) x).Gives s r s') :
    r.node.kind = .select ∧ (∃ ks, Listed (Rel.project input projects names distinct ids).fields r.node ks)
      ∧ r.node.child? "qualify" = none := by
  have hflat := flat_project henv hmap hx hnames houter h
  obtain ⟨name, hsingle, -⟩ := hx.single
  obtain ⟨y, m, s₁, s₂, n, rfl, hm, hlist, hr⟩ := hsingle.project_step henv h
  obtain ⟨ns, rfl⟩ : ∃ ns, n = withList m (namedItems ns (Rel.project input projects names distinct ids).fields) := by
    rcases hlist with ⟨hidentity, -⟩ | ⟨-, ns, t, -, -, rfl⟩
    · rw [isIdentity_eq_false hwindow] at hidentity
      cases hidentity
    · exact ⟨ns, rfl⟩
  have hmkind : m.kind = .select := (hx.shaped_opened henv hm).kind
  have hkind : r.node.kind = .select := by
    rw [hr.node_eq]
    split <;> simp [withList, hmkind]
  have hselect : r.node.selectList? ≠ none := by
    rw [hr.node_eq]
    split <;> simp [withList, selectList?, list?, arg?_set_of_ne]
  refine ⟨hkind, (hflat.shaped hkind).items.resolve_left hselect, ?_⟩
  rw [hr.node_eq, child?_projected (.inr ⟨_, rfl⟩) (by simp)]
  -- a query with QUALIFY has a select list, so it would have been wrapped
  by_contra hgiven
  obtain ⟨rfl, hkind', hwrap⟩ := hx.opened_condition henv hm (by simp) hgiven
  have hmust : (x.expecting [.select]).mustWrap env (.project input projects names distinct ids) = true :=
    not_window_of_select hx.tracked (.inl (by simpa [WrapCheck.projectsWindow, WrapCheck.projects?] using hwindow))
      (ho.qualify hkind' hgiven).1
  rw [hmust] at hwrap
  cases hwrap

/-- **A filter over a plan** without joins leaves the rows of the plan on which its condition holds. -/
theorem rows_filterResult (henv : env.NeverQualifies) (hmap : env.fieldMap = [])
    (hinput : input.every (joinFree schema) = true) (hnodup : input.fields.names.Nodup)
    (hgroups : ∀ i keys sets calls, input = .aggregate i keys sets calls → KeepsGroups env.dialect i keys sets)
    {s₀ : State} (hx : (relationResult env sub false input).Gives s₀ x s) (hcondition : QueryFree env.dialect condition)
    (hc : (scalarNode env sub (.aliases [("", input.fields)] false) condition).Gives t c t')
    (hw : c.scalar E db (Names.within [("", input.fields.names)] outer) = some w)
    (h : (filterResult env sub input condition ids (.filter input condition ids) x).Gives s r s')
    (halias : E.groupByAlias = env.dialect.capabilities.groupByAlias)
    (hhaving : E.havingAlias = env.dialect.capabilities.havingAlias) (hdb : db.schema = schema) :
    r.query.rows E db outer
      = (x.query.rows E db outer).map fun v f => (v f).filter fun row => holds (w (⟨row, [row]⟩ :: f)) := by
  have hflat := flat_relationResult henv hmap input hinput hx
  have horigins := origins_relationResult henv hmap input hinput hx
  rcases filterClause_three env input condition with hclause | hclause | hclause
  · -- HAVING, over an aggregation
    obtain ⟨i, keys, sets, calls, rfl⟩ : ∃ i keys sets calls, input = .aggregate i keys sets calls := by
      cases input with
      | aggregate i keys sets calls => exact ⟨i, keys, sets, calls, rfl⟩
      | project =>
        simp only [filterClause] at hclause
        split at hclause <;> cases hclause
      | _ => simp [filterClause] at hclause
    obtain ⟨hgrouped, hunfiltered, hsingle⟩ := hgroups i keys sets calls rfl
    simp only [Rel.every, joinFree, Bool.and_eq_true] at hinput
    have hne : (Rel.aggregate i keys sets calls).fields ≠ [] := by simpa using hinput.1
    rw [relationResult, ConvertM.gives_bind] at hx
    obtain ⟨z, s₁, hz, hx⟩ := hx
    have hzflat := flat_relationResult henv hmap i hinput.2 hz
    have hzorigins := origins_relationResult henv hmap i hinput.2 hz
    obtain ⟨ks, hq⟩ := hzorigins.groupQuery henv hmap hzflat hne hsingle hunfiltered hgrouped hx
    exact hq.rows_filterResult henv hmap hflat horigins rfl hnodup hne hcondition hc hw halias hhaving h
  · -- QUALIFY, over a projection of windowed calls
    obtain ⟨i, projects, names, distinct, others, rfl⟩ : ∃ i projects names distinct others,
        input = .project i projects names distinct others := by
      cases input with
      | project i projects names distinct others => exact ⟨i, projects, names, distinct, others, rfl⟩
      | _ => simp [filterClause] at hclause
    have hwindow : projects.any (·.containsOver) = true := by
      simp only [filterClause] at hclause
      split at hclause
      · rename_i hfilters
        simp only [Bool.and_eq_true] at hfilters
        exact hfilters.1.2
      · cases hclause
    simp only [Rel.every, joinFree, Bool.and_eq_true, beq_iff_eq, List.all_eq_true, Bool.not_eq_true'] at hinput
    have hne : (Rel.project i projects names distinct others).fields ≠ [] := by
      obtain ⟨e, he, -⟩ := List.any_eq_true.mp hwindow
      rw [← List.length_pos_iff, Rel.fields, List.length_zipWith, hinput.1.1, Nat.min_self]
      exact List.length_pos_of_mem he
    have hmerged : (x.expecting [.qualify] (ignoresClauses (.filter (.project i projects names distinct others)
        condition ids))).mustWrap env (.filter (.project i projects names distinct others) condition ids) = false :=
      horigins.merges_qualify hflat.tracked hclause
    rw [relationResult, ConvertM.gives_bind] at hx
    obtain ⟨z, s₁, hz, hx⟩ := hx
    have hzflat := flat_relationResult henv hmap i hinput.2 hz
    have hzorigins := origins_relationResult henv hmap i hinput.2 hz
    obtain ⟨hkind, ⟨ks, hlisted⟩, hqualify⟩ :=
      hzorigins.windowQuery henv hmap hzflat hinput.1.1 hinput.1.2 hwindow hx
    exact hflat.rows_filterResult_qualify henv hmap hnodup hne hcondition hc hw hclause hmerged hkind hlisted
      (hflat.tracked.unlimited rfl hkind) hqualify h
  · -- WHERE
    exact hflat.rows_filterResult_where henv hmap hnodup hcondition hc hw hclause h hdb

end

/-! ## Statements -/

/-- What a condition is written as over the columns of a row type, whatever stands for sub-queries. -/
def WrittenOver (d : Dialect) (fields : RowType) (condition : Expr) (c : Node) : Prop :=
  ∀ sub : Rel → ConvertM Node,
    (scalarNode (Env.plain d) sub (.aliases [("", fields)] false) condition).value = .ok c

/-- **A filter** over a plan without joins converts, and its statement has the rows of the statement for
the plan on which the condition is true. -/
theorem statement_filter {d : Dialect} (hd : d ∈ Dialect.all) {input : Rel}
    (hinput : input.every (joinFree schema) = true) (hnodup : input.fields.names.Nodup)
    (hgroups : ∀ i keys sets calls, input = .aggregate i keys sets calls → KeepsGroups d i keys sets)
    {condition : Expr} (hcondition : QueryFree d condition) {c : Node}
    (hc : WrittenOver d input.fields condition c) (ids : List String) {q : Node} (hq : statement d input = .ok q) :
    ∃ n, statement d (.filter input condition ids) = .ok n
      ∧ ∀ (E : Engine) (db : Database) (outer : Names), db.schema = schema →
        E.groupByAlias = d.capabilities.groupByAlias → E.havingAlias = d.capabilities.havingAlias →
          ∃ w, c.scalar E db (Names.within [("", input.fields.names)] outer) = some w
            ∧ n.rows E db outer = (q.rows E db outer).map fun v f =>
              (v f).filter fun row => holds (w (⟨row, [row]⟩ :: f)) := by
  have henv := Env.neverQualifies_plain hd
  let depth := max input.queryDepth (Rel.filter input condition ids).queryDepth
  have hdepth : input.queryDepth ≤ depth := le_max_left _ _
  have hdepth' : (Rel.filter input condition ids).queryDepth ≤ depth := le_max_right _ _
  rw [statement_eq, ConvertM.value_eq_ok_iff, planStatement, planResult_eq _ hdepth] at hq
  obtain ⟨s, hq⟩ := hq
  obtain ⟨x, s₁, hx, hq⟩ := (ConvertM.gives_bind _ _ _ _ _).mp hq
  obtain ⟨t, hcgives⟩ := (ConvertM.value_eq_ok_iff _ _).mp (hc (queryAt (Env.plain d) depth false))
  obtain ⟨y, s₂, hy⟩ := exists_below henv rfl hinput hx
  have hflat := flat_relationResult henv rfl input hinput hy
  obtain ⟨r, s₃, hr⟩ := hflat.exists_filterResult henv rfl hcondition hcgives ids s₂
  have hrel : (relationResult (Env.plain d) (queryAt (Env.plain d) depth false) true (.filter input condition ids)).Gives
      {} r s₃ := by
    rw [relationResult, ConvertM.gives_bind]
    exact ⟨y, s₂, hy, hr⟩
  obtain ⟨s₄, hn⟩ := (flat_filter henv hflat hr).exists_asStatement henv s₃
  have hq' := (flat_relationResult henv rfl input hinput hx).asStatement henv hq
  refine ⟨r.query, ?_, fun E db outer hdb halias hhaving => ?_⟩
  · rw [statement_eq, ConvertM.value_eq_ok_iff, planStatement, planResult_eq _ hdepth']
    exact ⟨s₄, (ConvertM.gives_bind _ _ _ _ _).mpr ⟨r, s₃, hrel, hn⟩⟩
  · obtain ⟨w, hw⟩ : ∃ w, c.scalar E db (Names.within [("", input.fields.names)] outer) = some w :=
      exists_value rfl hnodup hcondition hcgives
    refine ⟨w, hw, ?_⟩
    rw [hq', ← rows_atTop henv rfl input hinput hnodup hx hy hdb outer]
    exact rows_filterResult henv rfl hinput hnodup hgroups hy hcondition hcgives hw hr halias hhaving hdb

/-- A field is greater than one. -/
def aboveOneField (i : Nat) (type : DataType) : Expr :=
  .call Operator.greaterThan [.inputRef i type, .literal ⟨.exact "1", .integer⟩] .boolean

/-- How often each value of the first field occurs. -/
def counts (input : Rel) : Rel :=
  .aggregate input [(0 : Nat)] [[(0 : Nat)]] [{ op := Operator.count, args := [], name := some "c" }]

/-- A table with one column. -/
def scanOneColumn : Rel := .scan ["t"] [⟨"a", .integer⟩]

/-- Its column. -/
def oneColumnSchema : Schema := fun _ => ["a"]

/-- The count of a value is greater than one, over the columns of its groups. -/
def countAboveOne : Node := .mk .gt [("this", .node (Node.column "c")), ("expression", .node (Node.number "1"))]

theorem queryFree_aboveOneField {d : Dialect} (hd : d ∈ [Dialect.ansi, .snowflake]) (i : Nat) (type : DataType) :
    QueryFree d (aboveOneField i type) := by
  intro u hu
  have hcases : u = aboveOneField i type ∨ u = .inputRef i type ∨ u = .literal ⟨.exact "1", .integer⟩ := by
    simpa [aboveOneField, Scalar.subterms, Scalar.subtermsOf] using hu
  rcases hcases with rfl | rfl | rfl
  · intro written hwritten
    simp only [List.mem_cons, List.not_mem_nil, or_false] at hd
    rcases hd with rfl | rfl <;> cases hwritten <;> rfl
  · trivial
  · trivial

/-- The statement for the values that occur more than once has the rows of the statement for the counts
in which the count is greater than one. -/
theorem statement_filter_counts : ∃ q n, statement Dialect.ansi (counts scanOneColumn) = .ok q
    ∧ statement Dialect.ansi (.filter (counts scanOneColumn) (aboveOneField 1 .bigint) []) = .ok n
    ∧ ∀ (E : Engine) (db : Database) (outer : Names), db.schema = oneColumnSchema →
      E.groupByAlias = false → E.havingAlias = false →
        ∃ w, countAboveOne.scalar E db (Names.within [("", ["a", "c"])] outer) = some w
          ∧ n.rows E db outer = (q.rows E db outer).map fun v f =>
            (v f).filter fun row => holds (w (⟨row, [row]⟩ :: f)) := by
  have hok : (statement Dialect.ansi (counts scanOneColumn)).toOption.isSome = true := by decide +kernel
  cases hq : statement Dialect.ansi (counts scanOneColumn) with
  | error e => simp [hq, Except.toOption] at hok
  | ok q =>
    have hkeeps : ∀ i keys sets calls, counts scanOneColumn = .aggregate i keys sets calls →
        KeepsGroups .ansi i keys sets := by
      rintro i keys sets calls ⟨⟩
      exact ⟨fun _ => by simp, rfl, fun _ => rfl⟩
    obtain ⟨n, hn, hrows⟩ := statement_filter (by simp [Dialect.all])
      (show (counts scanOneColumn).every (joinFree oneColumnSchema) = true by decide +kernel)
      (show (counts scanOneColumn).fields.names.Nodup by decide +kernel) hkeeps
      (queryFree_aboveOneField (by simp) 1 .bigint)
      (show WrittenOver .ansi (counts scanOneColumn).fields (aboveOneField 1 .bigint) countAboveOne from
        fun _ => rfl) [] hq
    exact ⟨q, n, rfl, hn, hrows⟩

/-- The rows whose value does not come first. -/
def laterRows : Rel :=
  .filter (.project scanOneColumn [.inputRef (0 : Nat) .integer, .overWindow Operator.rank []
    { order := [⟨.inputRef (0 : Nat) .integer, .ascending, .last⟩] } false .bigint] ["a", "w"] false [])
    (aboveOneField 1 .bigint) []

/-- How often their values occur. -/
def laterCounts : Rel := counts (.project laterRows [.inputRef (0 : Nat) .integer] ["a"] false [])

/-- The first of the values from which a windowed call is computed. -/
def leading (parts : List (List Datum)) : Datum := parts.flatten.headD .null

/-- An engine that counts rows and ranks them by one value. -/
def rankingEngine : Engine where
  operation _ _ := .null
  aggregate _ rows := .number rows.length
  window _ parts place := .number (1 + (parts.filter fun part =>
    (leading part).compare (· == .lt) (leading (parts.getD place [])) == .bool true).length)
  precedes _ _ := true
  regroup _ _ := []
  groupByAlias := true
  havingAlias := true

/-- A value that occurs once and one that occurs twice. -/
def oneTwoTwo : Database where
  schema := oneColumnSchema
  rows _ := [[.number 1], [.number 2], [.number 2]]
  width _ row hrow := by
    simp only [List.mem_cons, List.not_mem_nil, or_false] at hrow
    rcases hrow with rfl | rfl | rfl <;> rfl

/-- Over groups that are filtered by their rank, HAVING changes the ranks: the value that occurs twice has
the second rank, but without the other value it has the first one and is left out. -/
theorem laterCounts_filtered : ∃ q n w, laterCounts.every (joinFree oneColumnSchema) = true
    ∧ WrittenOver .snowflake laterCounts.fields (aboveOneField 1 .bigint) countAboveOne
    ∧ statement Dialect.snowflake laterCounts = .ok q
    ∧ statement Dialect.snowflake (.filter laterCounts (aboveOneField 1 .bigint) []) = .ok n
    ∧ countAboveOne.scalar rankingEngine oneTwoTwo (Names.within [("", laterCounts.fields.names)] Names.none) = some w
    ∧ n.rows rankingEngine oneTwoTwo Names.none ≠ (q.rows rankingEngine oneTwoTwo Names.none).map fun v f =>
      (v f).filter fun row => holds (w (⟨row, [row]⟩ :: f)) := by
  have hq : (statement Dialect.snowflake laterCounts).toOption.bind (fun q => q.results rankingEngine oneTwoTwo)
      = some [[.number 2, .number 2]] := by decide +kernel
  have hn : (statement Dialect.snowflake (.filter laterCounts (aboveOneField 1 .bigint) [])).toOption.bind
      (fun n => n.results rankingEngine oneTwoTwo) = some [] := by decide +kernel
  have hw : (countAboveOne.scalar rankingEngine oneTwoTwo (Names.within [("", laterCounts.fields.names)]
      Names.none)).map (fun w => holds (w [⟨[.number 2, .number 2], [[.number 2, .number 2]]⟩])) = some true := by
    decide +kernel
  cases hq' : statement Dialect.snowflake laterCounts with
  | error e => simp [hq', Except.toOption] at hq
  | ok q =>
    cases hn' : statement Dialect.snowflake (.filter laterCounts (aboveOneField 1 .bigint) []) with
    | error e => simp [hn', Except.toOption] at hn
    | ok n =>
      obtain ⟨w, hvalue, hholds⟩ := Option.map_eq_some_iff.mp hw
      refine ⟨q, n, w, by decide +kernel, fun _ => rfl, rfl, rfl, hvalue, fun hrows => ?_⟩
      rw [hq'] at hq
      rw [hn'] at hn
      simp only [Except.toOption, Option.bind_some, results, Option.map_eq_some_iff] at hq hn
      obtain ⟨v, hv, hv'⟩ := hq
      obtain ⟨u, hu, hu'⟩ := hn
      change q.rows rankingEngine oneTwoTwo Names.none = some v at hv
      change n.rows rankingEngine oneTwoTwo Names.none = some u at hu
      rw [hv, hu, Option.map_some, Option.some.injEq] at hrows
      -- the row is among those of the plan, but not among those of the filter
      have hall := congrFun hrows []
      simp [hv', hu', hholds] at hall

end AlgebraSql.Convert
