import AlgebraSql.Proofs.FilterRows

/-!
# Projected groups — a projection over an aggregation stands in the query of the aggregation.

A projection takes the place of the select list of the query that groups.  Where the query groups as
before, its rows are the values of the projected expressions for the rows of the aggregation.
-/

namespace AlgebraSql

open Sql Node

variable {E : Engine} {db : Database} {outer : Names} {n m : Node} {fields other : RowType} {ks ms : List Node}

/-! ## Other select lists -/

namespace Sql.Node

/-- A query with another select list, or made distinct. -/
inductive Relists (n : Node) : Node → Prop
  | refl : Relists n n
  | set {m : Node} (h : Relists n m) {key : String} (hkey : key ∈ ["expressions", "distinct"]) (a : Arg) :
      Relists n (m.set key (some a))

namespace Relists

theorem kind_eq (h : Relists n m) : m.kind = n.kind := by
  induction h with
  | refl => rfl
  | set _ _ a ih => rw [kind_set, ih]

theorem child?_eq (h : Relists n m) {key : String} (hkey : key ∉ ["expressions", "distinct"]) :
    m.child? key = n.child? key := by
  induction h with
  | refl => rfl
  | @set m _ other hother a ih =>
    have hne : other ≠ key := fun heq => hkey (heq ▸ hother)
    rw [child?_set_of_ne _ _ hne, ih]

theorem frame_eq (h : Relists n m) (hn : n.kind = .select) (schema : Schema) : m.frame schema = n.frame schema := by
  induction h with
  | refl => rfl
  | @set m hm other hother a ih =>
    have hne : other ≠ "from" := fun heq => absurd (heq ▸ hother) (by decide)
    rw [frame_set (hm.kind_eq.trans hn) hne, ih]

theorem fromNames_eq (h : Relists n m) (hn : n.kind = .select) : m.fromNames db outer = n.fromNames db outer := by
  rw [fromNames, fromNames, h.frame_eq hn]

/-- Another select list makes the same groups, if the query still groups or still does not, and GROUP BY
names no items. -/
theorem groupingIn_eq (h : Relists n m) (hn : n.kind = .select) (hgrouped : m.isGrouped = n.isGrouped)
    (halias : E.groupByAlias = false) : m.groupingIn E db outer = n.groupingIn E db outer := by
  have hclause : ∀ {α : Type} {key : String} (absent : α) (value : Node → Option α),
      key ∉ ["expressions", "distinct"] → m.clause key absent value = n.clause key absent value :=
    fun absent value hkey => by rw [clause, clause, h.child?_eq hkey]
  have hlevels : ∀ keys, levelsOf E m keys = levelsOf E n keys := fun keys => by
    unfold levelsOf
    rw [h.child?_eq (by decide), hgrouped]
  unfold groupingIn
  rw [hclause _ _ (by decide), hclause _ _ (by decide), h.fromNames_eq hn, hlevels, h.child?_eq (by decide),
    groupNames, groupNames, halias, h.fromNames_eq hn]
  rfl

end Relists

end Sql.Node

namespace Convert

/-! ## The rows of a grouped query -/

namespace GroupList

theorem of_relists (h : GroupList fields n ks) (hr : Relists n m) (hlisted : Listed other m ms)
    (hgrouped : m.isGrouped = true) : GroupList other m ms where
  kind := hr.kind_eq.trans h.kind
  listed := hlisted
  grouped := hgrouped
  having := (hr.child?_eq (by decide)).trans h.having
  qualify := (hr.child?_eq (by decide)).trans h.qualify
  unlimited := ⟨(hr.child?_eq (by decide)).trans h.unlimited.order, (hr.child?_eq (by decide)).trans h.unlimited.limit,
    (hr.child?_eq (by decide)).trans h.unlimited.offset⟩

variable {v : Focus → List (List Datum)}

/-- The stages of a query whose items have a value for each group: it groups and puts the values out. -/
theorem stagesIn_eq (h : GroupList fields n ks) (hne : fields ≠ [])
    (hv : together (ks.map (scalar E db (n.fromNames db outer))) = some v) :
    n.stagesIn E db outer = (n.groupingIn E db outer).map fun g =>
      ⟨g, always, always, fun s => (v s.focus).map single, n.flag "distinct", none, fun _ => none, fun _ => none,
        (n.frame db.schema).cells.length⟩ := by
  unfold stagesIn
  simp only [clause, h.having, h.qualify, h.unlimited.order, h.unlimited.limit, h.unlimited.offset,
    h.listed.output_of_scalar hne hv, Option.bind_eq_bind, Option.bind_some, Option.pure_def]
  cases n.groupingIn E db outer <;> rfl

/-- **The rows of a grouped query** are the values of its items for each of the groups. -/
theorem rows_eq (h : GroupList fields n ks) (hne : fields ≠ []) (hdistinct : n.flag "distinct" = false)
    (hv : together (ks.map (scalar E db (n.fromNames db outer))) = some v) :
    n.rows E db outer = (n.groupingIn E db outer).map fun g f =>
      (g.run f).map fun level => (v (level :: f)).map single := by
  rw [rows_select h.kind, h.stagesIn_eq hne hv, Option.map_map]
  refine congrArg (Option.map · _) (funext fun g => funext fun f => ?_)
  simp only [Function.comp_apply]
  rw [Stages.Direct.run_eq ⟨hdistinct, rfl, rfl, rfl⟩]
  simp only [Stages.shown, Stages.groups, holds_always, List.filter_true, List.map_map]
  -- a spot shows its group
  have hspots : ∀ all : List Focus, (Spot.each all).map (fun s => (v s.focus).map single)
      = all.map fun f => (v f).map single := fun all => by
    conv_rhs => rw [← Spot.map_focus_each all, List.map_map]
    rfl
  exact (hspots _).trans (by rw [List.map_map]; rfl)

end GroupList

/-! ## Trees of tables, filters and projections -/

/-- A table, a filter or a projection. -/
def readsRows : Rel → Bool
  | .scan .. | .filter .. | .project .. => true
  | _ => false

/-- Such a tree has no aggregations. -/
theorem every_ungrouped (rel : Rel) (h : rel.every readsRows = true) : rel.every ungrouped = true := by
  cases rel with
  | scan => rfl
  | filter input | project input =>
    simp only [Rel.every, Bool.and_eq_true] at h ⊢
    exact ⟨rfl, every_ungrouped input h.2⟩
  | _ => simp [Rel.every, readsRows] at h

/-- The clauses of the query for such a tree. -/
def rowClauses : List Clause := [.from, .where, .select]

variable {env : Env} {sub : Rel → ConvertM Node} {s s' : State} {schema : Schema} {input : Rel} {x r : Result}

/-- **`RowQuery`** — the query for a tree of tables, filters and projections: its rows are not grouped, and
they are distinct only where the projection at the top says so. -/
structure RowQuery (rel : Rel) (x : Result) : Prop where
  clauses : ∀ c ∈ x.clauses, c ∈ rowClauses
  distinct : x.node.kind = .select → x.node.flag "distinct" = true →
    ∃ input projects names ids, rel = .project input projects names true ids

/-- An argument under another name leaves a flag. -/
theorem flag_set_of_ne {key other : String} (n : Node) (a : Arg) (hne : key ≠ other) :
    (n.set key (some a)).flag other = n.flag other := by
  simp only [Node.flag, arg?_set_of_ne _ _ hne]

theorem flag_distinct_selectFrom (item : Node) : (selectFrom item).flag "distinct" = false := by
  simp [selectFrom, Node.flag]

theorem rowQuery_filter (henv : env.NeverQualifies) {condition : Expr} {ids : List String} (hx : Flat schema input x)
    (hrows : RowQuery input x) (hclause : filterClause env input condition = .where)
    (h : (filterResult env sub input condition ids (.filter input condition ids) x).Gives s r s') :
    RowQuery (.filter input condition ids) r := by
  obtain ⟨name, hsingle, -⟩ := hx.single
  obtain ⟨y, m, s₁, s₂, c, s₃, rfl, hm, -, hr⟩ := hsingle.filter_step henv h
  rw [hclause] at hm hr
  refine ⟨fun c hc => ?_, fun _ hdistinct => ?_⟩
  · rcases hr.mem_clauses_iff.mp hc with hexpected | ⟨-, hbelow⟩
    · obtain rfl : c = .where := by simpa [Result.expecting] using hexpected
      decide
    · exact hrows.clauses c hbelow
  · -- WHERE is put around a SELECT
    obtain ⟨item, rfl⟩ : ∃ item, m = selectFrom item := by
      rcases hx.opened henv hm with ⟨-, hkind, hwrap⟩ | ⟨item, hitem, -⟩
      · rw [hx.not_merges_where hkind hclause] at hwrap
        cases hwrap
      · exact ⟨item, hitem⟩
    have hflag : (withCondition .where (selectFrom item) c).flag "distinct" = false :=
      (flag_set_of_ne _ _ (show "where" ≠ "distinct" by decide)).trans (flag_distinct_selectFrom item)
    rw [hr.node_eq, hflag] at hdistinct
    cases hdistinct

/-- What a projection opens is not distinct. -/
theorem Flat.opened_not_distinct (henv : env.NeverQualifies) {projects : List Expr} {names : List String}
    {distinct : Bool} {ids : List String} (hx : Flat schema input x) {m : Node}
    (hm : Opening env (x.expecting [.select]) (.project input projects names distinct ids) s m s') :
    m.flag "distinct" = false := by
  rcases hx.opened henv hm with ⟨rfl, -, hwrap⟩ | ⟨item, rfl, -⟩
  · have hrule := middleRule_ne_true (r := x.expecting [.select]) hx.tracked.used
      (by simp [qualifyOverWindow, wrapCheck]) hwrap (show distinctProjection ∈ middleRules by simp [middleRules])
    simpa [distinctProjection, wrapCheck, wrapIf, Result.expecting] using hrule
  · exact flag_distinct_selectFrom item

theorem rowQuery_project (henv : env.NeverQualifies) {projects : List Expr} {names : List String} {distinct : Bool}
    {ids : List String} (hx : Flat schema input x) (hrows : RowQuery input x)
    (h : (projectResult env sub input projects distinct ids (.project input projects names distinct ids) x).Gives
      s r s') : RowQuery (.project input projects names distinct ids) r := by
  obtain ⟨name, hsingle, -⟩ := hx.single
  obtain ⟨y, m, s₁, s₂, n, rfl, hm, hlist, hr⟩ := hsingle.project_step henv h
  refine ⟨fun c hc => ?_, fun _ hdistinct => ?_⟩
  · rcases hr.mem_clauses_iff.mp hc with hexpected | ⟨-, hbelow⟩
    · obtain rfl : c = .select := by simpa [Result.expecting] using hexpected
      decide
    · exact hrows.clauses c hbelow
  · cases distinct with
    | true => exact ⟨input, projects, names, ids, rfl⟩
    | false =>
      have hsame : n.flag "distinct" = m.flag "distinct" := by
        rcases hlist with ⟨-, rfl⟩ | ⟨-, ns, s₃, -, -, rfl⟩
        · rfl
        · exact flag_set_of_ne _ _ (by decide)
      rw [hr.node_eq, if_neg (by simp), hsame, hx.opened_not_distinct henv hm] at hdistinct
      cases hdistinct

/-- A dialect without QUALIFY puts a filter on rows into WHERE. -/
theorem filterClause_of_readsRows (hqualify : env.dialect.capabilities.qualify = false)
    (htree : input.every readsRows = true) (condition : Expr) : filterClause env input condition = .where := by
  cases input <;> simp_all [filterClause, Rel.every, readsRows]

/-- **Trees of tables, filters and projections** give such queries. -/
theorem rowQuery_relationResult (henv : env.NeverQualifies) (hmap : env.fieldMap = [])
    (hqualify : env.dialect.capabilities.qualify = false) (rel : Rel) {root : Bool} {s s' : State} {r : Result}
    (hrel : rel.every (joinFree schema) = true) (htree : rel.every readsRows = true)
    (h : (relationResult env sub root rel).Gives s r s') : RowQuery rel r := by
  cases rel with
  | scan table fields =>
    rw [relationResult] at h
    have hkind := kind_scanResult h
    simp only [scanResult, ConvertM.gives_bind, ConvertM.gives_lift, ConvertM.gives_makeResult henv] at h
    obtain ⟨t, s₁, -, rfl, -⟩ := h
    refine ⟨fun c hc => ?_, fun hselect => ?_⟩
    · rw [recorded_clauses] at hc
      obtain rfl : c = .from := by simpa using hc
      decide
    · rw [hkind] at hselect
      cases hselect
  | filter input condition ids =>
    simp only [Rel.every, Bool.and_eq_true] at hrel htree
    rw [relationResult, ConvertM.gives_bind] at h
    obtain ⟨x, t, hx, h⟩ := h
    exact rowQuery_filter henv (flat_relationResult henv hmap input hrel.2 hx)
      (rowQuery_relationResult henv hmap hqualify input hrel.2 htree.2 hx)
      (filterClause_of_readsRows hqualify htree.2 condition) h
  | project input projects names distinct ids =>
    simp only [Rel.every, Bool.and_eq_true] at hrel htree
    rw [relationResult, ConvertM.gives_bind] at h
    obtain ⟨x, t, hx, h⟩ := h
    exact rowQuery_project henv (flat_relationResult henv hmap input hrel.2 hx)
      (rowQuery_relationResult henv hmap hqualify input hrel.2 htree.2 hx) h
  | _ => simp [Rel.every, readsRows] at htree

/-! ## Projections are merged -/

section

variable {keys : List Ordinal} {sets : List (List Ordinal)} {calls : List AggregateCall}

/-- An aggregation over such a tree declares GROUP BY behind the clauses of the tree, and its rows are not
distinct. -/
theorem RowQuery.aggregate (henv : env.NeverQualifies) (hx : Flat schema input x) (hrows : RowQuery input x)
    (h : (aggregateResult env keys sets calls (.aggregate input keys sets calls) x).Gives s r s') :
    (∀ c ∈ r.clauses, c = .groupBy ∨ c ∈ rowClauses) ∧ r.node.flag "distinct" = false := by
  obtain ⟨name, hsingle, -⟩ := hx.single
  obtain ⟨y, m, s₁, ks, gs, as, rfl, hm, -, -, -, -, hr⟩ := hsingle.aggregate_step henv h
  refine ⟨fun c hc => ?_, ?_⟩
  · rcases hr.mem_clauses_iff.mp hc with hexpected | ⟨-, hbelow⟩
    · exact .inl (by simpa [Result.expecting] using hexpected)
    · exact .inr (hrows.clauses c hbelow)
  · have hsame : (aggregated m (namedItems (ks ++ as) (Rel.aggregate input keys sets calls).fields) gs
        !calls.isEmpty).flag "distinct" = m.flag "distinct" := by
      have hlist : "expressions" ≠ "distinct" := by decide
      have hgroup : "group" ≠ "distinct" := by decide
      simp only [aggregated]
      by_cases hplain : (gs.isEmpty && !calls.isEmpty) = true
      · rw [if_pos hplain]
        exact flag_set_of_ne _ _ hlist
      · rw [if_neg hplain]
        exact (flag_set_of_ne _ _ hgroup).trans (flag_set_of_ne _ _ hlist)
    rw [hr.node_eq, hsame]
    rcases hx.opened henv hm with ⟨rfl, hkind, hwrap⟩ | ⟨item, rfl, -⟩
    · -- over distinct rows the aggregation would need a query of its own
      by_contra hdistinct
      obtain ⟨i, projects, names, ids, rfl⟩ := hrows.distinct hkind (by simpa using hdistinct)
      have hungrouped : Clause.groupBy ∉ x.clauses := fun hmem => absurd (hrows.clauses _ hmem) (by decide)
      rcases unwrapped_cases (r := x.expecting [.groupBy] _) hx.tracked.used hwrap with
        ⟨_, _, _, heq, -⟩ | ⟨-, hrule⟩
      · cases heq
      · simp [aggregateOverAggregate, wrapCheck, Result.expecting, wrapIf, hungrouped] at hrule
    · exact flag_distinct_selectFrom item

/-- A select list may be set behind clauses that are not evaluated later. -/
theorem fit_select {clauses : List Clause} (h : ∀ c ∈ clauses, c.rank ≤ Clause.select.rank) :
    Clause.fit clauses [.select] = true := by
  unfold Clause.fit
  split
  · rfl
  · rename_i last hlast
    have hle := h last (mem_of_last? hlast)
    rcases Nat.lt_or_eq_of_le hle with hlt | heq
    · simp [Clause.follows, hlt]
    · obtain rfl := rank_injective heq
      rfl

/-- **A projection** without windowed calls is merged into a query that groups. -/
theorem merges_project (hd : env.dialect ∈ [Dialect.ansi, .postgres]) (hused : x.clauses ≠ [])
    (hclauses : ∀ c ∈ x.clauses, c = .groupBy ∨ c ∈ rowClauses) (hdistinct : x.node.flag "distinct" = false)
    {projects : List Expr} (hwindow : projects.any (·.containsOver) = false) (input : Rel) (names : List String)
    (distinct : Bool) (ids : List String) :
    (x.expecting [.select]).mustWrap env (.project input projects names distinct ids) = false := by
  obtain ⟨hgroups, hnested, halias⟩ : env.dialect.capabilities.aggregateInGroupBy = true
      ∧ env.dialect.capabilities.nestedWindows = true ∧ env.dialect.capabilities.groupByAlias = false := by
    simp only [List.mem_cons, List.not_mem_nil, or_false] at hd
    rcases hd with hd | hd <;> rw [hd] <;> exact ⟨rfl, rfl, rfl⟩
  have hrank : ∀ c ∈ x.clauses, c.rank ≤ Clause.select.rank := fun c hc => by
    rcases hclauses c hc with rfl | hrow
    · decide
    · simp only [rowClauses, List.mem_cons, List.not_mem_nil, or_false] at hrow
      rcases hrow with rfl | rfl | rfl <;> decide
  have hfit : Clause.fit x.clauses [.select] = true := fit_select hrank
  have hhaving : Clause.having ∉ x.clauses := fun hmem => by
    rcases hclauses _ hmem with heq | hrow
    · cases heq
    · exact absurd hrow (by decide)
  refine unwrapped_of_rules fun rule hrule => ?_
  simp only [wrapRules, List.mem_cons, List.not_mem_nil, or_false] at hrule
  rcases hrule with rfl | rfl | rfl | rfl | rfl | hrule
  · simp [noClausesYet, wrapCheck, Result.expecting, hused]
  · simp [qualifyOverWindow, wrapCheck]
  · simp [clauseOrder, wrapCheck, Result.expecting, wrapIf, List.eraseDups_cons, hfit]
  · simp [distinctProjection, wrapCheck, Result.expecting, wrapIf, hdistinct]
  · cases input <;> simp [aggregateInGroupBy, wrapCheck, wrapIf, hgroups]
  · rcases hrule with rfl | rfl | rfl | rfl | rfl | rfl | rfl | rfl | rfl | rfl <;>
      simp [nestedWindow, nestedAggregate, groupByNameDropped, groupByWindow, windowInAggregate, sortOverIntersect,
        havingNameUsed, windowOverSelect, aggregateOverAggregate, groupByNameInHaving, wrapCheck,
        WrapCheck.projectsWindow, WrapCheck.projects?, Result.expecting, wrapIf, hnested, halias, hhaving, hwindow]

end

/-! ## Projected expressions -/

/-- A bare null gets a type. -/
def typedIfNull (d : Dialect) (type : DataType) (n : Node) : Node := if n.is .null then typedNull d type else n

section

variable {α : Type} (V : Reading E α) (d : Dialect) (type : DataType)

theorem value_null {k : Node} (hk : k.kind = .null) {w : α → List Datum} (hw : V.value k = some w) :
    w = fun _ => [.null] := by
  rw [V.operation k (by simp [manner, hk]), Option.map_eq_some_iff] at hw
  obtain ⟨vs, -, rfl⟩ := hw
  funext a
  have hbare : k.bare.kind = .null := by
    cases k
    exact hk
  simp [operate, hbare]

/-- A null has no value, with a type or without. -/
theorem value_typedNull : V.value (typedNull d type) = some fun _ => [.null] := by
  obtain ⟨u, -, hu, -⟩ := related_typedNull (congruent_agrees V V fun _ _ => False) d type
  rw [hu]
  unfold typedNull at hu
  split at hu
  · rw [value_null V rfl hu]
  · obtain ⟨w, -, hw, -⟩ := (congruent_agrees V V fun _ _ => False).null
    obtain rfl := value_null V rfl hw
    have hchildren : (d.castNode Node.null type).children = [Node.null, d.typeSpec type] := by
      simp [Dialect.castNode, children, Arg.children]
    rw [V.operation _ rfl, hchildren, Option.map_eq_some_iff] at hu
    obtain ⟨vs, hvs, rfl⟩ := hu
    simp only [List.map_cons, hw, together, Option.map_eq_some_iff] at hvs
    obtain ⟨rest, -, rfl⟩ := hvs
    rfl

theorem value_typedIfNull {k : Node} {w : α → List Datum} (hw : V.value k = some w) :
    V.value (typedIfNull d type k) = some w := by
  unfold typedIfNull
  split
  · rename_i hnull
    rw [value_null V ((is_eq_true_iff _ _).mp hnull) hw]
    exact value_typedNull V d type
  · exact hw

end

/-- **Projected expressions** in two contexts with related fields are related. -/
theorem matches_projectedNodes {Q : Rel → Prop} {R : Node → Node → Prop} {ctx ctx' : Context}
    (h : Alike env sub Q R ctx ctx')
    (htyped : ∀ type k l, R k l → R (typedIfNull env.dialect type k) (typedIfNull env.dialect type l)) {es : List Expr}
    (hes : ∀ e ∈ es, Rowwise env.dialect Q e) :
    Matches (List.Forall₂ R) (es.mapM (projectedNode env sub ctx)) (es.mapM (projectedNode env sub ctx')) :=
  Matches.mapM fun e he => (matches_scalarNode h e (hes e he)).bind fun _ _ hpaired =>
    Matches.pure (htyped e.type _ _ hpaired.rel)

/-- Typing bare nulls changes no values. -/
theorem agrees_typedIfNull {α β : Type} {V : Reading E α} {W : Reading E β} {P : α → β → Prop} (d : Dialect)
    (type : DataType) {k l : Node} (h : Agrees V W P k l) :
    Agrees V W P (typedIfNull d type k) (typedIfNull d type l) := by
  obtain ⟨v, w, hv, hw, hvw⟩ := h
  exact ⟨v, w, value_typedIfNull V d type hv, value_typedIfNull W d type hw, hvw⟩

/-- What is computed row by row reads no field of a row around. -/
theorem Rowwise.readsOuter_eq_false {d : Dialect} {Q : Rel → Prop} {e : Expr} (h : Rowwise d Q e) :
    readsOuter e = false := by
  unfold readsOuter
  rw [List.any_eq_false]
  intro t ht
  have hpart := h t ht
  cases t <;> simp_all [RowwisePart]

/-- Fewer conditions on sub-queries. -/
theorem Rowwise.mono {d : Dialect} {Q Q' : Rel → Prop} {e : Expr} (h : Rowwise d Q e) (hQ : ∀ rel, Q rel → Q' rel) :
    Rowwise d Q' e := by
  intro t ht
  have hpart := h t ht
  cases t with
  | subQuery op operands rel type => exact hQ _ hpart
  | _ => exact hpart

/-- What is computed row by row has no windowed calls. -/
theorem Rowwise.containsOver_eq_false {d : Dialect} {Q : Rel → Prop} {e : Expr} (h : Rowwise d Q e) :
    e.containsOver = false := by
  unfold Scalar.containsOver
  rw [List.any_eq_false]
  intro t ht
  have hpart := h t ht
  cases t <;> simp_all [RowwisePart, Scalar.isOver]

theorem any_containsOver_eq_false {d : Dialect} {Q : Rel → Prop} {es : List Expr} (h : ∀ e ∈ es, Rowwise d Q e) :
    es.any (·.containsOver) = false :=
  List.any_eq_false.mpr fun e he => by simp [(h e he).containsOver_eq_false]

/-! ## The query of the projection -/

/-- The memory behind the registration of a result's correlation variables. -/
def registered (s : State) (ids : List String) (inputs : Aliases) : State :=
  { s with correlations := s.correlations.putAll (ids.map fun id => (id, .aliases inputs true)) }

/-- A projection that is merged into a query with a select list has the list of the projected expressions, or
the same list if it changes nothing. -/
theorem Flat.exists_projectResult (henv : env.NeverQualifies) (hx : Flat schema input x) (hkind : x.node.kind = .select)
    (hlisted : Listed input.fields x.node ks) {projects : List Expr} {names : List String}
    (hnames : names.length = projects.length) {ids : List String}
    (hmerged : (x.expecting [.select]).mustWrap env (.project input projects names false ids) = false) {t : State}
    (hms : (projects.mapM (projectedNode env sub (.selectList (namedItems ks input.fields) false false))).Gives
      (registered s ids x.aliases) ms t) :
    ∃ r s', (projectResult env sub input projects false ids (.project input projects names false ids) x).Gives s r s'
      ∧ r.node = if isIdentity input projects (Rel.project input projects names false ids).fields then x.node
        else withList x.node (namedItems ms (Rel.project input projects names false ids).fields) := by
  obtain ⟨name, hsingle, -⟩ := hx.single
  have hopened : (if (x.expecting [.select]).mustWrap env (.project input projects names false ids) then
      (x.expecting [.select]).subSelect env else (x.expecting [.select]).asSelect env).Gives
        (registered s ids x.aliases) x.node (registered s ids x.aliases) := by
    rw [hmerged, if_neg (by simp)]
    exact (ConvertM.gives_asSelect_of_select hkind _ _ _).mpr ⟨rfl, rfl⟩
  have hcontext : ((x.expecting [.select]).builderOver env (.project input projects names false ids) x.node).context
      = .selectList (namedItems ks input.fields) false false := by
    simp [Result.builderOver, Result.contextOver, hlisted.list, Result.itemContext, Result.expecting]
  have hbuilder := (hsingle.expecting [.select] false).gives_builder henv
    (.project input projects names false ids) _ (registered s ids x.aliases) (registered s ids x.aliases)
      |>.mpr ⟨x.node, hopened, rfl⟩
  have hregister := (ConvertM.gives_registerCorrelations ids x.aliases () s (registered s ids x.aliases)).mpr rfl
  have hresult : ∀ (b : Builder) (s : State), ∃ r s', (b.result env).Gives s r s' ∧ r.node = b.select :=
    fun b s => ⟨_, _, (ConvertM.gives_makeResult henv _ _ _ _ _ _ _).mpr ⟨rfl, rfl⟩, by simp⟩
  cases hidentity : isIdentity input projects (Rel.project input projects names false ids).fields with
  | true =>
    obtain ⟨r, s', hr, hnode⟩ := hresult ((x.expecting [.select]).builderOver env
      (.project input projects names false ids) x.node) (registered s ids x.aliases)
    refine ⟨r, s', ?_, hnode⟩
    simp only [projectResult, ConvertM.gives_bind, hidentity, if_true, ConvertM.gives_pure]
    exact ⟨(), _, hregister, _, _, hbuilder, _, _, ⟨rfl, rfl⟩, hr⟩
  | false =>
    obtain ⟨items, hitems⟩ := @exists_addSelects (Rel.project input projects names false ids).fields ms [] (by
      rw [ConvertM.length_of_gives_mapM hms]
      simp [Rel.fields, hnames])
    obtain ⟨-, hnamed⟩ := addSelects_eq_ok (by simp) hitems
    obtain ⟨r, s', hr, hnode⟩ := hresult (((x.expecting [.select]).builderOver env
      (.project input projects names false ids) x.node).setSelect items) t
    refine ⟨r, s', ?_, ?_⟩
    · simp only [projectResult, ConvertM.gives_bind, ConvertM.gives_lift, hidentity, Bool.false_eq_true, if_false,
        ConvertM.gives_pure]
      exact ⟨(), _, hregister, _, _, hbuilder, ms, t, by rw [hcontext]; exact hms, items, t, ⟨hitems, rfl⟩, _, t,
        ⟨rfl, rfl⟩, hr⟩
    · rw [hnode, if_neg (by simp), Builder.setSelect, hnamed]
      rfl

/-! ## Rows of the projection -/

/-- Another list over the same groups puts out, for each row of the first list, the values of expressions that
agree with the other items at this row. -/
theorem GroupQuery.projected_rows (hq : GroupQuery false fields n ks) (hne : fields ≠ []) (hother : other ≠ [])
    (hr : Relists n m) (hlisted : Listed other m ms) (hgrouped : m.isGrouped = true)
    (hn : n.flag "distinct" = false) (hm : m.flag "distinct" = false) (halias : E.groupByAlias = false)
    {cs : List Node} {names : Names}
    (hagree : ∀ v, together (ks.map (scalar E db (n.fromNames db outer))) = some v →
      List.Forall₂ (Agrees (Reading.scalar E db names) (Reading.scalar E db (n.fromNames db outer))
        fun f g => f.row = (v g).map single) cs ms)
    {rows : Focus → List Row} (hrows : n.rows E db outer = some rows) :
    ∃ w, together (cs.map (scalar E db names)) = some w
      ∧ m.rows E db outer = some fun f => (rows f).map fun row => (w (⟨row, [row]⟩ :: f)).map single := by
  obtain ⟨st, hst⟩ : ∃ st, n.stagesIn E db outer = some st := by
    rw [rows_select hq.kind, Option.map_eq_some_iff] at hrows
    obtain ⟨st, hst, -⟩ := hrows
    exact ⟨st, hst⟩
  obtain ⟨v, hv⟩ := Option.isSome_iff_exists.mp
    ((together_isSome_iff (scalar E db (n.fromNames db outer)) ks).mpr (hq.values halias hst))
  obtain ⟨w, u, hw, hu, hwu⟩ := together_agree (hagree v hv)
  refine ⟨w, hw, ?_⟩
  have hu' : together (ms.map (scalar E db (m.fromNames db outer))) = some u := by
    rw [hr.fromNames_eq hq.kind]
    exact hu
  rw [hq.toGroupList.rows_eq hne hn hv, Option.map_eq_some_iff] at hrows
  obtain ⟨g, hg, rfl⟩ := hrows
  have hgroups : m.groupingIn E db outer = some g :=
    (hr.groupingIn_eq hq.kind (hgrouped.trans hq.grouped.symm) halias).trans hg
  rw [(hq.toGroupList.of_relists hr hlisted hgrouped).rows_eq hother hm hu', hgroups, Option.map_some,
    Option.some.injEq]
  funext f
  rw [List.map_map]
  refine List.map_congr_left fun level _ => ?_
  simp only [Function.comp_apply]
  rw [hwu (⟨(v (level :: f)).map single, [(v (level :: f)).map single]⟩ :: f) (level :: f) rfl]

section

variable {projects : List Expr} {names : List String} {ids : List String} {cs : List Node} {t t' : State}
  {Q : Rel → Prop} {R : Node → Node → Prop}

/-- A projection that changes nothing projects the fields. -/
theorem fields_of_identity (hidentity : isIdentity input projects other = true) :
    projects.length = input.fields.length ∧ other.names = input.fields.names
      ∧ ∀ i (hi : i < projects.length), projects[i].inputRef? = some (i : Ordinal) := by
  simp only [isIdentity, Bool.and_eq_true, beq_iff_eq, List.all_eq_true] at hidentity
  obtain ⟨⟨hlength, hrefs⟩, hnames⟩ := hidentity
  exact ⟨hlength, hnames, fun i hi => hrefs (projects[i], i) (by simp [List.mk_mem_zipIdx_iff_getElem?, hi])⟩

/-- What a projection that changes nothing projects is related to the items. -/
theorem related_of_identity {ctx : Context} (halike : Alike env sub Q R ctx
      (.selectList (namedItems ks input.fields) false false))
    (htyped : ∀ type k l, R k l → R (typedIfNull env.dialect type k) l) (hlisted : Listed input.fields n ks)
    (hidentity : isIdentity input projects other = true)
    (hcs : (projects.mapM (projectedNode env sub ctx)).Gives t cs t') : List.Forall₂ R cs ks := by
  obtain ⟨hlength, -, hrefs⟩ := fields_of_identity hidentity
  have hwritten : List.Forall₂ (fun e c => ∀ i, e.inputRef? = some i →
      ∃ k, ctx.field env i = .ok k ∧ c = typedIfNull env.dialect e.type k) projects cs := by
    refine ConvertM.forall₂_of_gives_mapM (fun e _ s c s' hc i hi => ?_) hcs
    cases e <;> simp only [Scalar.inputRef?, Option.some.injEq, reduceCtorEq] at hi
    subst hi
    simp only [projectedNode, scalarNode, ConvertM.gives_bind, ConvertM.gives_lift, ConvertM.gives_pure] at hc
    obtain ⟨k, _, ⟨hk, -⟩, rfl, -⟩ := hc
    exact ⟨k, hk, rfl⟩
  have hfull : cs.length = ks.length := by rw [← hwritten.length_eq, hlength, hlisted.full]
  refine List.forall₂_iff_get.mpr ⟨hfull, fun i hi hi' => ?_⟩
  have hp : i < projects.length := hwritten.length_eq ▸ hi
  obtain ⟨k, hk, hc⟩ := (List.forall₂_iff_get.mp hwritten).2 i hp hi _ (hrefs i hp)
  obtain ⟨l, hl, hrel⟩ := halike.field _ k hk
  -- the field of the list is the item
  obtain ⟨item, hitem, hget, hnamed⟩ := hlisted.getElem? (List.getElem?_eq_getElem (hlength ▸ hp))
  obtain rfl : ks[i] = item := by simpa [hi'] using hget
  obtain rfl : ks[i] = l := by
    simpa only [Context.field, nth?_whole, hnamed, itemField_namedItem (hlisted.items _ hitem), Except.ok.injEq] using hl
  have hc' : cs[i] = typedIfNull env.dialect projects[i].type k := hc
  show R cs[i] ks[i]
  rw [hc']
  exact htyped _ _ _ hrel

end

/-! ## Aggregations of rows -/

/-- Without QUALIFY no windowed calls are filtered. -/
theorem filtersWindows_eq_false {d : Dialect} (hd : d.capabilities.qualify = false) (rel : Rel) :
    filtersWindows d rel = false := by
  fun_induction filtersWindows d rel <;> simp_all

/-- A plain GROUP BY has every key in its only grouping set. -/
theorem mem_of_simple {keys : List Ordinal} {sets : List (List Ordinal)} (h : groupKind keys sets = .simple) :
    ∀ key ∈ keys, ∃ set ∈ sets, key ∈ set := by
  intro key hkey
  have hsets : sets.map Ordinal.ascending = [keys] := by
    unfold groupKind at h
    split at h
    · assumption
    · split at h
      · cases h
      · split at h <;> cases h
  obtain ⟨set, rfl, hset⟩ : ∃ set, sets = [set] ∧ Ordinal.ascending set = keys := by
    cases sets with
    | nil => cases hsets
    | cons set rest =>
      cases rest with
      | nil => exact ⟨set, rfl, by simpa using hsets⟩
      | cons => simp at hsets
  exact ⟨set, by simp, (ascending_perm set).mem_iff.mp (hset ▸ hkey)⟩

section

variable {d : Dialect} {keys : List Ordinal} {sets : List (List Ordinal)} {calls : List AggregateCall}
  {projects : List Expr} {names : List String} {ids : List String} {cs : List Node} {t : State}

/-- A query that groups by keys, as one of its lists had them. -/
theorem GroupList.of_project (h : GroupList fields n ks) (hr : Relists n m) (hlisted : Listed other m ms)
    (hgrouped : (n.child? "group").isSome = true ∨ (m.list "expressions").any aggregates = true) :
    GroupList other m ms := by
  refine h.of_relists hr hlisted ?_
  rcases hgrouped with hgroup | hcalls
  · simp [isGrouped, hr.child?_eq (show "group" ∉ ["expressions", "distinct"] by decide), hgroup]
  · simp [isGrouped, hcalls]

/-- A plain GROUP BY has an item for each key. -/
theorem length_groupByNodes {ctx : Context} (hsimple : groupKind keys sets = .simple) {gs : List Node}
    (h : groupByNodes env ctx keys sets = .ok gs) : gs.length = keys.length := by
  have hkeys : keys.mapM (ctx.groupField env) = .ok gs := by simpa [groupByNodes, hsimple, keyNodes] using h
  exact length_of_mapM hkeys

/-- The query of an aggregation with keys has a GROUP BY. -/
theorem group_of_keys (henv : env.NeverQualifies) (hx : Flat schema input x) (hsimple : groupKind keys sets = .simple)
    (h : (aggregateResult env keys sets calls (.aggregate input keys sets calls) x).Gives s r s') (hkeys : keys ≠ []) :
    (r.node.child? "group").isSome = true := by
  obtain ⟨name, hsingle, -⟩ := hx.single
  obtain ⟨y, m, s₁, ks, gs, as, rfl, hm, hks, hgs, has, hlength, hr⟩ := hsingle.aggregate_step henv h
  have hgroups : gs ≠ [] := by
    rw [← List.length_pos_iff, length_groupByNodes hsimple hgs]
    exact List.length_pos_iff.mpr hkeys
  have hitems : namedItems (ks ++ as) (Rel.aggregate input keys sets calls).fields ≠ [] := by
    rw [← List.length_pos_iff, length_namedItems (by rw [List.length_append]; exact hlength), List.length_append,
      length_of_mapM hks]
    have := List.length_pos_iff.mpr hkeys
    omega
  obtain ⟨-, -, hgroup⟩ := aggregated_traits (hx.shaped_opened henv hm).kind gs (!calls.isEmpty) hitems
  rcases hgroup with ⟨hnone, -⟩ | hgroup
  · exact absurd hnone hgroups
  · rw [hr.node_eq, hgroup]
    rfl

/-- **A projection over an aggregation** of a tree of tables, filters and projections is put into its query.  Where
the query still groups, its rows are the values of the projected expressions for the rows of the aggregation. -/
theorem projectResult_groups (henv : env.NeverQualifies) (hmap : env.fieldMap = [])
    (hd : env.dialect ∈ [Dialect.ansi, .postgres]) (hinput : input.every (joinFree schema) = true)
    (htree : input.every readsRows = true) (hsimple : groupKind keys sets = .simple)
    (hfields : (Rel.aggregate input keys sets calls).fields ≠ []) (hnames : names.length = projects.length)
    (hne : projects ≠ []) (hprojects : ∀ e ∈ projects, Rowwise env.dialect (fun _ => True) e)
    (hx : (relationResult env sub false (.aggregate input keys sets calls)).Gives s x s')
    (hcs : (projects.mapM (projectedNode env sub
      (.aliases [("", (Rel.aggregate input keys sets calls).fields)] false))).Gives (registered s' ids x.aliases) cs t) :
    ∃ r t', (projectResult env sub (.aggregate input keys sets calls) projects false ids
        (.project (.aggregate input keys sets calls) projects names false ids) x).Gives s' r t'
      ∧ (keys ≠ [] ∨ (r.query.list "expressions").any aggregates = true →
        ∀ (E : Engine) (db : Database), db.schema = schema → E.groupByAlias = false →
          (∀ e ∈ projects, Rowwise env.dialect (fun rel => ∀ s q s', (sub rel).Gives s q s' → Alone E db q) e) →
          ∀ outer rows, x.query.rows E db outer = some rows →
            ∃ w, together (cs.map (scalar E db
                (Names.within [("", (Rel.aggregate input keys sets calls).fields.names)] outer))) = some w
              ∧ r.query.rows E db outer = some fun f =>
                (rows f).map fun row => (w (⟨row, [row]⟩ :: f)).map single) := by
  have hcapable : env.dialect.capabilities.groupByAlias = false ∧ env.dialect.capabilities.qualify = false := by
    simp only [List.mem_cons, List.not_mem_nil, or_false] at hd
    rcases hd with hd | hd <;> rw [hd] <;> exact ⟨rfl, rfl⟩
  generalize hA : Rel.aggregate input keys sets calls = A at *
  have hfree : A.every (joinFree schema) = true := by
    rw [← hA] at hfields ⊢
    simp [Rel.every, joinFree, hinput, hfields]
  have hnodup : A.fields.names.Nodup := by
    rw [← hA, Rel.fields]
    exact RowType.nodup_unique _
  -- the query of the aggregation
  have hflat := flat_relationResult henv hmap A hfree hx
  subst hA
  rw [relationResult, ConvertM.gives_bind] at hx
  obtain ⟨z, s₁, hz, hx⟩ := hx
  have hzflat := flat_relationResult henv hmap input hinput hz
  obtain ⟨ks, hq⟩ := (origins_relationResult henv hmap input hinput hz).groupQuery henv hmap hzflat hfields
    (fun _ => every_ungrouped input htree) (filtersWindows_eq_false hcapable.2 input)
    (fun _ => mem_of_simple hsimple) hx
  obtain ⟨hclauses, hdistinct⟩ :=
    (rowQuery_relationResult henv hmap hcapable.2 input hinput htree hz).aggregate henv hzflat hx
  have hmerged := merges_project hd hflat.tracked.used hclauses hdistinct (any_containsOver_eq_false hprojects)
    (.aggregate input keys sets calls) names false ids
  -- the expressions over its items
  generalize hA : Rel.aggregate input keys sets calls = A at *
  have halike : Alike env sub (fun _ => True) (fun _ _ => True) (.aliases [("", A.fields)] false)
      (.selectList (namedItems ks A.fields) false false) :=
    { congruent := congruent_true
      queries := fun _ _ _ _ _ _ => ⟨trivial, trivial, fun _ _ => trivial⟩
      field := fun i k hi => by
        obtain ⟨j, hj, rfl⟩ := field_columns_range hmap hi
        obtain ⟨item, hitem, -, hnamed⟩ := hq.listed.getElem? (List.getElem?_eq_getElem hj)
        exact ⟨item, by simp only [Context.field, nth?_whole, hnamed, itemField_namedItem (hq.listed.items _ hitem)],
          trivial⟩
      literal := fun l => by simp [literalIn]
      literal' := fun l => by simp [literalIn] }
  obtain ⟨ns, hns, -⟩ := matches_projectedNodes halike (fun _ _ _ _ => trivial) hprojects _ _ _ hcs
  obtain ⟨r, t', hr, hnode⟩ := hflat.exists_projectResult henv hq.kind hq.listed hnames hmerged hns
  refine ⟨r, t', hr, fun hgroups E db hdb halias halone outer rows hrows => ?_⟩
  have hrflat := flat_project henv hmap hflat hnames (fun e he => (hprojects e he).readsOuter_eq_false) hr
  have hother : (Rel.project A projects names false ids).fields ≠ [] := by
    rw [← List.length_pos_iff, Rel.fields, List.length_zipWith, hnames, Nat.min_self]
    exact List.length_pos_iff.mpr hne
  have hrelists : Relists x.node r.node := by
    rw [hnode]
    split
    · exact .refl
    · exact .set .refl (by simp) _
  have hrkind : r.node.kind = .select := hrelists.kind_eq.trans hq.kind
  rw [Result.query_of_plain (hrflat.shaped hrkind).plain] at hgroups ⊢
  rw [Result.query_of_plain (hflat.shaped hq.kind).plain] at hrows
  have hflag : r.node.flag "distinct" = false := by
    rw [hnode]
    split
    · exact hdistinct
    · exact (flag_set_of_ne _ _ (by decide)).trans hdistinct
  have hlist : (x.node.child? "group").isSome = true ∨ (r.node.list "expressions").any aggregates = true :=
    hgroups.imp_left fun hkeys => group_of_keys henv hzflat hsimple (hA ▸ hx) hkeys
  have hreadings : ∀ v, together (ks.map (scalar E db (x.node.fromNames db outer))) = some v →
      Alike env sub (fun rel => ∀ s q s', (sub rel).Gives s q s' → Alone E db q)
        (Agrees (Reading.scalar E db (Names.within [("", A.fields.names)] outer))
          (Reading.scalar E db (x.node.fromNames db outer)) fun f g => f.row = (v g).map single)
        (.aliases [("", A.fields)] false) (.selectList (namedItems ks A.fields) false false) := fun v hv => by
    refine alike_of_showsRow (showsRow_columns hmap hnodup "" "" outer)
      (showsRow_items hq.listed.full hq.listed.items _ (fun k hk u hu => (hq.listed.items k hk).oneValued.scalar hu) hv
        false) (fun i m hi => field_columns_range hmap hi) fun rel hrel s q s' hgives => ?_
    exact queries_agree _ (hrel s q s' hgives)
  cases hidentity : isIdentity A projects (Rel.project A projects names false ids).fields with
  | true =>
    have hsame : r.node = x.node := by rw [hnode, hidentity, if_pos rfl]
    obtain ⟨-, hfieldNames, -⟩ := fields_of_identity hidentity
    have hlisted : Listed (Rel.project A projects names false ids).fields r.node ks := by
      rw [hsame]
      refine ⟨?_, ?_, hq.listed.items⟩
      · rw [hq.listed.list, namedItems_congr hfieldNames]
      · have := congrArg List.length hfieldNames
        simp only [RowType.names, List.length_map] at this
        rw [hq.listed.full, this]
    exact (hcapable.1 ▸ hq).projected_rows hfields hother hrelists hlisted
      (hq.toGroupList.of_project hrelists hlisted hlist).grouped hdistinct hflag halias
      (fun v hv => related_of_identity (hreadings v hv) (fun type k l hkl => by
        obtain ⟨u, w, hu, hw, huw⟩ := hkl
        exact ⟨u, w, value_typedIfNull _ _ type hu, hw, huw⟩) hq.listed hidentity hcs) hrows
  | false =>
    have hlisted : Listed (Rel.project A projects names false ids).fields r.node ns := by
      have hnew : r.node = withList x.node (namedItems ns (Rel.project A projects names false ids).fields) := by
        rw [hnode, hidentity, if_neg (by simp)]
      refine ⟨by simp [hnew, withList, selectList?, list?], ?_, ?_⟩
      · rw [ConvertM.length_of_gives_mapM hns]
        simp [Rel.fields, hnames]
      · exact Yields.mapM (fun e he _ _ _ hn => item_projectedNode (fun i n hn => hq.listed.items n
          (hq.listed.mem_of_field hn)) (hprojects e he).readsOuter_eq_false hn) _ _ _ hns
    refine (hcapable.1 ▸ hq).projected_rows hfields hother hrelists hlisted
      (hq.toGroupList.of_project hrelists hlisted hlist).grouped hdistinct hflag halias (fun v hv => ?_) hrows
    obtain ⟨ns', hns', hagree⟩ := matches_projectedNodes (hreadings v hv)
      (fun type k l hkl => agrees_typedIfNull _ type hkl) halone _ _ _ hcs
    obtain ⟨rfl, -⟩ := hns.unique hns'
    exact hagree

/-! ## Statements -/

/-- What the expressions of a projection are written as over the columns of its input, behind the input. -/
def columnsOver (d : Dialect) (input : Rel) (projects : List Expr) (ids : List String) : Except Error (List Node) :=
  let sub := queryAt (Env.plain d) (Rel.project input projects [] false ids).queryDepth false
  ConvertM.value do
    let x ← relationResult (Env.plain d) sub false input
    registerCorrelations ids x.aliases
    projects.mapM (projectedNode (Env.plain d) sub (.aliases [("", input.fields)] false))

/-- A sub-query of a plan of a depth is converted into a query that has rows by itself. -/
def StandsAlone (d : Dialect) (depth : Nat) (E : Engine) (db : Database) (rel : Rel) : Prop :=
  ∀ s q s', (queryAt (Env.plain d) depth false rel).Gives s q s' → Alone E db q

/-- **The statement for a projection over an aggregation** of a tree of tables, filters and projections: where it
still groups, its rows are the values of the projected expressions for the rows of the statement for the
aggregation. -/
theorem statement_projectedGroups (hd : d ∈ [Dialect.ansi, .postgres]) (hinput : input.every (joinFree schema) = true)
    (htree : input.every readsRows = true) (hsimple : groupKind keys sets = .simple)
    (hfields : (Rel.aggregate input keys sets calls).fields ≠ []) (hnames : names.length = projects.length)
    (hne : projects ≠ []) (hprojects : ∀ e ∈ projects, Rowwise d (fun _ => True) e) {a : Node}
    (ha : statement d (.aggregate input keys sets calls) = .ok a)
    (hcs : columnsOver d (.aggregate input keys sets calls) projects ids = .ok cs) :
    ∃ p, statement d (.project (.aggregate input keys sets calls) projects names false ids) = .ok p
      ∧ (keys ≠ [] ∨ (p.list "expressions").any aggregates = true →
        ∀ (E : Engine) (db : Database), db.schema = schema → E.groupByAlias = false →
          (∀ e ∈ projects, Rowwise d (StandsAlone d
            (Rel.project (.aggregate input keys sets calls) projects [] false ids).queryDepth E db) e) →
          ∀ rows, a.results E db = some rows →
            ∃ w, together (cs.map (scalar E db
                (Names.within [("", (Rel.aggregate input keys sets calls).fields.names)] Names.none))) = some w
              ∧ p.results E db = some (rows.map fun row => (w [⟨row, [row]⟩]).map single)) := by
  have henv : (Env.plain d).NeverQualifies := Env.neverQualifies_plain (by
    simp only [List.mem_cons, List.not_mem_nil, or_false] at hd
    rcases hd with rfl | rfl <;> simp [Dialect.all])
  generalize hdepth : (Rel.project (.aggregate input keys sets calls) projects [] false ids).queryDepth = depth
  have hbelow : (Rel.aggregate input keys sets calls).queryDepth ≤ depth := by
    rw [← hdepth]
    exact le_max_left _ _
  have hwhole : (Rel.project (.aggregate input keys sets calls) projects names false ids).queryDepth ≤ depth :=
    le_of_eq hdepth
  rw [columnsOver, hdepth, ConvertM.value_eq_ok_iff] at hcs
  obtain ⟨t, hcs⟩ := hcs
  simp only [ConvertM.gives_bind, ConvertM.gives_registerCorrelations] at hcs
  obtain ⟨x, s', hx, -, -, rfl, hcs⟩ := hcs
  have hfree : (Rel.aggregate input keys sets calls).every (joinFree schema) = true := by
    simp [Rel.every, joinFree, hinput, hfields]
  have hflat := flat_relationResult henv rfl _ hfree hx
  -- the statement for the aggregation is the query of the result
  obtain rfl : a = x.query := by
    rw [statement_eq, ConvertM.value_eq_ok_iff, planStatement, planResult_eq _ hbelow] at ha
    obtain ⟨u, ha⟩ := ha
    obtain ⟨y, u', hy, ha⟩ := (ConvertM.gives_bind _ _ _ _ _).mp ha
    have hy' : (relationResult (Env.plain d) (queryAt (Env.plain d) depth false) false
        (.aggregate input keys sets calls)).Gives {} y u' := by
      rw [relationResult] at hy ⊢
      exact hy
    obtain ⟨rfl, -⟩ := hy'.unique hx
    exact hflat.asStatement henv ha
  obtain ⟨r, t', hr, hrows⟩ := projectResult_groups henv rfl hd hinput htree hsimple hfields hnames hne hprojects hx hcs
  have hrflat := flat_project henv rfl hflat hnames (fun e he => (hprojects e he).readsOuter_eq_false) hr
  obtain ⟨u, hp⟩ := hrflat.exists_asStatement henv t'
  have hrel : (relationResult (Env.plain d) (queryAt (Env.plain d) depth false) true
      (.project (.aggregate input keys sets calls) projects names false ids)).Gives {} r t' := by
    rw [relationResult, ConvertM.gives_bind]
    exact ⟨x, s', hx, hr⟩
  refine ⟨r.query, ?_, fun hgroups E db hdb halias halone rows hrowsA => ?_⟩
  · rw [statement_eq, ConvertM.value_eq_ok_iff, planStatement, planResult_eq _ hwhole]
    exact ⟨u, (ConvertM.gives_bind _ _ _ _ _).mpr ⟨r, t', hrel, hp⟩⟩
  · have hrowsA' : (x.query.rows E db Names.none).map (fun rows => rows []) = some rows := hrowsA
    rw [Option.map_eq_some_iff] at hrowsA'
    obtain ⟨v, hv, rfl⟩ := hrowsA'
    obtain ⟨w, hw, hrowsP⟩ := hrows hgroups E db hdb halias halone Names.none v hv
    refine ⟨w, hw, ?_⟩
    have hresults : r.query.results E db = (r.query.rows E db Names.none).map fun rows => rows [] := rfl
    rw [hresults, hrowsP]
    rfl

end

/-- Whether each value of the first field occurs more than once. -/
def repeatedCounts : Rel := .project (counts scanOneColumn) [aboveOneField 1 .bigint] ["often"] false []

/-- The statement that tells which values occur more than once compares each count of the statement for the
counts. -/
theorem statement_projectedGroups_repeated : ∃ a p, statement Dialect.ansi (counts scanOneColumn) = .ok a
    ∧ statement Dialect.ansi repeatedCounts = .ok p
    ∧ ∀ (E : Engine) (db : Database), db.schema = oneColumnSchema → E.groupByAlias = false →
      ∀ rows, a.results E db = some rows →
        ∃ w, together ([countAboveOne].map (scalar E db (Names.within [("", ["a", "c"])] Names.none))) = some w
          ∧ p.results E db = some (rows.map fun row => (w [⟨row, [row]⟩]).map single) := by
  have hok : (statement Dialect.ansi (counts scanOneColumn)).toOption.isSome = true := by decide +kernel
  have hcolumns : (columnsOver .ansi (counts scanOneColumn) [aboveOneField 1 .bigint] []).toOption
      = some [countAboveOne] := by decide +kernel
  have hrowwise : ∀ Q : Rel → Prop, ∀ e ∈ [aboveOneField 1 .bigint], Rowwise Dialect.ansi Q e := by
    intro Q e he
    obtain rfl : e = aboveOneField 1 .bigint := by simpa using he
    exact (queryFree_aboveOneField (by simp) 1 .bigint).mono fun _ => False.elim
  cases ha : statement Dialect.ansi (counts scanOneColumn) with
  | error e => simp [ha, Except.toOption] at hok
  | ok a =>
    obtain ⟨p, hp, hrows⟩ := statement_projectedGroups (by simp)
      (show scanOneColumn.every (joinFree oneColumnSchema) = true by decide +kernel) rfl
      (show groupKind [((0 : Nat) : Ordinal)] [[((0 : Nat) : Ordinal)]] = .simple by decide +kernel)
      (by decide +kernel) (show ["often"].length = [aboveOneField 1 .bigint].length from rfl) (by simp) (hrowwise _) ha
      ((toOption_eq_some_iff _ _).mp hcolumns)
    exact ⟨a, p, rfl, hp, fun E db hdb halias rows hresults =>
      hrows (.inl (by simp)) E db hdb halias (hrowwise _) rows hresults⟩

/-- The number of rows. -/
def grandCount : Rel := .aggregate scanOneColumn [] [[]] [{ op := Operator.count, args := [], name := some "c" }]

/-- The constant one. -/
def oneLiteral : Expr := .literal ⟨.exact "1", .integer⟩

/-- An engine that counts rows, where GROUP BY and HAVING name no items. -/
def countingEngine : Engine := { rankingEngine with groupByAlias := false, havingAlias := false }

/-- A constant over a grand total takes the only aggregate out of the list: the query does not group any more, and
has the constant for each row of the table. -/
theorem grandCount_projected : ∃ a p cs w rows, groupKind [] [[]] = .simple ∧ grandCount.fields ≠ []
    ∧ statement Dialect.ansi grandCount = .ok a
    ∧ statement Dialect.ansi (.project grandCount [oneLiteral] ["one"] false []) = .ok p
    ∧ columnsOver .ansi grandCount [oneLiteral] [] = .ok cs
    ∧ together (cs.map (scalar countingEngine oneTwoTwo (Names.within [("", grandCount.fields.names)] Names.none)))
      = some w
    ∧ a.results countingEngine oneTwoTwo = some rows
    ∧ p.results countingEngine oneTwoTwo ≠ some (rows.map fun row => (w [⟨row, [row]⟩]).map single) := by
  have ha : (statement Dialect.ansi grandCount).toOption.bind (fun a => a.results countingEngine oneTwoTwo)
      = some [[.number 3]] := by decide +kernel
  have hp : (statement Dialect.ansi (.project grandCount [oneLiteral] ["one"] false [])).toOption.bind
      (fun p => p.results countingEngine oneTwoTwo) = some [[.number 1], [.number 1], [.number 1]] := by decide +kernel
  have hw : (together ([Node.number "1"].map (scalar countingEngine oneTwoTwo
      (Names.within [("", grandCount.fields.names)] Names.none)))).isSome = true := by decide +kernel
  cases ha' : statement Dialect.ansi grandCount with
  | error e => simp [ha', Except.toOption] at ha
  | ok a =>
    cases hp' : statement Dialect.ansi (.project grandCount [oneLiteral] ["one"] false []) with
    | error e => simp [hp', Except.toOption] at hp
    | ok p =>
      obtain ⟨w, hvalue⟩ := Option.isSome_iff_exists.mp hw
      rw [ha'] at ha
      rw [hp'] at hp
      simp only [Except.toOption, Option.bind_some] at ha hp
      refine ⟨a, p, _, w, _, by decide +kernel, by decide +kernel, rfl, rfl, rfl, hvalue, ha, fun hrows => ?_⟩
      -- three rows are not one
      rw [hp, Option.some.injEq] at hrows
      have hlength := congrArg List.length hrows
      simp at hlength

end Convert

end AlgebraSql
