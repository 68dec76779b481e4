import AlgebraSql.Proofs.OuterRows

/-!
# Join fields — what a query over a join exposes to the filters above it.

A join of two tables gives its fields different names, and the query for it shows the columns of the tables
by a star, under the names that they have there.  Filters and projections that change nothing read such a
query as a sub-query, and refer to its columns by the names of the fields.  So a reference finds the column
of its field exactly if the join did not rename the field and no other column has the name.
-/

namespace AlgebraSql.Convert

open Sql Node

variable {env : Env} {sub : Rel → ConvertM Node} {s s' : State} {schema : Schema} {f g : RowType}

/-! ## References -/

/-- **`Picks`** — a column names exactly one column of a FROM clause, and it is the one at a place. -/
def Picks (F : Sql.Frame) (i : Nat) (n : Node) : Prop :=
  n.findsColumn { own := F } = true ∧ F.columns[i]? = some n.name

/-- A field of a join has the name that it has in its table, and no other column of the tables has it. -/
def KeepsName (fields : RowType) (i : Nat) : Prop :=
  ∃ name, fields.names[i]? = some name ∧ fields.unique.names[i]? = some name ∧ fields.names.count name = 1

/-- Over one FROM item, qualified by its name or not, a column picks the one at a place that has its name. -/
theorem picks_column_iff {a name : String} {columns : List String} {i : Nat} (qualified : Bool) :
    Picks [(a, columns)] i (column name (if qualified then some a else none))
      ↔ columns[i]? = some name ∧ columns.count name = 1 := by
  have hfinds : (column name (if qualified then some a else none)).findsColumn { own := [(a, columns)] }
      = (columns.count name == 1) := by
    cases qualified <;>
      simp [findsColumn, child?_column, name_column, table_column, findsPlain, findsQualified, Scope.visible]
  rw [Picks, hfinds, name_column, Frame.columns_single, beq_iff_eq, and_comm]

/-- In a context, a field is written as a column of a sub-query, and picks its own column there exactly if
the field is kept. -/
def ReadsColumns (env : Env) (a : String) (columns : List String) (kept : Nat → Prop) (ctx : Context) : Prop :=
  ∀ (i : Nat) n, ctx.field env i = .ok n → (Picks [(a, columns)] i n ↔ kept i)

/-- Under the names of the fields of the join, the columns of the tables are read. -/
theorem readsColumns_single (hmap : env.fieldMap = []) {a : String} {columns : List String} {inputs : RowType}
    {fields : RowType} (hcolumns : columns = fields.names) (hinputs : inputs.names = fields.unique.names)
    (qualified : Bool) :
    ReadsColumns env a columns (KeepsName fields) (.aliases [(a, inputs)] qualified) := by
  intro i n hn
  obtain ⟨k, name, field, hk, howner, rfl⟩ := owner?_of_aliasField hmap hn
  obtain rfl : k = i := by simpa using hk.symm
  obtain ⟨rfl, hfield⟩ : a = name ∧ inputs[k]? = some field := by
    simp only [Context.owner?] at howner
    split at howner
    · rename_i field' hfield'
      obtain ⟨rfl, rfl⟩ := Prod.mk.inj (Option.some.inj howner)
      exact ⟨rfl, hfield'⟩
    · cases howner
  have hunique : fields.unique.names[k]? = some field.name := by
    rw [← hinputs, RowType.names, List.getElem?_map, hfield]
    rfl
  rw [picks_column_iff, hcolumns]
  constructor
  · rintro ⟨hname, hcount⟩
    exact ⟨field.name, hname, hunique, hcount⟩
  · rintro ⟨name, hname, hunique', hcount⟩
    obtain rfl : field.name = name := by simpa [hunique] using hunique'
    exact ⟨hname, hcount⟩

/-! ## Chains over a join -/

/-- Filters, and projections that change nothing, over a plan. -/
inductive Above (below : Rel) : Rel → Prop
  | start : Above below below
  | filter {input : Rel} (condition : Expr) (ids : List String) (h : Above below input) :
      Above below (.filter input condition ids)
  | project {input : Rel} {projects : List Expr} {names : List String} {distinct : Bool} {ids : List String}
      (h : Above below input)
      (hidentity : isIdentity input projects (Rel.project input projects names distinct ids).fields = true) :
      Above below (.project input projects names distinct ids)

/-- **`ChainQuery`** — the query for a chain over a join of two tables.  Without a sub-query it reads the
join.  A filter or a projection may read the query below as a sub-query under a name; the fields in the
condition of such a filter are columns of the sub-query, and those of its correlation variables are columns
of the sub-query as well or of the two tables. -/
inductive ChainQuery (env : Env) (sub : Rel → ConvertM Node) (schema : Schema) (kept : Nat → Prop)
    (tables : List String) : Rel → Node → Prop
  | joined (rel : Rel) {n item : Node} (hstar : IsStar n item) (htables : JoinsTables item)
      (hnames : (item.frame schema).map (·.1) = tables) : ChainQuery env sub schema kept tables rel n
  | distinct {rel : Rel} {n : Node} (h : ChainQuery env sub schema kept tables rel n) :
      ChainQuery env sub schema kept tables rel (n.set "distinct" (some (.flag true)))
  | same {input : Rel} {projects : List Expr} {names : List String} {distinct : Bool} {ids : List String}
      {n : Node} (h : ChainQuery env sub schema kept tables input n) :
      ChainQuery env sub schema kept tables (.project input projects names distinct ids) n
  | nested {input : Rel} {projects : List Expr} {names : List String} {distinct : Bool} {ids : List String}
      {q : Node} (a : String) (h : ChainQuery env sub schema kept tables input q) :
      ChainQuery env sub schema kept tables (.project input projects names distinct ids)
        (selectFrom (derived q (some a)))
  | filtered {input : Rel} {condition : Expr} {ids : List String} {q c : Node} {a : String} {ctx : Context}
      {s s' : State} (h : ChainQuery env sub schema kept tables input q)
      (hcondition : (scalarNode env sub ctx condition).Gives s c s')
      (hfields : ReadsColumns env a (q.columns schema) kept ctx)
      (hvariables : ∀ id ∈ ids, ∃ inputs, s.correlations.get? id = some (.aliases inputs true)
        ∧ (inputs.map (·.1) = tables ∨ ReadsColumns env a (q.columns schema) kept (.aliases inputs true))) :
      ChainQuery env sub schema kept tables (.filter input condition ids)
        ((selectFrom (derived q (some a))).set "where" (some (.node (wrap .where c))))

/-- The fields of a chain over a join have different names. -/
theorem Above.names {pair rel : Rel} (h : Above pair rel) (hpair : JoinedTables schema f g pair) :
    rel.fields.names = (f ++ g).unique.names := by
  induction h with
  | start =>
    obtain ⟨condition, ids, htype, -, -⟩ := hpair
    simp [Rel.fields, htype]
  | filter condition ids h ih => rw [Rel.fields, ih]
  | project h hidentity ih =>
    simp only [isIdentity, Bool.and_eq_true, beq_iff_eq] at hidentity
    rw [hidentity.2, ih]

/-- A filter of a chain is a WHERE. -/
theorem Above.filterClause {pair input : Rel} (h : Above pair input) (hpair : JoinedTables schema f g pair)
    (condition : Expr) (ids : List String) : filterClause env input condition = .where
      ∧ ignoresClauses (.filter input condition ids) = false := by
  cases h with
  | start =>
    obtain ⟨condition, ids, htype, -, -⟩ := hpair
    exact ⟨rfl, rfl⟩
  | filter condition ids h => exact ⟨rfl, rfl⟩
  | @project input projects names distinct ids h hidentity =>
    refine ⟨?_, rfl⟩
    have hwindow : projects.any (·.containsOver) = false := by
      by_contra hwindow
      rw [isIdentity_eq_false (by simpa using hwindow)] at hidentity
      cases hidentity
    simp [Convert.filterClause, hwindow]

/-! ## Results -/

/-- A query that was recorded under a fresh name is known by the name, alone or beside several inputs. -/
theorem Result.Fresh.needed {x : Result} (h : x.Fresh) (hplain : isPlainQuery x.node = true) :
    ∃ name, x.neededAlias = some name ∧ name ≠ "" ∧ (x.aliases = [(name, x.fields)] ∨ x.aliases.length ≠ 1) := by
  obtain ⟨used, n, clauses, rel, aliases, rfl⟩ := h
  rw [recorded_node] at hplain
  have hname : givenName used n ≠ "" := givenName_ne_empty (by simp [aliasOf?_of_plainQuery hplain])
  refine ⟨givenName used n, needed_recorded hplain _ _ _ _, hname, ?_⟩
  unfold recorded
  split
  · right
    simp
  · exact .inl rfl

/-- A SELECT that shows the columns of two tables by a star. -/
structure ShowsTables (schema : Schema) (f g : RowType) (n : Node) : Prop where
  kind : n.kind = .select
  plain : isPlainQuery n = true
  star : n.selectList? = none
  columns : n.columns schema = (f ++ g).names

namespace ShowsTables

variable {n : Node}

/-- A condition and DISTINCT leave the columns. -/
theorem set (h : ShowsTables schema f g n) {key : String} (hkey : key ∈ ["where", "distinct"]) (a : Arg) :
    ShowsTables schema f g (n.set key (some a)) := by
  obtain ⟨hfrom, hlist, halias⟩ : key ≠ "from" ∧ key ≠ "expressions" ∧ key ≠ "alias" := by
    simp only [List.mem_cons, List.not_mem_nil, or_false] at hkey
    rcases hkey with rfl | rfl <;> decide
  have hstar : (n.set key (some a)).selectList? = n.selectList? := list?_set_of_ne n a hlist
  have hkind : (n.set key (some a)).kind = .select := by rw [kind_set, h.kind]
  refine ⟨hkind, isPlainQuery_set h.plain halias a, hstar.trans h.star, ?_⟩
  rw [columns_select hkind, hstar, frame_set h.kind hfrom, ← columns_select h.kind, h.columns]

/-- A star over such a query shows the same columns. -/
theorem nested (h : ShowsTables schema f g n) {a : String} (ha : a ≠ "") :
    ShowsTables schema f g (selectFrom (derived n (some a))) where
  kind := rfl
  plain := isPlainQuery_selectFrom _
  star := by simp [selectFrom, selectList?, list?]
  columns := by
    rw [columns_selectFrom, frame_derived _ _ (by simpa using ha), h.columns, Frame.columns_single]

end ShowsTables

/-- **`ChainResult`** — the result for a chain whose query is a star with clauses of its own. -/
structure ChainResult (schema : Schema) (f g : RowType) (tables : List String) (x : Result) : Prop where
  shows : ShowsTables schema f g x.node
  fields : x.fields.names = (f ++ g).unique.names
  fresh : x.Fresh
  inputs : x.aliases.length = 1 ∨ x.aliases.map (·.1) = tables
  /-- A filter above is no part of the query. -/
  late : ∃ c ∈ x.clauses, 1 ≤ c.rank

/-- A star over columns of the tables that is recorded for a chain. -/
theorem chainResult_of_recorded {tables : List String} {rel : Rel} {n : Node} {clauses : List Clause}
    {inputs : Aliases} {r : Result} (hrel : rel.fields.names = (f ++ g).unique.names)
    (h : (makeResult env n clauses rel (some inputs)).Gives s r s') (henv : env.NeverQualifies)
    (hn : ShowsTables schema f g n) (hinputs : inputs.length = 1 ∨ inputs.map (·.1) = tables)
    (hlate : ∃ c ∈ clauses, 1 ≤ c.rank) : ChainResult schema f g tables r ∧ r.node = n := by
  have hfresh := Recording.makeResult henv n clauses rel (some inputs) s r s' h
  obtain ⟨rfl, -⟩ := (ConvertM.gives_makeResult henv _ _ _ _ _ _ _).mp h
  refine ⟨⟨by simpa using hn, ?_, hfresh, ?_, by simpa using hlate⟩, by simp⟩
  · rw [recorded_fields, declaredFields_select hn.plain hn.kind (.inl hn.star), hrel]
  · unfold recorded
    split
    · rename_i haliases
      obtain rfl := Option.some.inj haliases
      exact hinputs
    · exact .inl rfl

namespace ChainResult

variable {tables : List String} {x r : Result} {input : Rel}

/-- A filter over such a result reads it as a sub-query. -/
theorem mustWrap_filter (hx : ChainResult schema f g tables x) {condition : Expr} {ids : List String}
    (hclause : filterClause env input condition = .where)
    (hignores : ignoresClauses (.filter input condition ids) = false) :
    (x.announced env (.filter input condition ids)).mustWrap env (.filter input condition ids) = true := by
  obtain ⟨c, hc, hrank⟩ := hx.late
  have hused : (x.announced env (.filter input condition ids)).clauses ≠ [] := by
    intro hnil
    rw [show x.clauses = [] from hnil] at hc
    cases hc
  by_contra hwrap
  rw [Bool.not_eq_true] at hwrap
  rcases unwrapped_cases hused hwrap with ⟨input', condition', ids', hrel, -, hqualify⟩ | ⟨hfit, -⟩
  · obtain ⟨rfl, rfl, rfl⟩ := Rel.filter.inj hrel
    rw [hclause] at hqualify
    cases hqualify
  · simp only [Result.announced, Result.expecting, hignores, hclause, Bool.false_eq_true, if_false] at hfit
    -- a condition would have to come behind a clause that is not before it
    rcases rank_of_fit hfit hc (show Clause.where ∈ [Clause.where].eraseDups by decide) with hbefore | ⟨hselect, -⟩
    · have hone : Clause.where.rank = 1 := rfl
      omega
    · cases hselect

/-- **The builder** over such a result holds the query, or a star over it under its name, where the fields
are those of the sub-query. -/
theorem builder (henv : env.NeverQualifies) (hx : ChainResult schema f g tables x) {N : Rel}
    (hinput : N.inputs = [input]) (hnames : input.fields.names = (f ++ g).unique.names) {b : Builder}
    (hb : ((x.announced env N).builder env N).Gives s b s') : ∃ name inputs,
      name ≠ "" ∧ b.rel = N ∧ (∀ c ∈ (x.announced env N).expected, c ∈ b.clauses)
      ∧ b.aliases = some inputs ∧ (inputs.length = 1 ∨ inputs.map (·.1) = tables)
      ∧ (x.aliases = [(name, x.fields)] ∨ x.aliases.map (·.1) = tables)
      ∧ (((x.announced env N).mustWrap env N = true ∧ b.select = selectFrom (derived x.node (some name))
          ∧ ∃ fields qualified, RowType.names fields = (f ++ g).unique.names
            ∧ b.context = .aliases [(name, fields)] qualified)
        ∨ ((x.announced env N).mustWrap env N = false ∧ b.select = x.node)) := by
  obtain ⟨m, hm, hb⟩ := (ConvertM.gives_builder henv _ _ _ _ _).mp hb
  obtain ⟨name, hneeded, hne, haliases⟩ := hx.fresh.needed hx.shows.plain
  have hinputs : x.aliases = [(name, x.fields)] ∨ x.aliases.map (·.1) = tables :=
    haliases.imp id fun hlength => hx.inputs.resolve_left hlength
  -- what is announced changes nothing else
  obtain ⟨hnode, hyneeded, hyaliases⟩ : (x.announced env N).node = x.node
      ∧ (x.announced env N).neededAlias = x.neededAlias ∧ (x.announced env N).aliases = x.aliases := by
    obtain ⟨expected, ignores, hannounced⟩ := x.announced_eq env N
    rw [hannounced]
    exact ⟨rfl, rfl, rfl⟩
  generalize x.announced env N = y at hm hb hnode hyneeded hyaliases ⊢
  have hopened := Opening.of_select henv (by rw [hnode]; exact hx.shows.plain) (by rw [hnode]; exact hx.shows.kind)
    (hyneeded.trans hneeded) hm
  rw [hnode] at hopened
  have hlist : m.selectList? = none := by
    split at hopened
    · rw [hopened]
      simp [selectFrom, selectList?, list?]
    · rw [hopened, hx.shows.star]
  have hclauses : ∀ c ∈ y.expected, c ∈ if y.mustWrap env N then y.expected else y.clauses ++ y.expected := by
    intro c hc
    split
    · exact hc
    · exact List.mem_append_right _ hc
  simp only [Result.opened, hlist, Result.firstInputFields, hinput] at hb
  cases hnew : y.newAlias? (y.mustWrap env N) with
  | none =>
    simp only [hnew, Except.ok.injEq] at hb
    rw [← hb, hyaliases]
    refine ⟨name, x.aliases, hne, rfl, hclauses, rfl, hx.inputs, hinputs, ?_⟩
    by_cases hwrap : y.mustWrap env N = true
    · left
      rw [if_pos hwrap] at hopened
      have hsingle : x.aliases = [(name, x.fields)] := by
        refine haliases.resolve_right fun hlength => ?_
        simp [Result.newAlias?, hyneeded, hneeded, hwrap, hyaliases, hlength] at hnew
      exact ⟨hwrap, hopened, x.fields, _, hx.fields, by rw [hsingle]⟩
    · rw [if_neg hwrap] at hopened
      exact .inr ⟨by simpa using hwrap, hopened⟩
  | some a =>
    obtain ⟨rfl, hwrap⟩ : name = a ∧ y.mustWrap env N = true := by
      simp only [Result.newAlias?, hyneeded, hneeded] at hnew
      split at hnew
      · rename_i hcondition
        exact ⟨Option.some.inj hnew, (Bool.and_eq_true_iff.mp hcondition).1⟩
      · cases hnew
    rw [if_pos hwrap] at hopened
    simp only [hnew, bind_eq_ok_iff, pure_eq_ok_iff, Except.ok.injEq] at hb
    obtain ⟨fields, rfl, rfl⟩ := hb
    refine ⟨name, _, hne, rfl, hclauses, rfl, ?_, hinputs, .inl ⟨hwrap, hopened, _, _, hnames, rfl⟩⟩
    split
    · rw [hyaliases]
      exact hx.inputs
    · exact .inl rfl

/-- **A filter** over such a result reads its query as a sub-query. -/
theorem filter (henv : env.NeverQualifies) (hmap : env.fieldMap = []) (hx : ChainResult schema f g tables x)
    (hnames : input.fields.names = (f ++ g).unique.names) {condition : Expr} {ids : List String}
    (hclause : filterClause env input condition = .where)
    (hignores : ignoresClauses (.filter input condition ids) = false)
    (hquery : ChainQuery env sub schema (KeepsName (f ++ g)) tables input x.node)
    (h : (filterResult env sub input condition ids (.filter input condition ids) x).Gives s r s') :
    ChainQuery env sub schema (KeepsName (f ++ g)) tables (.filter input condition ids) r.node
      ∧ ChainResult schema f g tables r := by
  have hannounced : x.expecting [filterClause env input condition] (ignoresClauses (.filter input condition ids))
      = x.announced env (.filter input condition ids) := rfl
  simp only [filterResult, ConvertM.gives_bind, ConvertM.gives_lift, hannounced,
    ConvertM.gives_registerCorrelations] at h
  obtain ⟨-, -, rfl, b, s₂, hb, c, s₃, hc, b', s₄, ⟨hput, rfl⟩, hresult⟩ := h
  obtain ⟨name, inputs, hne, hrel, hexpected, hbinputs, hinputs, haliases, hopened⟩ :=
    hx.builder henv rfl hnames hb
  obtain ⟨-, hselect, fields, qualified, hfields, hcontext⟩ :=
    hopened.resolve_right fun hbare => by simp [hx.mustWrap_filter hclause hignores] at hbare
  simp only [hclause] at hput
  obtain rfl := put_eq_ok hput
  rw [hcontext] at hc
  have hshows : ShowsTables schema f g ((selectFrom (derived x.node (some name))).set "where"
      (some (.node (wrap .where c)))) := (hx.shows.nested hne).set (by decide) _
  have hlate : ∃ c ∈ b.clauses, 1 ≤ c.rank := by
    refine ⟨.where, hexpected _ ?_, Nat.le_refl _⟩
    simp only [Result.announced, Result.expecting, hclause]
    decide
  simp only [Builder.result, hselect, hbinputs, hrel] at hresult
  obtain ⟨hr, hnode⟩ := chainResult_of_recorded (by rw [Rel.fields, hnames]) hresult henv hshows hinputs hlate
  refine ⟨?_, hr⟩
  rw [hnode]
  refine .filtered hquery hc (readsColumns_single hmap hx.shows.columns hfields qualified) fun id hid => ?_
  refine ⟨x.aliases, ?_, ?_⟩
  · -- opening the query leaves what the filter has declared
    rw [Spares.same (Result.steady_builder _ _) hb]
    exact OrderedMap.get?_putAll_const hid _ _
  · rcases haliases with hsingle | htables
    · right
      rw [hsingle]
      exact readsColumns_single hmap hx.shows.columns hx.fields true
    · exact .inl htables

/-- **A projection that changes nothing** leaves the query, or reads it as a sub-query. -/
theorem project (henv : env.NeverQualifies) (hx : ChainResult schema f g tables x)
    (hnames : input.fields.names = (f ++ g).unique.names) {projects : List Expr} {names : List String}
    {distinct : Bool} {ids : List String}
    (hidentity : isIdentity input projects (Rel.project input projects names distinct ids).fields = true)
    (hquery : ChainQuery env sub schema (KeepsName (f ++ g)) tables input x.node)
    (h : (projectResult env sub input projects distinct ids
      (.project input projects names distinct ids) x).Gives s r s') :
    ChainQuery env sub schema (KeepsName (f ++ g)) tables (.project input projects names distinct ids) r.node
      ∧ ChainResult schema f g tables r := by
  have hrel : (Rel.project input projects names distinct ids).fields.names = (f ++ g).unique.names := by
    simp only [isIdentity, Bool.and_eq_true, beq_iff_eq] at hidentity
    rw [hidentity.2, hnames]
  have hannounced : x.expecting [.select] = x.announced env (.project input projects names distinct ids) := rfl
  simp only [projectResult, ConvertM.gives_bind, hidentity, if_true, ConvertM.gives_pure, hannounced] at h
  obtain ⟨-, s₁, -, b, s₂, hb, b', s₃, ⟨rfl, rfl⟩, hresult⟩ := h
  obtain ⟨name, inputs, hne, hbrel, hexpected, hbinputs, hinputs, -, hopened⟩ := hx.builder henv rfl hnames hb
  have hlate : ∃ c ∈ b.clauses, 1 ≤ c.rank :=
    ⟨.select, hexpected _ (show Clause.select ∈ [Clause.select].eraseDups by decide), by decide⟩
  obtain ⟨hshows, hbelow⟩ : ShowsTables schema f g b.select ∧ ChainQuery env sub schema (KeepsName (f ++ g)) tables
      (.project input projects names distinct ids) b.select := by
    rcases hopened with ⟨-, hselect, -⟩ | ⟨-, hselect⟩
    · rw [hselect]
      exact ⟨hx.shows.nested hne, .nested name hquery⟩
    · rw [hselect]
      exact ⟨hx.shows, .same hquery⟩
  cases distinct with
  | true =>
    simp only [if_true, Builder.result, Builder.setDistinct, hbinputs, hbrel] at hresult
    obtain ⟨hr, hnode⟩ := chainResult_of_recorded hrel hresult henv (hshows.set (by decide) _) hinputs hlate
    rw [hnode]
    exact ⟨.distinct hbelow, hr⟩
  | false =>
    simp only [Bool.false_eq_true, if_false, Builder.result, hbinputs, hbrel] at hresult
    obtain ⟨hr, hnode⟩ := chainResult_of_recorded hrel hresult henv hshows hinputs hlate
    rw [hnode]
    exact ⟨hbelow, hr⟩

end ChainResult

namespace OverPair

variable {input : Rel} {x r : Result}

/-- A join of two tables shows their columns. -/
theorem shows (hx : OverPair schema f g x) : ShowsTables schema f g x.query := by
  obtain ⟨item, hstar, -⟩ := hx.star
  obtain ⟨a, b, -, haliases⟩ := hx.aliases
  have hlist : x.query.selectList? = none := by simp [selectList?, list?, hstar.others]
  have hplain : isPlainQuery x.query = true := by
    rw [isPlainQuery_iff]
    exact ⟨.inl hstar.kind, by simp [hasAlias, hstar.child?_eq]⟩
  refine ⟨hstar.kind, hplain, hlist, ?_⟩
  rw [columns_select hstar.kind, hlist, hx.frame, haliases]
  simp [Context.frame, selectColumns, Frame.columns, RowType.names]

/-- The query reads the join. -/
theorem chainQuery (hx : OverPair schema f g x) (kept : Nat → Prop) (rel : Rel) :
    ChainQuery env sub schema kept (x.aliases.map (·.1)) rel x.query := by
  obtain ⟨item, hstar, htables⟩ := hx.star
  refine .joined rel hstar htables ?_
  rw [← hstar.frame_eq, hx.frame]
  simp [Context.frame]

/-- **A filter** over a join is a condition beside it. -/
theorem filter (henv : env.NeverQualifies) (hx : OverPair schema f g x) (hjoin : x.node.kind = .join)
    (hnames : input.fields.names = (f ++ g).unique.names) {condition : Expr} {ids : List String}
    (hclause : filterClause env input condition = .where)
    (h : (filterResult env sub input condition ids (.filter input condition ids) x).Gives s r s') :
    ChainQuery env sub schema (KeepsName (f ++ g)) (x.aliases.map (·.1)) (.filter input condition ids) r.node
      ∧ ChainResult schema f g (x.aliases.map (·.1)) r := by
  have hwrap : (x.announced env (.filter input condition ids)).mustWrap env (.filter input condition ids) = false :=
    hx.mustWrap_filter hjoin hclause
  have hannounced : x.expecting [filterClause env input condition] (ignoresClauses (.filter input condition ids))
      = x.announced env (.filter input condition ids) := rfl
  simp only [filterResult, ConvertM.gives_bind, ConvertM.gives_lift, hannounced] at h
  obtain ⟨-, s₁, -, b, s₂, hb, c, s₃, hc, b', s₄, ⟨hput, rfl⟩, hresult⟩ := h
  obtain ⟨hselect, hrel, hinputs, hclauses⟩ := hx.builder henv hwrap hb
  simp only [hclause] at hput
  obtain rfl := put_eq_ok hput
  have hlate : ∃ c ∈ b.clauses, 1 ≤ c.rank := by
    rw [hclauses]
    refine ⟨.where, List.mem_append_right _ ?_, Nat.le_refl _⟩
    simp only [Result.announced, Result.expecting, hclause]
    decide
  simp only [Builder.result, hselect, hinputs, hrel] at hresult
  obtain ⟨hr, hnode⟩ := chainResult_of_recorded (by rw [Rel.fields, hnames]) hresult henv
    (hx.shows.set (by decide) _) (.inr rfl) hlate
  refine ⟨?_, hr⟩
  obtain ⟨item, hstar, htables⟩ := hx.star
  rw [hnode]
  refine .joined _ (hstar.set_where _) htables ?_
  rw [← hstar.frame_eq, hx.frame]
  simp [Context.frame]

/-- **A projection that changes nothing** leaves a join. -/
theorem project (henv : env.NeverQualifies) (hx : OverPair schema f g x)
    (hnames : input.fields.names = (f ++ g).unique.names) {projects : List Expr} {names : List String}
    {distinct : Bool} {ids : List String}
    (hidentity : isIdentity input projects (Rel.project input projects names distinct ids).fields = true)
    (h : (projectResult env sub input projects distinct ids
      (.project input projects names distinct ids) x).Gives s r s') :
    ChainQuery env sub schema (KeepsName (f ++ g)) (x.aliases.map (·.1))
        (.project input projects names distinct ids) r.node
      ∧ ChainResult schema f g (x.aliases.map (·.1)) r := by
  have hrel : (Rel.project input projects names distinct ids).fields.names = (f ++ g).unique.names := by
    simp only [isIdentity, Bool.and_eq_true, beq_iff_eq] at hidentity
    rw [hidentity.2, hnames]
  have hannounced : x.expecting [.select] = x.announced env (.project input projects names distinct ids) := rfl
  simp only [projectResult, ConvertM.gives_bind, hidentity, if_true, ConvertM.gives_pure, hannounced] at h
  obtain ⟨-, s₁, -, b, s₂, hb, b', s₃, ⟨rfl, rfl⟩, hresult⟩ := h
  obtain ⟨hselect, hbrel, hinputs, hclauses⟩ := hx.builder henv hx.mustWrap_project hb
  have hlate : ∃ c ∈ b.clauses, 1 ≤ c.rank := by
    rw [hclauses]
    exact ⟨.select, List.mem_append_right _ (show Clause.select ∈ [Clause.select].eraseDups by decide), by decide⟩
  cases distinct with
  | true =>
    simp only [if_true, Builder.result, Builder.setDistinct, hselect, hinputs, hbrel] at hresult
    obtain ⟨hr, hnode⟩ := chainResult_of_recorded hrel hresult henv (hx.shows.set (by decide) _) (.inr rfl) hlate
    rw [hnode]
    exact ⟨.distinct (hx.chainQuery _ _), hr⟩
  | false =>
    simp only [Bool.false_eq_true, if_false, Builder.result, hselect, hinputs, hbrel] at hresult
    obtain ⟨hr, hnode⟩ := chainResult_of_recorded hrel hresult henv hx.shows (.inr rfl) hlate
    rw [hnode]
    exact ⟨hx.chainQuery _ _, hr⟩

end OverPair

/-! ## Plans -/

/-- **The run over a chain**: the join itself, or a query over it. -/
theorem chain_of_gives (henv : env.NeverQualifies) (hmap : env.fieldMap = []) {pair rel : Rel}
    (hpair : JoinedTables schema f g pair) (hrel : Above pair rel) {root : Bool} {x : Result}
    (h : (relationResult env sub root rel).Gives s x s') :
    (rel = pair ∧ OverPair schema f g x ∧ x.node.kind = .join)
      ∨ ∃ tables, ChainQuery env sub schema (KeepsName (f ++ g)) tables rel x.node
        ∧ ChainResult schema f g tables x := by
  induction hrel generalizing root s x s' with
  | start => exact .inl ⟨rfl, paired_join henv hpair h⟩
  | @filter input condition ids hinput ih =>
    rw [relationResult, ConvertM.gives_bind] at h
    obtain ⟨y, t, hy, h⟩ := h
    obtain ⟨hclause, hignores⟩ := hinput.filterClause hpair condition ids
    have hnames := hinput.names hpair
    right
    rcases ih hy with ⟨-, hjoined, hjoin⟩ | ⟨tables, hquery, hresult⟩
    · exact ⟨_, hjoined.filter henv hjoin hnames hclause h⟩
    · exact ⟨tables, hresult.filter henv hmap hnames hclause hignores hquery h⟩
  | @project input projects names distinct ids hinput hidentity ih =>
    rw [relationResult, ConvertM.gives_bind] at h
    obtain ⟨y, t, hy, h⟩ := h
    have hnames := hinput.names hpair
    right
    rcases ih hy with ⟨-, hjoined, -⟩ | ⟨tables, hquery, hresult⟩
    · exact ⟨_, hjoined.project henv hnames hidentity h⟩
    · exact ⟨tables, hresult.project henv hnames hidentity hquery h⟩

/-- **What a query over a join exposes**: in the statement for a chain of filters and of projections that
change nothing over a join of two tables, each column that is written for a field of a sub-query names
exactly the column of the field, provided that the field keeps its name in the join; otherwise it does not. -/
theorem statement_chainQuery {d : Dialect} (hd : d ∈ Dialect.all) {pair rel : Rel}
    (hpair : JoinedTables schema f g pair) (hrel : Above pair rel) {n : Node} (h : statement d rel = .ok n) :
    ∃ tables, ChainQuery (Env.plain d) (queryAt (Env.plain d) rel.queryDepth false) schema (KeepsName (f ++ g))
      tables rel n := by
  have henv := Env.neverQualifies_plain hd
  rw [statement_eq, ConvertM.value_eq_ok_iff, planStatement] at h
  obtain ⟨s, h⟩ := h
  obtain ⟨x, s₁, hx, hn⟩ := (ConvertM.gives_bind _ _ _ _ _).mp h
  rcases chain_of_gives henv rfl hpair hrel hx with ⟨-, hjoined, -⟩ | ⟨tables, hquery, hresult⟩
  · rw [hjoined.asStatement henv hn]
    exact ⟨_, hjoined.chainQuery _ _⟩
  · have hset : x.node.isSetOperation = false := by
      simp [isSetOperation, hresult.shows.kind, Kind.isSetOperation]
    unfold Result.asStatement at hn
    rw [hset, if_neg (by simp), ConvertM.gives_asSelect_of_select hresult.shows.kind] at hn
    rw [hn.1]
    exact ⟨tables, hquery⟩

/-! ## Accounts and their owners -/

/-- Accounts, some of which are active. -/
def accounts : RowType := [⟨"id", .integer⟩, ⟨"active", .boolean⟩]

/-- The persons that own accounts. -/
def owners : RowType := [⟨"account", .integer⟩, ⟨"adult", .boolean⟩]

def accountSchema : Schema := fun parts => if parts = ["accounts"] then accounts.names else owners.names

/-- Accounts beside the rows of a table with the number of the account. -/
def besideAccounts (table : String) (fields : RowType) : Rel :=
  .join (.scan ["accounts"] accounts) (.scan [table] fields)
    (.call .equals [.inputRef (0 : Nat) .integer, .inputRef (2 : Nat) .integer] .boolean) .inner []

/-- Active accounts, of which the last field beside them holds. -/
def activeBeside (table : String) (fields : RowType) : Rel :=
  .filter (.filter (besideAccounts table fields) (.inputRef (1 : Nat) .boolean) []) (.inputRef (3 : Nat) .boolean) []

theorem above_activeBeside (table : String) (fields : RowType) :
    Above (besideAccounts table fields) (activeBeside table fields) := .filter _ _ (.filter _ _ .start)

/-- The fields of accounts and their owners keep their names, so the owner is found in the sub-query. -/
theorem statement_chainQuery_owners : ∃ n tables, statement .ansi (activeBeside "owners" owners) = .ok n
    ∧ ChainQuery (Env.plain .ansi) (queryAt (Env.plain .ansi) 0 false) accountSchema (KeepsName (accounts ++ owners))
      tables (activeBeside "owners" owners) n
    ∧ KeepsName (accounts ++ owners) 3 := by
  have hok : (statement .ansi (activeBeside "owners" owners)).toOption.isSome = true := by decide +kernel
  cases hn : statement .ansi (activeBeside "owners" owners) with
  | error e =>
    rw [hn] at hok
    cases hok
  | ok n =>
    have hpair : JoinedTables accountSchema accounts owners (besideAccounts "owners" owners) :=
      .mk _ _ rfl (by decide +kernel) (by decide +kernel)
    obtain ⟨tables, hquery⟩ := statement_chainQuery (by simp [Dialect.all]) hpair (above_activeBeside _ _) hn
    exact ⟨n, tables, rfl, hquery, "adult", by decide +kernel, by decide +kernel, by decide +kernel⟩

/-- Beside themselves accounts have two fields `active`.  The join calls the second one `active0`, which is
the name of no column of the sub-query that the filter reads. -/
theorem activeBeside_not_chainQuery : ∃ n, statement .ansi (activeBeside "accounts" accounts) = .ok n
    ∧ ∀ tables, ¬ChainQuery (Env.plain .ansi) (queryAt (Env.plain .ansi) 0 false) accountSchema (fun _ => True)
      tables (activeBeside "accounts" accounts) n := by
  have hout : (statement .ansi (activeBeside "accounts" accounts)).toOption.map (fun n =>
      (((n.child? "from").bind (·.child? "this")).map (·.kind), n.flag "distinct",
        ((n.child? "where").bind (·.child? "this")).map (·.name), n.columns accountSchema))
      = some (some .subquery, false, some "active0", ["id", "active", "id", "active"]) := by decide +kernel
  cases hn : statement .ansi (activeBeside "accounts" accounts) with
  | error e =>
    rw [hn] at hout
    cases hout
  | ok n =>
    rw [hn] at hout
    simp only [Except.toOption, Option.map_some, Option.some.injEq, Prod.mk.injEq] at hout
    obtain ⟨hfrom, hdistinct, hwhere, hcolumns⟩ := hout
    refine ⟨n, rfl, fun tables hquery => ?_⟩
    generalize hrel : activeBeside "accounts" accounts = rel at hquery
    cases hquery with
    | joined _ hstar htables =>
      -- the query reads a sub-query
      rw [hstar.source] at hfrom
      simp [wrap, child?, htables.kind] at hfrom
    | distinct h => simp [flag] at hdistinct
    | same h => cases hrel
    | nested a h => cases hrel
    | @filtered input condition ids q c a ctx s s' h hcondition hfields hvariables =>
      obtain ⟨-, rfl, -⟩ := Rel.filter.inj hrel
      simp only [scalarNode, ConvertM.gives_lift] at hcondition
      obtain ⟨-, hplace⟩ := (hfields 3 c hcondition.1).mpr trivial
      have hname : c.name = "active0" := by simpa [wrap, child?] using hwhere
      rw [columns_select rfl, frame_set rfl (by decide), (isStar_selectFrom _).frame_eq,
        frame_subquery (q := q) rfl (by simp [derived, child?])] at hcolumns
      have hshown : q.columns accountSchema = ["id", "active", "id", "active"] := by
        simpa [selectList?, list?, arg?_set_of_ne, selectFrom, selectColumns] using hcolumns
      rw [Frame.columns_single, hshown, hname] at hplace
      simp at hplace

end AlgebraSql.Convert
