import AlgebraSql.Proofs.ProjectedGroups

/-!
# Grand totals — an aggregation without keys over a projection of groups.

A grand total of an item that is an aggregate is put into the query that groups: there it stands around
the aggregate and runs over the groups.  Any other grand total runs over the rows of a query of its own.
Where every call stands around an aggregate, and the rows below are not made distinct, both are the same.
-/

namespace AlgebraSql

open Sql Node

/-! ## Aggregates of aggregates -/

namespace Sql.Node

/-- An aggregate function that is called on aggregates. -/
def isTotal (n : Node) : Bool := n.is .aggregate && n.children.any aggregates

/-- The expression of a select item, without its name. -/
def content (item : Node) : Node := if item.is .aliased then item.this?.getD item else item

/-- An aggregate function is called on aggregates somewhere in an expression. -/
def nestsAggregates (n : Node) : Bool := n.inScope.any isTotal

section

variable (E : Engine) (db : Database)

/-- An aggregate of aggregates runs over the groups, with one value for each of them. -/
def totalOf (names : Names) (n : Node) : Option (List Focus → List Datum) :=
  if n.isTotal then
    (together (n.children.map (scalar E db names))).map fun vs groups => [E.aggregate n.bare (groups.map vs)]
  else none

/-- The rows of a query of aggregates of aggregates: one row, for all of its groups. -/
def totals (n : Node) (outer : Names) : Option (Focus → List Row) := do
  let st ← n.stagesIn E db outer
  let items ← together ((n.list "expressions").map fun item => totalOf E db (n.fromNames db outer) item.content)
  return fun f => limited (st.limit f) (st.offset f) [(items (st.groups f)).map single]

/-- **`answer`** — the rows of a statement whose aggregates may be nested. -/
def answer (n : Node) : Option (List Row) :=
  if (n.list "expressions").any nestsAggregates then (n.totals E db Names.none).map fun rows => rows []
  else n.results E db

end

variable {E : Engine} {db : Database} {names : Names}

theorem content_namedItem {n : Node} (hn : n.kind ≠ .aliased) (name : String) :
    (Convert.namedItem n name).content = n := by
  unfold Convert.namedItem
  split
  · simp [content, Node.is, hn]
  · simp [content, Node.aliased, Node.is, this?, child?]

/-- Expressions that each have a value have their values together. -/
theorem together_of_forall₂ {α β γ : Type} {value : Node → Option (α → β)} {g : γ → α → β} {cs : List γ}
    {ns : List Node} (h : List.Forall₂ (fun c n => value n = some (g c)) cs ns) :
    together (ns.map value) = some fun a => cs.map fun c => g c a := by
  induction h with
  | nil => rfl
  | cons hc _ ih => simp only [List.map_cons, hc, together, ih, Option.map_some]

end Sql.Node

namespace Convert

/-! ## Calls on the fields of a row -/

/-- A call of COUNT, SUM, MIN or MAX on fields of a row of a width, over all rows and in no order. -/
structure PlainCall (width : Nat) (call : AggregateCall) : Prop where
  op : call.op ∈ [Operator.count, .sum, .min, .max]
  fields : ∀ i ∈ call.args, ∃ j < width, i = (j : Nat)
  filter : call.filter = none
  collation : call.collation = []

/-- What a call is written as, from its operands. -/
def callNode (call : AggregateCall) (args : List Node) : Node :=
  Node.aggregate call.op.name (aggregateArgs call.op args) call.distinct

/-- The values of the operands of a call for a row; a count of rows has a star for an operand. -/
def operandsAt (E : Engine) (call : AggregateCall) (row : Row) : List (List Datum) :=
  if call.op.kind == .count && call.args.isEmpty then [operate E Node.star []]
  else call.args.map fun i => [(nth? row i).getD .null]

/-- **`applied`** — a call applied to rows. -/
def applied (E : Engine) (call : AggregateCall) (rows : List Row) : Datum :=
  E.aggregate (callNode call (call.args.map fun _ => Node.null)).bare (rows.map (operandsAt E call))

section

variable {E : Engine} {db : Database} {names : Names} {call : AggregateCall} {args : List Node} {α : Type}

theorem children_callNode : (callNode call args).children = aggregateArgs call.op args := by
  simp [callNode, Node.aggregate, children, Arg.children]

/-- Calls on equally many operands differ in nothing else. -/
theorem bare_callNode (h : args.length = call.args.length) :
    (callNode call args).bare = (callNode call (call.args.map fun _ => Node.null)).bare := by
  have hsame : (aggregateArgs call.op args).map (fun _ => Node.null)
      = (aggregateArgs call.op (call.args.map fun _ => Node.null)).map fun _ => Node.null := by
    have hempty : args.isEmpty = (call.args.map fun _ => Node.null).isEmpty := by
      rw [Bool.eq_iff_iff, List.isEmpty_iff_length_eq_zero, List.isEmpty_iff_length_eq_zero, h, List.length_map]
    unfold aggregateArgs
    rw [hempty]
    split
    · rfl
    · rw [List.map_const', List.map_const', h, List.length_map]
  simp only [callNode, Node.aggregate, bare, kind_mk, args_mk, List.map_cons, List.map_nil, Arg.bare, hsame]

variable {env : Env} {ctx : Context} {V : Reading E α} {row : α → Row} {width : Nat}

/-- A plain call is written as a call of its fields. -/
theorem PlainCall.aggregateNode_eq (h : PlainCall width call) (hargs : call.args.mapM (ctx.field env) = .ok args) :
    aggregateNode env ctx call = .ok (callNode call args) := by
  have hkind : call.op.kind ≠ .sumOrZero ∧ call.op.kind ≠ .otherFunction := by
    have hop := h.op
    simp only [List.mem_cons, List.not_mem_nil, or_false] at hop
    rcases hop with hop | hop | hop | hop <;> rw [hop] <;> decide
  simp [aggregateNode, hargs, hkind.1, plainAggregate, h.filter, h.collation, aggregateName, hkind.2, callNode]

/-- The operands of a call show the fields of the row. -/
theorem PlainCall.operands (h : PlainCall width call) (hshows : ctx.ShowsRow env V width row)
    (hargs : call.args.mapM (ctx.field env) = .ok args) :
    together ((callNode call args).children.map V.value) = some fun a => operandsAt E call (row a) := by
  rw [children_callNode]
  unfold aggregateArgs operandsAt
  have hempty : args.isEmpty = call.args.isEmpty := by
    rw [Bool.eq_iff_iff, List.isEmpty_iff_length_eq_zero, List.isEmpty_iff_length_eq_zero, length_of_mapM hargs]
  rw [hempty]
  split
  · -- a count of rows
    have hstar : V.value Node.star = some fun _ => operate E Node.star [] := by
      rw [V.operation _ rfl]
      rfl
    simp only [List.map_cons, List.map_nil, hstar, together, Option.map_some]
  · have hfields : List.Forall₂ (fun i n => V.value n = some fun a => [(nth? (row a) i).getD .null]) call.args args := by
      refine List.forall₂_iff_get.mpr ⟨(length_of_mapM hargs).symm, fun k hk hk' => ?_⟩
      obtain ⟨n, hn, hfield⟩ := getElem?_of_mapM hargs (List.getElem?_eq_getElem hk)
      obtain rfl : args[k] = n := by simpa [hk'] using hn
      obtain ⟨j, hj, hi⟩ := h.fields _ (List.getElem_mem hk)
      obtain ⟨m, hm, hshow⟩ := hshows.field j hj
      rw [hi, hm, Except.ok.injEq] at hfield
      have hvalue : V.value m = some fun a => [((row a)[j]?).getD .null] := hshow
      simpa [hi, ← hfield] using hvalue
    exact together_of_forall₂ hfields

/-- A call runs over the rows of its group. -/
theorem scalar_callNode (hlength : args.length = call.args.length)
    (h : together ((callNode call args).children.map (scalar E db names))
      = some fun f => operandsAt E call (Focus.row f)) :
    (callNode call args).scalar E db names = some fun f => [applied E call f.group] := by
  have hmanner : (callNode call args).manner = .aggregate := rfl
  rw [scalar_eq, scalarStep, hmanner, flat_partsOf, List.map_map]
  show ((together ((callNode call args).children.map (scalar E db names))).map _) = _
  rw [h, Option.map_some, bare_callNode hlength]
  rfl

/-- A call of aggregates runs over the groups, and sees the row of each. -/
theorem totalOf_callNode {row : Focus → Row} (hlength : args.length = call.args.length)
    (htotal : (callNode call args).isTotal = true)
    (h : together ((callNode call args).children.map (scalar E db names)) = some fun f => operandsAt E call (row f)) :
    totalOf E db names (callNode call args) = some fun groups => [applied E call (groups.map row)] := by
  rw [totalOf, if_pos htotal, h, Option.map_some, bare_callNode hlength]
  simp only [applied, List.map_map]
  rfl

end

/-! ## Expressions with one value for a group -/

/-- An expression that has its values, if it has any, before windowed calls are evaluated. -/
def Early (E : Engine) (db : Database) (names : Names) (n : Node) : Prop :=
  (n.analytic E db names).isSome = true → (n.scalar E db names).isSome = true

section

variable {E : Engine} {db : Database} {names : Names}

theorem early_of_manner {n : Node} (hoperation : n.manner ≠ .operation) (hwindow : n.manner ≠ .window) :
    Early E db names n := scalar_of_analytic hoperation hwindow

/-- Operations on such expressions are such expressions. -/
theorem congruent_early : Congruent fun m _ => Early E db names m where
  args {k as bs} hk h hvalue := by
    rw [analytic_isSome_of_operation hk] at hvalue
    rw [scalar_isSome_of_operation hk]
    have hchildren := children_rel (k := k) h
    intro c hc
    obtain ⟨i, hi, rfl⟩ := List.mem_iff_getElem.mp hc
    exact (List.forall₂_iff_get.mp hchildren).2 i hi (hchildren.length_eq ▸ hi) (hvalue _ hc)

/-- Tests with a query are such expressions. -/
theorem queries_early (q : Node) : Queries (fun m _ => Early E db names m) q where
  nonempty := early_of_manner (by simp [Node.wrap, manner]) (by simp [Node.wrap, manner])
  value := early_of_manner (by simp [Node.subquery, Node.wrap, manner])
    (by simp [Node.subquery, Node.wrap, manner])
  member _ _ := early_of_manner (by simp [Node.inQuery, manner]) (by simp [Node.inQuery, manner])

theorem early_typedIfNull (d : Dialect) (type : DataType) {n : Node} (h : Early E db names n) :
    Early E db names (typedIfNull d type n) := by
  unfold typedIfNull
  split
  · intro _
    have hvalue := value_typedNull (Reading.scalar E db names) d type
    rw [show (typedNull d type).scalar E db names = some fun _ => [.null] from hvalue]
    rfl
  · exact h

end

/-! ## The query of the groups -/

section

variable {env : Env} {sub : Rel → ConvertM Node} {s s' : State} {schema : Schema} {x r : Result} {fields : RowType}
  {n : Node} {ks ms : List Node}

/-- **`KeyedQuery`** — a query that groups by keys and lists items with one value for each group. -/
structure KeyedQuery (rel : Rel) (distinct : Bool) (r : Result) (ks : List Node) : Prop
    extends GroupList rel.fields r.node ks where
  early : ∀ {E : Engine} {db : Database} {names : Names}, ∀ k ∈ ks, Early E db names k
  keyed : (r.node.child? "group").isSome = true
  clause : .groupBy ∈ r.clauses
  flag : r.node.flag "distinct" = distinct

variable {table : List String} {keys : List Ordinal} {sets : List (List Ordinal)} {calls : List AggregateCall}

/-- **An aggregation of a table** gives such a query. -/
theorem keyedQuery_aggregate (henv : env.NeverQualifies) (hmap : env.fieldMap = [])
    (hqualify : env.dialect.capabilities.qualify = false)
    (hcolumns : tableColumns schema table = fields.names) (hsimple : groupKind keys sets = .simple) (hkeys : keys ≠ [])
    (h : (relationResult env sub false (.aggregate (.scan table fields) keys sets calls)).Gives s x s') :
    Flat schema (.aggregate (.scan table fields) keys sets calls) x
      ∧ (∃ ks, KeyedQuery (.aggregate (.scan table fields) keys sets calls) false x ks)
      ∧ ∀ c ∈ x.clauses, c = .groupBy ∨ c ∈ rowClauses := by
  have hscan : (Rel.scan table fields).every (joinFree schema) = true := by simp [Rel.every, joinFree, hcolumns]
  rw [relationResult, ConvertM.gives_bind] at h
  obtain ⟨z, s₁, hz, h⟩ := h
  have hflat := flat_relationResult henv hmap _ hscan hz
  obtain ⟨hclauses, hdistinct⟩ := (rowQuery_relationResult henv hmap hqualify _ hscan rfl hz).aggregate henv hflat h
  obtain ⟨name, hsingle, -⟩ := hflat.single
  obtain ⟨y, m, s₂, ks', gs, as, rfl, hm, hks, hgs, has, hlength, hr⟩ := hsingle.aggregate_step henv h
  have hfields : (Rel.aggregate (.scan table fields) keys sets calls).fields ≠ [] := by
    have hpos := List.length_pos_iff.mpr hkeys
    have hsame := length_of_mapM hks
    rw [← List.length_pos_iff]
    omega
  obtain ⟨ks, hq⟩ := (origins_relationResult henv hmap _ hscan hz).groupQuery henv hmap hflat hfields
    (fun _ => rfl) (filtersWindows_eq_false hqualify _) (fun _ => mem_of_simple hsimple) h
  refine ⟨flat_aggregate henv hmap hflat hfields h, ⟨ks, hq.toGroupList, ?_, group_of_keys henv hflat hsimple h hkeys,
    hr.mem_clauses (by simp [Result.expecting]), hdistinct⟩, hclauses⟩
  -- the items are columns of the table and calls
  obtain ⟨hfull, hitems⟩ := hflat.items_of_aggregate henv hmap hm hks has hlength
  obtain ⟨-, hlist, -⟩ := aggregated_traits (hflat.shaped_opened henv hm).kind gs (!calls.isEmpty)
    (show namedItems (ks' ++ as) (Rel.aggregate (.scan table fields) keys sets calls).fields ≠ [] from fun hnil =>
      hfields (List.length_eq_zero_iff.mp (by rw [← hfull, ← length_namedItems hfull.le, hnil, List.length_nil])))
  rw [← hr.node_eq] at hlist
  obtain rfl := hq.listed.unique ⟨hlist, hfull, hitems⟩
  intro E db names k hk
  rcases List.mem_append.mp hk with hkey | hcall
  · obtain ⟨item, rfl⟩ : ∃ item, m = selectFrom item := by
      rw [relationResult] at hz
      rcases hflat.opened henv hm with ⟨-, hkind, -⟩ | ⟨item, hitem, -⟩
      · rw [kind_scanResult hz] at hkind
        cases hkind
      · exact ⟨item, hitem⟩
    have hcontext : (z.expecting [.groupBy] (ignoresClauses (.aggregate (.scan table fields) keys sets calls))).contextOver
        env (.aggregate (.scan table fields) keys sets calls) (selectFrom item) = .aliases [(name, z.fields)] false := by
      have hlist : (selectFrom item).selectList? = none := by simp [selectFrom, selectList?, list?]
      simp only [Result.contextOver, hlist]
      rw [(hsingle.expecting _ _).aliases]
      rfl
    rw [hcontext] at hks
    have hcolumn : ∀ k ∈ ks', Early E db names k := forall_of_mapM hks fun i _ n hn => by
      obtain ⟨f, -, rfl⟩ := (field_aliases_iff hmap).mp hn
      exact early_of_manner (by simp [Node.column, manner]) (by simp [Node.column, manner])
    exact hcolumn k hkey
  · have hcalls : ∀ k ∈ as, Early E db names k := forall_of_mapM has fun call _ n hn => scalar_aggregateNode hn
    exact hcalls k hcall

/-- **A projection** without windowed calls over such a query is put into it and gives such a query. -/
theorem KeyedQuery.project (henv : env.NeverQualifies) (hd : env.dialect ∈ [Dialect.ansi, .postgres]) {input : Rel}
    (hx : Flat schema input x) (hq : KeyedQuery input false x ks) (hclauses : ∀ c ∈ x.clauses, c = .groupBy ∨ c ∈ rowClauses)
    {projects : List Expr} {names : List String} {distinct : Bool} {ids : List String} (hnames : names.length = projects.length)
    (hprojects : ∀ e ∈ projects, Rowwise env.dialect (fun _ => True) e)
    (h : (projectResult env sub input projects distinct ids (.project input projects names distinct ids) x).Gives s r s') :
    ∃ ms, KeyedQuery (.project input projects names distinct ids) distinct r ms := by
  have hmerged := merges_project hd hx.tracked.used hclauses hq.flag (any_containsOver_eq_false hprojects) input names
    distinct ids
  obtain ⟨name, hsingle, -⟩ := hx.single
  obtain ⟨y, m, s₁, s₂, n, rfl, hm, hlist, hr⟩ := hsingle.project_step henv h
  obtain rfl := hx.opened_merged henv hq.kind hmerged hm
  have hcontext : (x.expecting [.select]).contextOver env (.project input projects names distinct ids) x.node
      = .selectList (namedItems ks input.fields) false false := by
    simp [Result.contextOver, hq.listed.list, Result.itemContext, Result.expecting]
  have hother : (Rel.project input projects names distinct ids).fields.length = projects.length := by
    simp [Rel.fields, hnames]
  -- the list of the projection
  obtain ⟨ms, hms, hearly, hrelists⟩ : ∃ ms, Listed (Rel.project input projects names distinct ids).fields n ms
      ∧ (∀ {E : Engine} {db : Database} {names : Names}, ∀ k ∈ ms, Early E db names k) ∧ Relists x.node n := by
    rcases hlist with ⟨hidentity, rfl⟩ | ⟨-, ns, s₃, hns, hlength, rfl⟩
    · obtain ⟨hsame, hfields, -⟩ := fields_of_identity hidentity
      refine ⟨ks, ⟨?_, by rw [hq.listed.full, hother, hsame], hq.listed.items⟩, hq.early, .refl⟩
      rw [hq.listed.list, namedItems_congr hfields]
    · rw [hcontext] at hns
      have hitems : ∀ n ∈ ns, Item n := Yields.mapM (fun e he _ _ _ hn => item_projectedNode (fun i n hn =>
        hq.listed.items n (hq.listed.mem_of_field hn)) (hprojects e he).readsOuter_eq_false hn) _ _ _ hns
      refine ⟨ns, ⟨by simp [withList, selectList?, list?], ?_, hitems⟩, ?_, .set .refl (by simp) _⟩
      · rw [ConvertM.length_of_gives_mapM hns, hother]
      · intro E db names k hk
        have halike : Alike env sub (fun _ => True) (fun m _ => Early E db names m)
            (.selectList (namedItems ks input.fields) false false) (.selectList (namedItems ks input.fields) false false) :=
          { congruent := congruent_early
            queries := fun _ _ _ q _ _ => queries_early q
            field := fun i m hm => ⟨m, hm, hq.early m (hq.listed.mem_of_field hm)⟩
            literal := fun l => by simp [literalIn]
            literal' := fun l => by simp [literalIn] }
        obtain ⟨ns', -, hrelated⟩ := matches_projectedNodes halike (fun type _ _ hn => early_typedIfNull _ type hn)
          hprojects _ _ _ hns
        obtain ⟨i, hi, rfl⟩ := List.mem_iff_getElem.mp hk
        exact (List.forall₂_iff_get.mp hrelated).2 i hi (hrelated.length_eq ▸ hi)
  have hflag : n.flag "distinct" = false := by
    rcases hlist with ⟨-, rfl⟩ | ⟨-, ns, s₃, -, -, rfl⟩
    · exact hq.flag
    · exact (flag_set_of_ne _ _ (by decide)).trans hq.flag
  have hnode : r.node = if distinct then n.set "distinct" (some (.flag true)) else n := hr.node_eq
  have hrelists' : Relists x.node r.node := by
    rw [hnode]
    split
    · exact .set hrelists (by simp) _
    · exact hrelists
  have hlisted : Listed (Rel.project input projects names distinct ids).fields r.node ms := by
    refine ⟨?_, hms.full, hms.items⟩
    rw [hnode, ← hms.list]
    split
    · simp [selectList?, list?, arg?_set_of_ne]
    · rfl
  refine ⟨ms, hq.toGroupList.of_project hrelists' hlisted (.inl hq.keyed), hearly, ?_, ?_, ?_⟩
  · rw [hrelists'.child?_eq (by decide)]
    exact hq.keyed
  · exact hr.mem_clauses_iff.mpr (.inr ⟨hmerged, hq.clause⟩)
  · rw [hnode]
    cases distinct with
    | true => simp [Node.flag]
    | false => rw [if_neg (by simp), hflag]

end

/-! ## Where a grand total is put -/

/-- A call takes an item that is an aggregate as it is. -/
def takesAggregate (items : List Node) (calls : List AggregateCall) : Bool :=
  (calls.flatMap (·.args)).any fun arg =>
    (nth? items arg).any fun item => (WrapCheck.itemOperands item).any WrapCheck.isAggregateCall

/-- Every call takes an item in which an aggregate function is called. -/
def nestsEach (items : List Node) (calls : List AggregateCall) : Bool :=
  calls.all fun call => call.args.any fun arg => (nth? items arg).any aggregates

section

variable {env : Env} {s s' : State} {schema : Schema} {r : Result} {calls : List AggregateCall} {input P : Rel}
  {projects : List Expr} {names : List String} {distinct : Bool} {ids : List String} {ms : List Node}

/-- **A grand total** over a projection of groups is put into their query if and only if a call takes an
aggregate. -/
theorem KeyedQuery.mustWrap_total (hd : env.dialect = .ansi)
    (hr : KeyedQuery (.project input projects names distinct ids) distinct r ms) :
    (r.expecting [.groupBy] (ignoresClauses (.aggregate (.project input projects names distinct ids) [] [[]] calls))).mustWrap
        env (.aggregate (.project input projects names distinct ids) [] [[]] calls)
      = !takesAggregate (r.node.list "expressions") calls := by
  generalize hc : wrapCheck env (r.expecting [.groupBy] (ignoresClauses
    (.aggregate (.project input projects names distinct ids) [] [[]] calls)))
    (.aggregate (.project input projects names distinct ids) [] [[]] calls) = c
  have hrel : c.rel = .aggregate (.project input projects names distinct ids) [] [[]] calls := by rw [← hc]; rfl
  have hclauses : c.clauses = r.clauses := by rw [← hc]; rfl
  have hcapable : c.capabilities = {} := by rw [← hc]; simp [wrapCheck, hd, Dialect.ansi]
  have hexpected : c.expected = [] := by rw [← hc]; rfl
  have hitems : c.items? = some (r.node.list "expressions") := by
    have hlist := hr.listed.list
    have hnode : c.node = r.node := by rw [← hc]; rfl
    have hselect : r.node.is .select = true := (is_eq_true_iff _ _).mpr hr.kind
    simp only [WrapCheck.items?, WrapCheck.itemsOf, hnode, hselect, if_true, hlist, hr.listed.list_eq]
  have hnested : c.hasNested calls WrapCheck.isAggregateCall = takesAggregate (r.node.list "expressions") calls := by
    simp only [WrapCheck.hasNested, hitems, takesAggregate]
  have hgroups : c.clauses.contains .groupBy = true := by
    rw [hclauses, List.contains_iff_mem]
    exact hr.clause
  have hused : c.clauses.isEmpty = false := by
    rw [hclauses, List.isEmpty_eq_false_iff]
    exact List.ne_nil_of_mem hr.clause
  have hfit : Clause.fit c.clauses c.expected = true := by
    rw [hexpected]
    unfold Clause.fit
    split <;> rfl
  -- no rule before the one about aggregations has a verdict
  have hverdict : aggregateOverAggregate c = some !takesAggregate (r.node.list "expressions") calls := by
    simp only [aggregateOverAggregate, hrel, hgroups, hnested, if_true, List.isEmpty_nil, Bool.not_true, Bool.or_false]
  have hbefore : ∀ rule ∈ noClausesYet :: qualifyOverWindow :: middleRules, rule c = none := by
    intro rule hrule
    simp only [middleRules, List.mem_cons, List.not_mem_nil, or_false] at hrule
    rcases hrule with rfl | rfl | rfl | rfl | rfl | rfl | rfl | rfl | rfl | rfl | rfl | rfl | rfl <;>
      simp [noClausesYet, qualifyOverWindow, clauseOrder, distinctProjection, aggregateInGroupBy, nestedWindow,
        nestedAggregate, groupByNameDropped, groupByWindow, windowInAggregate, sortOverIntersect, havingNameUsed,
        windowOverSelect, WrapCheck.projectsWindow, WrapCheck.projects?, wrapIf, hrel, hcapable, hused, hfit]
  have hrules : wrapRules = (noClausesYet :: qualifyOverWindow :: middleRules) ++ [aggregateOverAggregate, groupByNameInHaving] :=
    rfl
  have hfirst : ((noClausesYet :: qualifyOverWindow :: middleRules).findSome? fun rule => rule c) = none :=
    List.findSome?_eq_none_iff.mpr hbefore
  change needsWrapping (wrapCheck env _ _) = _
  rw [hc, needsWrapping, hrules, List.findSome?_append, hfirst]
  simp [hverdict]

/-! ## The query of a grand total -/

/-- What calls are written as in a context: calls of their fields. -/
def CallNodes (env : Env) (ctx : Context) : List AggregateCall → List Node → Prop :=
  List.Forall₂ fun call n => ∃ args, call.args.mapM (ctx.field env) = .ok args ∧ n = callNode call args

/-- Plain calls are written where the fields are found. -/
theorem exists_callNodes {ctx : Context} {width : Nat} (hfield : ∀ i < width, ∃ n, ctx.field env (i : Nat) = .ok n) :
    ∀ {calls : List AggregateCall}, (∀ call ∈ calls, PlainCall width call) →
      ∃ as, calls.mapM (aggregateNode env ctx) = .ok as ∧ CallNodes env ctx calls as
  | [], _ => ⟨[], rfl, .nil⟩
  | call :: calls, hcalls => by
    have hcall := hcalls call List.mem_cons_self
    obtain ⟨args, hargs⟩ : ∃ args, call.args.mapM (ctx.field env) = .ok args := exists_mapM fun i hi => by
      obtain ⟨j, hj, rfl⟩ := hcall.fields i hi
      exact hfield j hj
    obtain ⟨as, has, hnodes⟩ := exists_callNodes hfield fun c hc => hcalls c (List.mem_cons_of_mem _ hc)
    refine ⟨callNode call args :: as, ?_, .cons ⟨args, hargs, rfl⟩ hnodes⟩
    rw [List.mapM_cons, hcall.aggregateNode_eq hargs, has]
    rfl

theorem length_fields_total (P : Rel) (sets : List (List Ordinal)) (calls : List AggregateCall) :
    (Rel.aggregate P [] sets calls).fields.length = calls.length := by
  simp [Rel.fields, RowType.length_unique, Rel.pick, Rel.aggregateFields]

/-- **A grand total** of plain calls always gives a query, with the calls as its list. -/
theorem Flat.exists_totalResult (henv : env.NeverQualifies) (hmap : env.fieldMap = []) (hr : Flat schema P r)
    (hne : calls ≠ []) (hcalls : ∀ call ∈ calls, PlainCall P.fields.length call) (s : State) :
    ∃ q t m s₁ as, (aggregateResult env [] [[]] calls (.aggregate P [] [[]] calls) r).Gives s q t
      ∧ Opening env (r.expecting [.groupBy] (ignoresClauses (.aggregate P [] [[]] calls))) (.aggregate P [] [[]] calls) s m s₁
      ∧ CallNodes env ((r.expecting [.groupBy] (ignoresClauses (.aggregate P [] [[]] calls))).contextOver env
        (.aggregate P [] [[]] calls) m) calls as
      ∧ q.node = withList m (namedItems as (Rel.aggregate P [] [[]] calls).fields) := by
  obtain ⟨name, hsingle, -⟩ := hr.single
  generalize hy : r.expecting [.groupBy] (ignoresClauses (.aggregate P [] [[]] calls)) = y
  obtain ⟨m, s₁, hm⟩ := hr.exists_opening henv [.groupBy] (ignoresClauses (.aggregate P [] [[]] calls))
    (.aggregate P [] [[]] calls) s
  obtain ⟨as, has, hnodes⟩ := exists_callNodes (fun i hi => hr.exists_field henv hmap hm hi) hcalls
  rw [hy] at hm has hnodes
  have hlength : as.length = calls.length := hnodes.length_eq.symm
  have hfields := length_fields_total P [[]] calls
  obtain ⟨items, hitems⟩ := @exists_addSelects (Rel.aggregate P [] [[]] calls).fields as [] (by
    simp [hlength, hfields])
  obtain ⟨-, hnamed⟩ := addSelects_eq_ok (by simp) hitems
  rw [List.nil_append, List.length_nil, List.drop_zero] at hnamed
  have hfull : items.isEmpty = false := by
    rw [hnamed, List.isEmpty_eq_false_iff, ← List.length_pos_iff, length_namedItems (by omega), hlength]
    exact List.length_pos_iff.mpr hne
  have hbuilder := ((hy ▸ hsingle.expecting [.groupBy] _ : y.Single name).gives_builder henv
    (.aggregate P [] [[]] calls) _ s s₁).mpr ⟨m, hm, rfl⟩
  obtain ⟨q, t, hq, hnode⟩ : ∃ q t, (Builder.result env ((y.builderOver env (.aggregate P [] [[]] calls) m).setSelect
      items)).Gives s₁ q t ∧ q.node = withList m items :=
    ⟨_, _, (ConvertM.gives_makeResult henv _ _ _ _ _ _ _).mpr ⟨rfl, rfl⟩, by simp [Builder.setSelect, Result.builderOver, withList]⟩
  have hcalls' : calls.isEmpty = false := List.isEmpty_eq_false_iff.mpr hne
  refine ⟨q, t, m, s₁, as, ?_, hm, hnodes, by rw [hnode, hnamed]⟩
  simp only [aggregateResult, ConvertM.gives_bind, ConvertM.gives_lift, hy]
  refine ⟨_, s₁, hbuilder, [], s₁, ⟨rfl, rfl⟩, [], s₁, ⟨rfl, rfl⟩, [], s₁, ⟨rfl, rfl⟩, as, s₁, ⟨has, rfl⟩, items, s₁,
    ⟨hitems, rfl⟩, ?_⟩
  simp only [hfull, hcalls', List.isEmpty_nil, Bool.not_false, Bool.and_self, Bool.false_eq_true, if_false, if_true]
  exact hq

end

/-! ## The row of a grand total -/

section

variable {E : Engine} {db : Database} {outer : Names} {env : Env} {ctx : Context} {calls : List AggregateCall}
  {as ms : List Node} {fields : RowType} {width : Nat} {schema : Schema}

theorem aggregates_callNode (call : AggregateCall) (args : List Node) : (callNode call args).aggregates = true := by
  rw [callNode, Node.aggregate, aggregates, fold_mk]
  rfl

/-- Calls are items. -/
theorem CallNodes.items (h : CallNodes env ctx calls as) (hcalls : ∀ call ∈ calls, PlainCall width call) :
    ∀ a ∈ as, Item a ∧ a.aggregates = true ∧ a.kind = .aggregate := by
  intro a ha
  obtain ⟨i, hi, rfl⟩ := List.mem_iff_getElem.mp ha
  have hi' : i < calls.length := h.length_eq ▸ hi
  obtain ⟨args, hargs, hnode⟩ := (List.forall₂_iff_get.mp h).2 i hi' hi
  have hitem := item_aggregateNode ((hcalls _ (List.getElem_mem hi')).aggregateNode_eq hargs)
  simp only [List.get_eq_getElem] at hnode hitem
  rw [hnode]
  exact ⟨hitem, aggregates_callNode _ _, rfl⟩

/-- Calls of fields that show a row run over the rows of the group. -/
theorem CallNodes.scalars (h : CallNodes env ctx calls as) (hcalls : ∀ call ∈ calls, PlainCall width call)
    {names : Names} (hshows : ctx.ShowsRow env (Reading.scalar E db names) width Focus.row) :
    together (as.map (scalar E db names)) = some fun f => calls.map fun call => [applied E call f.group] := by
  refine together_of_forall₂ (List.forall₂_iff_get.mpr ⟨h.length_eq, fun i hi hi' => ?_⟩)
  obtain ⟨args, hargs, hnode⟩ := (List.forall₂_iff_get.mp h).2 i hi hi'
  rw [hnode]
  exact scalar_callNode (length_of_mapM hargs) ((hcalls _ (List.getElem_mem hi)).operands hshows hargs)

/-- Calls of items that show a row run over the groups. -/
theorem CallNodes.totals (h : CallNodes env ctx calls as) (hcalls : ∀ call ∈ calls, PlainCall width call)
    {names : Names} {row : Focus → Row} (hshows : ctx.ShowsRow env (Reading.scalar E db names) width row)
    (htotal : ∀ a ∈ as, a.isTotal = true) :
    together (as.map (totalOf E db names))
      = some fun groups => calls.map fun call => [applied E call (groups.map row)] := by
  refine together_of_forall₂ (List.forall₂_iff_get.mpr ⟨h.length_eq, fun i hi hi' => ?_⟩)
  obtain ⟨args, hargs, hnode⟩ := (List.forall₂_iff_get.mp h).2 i hi hi'
  have htotal' := htotal _ (List.getElem_mem hi')
  simp only [List.get_eq_getElem] at hnode htotal' ⊢
  rw [hnode] at htotal' ⊢
  exact totalOf_callNode (length_of_mapM hargs) htotal' ((hcalls _ (List.getElem_mem hi)).operands hshows hargs)

/-- The query of a grand total around a FROM item groups all of its rows. -/
theorem groupList_total (item : Node) (h : CallNodes env ctx calls as) (hcalls : ∀ call ∈ calls, PlainCall width call)
    (hne : calls ≠ []) (hfull : as.length = fields.length) :
    GroupList fields (withList (selectFrom item) (namedItems as fields)) as := by
  have hlisted : Listed fields (withList (selectFrom item) (namedItems as fields)) as :=
    ⟨by simp [withList, selectList?, list?], hfull, fun a ha => (h.items hcalls a ha).1⟩
  obtain ⟨a, ha⟩ : ∃ a, a ∈ as := by
    refine List.exists_mem_of_ne_nil _ fun hnil => hne (List.length_eq_zero_iff.mp ?_)
    rw [h.length_eq, hnil, List.length_nil]
  have hrelists : Relists (selectFrom item) (withList (selectFrom item) (namedItems as fields)) := .set .refl (by simp) _
  have habsent : ∀ key ∉ ["expressions", "distinct", "from", "where"],
      (withList (selectFrom item) (namedItems as fields)).child? key = none := fun key hkey => by
    simp only [List.mem_cons, List.not_mem_nil, or_false, not_or] at hkey
    rw [hrelists.child?_eq (by simp [hkey.1, hkey.2.1]), (isStar_selectFrom item).child?_eq hkey.2.2.1 hkey.2.2.2]
  exact ⟨rfl, hlisted, hlisted.isGrouped ha (h.items hcalls a ha).2.1, habsent _ (by decide), habsent _ (by decide),
    habsent _ (by decide), habsent _ (by decide), habsent _ (by decide)⟩

/-- **A grand total around a query** has one row: the calls applied to the rows of the query. -/
theorem rows_total {q item : Node} (hshows : Shows schema q item) (hcolumns : q.columns schema = fields.names)
    (hmap : env.fieldMap = []) (hnodup : fields.names.Nodup) {name : String} {other : RowType}
    (h : CallNodes env (.aliases [(name, fields)] false) calls as)
    (hcalls : ∀ call ∈ calls, PlainCall fields.length call) (hne : calls ≠ []) (hfull : as.length = other.length)
    (hdb : db.schema = schema) :
    (withList (selectFrom item) (namedItems as other)).rows E db outer
      = (q.rows E db outer).map fun v f => [calls.map fun call => applied E call (v f)] := by
  have hgroups := groupList_total item h hcalls hne hfull
  have hother : other ≠ [] := by
    rw [← List.length_pos_iff, ← hfull, ← h.length_eq]
    exact List.length_pos_iff.mpr hne
  have hrelists : Relists (selectFrom item) (withList (selectFrom item) (namedItems as other)) := .set .refl (by simp) _
  obtain ⟨own, hframe⟩ := hshows.frame
  have hnames : (withList (selectFrom item) (namedItems as other)).fromNames db outer
      = Names.within [(own, fields.names)] outer := by
    rw [hrelists.fromNames_eq rfl, fromNames, (isStar_selectFrom item).frame_eq, hdb, hframe, hcolumns]
  have hvalues : together (as.map (scalar E db (Names.within [(own, fields.names)] outer)))
      = some fun f => calls.map fun call => [applied E call f.group] :=
    h.scalars hcalls (showsRow_columns hmap hnodup name own outer)
  rw [← hnames] at hvalues
  have hgrouping : (withList (selectFrom item) (namedItems as other)).groupingIn E db outer
      = (q.rows E db outer).map fun v => ⟨v, always, fun _ rows => [⟨rows.headD [], rows⟩]⟩ := by
    have hfrom : (withList (selectFrom item) (namedItems as other)).child? "from" = some (wrap .from item) :=
      (hrelists.child?_eq (by decide)).trans (isStar_selectFrom item).source
    have hwhere : (withList (selectFrom item) (namedItems as other)).child? "where" = none :=
      (hrelists.child?_eq (by decide)).trans (by simp [selectFrom, child?])
    have hgroup : (withList (selectFrom item) (namedItems as other)).child? "group" = none :=
      (hrelists.child?_eq (by decide)).trans ((isStar_selectFrom item).child?_eq (by decide) (by decide))
    simp only [groupingIn, clause, hfrom, hwhere, tuples_from, hshows.tuples outer hdb, levelsOf, hgroup,
      hgroups.grouped, if_true, Option.bind_eq_bind, Option.bind_some, Option.pure_def]
    cases q.rows E db outer <;> rfl
  rw [hgroups.rows_eq hother ((flag_set_of_ne _ _ (by decide)).trans (flag_distinct_selectFrom item)) hvalues,
    hgrouping, Option.map_map]
  refine congrArg (Option.map · _) (funext fun v => funext fun f => ?_)
  have htuples : (v f).filter (fun row => holds (always (⟨row, [row]⟩ :: f : Focus))) = v f :=
    List.filter_eq_self.mpr fun row _ => holds_always _
  simp only [Function.comp_apply, Grouping.run, Grouping.tuples, htuples, List.map_cons, List.map_nil,
    Focus.group_cons, List.map_map]
  rfl

/-- **A grand total in a query of groups** has one row: the calls applied to the rows that the query had. -/
theorem GroupList.totals_eq {n : Node} (hn : GroupList fields n ms) (hne : fields ≠ [])
    (hdistinct : n.flag "distinct" = false)
    {v : Focus → List (List Datum)} (hv : together (ms.map (scalar E db (n.fromNames db outer))) = some v)
    (hgroup : (n.child? "group").isSome = true) {listAlias : Bool}
    (h : CallNodes env (.selectList (namedItems ms fields) false listAlias) calls as)
    (hcalls : ∀ call ∈ calls, PlainCall fields.length call) (hcalled : calls ≠ []) {other : RowType}
    (hfull : as.length = other.length) (htotal : ∀ a ∈ as, a.isTotal = true) (halias : E.groupByAlias = false) :
    (withList n (namedItems as other)).totals E db outer
      = (n.rows E db outer).map fun rows f => [calls.map fun call => applied E call (rows f)] := by
  have hother : other ≠ [] := by
    rw [← List.length_pos_iff, ← hfull, ← h.length_eq]
    exact List.length_pos_iff.mpr hcalled
  have hrelists : Relists n (withList n (namedItems as other)) := .set .refl (by simp) _
  have hlisted : Listed other (withList n (namedItems as other)) as :=
    ⟨by simp [withList, selectList?, list?], hfull, fun a ha => (h.items hcalls a ha).1⟩
  have hm := hn.of_project hrelists hlisted (.inl hgroup)
  have hshows : (Context.selectList (namedItems ms fields) false listAlias).ShowsRow env
      (Reading.scalar E db (n.fromNames db outer)) fields.length (fun a => (v a).map single) :=
    showsRow_items hn.listed.full hn.listed.items _ (fun k hk u hu => (hn.listed.items k hk).oneValued.scalar hu) hv
      listAlias
  -- the calls have values of their own, by which the query has stages
  obtain ⟨u, hu⟩ : ∃ u, together (as.map (scalar E db (n.fromNames db outer))) = some u := by
    refine Option.isSome_iff_exists.mp ((together_isSome_iff _ _).mpr fun a ha => ?_)
    obtain ⟨i, hi, rfl⟩ := List.mem_iff_getElem.mp ha
    have hi' : i < calls.length := h.length_eq ▸ hi
    obtain ⟨args, hargs, hnode⟩ := (List.forall₂_iff_get.mp h).2 i hi' hi
    have hoperands := (hcalls _ (List.getElem_mem hi')).operands hshows hargs
    simp only [List.get_eq_getElem] at hnode hoperands
    rw [hnode, scalar_eq, scalarStep, show (callNode calls[i] args).manner = .aggregate from rfl, flat_partsOf,
      List.map_map, Option.isSome_map]
    exact Option.isSome_iff_exists.mpr ⟨_, hoperands⟩
  have hitems : (withList n (namedItems as other)).list "expressions" = namedItems as other := hlisted.list_eq
  have hcontents : (namedItems as other).map (fun item => totalOf E db (n.fromNames db outer) item.content)
      = as.map (totalOf E db (n.fromNames db outer)) := by
    refine List.ext_getElem (by simp [length_namedItems hfull.le]) fun i hi hi' => ?_
    have hi'' : i < as.length := by simpa using hi'
    have hkind : as[i].kind ≠ .aliased := by simp [(h.items hcalls _ (List.getElem_mem hi'')).2.2]
    simp [namedItems, content_namedItem hkind]
  have hstages := hm.stagesIn_eq hother (show together (as.map (scalar E db
    ((withList n (namedItems as other)).fromNames db outer))) = some u by rw [hrelists.fromNames_eq hn.kind]; exact hu)
  rw [hrelists.groupingIn_eq hn.kind (hm.grouped.trans hn.grouped.symm) halias] at hstages
  rw [hn.rows_eq hne hdistinct hv]
  unfold Node.totals
  simp only [hstages, hitems, hrelists.fromNames_eq hn.kind, hcontents, h.totals hcalls hshows htotal,
    Option.bind_eq_bind, Option.bind_some, Option.pure_def]
  cases n.groupingIn E db outer with
  | none => rfl
  | some g =>
    simp only [Option.map_some, Option.bind_some, Stages.groups, holds_always, List.filter_true, List.map_map]
    rfl

end

/-! ## Nested calls -/

section

variable {env : Env} {calls : List AggregateCall} {as ms : List Node} {fields other : RowType} {n : Node} {width : Nat}

/-- A call nests no aggregates if its operands call none. -/
theorem nestsAggregates_callNode {call : AggregateCall} {args : List Node}
    (h : ∀ c ∈ aggregateArgs call.op args, c.aggregates = false ∧ ∀ m ∈ scopeBelow c, m.isTotal = false) (own : String) :
    nestsAggregates (namedItem (callNode call args) own) = false := by
  have halias : (callNode call args).aliasOf? = none := rfl
  have hnamed : namedItem (callNode call args) own = Node.aliased (callNode call args) own := by simp [namedItem, halias]
  have hscope : (Node.aliased (callNode call args) own).inScope = Node.aliased (callNode call args) own
      :: callNode call args :: (aggregateArgs call.op args).flatMap scopeBelow ++ [identifier own] := by
    simp [callNode, Node.aggregate, Node.aliased, identifier, inScope, scopeOfArgs, scopeBelow,
      scopeOfList_eq, isScopeBoundary, Node.is, Node.isQuery, Kind.isQuery, Kind.isSetOperation]
  have hcall : (callNode call args).isTotal = false := by
    rw [isTotal, children_callNode, Bool.and_eq_false_iff]
    exact .inr (List.any_eq_false.mpr fun c hc => by simp [(h c hc).1])
  rw [hnamed, nestsAggregates, hscope, List.any_eq_false]
  intro m hm
  simp only [List.cons_append, List.mem_cons, List.mem_append, List.mem_flatMap, List.not_mem_nil, or_false] at hm
  rcases hm with rfl | rfl | ⟨c, hc, hm⟩ | rfl
  · simp [isTotal, Node.aliased, Node.is]
  · simp [hcall]
  · simp [(h c hc).2 m hm]
  · simp [isTotal, identifier, Node.is]

/-- Calls of columns nest no aggregates. -/
theorem CallNodes.not_nests (hmap : env.fieldMap = []) {name : String}
    (h : CallNodes env (.aliases [(name, fields)] false) calls as) :
    (namedItems as other).any nestsAggregates = false := by
  have hplain : ∀ a ∈ as, ∀ own, nestsAggregates (namedItem a own) = false := by
    intro a ha own
    obtain ⟨i, hi, rfl⟩ := List.mem_iff_getElem.mp ha
    obtain ⟨args, hargs, hnode⟩ := (List.forall₂_iff_get.mp h).2 i (h.length_eq ▸ hi) hi
    simp only [List.get_eq_getElem] at hnode
    rw [hnode]
    refine nestsAggregates_callNode (fun c hc => ?_) own
    -- an operand is a column, or the star
    unfold aggregateArgs at hc
    split at hc
    · obtain rfl : c = Node.star := by simpa using hc
      exact ⟨rfl, by decide⟩
    · have hcolumns : ∀ c ∈ args, ∃ name, c = Node.column name := forall_of_mapM hargs fun i _ c hc => by
        obtain ⟨f, -, rfl⟩ := (field_aliases_iff hmap).mp hc
        exact ⟨f.name, rfl⟩
      obtain ⟨name, rfl⟩ := hcolumns c hc
      refine ⟨rfl, fun m hm => ?_⟩
      have hparts : m = Node.column name ∨ m = identifier name := by
        simpa [Node.column, identifier, Node.kept, scopeBelow, scopeOfArgs, isScopeBoundary, Node.is, Node.isQuery,
          Kind.isQuery, Kind.isSetOperation] using hm
      rcases hparts with rfl | rfl <;> rfl
  rw [List.any_eq_false]
  intro item hitem
  obtain ⟨i, hi, rfl⟩ := List.mem_iff_getElem.mp hitem
  simp only [namedItems, List.length_zipWith, Nat.lt_min] at hi
  have hget : (namedItems as other)[i]? = some (namedItem as[i] other[i].name) := by simp [namedItems, hi.1, hi.2]
  rw [List.getElem?_eq_some_iff] at hget
  rw [hget.2]
  simp [hplain _ (List.getElem_mem hi.1)]

/-- Calls that each take an item with an aggregate nest aggregates. -/
theorem CallNodes.isTotal (hlisted : Listed fields n ms) {listAlias : Bool}
    (h : CallNodes env (.selectList (namedItems ms fields) false listAlias) calls as)
    (hnests : nestsEach (n.list "expressions") calls = true) : ∀ a ∈ as, a.isTotal = true := by
  intro a ha
  obtain ⟨i, hi, rfl⟩ := List.mem_iff_getElem.mp ha
  have hi' : i < calls.length := h.length_eq ▸ hi
  obtain ⟨args, hargs, hnode⟩ := (List.forall₂_iff_get.mp h).2 i hi' hi
  simp only [List.get_eq_getElem] at hnode hargs
  -- an item that the call takes
  obtain ⟨arg, harg, hitem⟩ := List.any_eq_true.mp (List.all_eq_true.mp hnests _ (List.getElem_mem hi'))
  obtain ⟨k, hk, hget⟩ := List.mem_iff_getElem.mp harg
  obtain ⟨c, hc, hfield⟩ := getElem?_of_mapM hargs (List.getElem?_eq_getElem hk)
  have hmem : c ∈ args := List.mem_of_getElem? hc
  have hc' : c.aggregates = true := by
    rw [hget] at hfield
    rw [hlisted.list_eq] at hitem
    simp only [Context.field] at hfield
    split at hfield
    · rename_i item hnth
      obtain ⟨j, hj, rfl⟩ := (nth?_isSome_iff _ arg).mp (by rw [hnth]; rfl)
      rw [length_namedItems hlisted.full.le] at hj
      have hj' : j < fields.length := hlisted.full ▸ hj
      obtain ⟨m, hm, -, hnamed⟩ := hlisted.getElem? (List.getElem?_eq_getElem hj')
      obtain rfl : item = namedItem m fields[j].name := by simpa [hnamed, eq_comm] using hnth
      rw [itemField_namedItem (hlisted.items m hm), Except.ok.injEq] at hfield
      rw [← hfield]
      simpa [hnamed, aggregates_namedItem] using hitem
    · cases hfield
  have hnonempty : args.isEmpty = false := List.isEmpty_eq_false_iff.mpr (List.ne_nil_of_mem hmem)
  rw [hnode, Node.isTotal, children_callNode, aggregateArgs, hnonempty, Bool.and_false, if_neg (by simp)]
  simp only [callNode, Node.aggregate, Node.is, kind_mk, beq_self_eq_true, Bool.true_and]
  exact List.any_eq_true.mpr ⟨c, hmem, hc'⟩

/-- Items that nest aggregates do so under any name. -/
theorem nestsAggregates_namedItem {a : Node} (ha : a.isTotal = true) (name : String) :
    nestsAggregates (namedItem a name) = true := by
  refine List.any_eq_true.mpr ⟨a, ?_, ha⟩
  unfold namedItem
  split
  · exact List.mem_cons_self
  · have hkind : a.kind = .aggregate := by
      have := (Bool.and_eq_true_iff.mp ha).1
      exact (is_eq_true_iff _ _).mp this
    refine inScope_of_child (c := a) (by simp [Node.aliased, children, Arg.children]) ?_ List.mem_cons_self
    simp [isScopeBoundary, Node.is, Node.isQuery, Kind.isQuery, Kind.isSetOperation, hkind]

end

/-! ## Statements -/

section

variable {env : Env} {s s' t t' : State} {schema : Schema} {r q : Result} {calls : List AggregateCall} {input : Rel}
  {projects : List Expr} {names : List String} {distinct : Bool} {ids : List String} {ms as : List Node}

/-- **A grand total over a projection of groups** applies its calls to the rows of the projection, if each call
takes an aggregate of rows that are not made distinct, or none does. -/
theorem KeyedQuery.answer_total (henv : env.NeverQualifies) (hmap : env.fieldMap = []) (hd : env.dialect = .ansi)
    (hr : KeyedQuery (.project input projects names distinct ids) distinct r ms)
    (hflat : Flat schema (.project input projects names distinct ids) r) (hnames : names.length = projects.length)
    (hne : projects ≠ []) (hcalls : ∀ call ∈ calls, PlainCall projects.length call) (hcalled : calls ≠ [])
    (hmerged : takesAggregate (r.node.list "expressions") calls = true →
      distinct = false ∧ nestsEach (r.node.list "expressions") calls = true)
    (hwrapped : takesAggregate (r.node.list "expressions") calls = false → names.Nodup) {s : State} :
    ∃ q t, (aggregateResult env [] [[]] calls (.aggregate (.project input projects names distinct ids) [] [[]] calls)
        r).Gives s q t ∧ q.node.kind = .select
      ∧ ∀ (E : Engine) (db : Database), db.schema = schema → E.groupByAlias = false →
        ∀ rows, r.node.results E db = some rows →
          q.node.answer E db = some [calls.map fun call => applied E call rows] := by
  have hlength : (Rel.project input projects names distinct ids).fields.length = projects.length := by
    simp [Rel.fields, hnames]
  have hnames' : (Rel.project input projects names distinct ids).fields.names = names := names_project hnames
  have hnonempty : (Rel.project input projects names distinct ids).fields ≠ [] := by
    rw [← List.length_pos_iff, hlength]
    exact List.length_pos_iff.mpr hne
  have hwrap := @KeyedQuery.mustWrap_total env r calls input projects names distinct ids ms hd hr
  rw [← hlength] at hcalls
  generalize Rel.project input projects names distinct ids = P at *
  obtain ⟨q, t, m, s₁, as, hq, hm, hnodes, hnode⟩ := hflat.exists_totalResult henv hmap hcalled hcalls s
  have hfull : as.length = (Rel.aggregate P [] [[]] calls).fields.length := by
    rw [length_fields_total, hnodes.length_eq]
  have hlist : q.node.list "expressions" = namedItems as (Rel.aggregate P [] [[]] calls).fields := by
    rw [hnode]
    simp [withList, Node.list, list?]
  have hkind : q.node.kind = .select := by
    rw [hnode, withList, kind_set]
    exact (hflat.shaped_opened henv hm).kind
  refine ⟨q, t, hq, hkind, fun E db hdb halias rows hrows => ?_⟩
  have hrows' : (r.node.rows E db Names.none).map (fun v => v []) = some rows := hrows
  rw [Option.map_eq_some_iff] at hrows'
  obtain ⟨v, hv, rfl⟩ := hrows'
  cases htakes : takesAggregate (r.node.list "expressions") calls with
  | false =>
    -- the grand total stands around the query of the groups
    rw [htakes] at hwrap
    obtain ⟨item, rfl, hshows⟩ : ∃ item, m = selectFrom item ∧ Shows schema r.query item := by
      rcases hflat.opened henv hm with ⟨-, -, hmerge⟩ | hwrapped
      · rw [hmerge] at hwrap
        cases hwrap
      · exact hwrapped
    obtain ⟨name, hsingle, -⟩ := hflat.single
    have hcontext : (r.expecting [.groupBy] (ignoresClauses (.aggregate P [] [[]] calls))).contextOver env
        (.aggregate P [] [[]] calls) (selectFrom item) = .aliases [(name, P.fields)] false := by
      have hstar : (selectFrom item).selectList? = none := by simp [selectFrom, selectList?, list?]
      simp only [Result.contextOver, hstar]
      rw [(hsingle.expecting _ _).aliases]
      simp [Result.expecting, hflat.fields]
    rw [hcontext] at hnodes
    rw [Result.query_of_plain (hflat.shaped hr.kind).plain] at hshows
    have hcolumns : r.node.columns schema = P.fields.names := by
      have := hflat.columns.resolve_right hnonempty
      rwa [Result.query_of_plain (hflat.shaped hr.kind).plain] at this
    have hnodup : P.fields.names.Nodup := hnames' ▸ hwrapped htakes
    have hquery : q.node.rows E db Names.none = some fun f => [calls.map fun call => applied E call (v f)] := by
      rw [hnode, rows_total hshows hcolumns hmap hnodup hnodes hcalls hcalled hfull hdb, hv]
      rfl
    rw [answer, hlist, hnodes.not_nests hmap, if_neg (by simp)]
    show (q.node.rows E db Names.none).map (fun rows => rows []) = _
    rw [hquery]
    rfl
  | true =>
    -- the grand total stands in the query of the groups
    rw [htakes] at hwrap
    obtain ⟨rfl, hnests⟩ := hmerged htakes
    obtain rfl := hflat.opened_merged henv hr.kind hwrap hm
    have hcontext : (r.expecting [.groupBy] (ignoresClauses (.aggregate P [] [[]] calls))).contextOver env
        (.aggregate P [] [[]] calls) r.node = .selectList (namedItems ms P.fields) false false := by
      simp [Result.contextOver, hr.listed.list, Result.itemContext, Result.expecting, hd, Dialect.ansi]
    rw [hcontext] at hnodes
    have htotal := hnodes.isTotal hr.listed hnests
    obtain ⟨u, hu⟩ : ∃ u, together (ms.map (scalar E db (r.node.fromNames db Names.none))) = some u := by
      refine Option.isSome_iff_exists.mp ((together_isSome_iff _ _).mpr fun k hk => hr.early k hk ?_)
      have houtput : ∃ st, r.node.stagesIn E db Names.none = some st := by
        rw [rows_select hr.kind, Option.map_eq_some_iff] at hv
        obtain ⟨st, hst, -⟩ := hv
        exact ⟨st, hst⟩
      obtain ⟨st, hst⟩ := houtput
      exact hr.listed.analytic_isSome hnonempty (hr.unlimited.stages hst).2.2.2 k hk
    have hany : (namedItems as (Rel.aggregate P [] [[]] calls).fields).any nestsAggregates = true := by
      have hpos : 0 < as.length := by
        rw [← hnodes.length_eq]
        exact List.length_pos_iff.mpr hcalled
      have hitem : (namedItems as (Rel.aggregate P [] [[]] calls).fields)[0]?
          = some (namedItem as[0] (Rel.aggregate P [] [[]] calls).fields[0].name) := by
        simp [namedItems, hpos, hfull ▸ hpos]
      exact List.any_eq_true.mpr
        ⟨_, List.mem_of_getElem? hitem, nestsAggregates_namedItem (htotal _ (List.getElem_mem hpos)) _⟩
    rw [answer, hlist, hany, if_pos rfl, hnode,
      hr.totals_eq hnonempty hr.flag hu hr.keyed hnodes hcalls hcalled hfull htotal halias, hv]
    rfl

/-- **The statement for a grand total over a projection of groups** has one row, with its calls applied to the
rows of the statement for the projection, if each call takes an aggregate of rows that are not made distinct, or
none does. -/
theorem statement_grandTotal {table : List String} {fields : RowType} {keys : List Ordinal} {sets : List (List Ordinal)}
    {others : List AggregateCall} (hcolumns : tableColumns schema table = fields.names)
    (hsimple : groupKind keys sets = .simple) (hkeys : keys ≠ []) (hnames : names.length = projects.length)
    (hne : projects ≠ []) (hprojects : ∀ e ∈ projects, Rowwise .ansi (fun _ => True) e)
    (hcalls : ∀ call ∈ calls, PlainCall projects.length call) (hcalled : calls ≠ []) {p : Node}
    (hp : statement .ansi (.project (.aggregate (.scan table fields) keys sets others) projects names distinct ids) = .ok p)
    (hmerged : takesAggregate (p.list "expressions") calls = true →
      distinct = false ∧ nestsEach (p.list "expressions") calls = true)
    (hwrapped : takesAggregate (p.list "expressions") calls = false → names.Nodup) :
    ∃ q, statement .ansi (.aggregate (.project (.aggregate (.scan table fields) keys sets others) projects names distinct
        ids) [] [[]] calls) = .ok q
      ∧ ∀ (E : Engine) (db : Database), db.schema = schema → E.groupByAlias = false →
        ∀ rows, p.results E db = some rows →
          q.answer E db = some [calls.map fun call => applied E call rows] := by
  have henv : (Env.plain .ansi).NeverQualifies := Env.neverQualifies_plain (by simp [Dialect.all])
  -- the query of the projection
  generalize hA : Rel.aggregate (.scan table fields) keys sets others = A at *
  generalize hdepth : (Rel.project A projects names distinct ids).queryDepth = depth
  rw [statement_eq, ConvertM.value_eq_ok_iff, planStatement, planResult_eq _ hdepth.le] at hp
  obtain ⟨t, ht⟩ := hp
  obtain ⟨r, s', hr, hr'⟩ := (ConvertM.gives_bind _ _ _ _ _).mp ht
  rw [relationResult, ConvertM.gives_bind] at hr
  obtain ⟨x, s₁, hx, hr⟩ := hr
  obtain ⟨hflat, ⟨ks, hks⟩, hclauses⟩ := keyedQuery_aggregate henv rfl rfl hcolumns hsimple hkeys (hA ▸ hx)
  rw [hA] at hflat hks
  obtain ⟨ms, hms⟩ := hks.project henv (by simp [Env.plain]) hflat hclauses hnames hprojects hr
  have hrflat := flat_project henv rfl hflat hnames (fun e he => (hprojects e he).readsOuter_eq_false) hr
  obtain rfl : p = r.node := by
    rw [← Result.query_of_plain (hrflat.shaped hms.kind).plain]
    exact hrflat.asStatement henv hr'
  -- the query of the grand total
  obtain ⟨q, t', hq, hkind, hrows⟩ :=
    hms.answer_total henv rfl rfl hrflat hnames hne hcalls hcalled hmerged hwrapped (s := s')
  have hrel : (relationResult (Env.plain .ansi) (queryAt (Env.plain .ansi) depth false) true
      (.aggregate (.project A projects names distinct ids) [] [[]] calls)).Gives {} q t' := by
    rw [relationResult, relationResult, ConvertM.gives_bind]
    exact ⟨r, s', (ConvertM.gives_bind _ _ _ _ _).mpr ⟨x, s₁, hx, hr⟩, hq⟩
  have htotal : (Rel.aggregate (.project A projects names distinct ids) [] [[]] calls).fields ≠ [] := by
    rw [← List.length_pos_iff, length_fields_total]
    exact List.length_pos_iff.mpr hcalled
  have hqflat := flat_aggregate henv rfl hrflat htotal hq
  obtain ⟨u, hu⟩ := hqflat.exists_asStatement henv t'
  have hquery : q.query = q.node := Result.query_of_plain (hqflat.shaped hkind).plain
  have hwhole : (Rel.aggregate (.project A projects names distinct ids) [] [[]] calls).queryDepth ≤ depth := hdepth.le
  refine ⟨q.node, ?_, hrows⟩
  rw [statement_eq, ConvertM.value_eq_ok_iff, planStatement, planResult_eq _ hwhole]
  exact ⟨u, (ConvertM.gives_bind _ _ _ _ _).mpr ⟨q, t', hrel, hquery ▸ hu⟩⟩

end

/-- The sum of the second field for each value of the first one. -/
def keyedSums : Rel :=
  .aggregate (.scan ["t"] [⟨"a", .integer⟩, ⟨"b", .integer⟩]) [(0 : Nat)] [[(0 : Nat)]]
    [{ op := Operator.sum, args := [(1 : Nat)], name := some "s" }]

/-- The sums without their keys. -/
def sumsAlone (distinct : Bool) : Rel := .project keyedSums [.inputRef (1 : Nat) .integer] ["s"] distinct []

/-- The sum of the first field. -/
def sumOfSums : AggregateCall := { op := Operator.sum, args := [(0 : Nat)], name := some "z" }

/-- The columns of the table. -/
def keyedSchema : Schema := fun _ => ["a", "b"]

/-- The statement for the sum of sums adds the rows of the statement for the sums. -/
theorem statement_grandTotal_sums : ∃ p q, statement .ansi (sumsAlone false) = .ok p
    ∧ statement .ansi (.aggregate (sumsAlone false) [] [[]] [sumOfSums]) = .ok q
    ∧ ∀ (E : Engine) (db : Database), db.schema = keyedSchema → E.groupByAlias = false →
      ∀ rows, p.results E db = some rows → q.answer E db = some [[applied E sumOfSums rows]] := by
  have hlist : ((statement .ansi (sumsAlone false)).toOption.any fun p => takesAggregate (p.list "expressions") [sumOfSums]
      && nestsEach (p.list "expressions") [sumOfSums]) = true := by decide +kernel
  cases hp : statement .ansi (sumsAlone false) with
  | error e => simp [hp, Except.toOption] at hlist
  | ok p =>
    obtain ⟨htakes, hnests⟩ : takesAggregate (p.list "expressions") [sumOfSums] = true
        ∧ nestsEach (p.list "expressions") [sumOfSums] = true := by
      simpa [hp, Except.toOption] using hlist
    have hcalls : ∀ call ∈ [sumOfSums], PlainCall 1 call := fun call hcall => by
      obtain rfl : call = sumOfSums := by simpa using hcall
      exact ⟨by simp [sumOfSums], fun i hi => ⟨0, by simp, by simpa [sumOfSums] using hi⟩, rfl, rfl⟩
    obtain ⟨q, hq, hrows⟩ := statement_grandTotal
      (show tableColumns keyedSchema ["t"] = RowType.names [⟨"a", .integer⟩, ⟨"b", .integer⟩] from rfl)
      (by decide +kernel) (by simp) (show ["s"].length = [Scalar.inputRef (1 : Nat) .integer].length from rfl) (by simp)
      (fun e he t ht => by
        obtain rfl : e = .inputRef (1 : Nat) .integer := by simpa using he
        obtain rfl : t = .inputRef (1 : Nat) .integer := by simpa [Scalar.subterms] using ht
        trivial)
      hcalls (by simp) hp (fun _ => ⟨rfl, hnests⟩) (fun hnone => by rw [htakes] at hnone; cases hnone)
    exact ⟨p, q, rfl, hq, hrows⟩

/-- An engine that adds numbers. -/
def summingEngine : Engine :=
  { countingEngine with
    aggregate := fun _ rows => rows.foldl (fun d operands => d.arithmetic (· + ·) (leading operands)) (.number 0) }

/-- Two keys with the same sum. -/
def fiveTwice : Database where
  schema := keyedSchema
  rows _ := [[.number 1, .number 5], [.number 2, .number 5]]
  width _ row hrow := by
    simp only [List.mem_cons, List.not_mem_nil, or_false] at hrow
    rcases hrow with rfl | rfl <;> rfl

/-- Sums that are made distinct are added for every group: DISTINCT is left on the one row of the result. -/
theorem distinctSums_total : ∃ p q rows, groupKind [((0 : Nat) : Ordinal)] [[((0 : Nat) : Ordinal)]] = .simple
    ∧ statement .ansi (sumsAlone true) = .ok p
    ∧ statement .ansi (.aggregate (sumsAlone true) [] [[]] [sumOfSums]) = .ok q
    ∧ p.results summingEngine fiveTwice = some rows
    ∧ q.answer summingEngine fiveTwice ≠ some [[applied summingEngine sumOfSums rows]] := by
  have hp : (statement .ansi (sumsAlone true)).toOption.bind (fun p => p.results summingEngine fiveTwice)
      = some [[.number 5]] := by decide +kernel
  have hq : (statement .ansi (.aggregate (sumsAlone true) [] [[]] [sumOfSums])).toOption.bind
      (fun q => q.answer summingEngine fiveTwice) = some [[.number 10]] := by decide +kernel
  have happlied : applied summingEngine sumOfSums [[.number 5]] = .number 5 := by decide +kernel
  cases hp' : statement .ansi (sumsAlone true) with
  | error e => simp [hp', Except.toOption] at hp
  | ok p =>
    cases hq' : statement .ansi (.aggregate (sumsAlone true) [] [[]] [sumOfSums]) with
    | error e => simp [hq', Except.toOption] at hq
    | ok q =>
      rw [hp'] at hp
      rw [hq'] at hq
      simp only [Except.toOption, Option.bind_some] at hp hq
      refine ⟨p, q, _, by decide +kernel, rfl, rfl, hp, ?_⟩
      -- five is not ten
      rw [hq, happlied]
      decide +kernel

end Convert

end AlgebraSql
