import AlgebraSql.Proofs.FilterRows
import AlgebraSql.Proofs.PlanBags

/-!
# Faithful results — filters, projections and sorts of rows keep the bag that a plan denotes.

The result for a plan returns the bag of the plan wherever its query stands.  A query that is not sorted may be
extended by the operators above: WHERE drops rows of the bag, a select list computes each row from a row of the
bag, and ORDER BY leaves it.  What an operator reads is either the query of its input or a star over it; in both
cases it is a query that may be extended.
-/

namespace AlgebraSql.Convert

open Sql Node

variable {env : Env} {sub : Rel → ConvertM Node} {s s' : State} {schema : Schema}

/-! ## Queries for bags -/

/-- **`Returns`** — a query finds its names wherever it stands, and returns a bag of rows. -/
def Returns (schema : Schema) (bag : Patterns → Database → Multiset Row) (q : Node) : Prop :=
  ∀ (E : Engine) (P : Patterns) (db : Database) (outer : Names), db.schema = schema →
    ∃ v, q.rows (E.withOperators P) db outer = some v ∧ ∀ f, ((v f : List Row) : Multiset Row) = bag P db

/-- A star over what shows a query returns what the query returns. -/
theorem Returns.selectFrom {bag : Patterns → Database → Multiset Row} {q item : Node} (h : Returns schema bag q)
    (hshows : Shows schema q item) (hwide : Wide schema q) : Returns schema bag (selectFrom item) :=
  fun E P db outer hdb => by
    rw [hshows.rows_selectFrom hwide hdb]
    exact h E P db outer hdb

namespace OpenSelect

variable {fields : RowType} {m q item : Node}

/-- A star over what shows a query may be extended. -/
theorem selectFrom (h : Shows schema q item) (hcolumns : q.columns schema = fields.names) :
    OpenSelect schema fields (selectFrom item) where
  select :=
    { kind := rfl
      absent := fun key hkey => by
        simp only [List.mem_cons, List.not_mem_nil, or_false] at hkey
        rcases hkey with rfl | rfl | rfl | rfl | rfl <;> simp [Node.selectFrom, child?]
      items := by simp [Node.selectFrom, list, list?]
      order := by simp [Node.selectFrom, child?] }
  unsorted := by simp [Node.selectFrom, child?]
  form := by
    obtain ⟨own, hframe⟩ := h.frame
    exact .inl ⟨by simp [Node.selectFrom, selectList?, list?], own,
      by rw [(isStar_selectFrom item).frame_eq, hframe, hcolumns]⟩
  valued := by simp [Node.selectFrom, list, list?]

/-- Such a query has the columns that it shows. -/
theorem columns_eq (h : OpenSelect schema fields m) : m.columns schema = fields.names := by
  rw [columns_select h.select.kind]
  rcases h.form with ⟨hstar, own, hframe⟩ | ⟨ns, hlisted, hne⟩
  · rw [hstar, hframe]
    exact Frame.columns_single own _
  · rw [hlisted.list]
    exact (selectColumns_namedItems hlisted.full _).resolve_right hne

/-- The context of a query over such a one knows its columns, or its items. -/
theorem overlooks (env : Env) (h : OpenSelect schema fields m) {x : Result} {name : String}
    (haliases : x.aliases = [(name, fields)]) (rel : Rel) : Overlooks fields m ((x.expected.contains .having && env.dialect.capabilities.havingAlias)
      || (isSort rel && env.dialect.capabilities.sortByAlias)) (x.contextOver env rel m) := by
  unfold Result.contextOver
  rcases h.form with ⟨hstar, -⟩ | ⟨ns, hlisted, -⟩
  · rw [hstar, haliases]
    exact .columns name hstar
  · rw [hlisted.list]
    cases rel <;> exact .items hlisted _

end OpenSelect

/-- **`Faithful`** — the query of a result shows the columns of a plan and returns its bag, and a SELECT that is not
sorted may be extended. -/
structure Faithful (schema : Schema) (rel : Rel) (x : Result) : Prop where
  flat : Flat schema rel x
  distinct : rel.fields.names.Nodup
  columns : x.query.columns schema = rel.fields.names
  returns : Returns schema (fun P db => rel.bag P db.tableRows) x.query
  extensible : isSort rel = false → x.node.kind = .select → OpenSelect schema rel.fields x.node

namespace Faithful

variable {input rel : Rel} {x r : Result} {m n : Node}

/-- A SELECT that may be extended denotes a plan if it returns the bag of the plan. -/
theorem of_open (hflat : Flat schema rel x) (hdistinct : rel.fields.names.Nodup) (hkind : x.node.kind = .select)
    (hopen : OpenSelect schema rel.fields x.node) (hreturns : Returns schema (fun P db => rel.bag P db.tableRows) x.query) :
    Faithful schema rel x where
  flat := hflat
  distinct := hdistinct
  columns := by
    rw [Result.query_of_plain (hflat.shaped hkind).plain]
    exact hopen.columns_eq
  returns := hreturns
  extensible _ _ := hopen

/-- **What is opened** for an operator may be extended, and returns the bag of the input. -/
theorem opened (henv : env.NeverQualifies) (hx : Faithful schema input x) {expected : List Clause} {ignores : Bool}
    (hne : expected ≠ []) (hrel : rel.inputs = [input]) (hignores : ignores = true → isSort input = false)
    (hm : Opening env (x.expecting expected ignores) rel s m s') :
    OpenSelect schema input.fields m ∧ Returns schema (fun P db => input.bag P db.tableRows) m := by
  rcases hx.flat.opened henv hm with ⟨rfl, hkind, hwrap⟩ | ⟨item, rfl, hshows⟩
  · have hsort := hx.flat.tracked.isSort_eq_false hne hrel hignores hwrap
    have hreturns := hx.returns
    rw [Result.query_of_plain (hx.flat.shaped hkind).plain] at hreturns
    exact ⟨hx.extensible hsort hkind, hreturns⟩
  · exact ⟨.selectFrom hshows hx.columns, hx.returns.selectFrom hshows hx.flat.wide⟩

end Faithful

/-! ## Filters -/

/-- A plain expression over columns is written as a node with its value. -/
theorem exists_plainNode (sub : Rel → ConvertM Node) (hmap : env.fieldMap = []) (hd : env.dialect.AddsNumbers)
    {fields : RowType} (hnodup : fields.names.Nodup) {e : Expr} (he : e.Plain fields.length) (name : String) :
    ∃ c, (∀ s, (scalarNode env sub (.aliases [(name, fields)] false) e).Gives s c s)
      ∧ ∀ (E : Engine) (P : Patterns) (db : Database) (own : String) (outer : Names),
        c.scalar (E.withOperators P) db (Names.within [(own, fields.names)] outer) = some fun f => [e.value P f.row] := by
  have hmeans : ∀ (E : Engine) (P : Patterns) (db : Database) (own : String) (outer : Names),
      ∃ c, (∀ s, (scalarNode env sub (.aliases [(name, fields)] false) e).Gives s c s)
        ∧ Means (Reading.scalar (E.withOperators P) db (Names.within [(own, fields.names)] outer)) P Focus.row e c :=
    fun E P db own outer => scalarNode_means (showsRow_columns hmap hnodup name own outer) hd e he
  obtain ⟨E⟩ := (inferInstance : Nonempty Engine)
  obtain ⟨db⟩ := (inferInstance : Nonempty Database)
  obtain ⟨c, hc, -⟩ := hmeans E ⟨fun _ => true, fun _ => true⟩ db "" Names.none
  refine ⟨c, hc, fun E P db own outer => ?_⟩
  obtain ⟨c', hc', hshows⟩ := hmeans E P db own outer
  obtain rfl : c' = c := ((hc' {}).unique (hc {})).1
  exact hshows.shows

/-- **A filter** drops the rows of the bag on which its condition is not true. -/
theorem Faithful.filter (sub : Rel → ConvertM Node) (henv : env.NeverQualifies) (hmap : env.fieldMap = [])
    (hd : env.dialect.AddsNumbers) {input : Rel} {x : Result} (hx : Faithful schema input x) {condition : Expr}
    (hcondition : condition.Plain input.fields.length) (ids : List String)
    (hclause : filterClause env input condition = .where) (s : State) :
    ∃ r s', (filterResult env sub input condition ids (.filter input condition ids) x).Gives s r s'
      ∧ Faithful schema (.filter input condition ids) r := by
  have hfree := queryFree_of_plain hd hcondition
  obtain ⟨c, hc, hvalue⟩ := exists_plainNode sub hmap hd hx.distinct hcondition ""
  obtain ⟨r, s', hr⟩ := hx.flat.exists_filterResult henv hmap hfree (hc {}) ids s
  have hflat := flat_filter henv hx.flat hr
  obtain ⟨name, hsingle, -⟩ := hx.flat.single
  obtain ⟨y, m, s₁, s₂, c', s₃, rfl, hm, -, hrecords⟩ := hsingle.filter_step henv hr
  have hnode := hrecords.node_eq
  rw [hclause] at hm hnode
  have hignores : ignoresClauses (.filter input condition ids) = true → isSort input = false := by
    cases input <;> simp [ignoresClauses, isSort]
  obtain ⟨hopen, -⟩ := hx.opened henv (by simp) rfl hignores hm
  have hopen' : OpenSelect schema (Rel.filter input condition ids).fields r.node := by
    rw [hnode, Rel.fields]
    exact hopen.set (by decide) _
  refine ⟨r, s', hr, .of_open hflat hx.distinct hopen'.select.kind hopen' fun E P db outer hdb => ?_⟩
  obtain ⟨v, hv, hbag⟩ := hx.returns E P db outer hdb
  replace hbag : ∀ f, ((v f : List Row) : Multiset Row) = input.bag P db.tableRows := hbag
  rw [hx.flat.rows_filterResult_where henv hmap hx.distinct hfree (hc {}) (hvalue E P db "" outer) hclause hr hdb, hv]
  refine ⟨_, rfl, fun f => ?_⟩
  simp only [Rel.bag]
  rw [← hbag f, Multiset.filter_coe]
  refine congrArg _ (List.filter_congr fun row _ => ?_)
  rw [Bool.eq_iff_iff]
  simp [holds, single]

/-! ## Projections -/

theorem mem_namedItems {ns : List Node} {fields : RowType} {item : Node} (h : item ∈ namedItems ns fields) :
    ∃ n ∈ ns, ∃ name, item = namedItem n name := by
  obtain ⟨i, hi, rfl⟩ := List.mem_iff_getElem.mp h
  simp only [namedItems, List.length_zipWith] at hi
  exact ⟨ns[i], List.getElem_mem _, fields[i].name, by simp [namedItems]⟩

theorem scalar_isSome_of_mem_namedItems {E : Engine} {db : Database} {names : Names} {ns : List Node} {fields : RowType}
    {v : Focus → List (List Datum)} (hvalues : together (ns.map (scalar E db names)) = some v) {item : Node}
    (hitem : item ∈ namedItems ns fields) : (item.scalar E db names).isSome = true := by
  obtain ⟨n, hn, name, rfl⟩ := mem_namedItems hitem
  rw [scalar_namedItem]
  exact (together_isSome_iff _ _).mp (by rw [hvalues]; rfl) n hn

/-- **`Computes`** — a query selects what another one selects, and computes its rows from what the other puts out. -/
structure Computes (schema : Schema) (m n : Node) (g : Patterns → Row → Row) : Prop where
  selected : ∀ (E : Engine) (db : Database) (outer : Names), n.selected E db outer = m.selected E db outer
  output : ∀ (E : Engine) (P : Patterns) (db : Database) (outer : Names), db.schema = schema → ∃ out : Focus → Row,
    m.output (E.withOperators P) db (m.fromNames db outer) = some (fun s => out s.focus)
      ∧ n.output (E.withOperators P) db (n.fromNames db outer) = some fun s => g P (out s.focus)

section

variable {fields other : RowType} {m n : Node} {g : Patterns → Row → Row}

/-- Distinct or not, the rows are computed in the same way. -/
theorem Computes.withDistinct (h : Computes schema m n g) (hn : RowSelect n) (distinct : Bool) :
    Computes schema m (if distinct then n.set "distinct" (some (.flag true)) else n) g := by
  cases distinct with
  | false => exact h
  | true =>
    refine ⟨fun E db outer => (hn.selected_set (by decide) _).trans (h.selected E db outer), fun E P db outer hdb => ?_⟩
    obtain ⟨out, hm, hout⟩ := h.output E P db outer hdb
    exact ⟨out, hm, (hn.output_set (by decide) _).trans hout⟩

/-- Whether its rows are distinct is free in an open query. -/
theorem OpenSelect.withDistinct (h : OpenSelect schema fields n) (hflag : n.flag "distinct" = false) (distinct : Bool) :
    OpenSelect schema fields (if distinct then n.set "distinct" (some (.flag true)) else n)
      ∧ (if distinct then n.set "distinct" (some (.flag true)) else n).flag "distinct" = distinct := by
  cases distinct with
  | false => exact ⟨h, hflag⟩
  | true => exact ⟨h.set (by decide) _, by simp [flag]⟩

/-- **A query that computes rows** from those of an open one returns what is computed from its bag. -/
theorem Returns.computed {bag : Patterns → Database → Multiset Row} (h : Returns schema bag m)
    (hm : OpenSelect schema other m) (hflag : m.flag "distinct" = false) (hn : OpenSelect schema fields n)
    (hcomputes : Computes schema m n g) :
    Returns schema (fun P db => distinctBag (n.flag "distinct") ((bag P db).map (g P))) n := by
  intro E P db outer hdb
  obtain ⟨v, hv, hbag⟩ := h E P db outer hdb
  obtain ⟨out, hout, hout'⟩ := hcomputes.output E P db outer hdb
  obtain ⟨w, hw, hbag'⟩ :=
    bag_of_outputs hm.select hn.select hm.unsorted hflag hn.unsorted (hcomputes.selected _ db outer) hout hout' hv
  exact ⟨w, hw, fun f => by rw [hbag', hbag]⟩

/-- **A list of items** that call no aggregate functions and have values leaves a query that may be extended, and
that computes the values from what the query puts out. -/
theorem OpenSelect.withList (h : OpenSelect schema other m) {ns : List Node} (hfull : ns.length = fields.length)
    (hne : fields ≠ []) (hitems : ∀ n ∈ ns, Item n) (hcalls : ∀ n ∈ ns, n.aggregates = false)
    (hvalues : ∀ (E : Engine) (P : Patterns) (db : Database) (outer : Names), db.schema = schema →
      ∃ out : Focus → Row, m.output (E.withOperators P) db (m.fromNames db outer) = some (fun s => out s.focus)
        ∧ together (ns.map (scalar (E.withOperators P) db (m.fromNames db outer)))
          = some fun f => (g P (out f)).map fun d => [d]) :
    OpenSelect schema fields (withList m (namedItems ns fields))
      ∧ Computes schema m (withList m (namedItems ns fields)) g := by
  have hlisted : Listed fields (Convert.withList m (namedItems ns fields)) ns :=
    ⟨by simp [Convert.withList, selectList?, list?], hfull, hitems⟩
  have hnames : ∀ db outer, (Convert.withList m (namedItems ns fields)).fromNames db outer = m.fromNames db outer :=
    fun db outer => by rw [fromNames, fromNames, Convert.withList, frame_set h.select.kind (by decide)]
  refine ⟨⟨h.select.withList fun item hitem => ?_, ?_, .inr ⟨ns, hlisted, hne⟩, fun E P db outer hdb item hitem => ?_⟩,
    fun E db outer => h.select.selected_set (by decide) _, fun E P db outer hdb => ?_⟩
  · obtain ⟨n, hn, name, rfl⟩ := mem_namedItems hitem
    rw [aggregates_namedItem, hcalls n hn]
  · rw [Convert.withList, child?_set_of_ne _ _ (by decide), h.unsorted]
  · obtain ⟨out, -, hv⟩ := hvalues E P db outer hdb
    rw [hlisted.list_eq] at hitem
    rw [hnames]
    exact scalar_isSome_of_mem_namedItems hv hitem
  · obtain ⟨out, hout, hv⟩ := hvalues E P db outer hdb
    refine ⟨out, hout, ?_⟩
    rw [hnames, hlisted.output_of_scalar hne hv]
    simp [Function.comp_def, single]

/-- Plain expressions over an open query are projected as nodes that call no aggregate functions and compute their
values from what the query puts out. -/
theorem exists_projectedNodes (sub : Rel → ConvertM Node) (hmap : env.fieldMap = []) (hd : env.dialect.AddsNumbers)
    (hopen : OpenSelect schema fields m) {ctx : Context} (hctx : Overlooks fields m false ctx)
    (hliteral : ∀ l, literalIn env ctx l = literalNode env.dialect l) (hnodup : fields.names.Nodup) {es : List Expr}
    (hes : ∀ e ∈ es, e.Plain fields.length) :
    ∃ ns, (∀ s, (es.mapM (projectedNode env sub ctx)).Gives s ns s) ∧ ns.length = es.length
      ∧ (∀ n ∈ ns, n.aggregates = false)
      ∧ ∀ (E : Engine) (P : Patterns) (db : Database) (outer : Names), db.schema = schema → ∃ out : Focus → Row,
        m.output (E.withOperators P) db (m.fromNames db outer) = some (fun s => out s.focus)
          ∧ (∀ f, (out f).length = fields.length)
          ∧ together (ns.map (scalar (E.withOperators P) db (m.fromNames db outer)))
            = some fun f => (Scalar.values P (out f) es).map fun d => [d] := by
  have hshow : ∀ (E : Engine) (P : Patterns) (db : Database) (outer : Names), db.schema = schema →
      ∃ ns, (∀ s, (es.mapM (projectedNode env sub ctx)).Gives s ns s) ∧ ns.length = es.length
        ∧ ∃ out : Focus → Row, m.output (E.withOperators P) db (m.fromNames db outer) = some (fun s => out s.focus)
          ∧ (∀ f, (out f).length = fields.length)
          ∧ together (ns.map (scalar (E.withOperators P) db (m.fromNames db outer)))
            = some fun f => (Scalar.values P (out f) es).map fun d => [d] := by
    intro E P db outer hdb
    obtain ⟨out, hout, hlength, hshows⟩ := hopen.exists_output hmap hnodup E P hdb outer
    obtain ⟨ns, hns, hcount, hvalues⟩ := @projectedNodes_show env sub _ _ _ _ _ _ _ (hshows ctx hctx) hd _ hes
    exact ⟨ns, hns, hcount, out, hout, hlength, hvalues⟩
  obtain ⟨E⟩ := (inferInstance : Nonempty Engine)
  obtain ⟨ns, hns, hcount, -⟩ := hshow E ⟨fun _ => true, fun _ => true⟩ ⟨schema, fun _ => [], by simp⟩ Names.none rfl
  refine ⟨ns, hns, hcount, fun n hn => ?_, fun E P db outer hdb => ?_⟩
  · -- no field of the query calls an aggregate function, so no operation on fields does
    have halike : Alike env sub (fun _ => False) (fun n _ => n.aggregates = true → False) ctx ctx :=
      { congruent := congruent_aggregates False
        queries := fun _ hfalse => hfalse.elim
        field := fun i n hn => ⟨n, hn, fun hcall => by
          rw [hopen.aggregates_known (hctx.known hmap hn)] at hcall
          cases hcall⟩
        literal := hliteral
        literal' := hliteral }
    have htyped : ∀ (type : DataType) (k _ : Node), (k.aggregates = true → False) →
        (typedIfNull env.dialect type k).aggregates = true → False := by
      intro type k _ hk
      unfold typedIfNull
      split
      · exact related_typedNull (congruent_aggregates False) env.dialect type
      · exact hk
    obtain ⟨ns', -, hrelated⟩ := matches_projectedNodes halike htyped (fun e he => queryFree_of_plain hd (hes e he))
      _ _ _ (hns {})
    obtain ⟨i, hi, rfl⟩ := List.mem_iff_getElem.mp hn
    rw [Bool.eq_false_iff]
    exact (List.forall₂_iff_get.mp hrelated).2 i hi (hrelated.length_eq ▸ hi)
  · obtain ⟨ns', hns', -, hout⟩ := hshow E P db outer hdb
    obtain rfl : ns' = ns := ((hns' {}).unique (hns {})).1
    exact hout

end

theorem values_eq_map {ρ : Type} (P : Patterns) (row : Row) (es : List (Scalar ρ)) :
    Scalar.values P row es = es.map (Scalar.value P row) := by
  induction es with
  | nil => rfl
  | cons e es ih => rw [Scalar.values, ih, List.map_cons]

/-- A projection that changes nothing gives the rows as they are. -/
theorem values_of_isIdentity {input : Rel} {projects : List Expr} {fields : RowType}
    (h : isIdentity input projects fields = true) (P : Patterns) {row : Row} (hrow : row.length = input.fields.length) :
    Scalar.values P row projects = row := by
  simp only [isIdentity, Bool.and_eq_true, beq_iff_eq, List.all_eq_true] at h
  obtain ⟨⟨hlength, hrefs⟩, -⟩ := h
  rw [values_eq_map]
  refine List.ext_getElem (by simp [hlength, hrow]) fun i hi hi' => ?_
  rw [List.length_map] at hi
  have href := hrefs (projects[i], i) (by simp [List.mk_mem_zipIdx_iff_getElem?, hi])
  rw [List.getElem_map]
  generalize projects[i] = e at href
  cases e <;> simp [Scalar.inputRef?] at href
  rw [href, Scalar.value, nth?_whole, List.getElem?_eq_getElem hi', Option.getD_some]

section

variable {input : Rel} {x : Result} {projects : List Expr} {names : List String} {distinct : Bool} {ids : List String}

/-- A projection is not put over distinct rows. -/
theorem flag_distinct_of_unwrapped (hx : Tracked input x)
    (h : (x.expecting [.select]).mustWrap env (.project input projects names distinct ids) = false) :
    x.node.flag "distinct" = false := by
  have hqualify : qualifyOverWindow (wrapCheck env (x.expecting [.select]) (.project input projects names distinct ids))
      ≠ some false := by simp [qualifyOverWindow, wrapCheck]
  have hrule := middleRule_ne_true (r := x.expecting [.select]) hx.used hqualify h
    (show distinctProjection ∈ middleRules by simp [middleRules])
  simpa [distinctProjection, wrapIf, wrapCheck, Result.expecting] using hrule

/-- A projection over a flat result converts if its expressions do. -/
theorem Flat.exists_projection (sub : Rel → ConvertM Node) (henv : env.NeverQualifies) (hx : Flat schema input x)
    (hnames : names.length = projects.length)
    (hconverts : ∀ s m s', Opening env (x.expecting [.select]) (.project input projects names distinct ids) s m s' →
      ∃ ns, (projects.mapM (projectedNode env sub ((x.expecting [.select]).contextOver env
        (.project input projects names distinct ids) m))).Gives s' ns s') (s : State) :
    ∃ r s', (projectResult env sub input projects distinct ids (.project input projects names distinct ids) x).Gives
      s r s' := by
  obtain ⟨name, hsingle, -⟩ := hx.single
  obtain ⟨m, t, hm⟩ := hx.exists_opening henv [.select] false (.project input projects names distinct ids)
    (registered s ids x.aliases)
  have hregister := (ConvertM.gives_registerCorrelations ids x.aliases () s (registered s ids x.aliases)).mpr rfl
  have hbuilder := (hsingle.expecting [.select] false).gives_builder henv
    (.project input projects names distinct ids) _ (registered s ids x.aliases) t |>.mpr ⟨m, hm, rfl⟩
  have hresult : ∀ (b : Builder) (s : State), ∃ r s', (b.result env).Gives s r s' :=
    fun b s => ⟨_, _, (ConvertM.gives_makeResult henv _ _ _ _ _ _ _).mpr ⟨rfl, rfl⟩⟩
  cases hidentity : isIdentity input projects (Rel.project input projects names distinct ids).fields with
  | true =>
    obtain ⟨r, s', hr⟩ := hresult (if distinct then ((x.expecting [.select]).builderOver env
      (.project input projects names distinct ids) m).setDistinct else (x.expecting [.select]).builderOver env
        (.project input projects names distinct ids) m) t
    refine ⟨r, s', ?_⟩
    simp only [projectResult, ConvertM.gives_bind, hidentity, if_true, ConvertM.gives_pure]
    exact ⟨(), _, hregister, _, _, hbuilder, _, _, ⟨rfl, rfl⟩, hr⟩
  | false =>
    obtain ⟨ns, hns⟩ := hconverts _ _ _ hm
    obtain ⟨items, hitems⟩ := @exists_addSelects (Rel.project input projects names distinct ids).fields ns [] (by
      rw [ConvertM.length_of_gives_mapM hns]
      simp [Rel.fields, hnames])
    obtain ⟨r, s', hr⟩ := hresult (if distinct then (((x.expecting [.select]).builderOver env
      (.project input projects names distinct ids) m).setSelect items).setDistinct else ((x.expecting
        [.select]).builderOver env (.project input projects names distinct ids) m).setSelect items) t
    refine ⟨r, s', ?_⟩
    simp only [projectResult, ConvertM.gives_bind, hidentity, Bool.false_eq_true, if_false, ConvertM.gives_lift,
      ConvertM.gives_pure]
    exact ⟨(), _, hregister, _, _, hbuilder, ns, t, hns, items, t, ⟨hitems, rfl⟩, _, t, ⟨rfl, rfl⟩, hr⟩

/-- What is opened for a projection may be extended, is not distinct, and is known by its columns or items. -/
theorem Faithful.opened_project (henv : env.NeverQualifies) (hx : Faithful schema input x) {m : Node}
    (hm : Opening env (x.expecting [.select]) (.project input projects names distinct ids) s m s') :
    OpenSelect schema input.fields m ∧ Returns schema (fun P db => input.bag P db.tableRows) m ∧ m.flag "distinct" = false
      ∧ Overlooks input.fields m false ((x.expecting [.select]).contextOver env
        (.project input projects names distinct ids) m) := by
  obtain ⟨hopen, hreturns⟩ := hx.opened henv (by simp) rfl (by simp) hm
  obtain ⟨name, hsingle, -⟩ := hx.flat.single
  have haliases : (x.expecting [.select]).aliases = [(name, input.fields)] := by
    rw [(hsingle.expecting _ _).aliases, show (x.expecting [.select]).fields = x.fields from rfl, hx.flat.fields]
  refine ⟨hopen, hreturns, ?_, ?_⟩
  · rcases hx.flat.opened henv hm with ⟨rfl, -, hwrap⟩ | ⟨item, rfl, -⟩
    · exact flag_distinct_of_unwrapped hx.flat.tracked hwrap
    · rfl
  · simpa [Result.expecting, isSort] using
      hopen.overlooks env haliases (.project input projects names distinct ids)

/-- **The list of a projection**, or none where it changes nothing: the query may be extended, and computes the
projected expressions. -/
theorem OpenSelect.projected (hd : env.dialect.AddsNumbers) (hmap : env.fieldMap = []) {m n : Node} {ctx : Context}
    (hopen : OpenSelect schema input.fields m) (hctx : Overlooks input.fields m false ctx)
    (hliteral : ∀ l, literalIn env ctx l = literalNode env.dialect l) (hnodup : input.fields.names.Nodup)
    (hplain : ∀ e ∈ projects, e.Plain input.fields.length) (hne : projects ≠ [])
    (hnames : names.length = projects.length) (hflag : m.flag "distinct" = false)
    (hitems : ∀ i n, ctx.field env i = .ok n → Item n)
    (hlist : (isIdentity input projects (Rel.project input projects names distinct ids).fields = true ∧ n = m)
      ∨ (isIdentity input projects (Rel.project input projects names distinct ids).fields = false
        ∧ ∃ ns s', (projects.mapM (projectedNode env sub ctx)).Gives s ns s'
          ∧ ns.length ≤ (Rel.project input projects names distinct ids).fields.length
          ∧ n = Convert.withList m (namedItems ns (Rel.project input projects names distinct ids).fields))) :
    OpenSelect schema (Rel.project input projects names distinct ids).fields n ∧ n.flag "distinct" = false
      ∧ Computes schema m n fun P row => Scalar.values P row projects := by
  have hfull : (Rel.project input projects names distinct ids).fields.length = projects.length := by
    simp [Rel.fields, hnames]
  obtain ⟨ns, hns, hcount, hcalls, hvalues⟩ := exists_projectedNodes sub hmap hd hopen hctx hliteral hnodup hplain
  rcases hlist with ⟨hidentity, rfl⟩ | ⟨-, ns', s₁, hns', -, rfl⟩
  · have hsame : (Rel.project input projects names distinct ids).fields.names = input.fields.names := by
      simp only [isIdentity, Bool.and_eq_true, beq_iff_eq] at hidentity
      exact hidentity.2
    refine ⟨hopen.congr hsame, hflag, fun _ _ _ => rfl, fun E P db outer hdb => ?_⟩
    obtain ⟨out, hout, hwidth, -⟩ := hvalues E P db outer hdb
    exact ⟨out, hout, by simp only [hout, values_of_isIdentity hidentity P (hwidth _)]⟩
  · obtain rfl : ns' = ns := (hns'.unique (hns s)).1
    have hproduced : ∀ n ∈ ns', Item n := Yields.mapM (fun e he _ _ _ hn =>
      item_projectedNode hitems (queryFree_of_plain hd (hplain e he)).readsOuter_eq_false hn) _ _ _ hns'
    obtain ⟨hlisted, hcomputes⟩ := hopen.withList (g := fun P row => Scalar.values P row projects)
      (hcount.trans hfull.symm) (List.ne_nil_of_length_pos (by rw [hfull]; exact List.length_pos_iff.mpr hne))
      hproduced hcalls fun E P db outer hdb => by
        obtain ⟨out, hout, -, hv⟩ := hvalues E P db outer hdb
        exact ⟨out, hout, hv⟩
    exact ⟨hlisted, by rw [Convert.withList, flag_set_of_ne _ _ (by decide), hflag], hcomputes⟩

/-- **A projection** computes a row from each row of the bag, and drops repetitions if they have to be distinct. -/
theorem Faithful.project (sub : Rel → ConvertM Node) (henv : env.NeverQualifies) (hmap : env.fieldMap = [])
    (hd : env.dialect.AddsNumbers) (hx : Faithful schema input x)
    (hprojects : ∀ e ∈ projects, e.Plain input.fields.length) (hne : projects ≠ [])
    (hlength : names.length = projects.length) (hnames : names.Nodup) (distinct : Bool) (ids : List String) (s : State) :
    ∃ r s', (projectResult env sub input projects distinct ids (.project input projects names distinct ids) x).Gives s r s'
      ∧ Faithful schema (.project input projects names distinct ids) r := by
  obtain ⟨r, s', hr⟩ := hx.flat.exists_projection sub henv hlength (fun s m s' hm => by
    obtain ⟨hopen, -, -, hctx⟩ := hx.opened_project henv hm
    obtain ⟨ns, hns, -⟩ := exists_projectedNodes sub hmap hd hopen hctx (literalIn_contextOver _ _ _)
      hx.distinct hprojects
    exact ⟨ns, hns s'⟩) s
  refine ⟨r, s', hr, ?_⟩
  have hflat := flat_project henv hmap hx.flat hlength
    (fun e he => (queryFree_of_plain hd (hprojects e he)).readsOuter_eq_false) hr
  obtain ⟨name, hsingle, -⟩ := hx.flat.single
  obtain ⟨y, m, s₁, s₂, n, rfl, hm, hlist, hrecords⟩ := hsingle.project_step henv hr
  obtain ⟨hopen, hreturns, hflag, hctx⟩ := hx.opened_project henv hm
  obtain ⟨hopen', hflag', hcomputes⟩ := hopen.projected hd hmap hctx (literalIn_contextOver _ _ _) hx.distinct hprojects
    hne hlength hflag (fun i n hn => hx.flat.item_of_field henv hmap hm hn) hlist
  -- dropping repetitions or not, the rows are those of the list
  have hnode := hrecords.node_eq
  obtain ⟨hdone, hflagged⟩ := hopen'.withDistinct hflag' distinct
  replace hcomputes := hcomputes.withDistinct hopen'.select distinct
  rw [← hnode] at hdone hflagged hcomputes
  refine .of_open hflat (by rwa [names_project hlength]) hdone.select.kind hdone ?_
  rw [Result.query_of_plain (hflat.shaped hdone.select.kind).plain]
  simpa only [hflagged, Rel.bag] using hreturns.computed hopen hflag hdone hcomputes

end

/-! ## Sorts -/

section

variable {fields : RowType} {m l : Node} {input : Rel} {x : Result} {collation : List Collation}

/-- Clauses other than FROM and the select list leave the columns of a query. -/
theorem columns_set (hkind : m.kind = .select) {key : String} (hkey : key ∉ ["from", "expressions"]) (a : Arg) :
    (m.set key (some a)).columns schema = m.columns schema := by
  simp only [List.mem_cons, List.not_mem_nil, or_false, not_or] at hkey
  rw [columns_select hkind, columns_select (by rw [kind_set, hkind]), frame_set hkind hkey.1, selectList?, selectList?,
    list?_set_of_ne _ _ hkey.2]

/-- A query whose columns may be spelled out has the same columns. -/
theorem columns_of_spelled (h : OpenSelect schema fields m) {ctx : Context} {root : Bool}
    (hl : Spelled env ctx root fields m l) : l.columns schema = fields.names := by
  unfold Spelled at hl
  split at hl
  · rename_i hstar
    obtain ⟨columns, hcolumns, -, rfl⟩ := hl
    have hfull : columns.length = fields.length := by simpa using length_of_mapM hcolumns
    have hlist : (withList m (namedItems columns fields)).selectList? = some (namedItems columns fields) := by
      simp [Convert.withList, selectList?, list?]
    rw [columns_select (by simp [Convert.withList, h.select.kind]), hlist]
    rcases selectColumns_namedItems hfull ((withList m (namedItems columns fields)).frame schema) with hnames | rfl
    · exact hnames
    · -- without columns the list is empty, which is a star again
      rcases h.form with ⟨-, own, hframe⟩ | ⟨ns, -, hne⟩
      · rw [List.length_nil, List.length_eq_zero_iff] at hfull
        rw [hfull, Convert.withList, frame_set h.select.kind (by decide), hframe]
        exact Frame.columns_single own _
      · exact absurd rfl hne
  · rw [hl]
    exact h.columns_eq

/-- A sort over a flat result converts at the top. -/
theorem Flat.exists_sorted (sub : Rel → ConvertM Node) (henv : env.NeverQualifies) (hmap : env.fieldMap = [])
    (hx : Flat schema input x)
    (hkeys : ∀ c ∈ collation, ∃ i < input.fields.length, c.key = (i : Nat)) (s : State) :
    ∃ r s', (sortResult env sub true collation none none (.sort input collation none none) x).Gives s r s' := by
  obtain ⟨name, hsingle, -⟩ := hx.single
  obtain ⟨m, t, hm⟩ := hx.exists_opening henv [.orderBy, .fetch, .offset] false (.sort input collation none none) s
  have hbuilder := (hsingle.expecting [.orderBy, .fetch, .offset] false).gives_builder henv
    (.sort input collation none none) _ s t |>.mpr ⟨m, hm, rfl⟩
  obtain ⟨keys, hordered⟩ : ∃ keys, collationsNodes env ((x.expecting [.orderBy, .fetch, .offset]).contextOver env
      (.sort input collation none none) m) collation = .ok keys := by
    refine exists_collationsNodes fun k hk => ?_
    obtain ⟨c, hc, rfl⟩ := List.mem_map.mp hk
    obtain ⟨i, hi, hkey⟩ := hkeys c hc
    rw [hkey]
    exact hx.exists_field henv hmap hm hi
  obtain ⟨b, hb⟩ : ∃ b, (ordered env collation ((x.expecting [.orderBy, .fetch, .offset]).builderOver env
      (.sort input collation none none) m)).Gives t b t := by
    simp only [ordered, ConvertM.gives_bind, ConvertM.gives_lift]
    by_cases hempty : keys.isEmpty = true
    · exact ⟨_, keys, t, ⟨hordered, rfl⟩, by rw [if_pos hempty]; exact (ConvertM.gives_pure _ _ _ _).mpr ⟨rfl, rfl⟩⟩
    · have hclause : ((x.expecting [.orderBy, .fetch, .offset]).builderOver env (.sort input collation none none)
          m).clauses.contains .orderBy = true := contains_builderOver (by simp [Result.expecting]) _ m
      exact ⟨_, keys, t, ⟨hordered, rfl⟩, by
        rw [if_neg hempty, Builder.setOrderBy, Builder.put, if_pos hclause]
        exact (ConvertM.gives_lift _ _ _ _).mpr ⟨rfl, rfl⟩⟩
  obtain ⟨r, s', hr⟩ : ∃ r s', (b.result env).Gives t r s' :=
    ⟨_, _, (ConvertM.gives_makeResult henv _ _ _ _ _ _ _).mpr ⟨rfl, rfl⟩⟩
  refine ⟨r, s', ?_⟩
  rw [sortResult_eq]
  simp only [ConvertM.gives_bind]
  have hpure : ∀ b : Builder, (Pure.pure b : ConvertM Builder).Gives t b t := fun b =>
    (ConvertM.gives_pure _ _ _ _).mpr ⟨rfl, rfl⟩
  exact ⟨_, t, hbuilder, _, t, hpure _, b, t, hb, b, t, hpure b, b, t, hpure b, hr⟩

/-- At the top the query of a sort gets its keys only, which leave its bag. -/
theorem Faithful.returns_sorted (henv : env.NeverQualifies) (hmap : env.fieldMap = []) (hx : Faithful schema input x)
    {r : Result} (hr : (sortResult env sub true collation none none (.sort input collation none none) x).Gives s r s') :
    Returns schema (fun P db => input.bag P db.tableRows) r.query := by
  obtain ⟨name, hsingle, -⟩ := hx.flat.single
  obtain ⟨z, m, s₁, l, keys, limit, s₂, skip, s₃, rfl, hm, hl, hcollations, hlimit, hskip, hrecords⟩ :=
    hsingle.sort_step henv hr
  obtain ⟨rfl, -⟩ := (ConvertM.gives_pure _ _ _ _).mp hlimit
  obtain ⟨rfl, -⟩ := (ConvertM.gives_pure _ _ _ _).mp hskip
  obtain rfl : l = m := hl
  obtain ⟨hopen, hreturns⟩ := hx.opened henv (by simp) rfl (by simp) hm
  have haliases : (x.expecting [.orderBy, .fetch, .offset]).aliases = [(name, input.fields)] := by
    rw [(hsingle.expecting _ _).aliases, show (x.expecting [.orderBy, .fetch, .offset]).fields = x.fields from rfl,
      hx.flat.fields]
  have hctx := hopen.overlooks env haliases (.sort input collation none none)
  have hnode : r.node = if keys.isEmpty then l else l.set "order" (some (.node (Node.order keys))) := hrecords.node_eq
  rw [Result.query_of_plain ((flat_sort henv hmap hx.flat hr).shaped (by
    rw [hnode]
    split
    · exact hopen.select.kind
    · rw [kind_set, hopen.select.kind])).plain, hnode]
  split
  · exact hreturns
  · intro E P db outer hdb
    obtain ⟨hcalls, hvalued⟩ := hopen.sortKeys hmap hctx hcollations
    obtain ⟨v, hv, hbag⟩ := hreturns E P db outer hdb
    obtain ⟨out, hout, -⟩ := hopen.exists_output hmap hx.distinct E P hdb outer
    obtain ⟨w, hw, hsame⟩ := bag_of_order hopen.select hopen.unsorted hcalls (hvalued hx.distinct E P db outer hdb)
      hout hv
    exact ⟨w, hw, fun f => (hsame f).trans (hbag f)⟩

/-- The query of a sort has the columns of the input, spelled out or not. -/
theorem Faithful.columns_sorted (henv : env.NeverQualifies) (hmap : env.fieldMap = []) (hx : Faithful schema input x)
    {root : Bool} {r : Result}
    (hr : (sortResult env sub root collation none none (.sort input collation none none) x).Gives s r s') :
    r.query.columns schema = input.fields.names := by
  obtain ⟨name, hsingle, -⟩ := hx.flat.single
  obtain ⟨z, m, s₁, l, keys, limit, s₂, skip, s₃, rfl, hm, hl, -, -, -, hrecords⟩ := hsingle.sort_step henv hr
  obtain ⟨hopen, -⟩ := hx.opened henv (by simp) rfl (by simp) hm
  have hlkind : l.kind = .select := by
    unfold Spelled at hl
    split at hl
    · obtain ⟨columns, -, -, rfl⟩ := hl
      simp [withList, hopen.select.kind]
    · rw [hl, hopen.select.kind]
  obtain ⟨hkind, hcolumns⟩ : (sorted l keys limit skip).kind = .select
      ∧ (sorted l keys limit skip).columns schema = l.columns schema :=
    sorted_of_set (P := fun n => n.kind = .select ∧ n.columns schema = l.columns schema) ⟨hlkind, rfl⟩
      (fun q key a hkey hq => ⟨by rw [kind_set, hq.1], by
        rw [columns_set hq.1, hq.2]
        simp only [finishingKeys, List.mem_cons, List.not_mem_nil, or_false] at hkey
        rcases hkey with rfl | rfl | rfl <;> decide⟩) keys limit skip
  have hnode := hrecords.node_eq
  rw [Result.query_of_plain ((flat_sort henv hmap hx.flat hr).shaped (hnode ▸ hkind)).plain, hnode, hcolumns]
  exact columns_of_spelled hopen hl

/-- **A sort** leaves the bag. -/
theorem Faithful.sort (sub : Rel → ConvertM Node) (henv : env.NeverQualifies) (hmap : env.fieldMap = [])
    (hx : Faithful schema input x) (hkeys : ∀ c ∈ collation, ∃ i < input.fields.length, c.key = (i : Nat)) (root : Bool)
    (s : State) :
    ∃ r s', (sortResult env sub root collation none none (.sort input collation none none) x).Gives s r s'
      ∧ Faithful schema (.sort input collation none none) r := by
  obtain ⟨y, t, hy⟩ := hx.flat.exists_sorted sub henv hmap hkeys s
  have hreturns := hx.returns_sorted henv hmap hy
  -- below another operator the query has the same rows as at the top
  obtain ⟨r, s', hr, hrows⟩ : ∃ r s', (sortResult env sub root collation none none (.sort input collation none none)
      x).Gives s r s' ∧ Returns schema (fun P db => input.bag P db.tableRows) r.query := by
    cases root with
    | true => exact ⟨y, t, hy, hreturns⟩
    | false =>
      obtain ⟨r, s', hr⟩ := hx.flat.exists_sortResult henv hmap hy
      refine ⟨r, s', hr, fun E P db outer hdb => ?_⟩
      rw [rows_sort_atTop henv hmap hx.flat hx.distinct hy hr hdb outer]
      exact hreturns E P db outer hdb
  exact ⟨r, s', hr, flat_sort henv hmap hx.flat hr, hx.distinct, hx.columns_sorted henv hmap hr, hrows, by simp [isSort]⟩

end

end AlgebraSql.Convert
