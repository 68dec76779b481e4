import AlgebraSql.Proofs.ClausesKept
import AlgebraSql.Proofs.FlatResults

/-!
# Flat plans — every operator but a join gives a flat result.

One lemma for each operator over the invariant of results; the run over the plan is an induction over
these steps.
-/

namespace AlgebraSql.Convert

open Sql Node

variable {env : Env} {sub : Rel → ConvertM Node} {s s' : State} {schema : Schema}

/-- An operator of a plan without joins: tables have the columns of their scans, rows and lists of
expressions are as wide as they are named, expressions read no row around the plan, an aggregation has
a column, and a set operation two inputs. -/
def joinFree (schema : Schema) : Rel → Bool
  | .scan table fields => tableColumns schema table == fields.names
  | .values fields tuples => tuples.all (·.length == fields.length)
  | .project _ projects names _ _ =>
    names.length == projects.length && projects.all fun e => !readsOuter e
  | .aggregate input keys sets calls => !(Rel.aggregate input keys sets calls).fields.isEmpty
  | .setOp _ _ inputs => 2 ≤ inputs.length
  | .filter .. | .sort .. | .window .. => true
  | .join .. | .tableFunction .. | .rowPattern .. => false

/-! ## Recording queries -/

/-- A query without named inputs that is recorded is a flat result. -/
theorem Flat.of_query {rel : Rel} {n : Node} {clauses : List Clause} {name : String}
    (htracked : Tracked rel (recorded n clauses rel none name)) (hplain : isPlainQuery n = true)
    (hfields : declaredFields rel n = rel.fields)
    (hshaped : n.kind = .select → Shaped schema rel.fields n)
    (hcolumns : n.columns schema = rel.fields.names ∨ rel.fields = []) (hwide : Wide schema n)
    (hlate : ∃ c ∈ clauses, 1 ≤ c.rank) : Flat schema rel (recorded n clauses rel none name) := by
  have hnode := recorded_node n clauses rel none name
  have hquery : (recorded n clauses rel none name).query = n := by
    rw [Result.query_of_plain (by rw [hnode]; exact hplain), hnode]
  refine ⟨htracked, ⟨name, Result.single_recorded _ _ _ _ _ (by simp), fun _ => ?_⟩, ?_, .inl ?_, ?_, ?_, ?_, ?_⟩
  · exact needed_recorded hplain _ _ _ _
  · rw [recorded_fields, hfields]
  · rw [hnode]
    exact hplain
  · rw [hnode]
    exact hshaped
  · rw [hquery]
    exact hcolumns
  · rw [hquery]
    exact hwide
  · intro _
    rw [recorded_clauses]
    exact hlate

/-- A node that is read as it is, and is recorded without named inputs, is a flat result. -/
theorem Flat.of_leaf {rel : Rel} {n : Node} {clauses : List Clause} {name : String}
    (htracked : Tracked rel (recorded n clauses rel none name))
    (hfields : declaredFields rel n = rel.fields)
    (hleaf : Leaf schema rel.fields.names n (recorded n clauses rel none name).neededAlias) :
    Flat schema rel (recorded n clauses rel none name) := by
  have hnode := recorded_node n clauses rel none name
  have hplain : isPlainQuery (recorded n clauses rel none name).node = false := by
    rw [hnode]
    exact hleaf.not_plainQuery
  have hkind : n.kind ≠ .select := by
    rcases (isReadable_iff n).mp hleaf.isReadable with hk | hk | ⟨hk | hk, -⟩ <;> simp [hk]
  have hquery : (recorded n clauses rel none name).query = selectFrom n := by
    rw [Result.query, hplain, if_neg (by simp), hnode]
  refine ⟨htracked, ⟨name, Result.single_recorded _ _ _ _ _ (by simp), fun h => ?_⟩, ?_, .inr ?_, ?_, ?_, ?_, ?_⟩
  · rw [hplain] at h
    cases h
  · rw [recorded_fields, hfields]
  · rw [hnode]
    exact hleaf
  · rw [hnode]
    exact fun h => absurd h hkind
  · rw [hquery]
    exact .inl hleaf.shows.2
  · rw [hquery]
    exact wide_select rfl
  · rw [hnode]
    exact fun h => absurd h hkind

/-! ## Leaves -/

/-- **A table** gives a flat result. -/
theorem flat_scan (henv : env.NeverQualifies) {table : List String} {fields : RowType} {r : Result}
    (hcolumns : tableColumns schema table = fields.names)
    (h : (scanResult env table (.scan table fields)).Gives s r s') : Flat schema (.scan table fields) r := by
  have htracked := (scanResult_built h).2
  simp only [scanResult, ConvertM.gives_bind, ConvertM.gives_lift, ConvertM.gives_makeResult henv] at h
  obtain ⟨t, s₁, ⟨ht, rfl⟩, rfl, rfl⟩ := h
  obtain ⟨t', own, ht', hkind, -, haliases, -⟩ := table?_traits (show table ≠ [] by rintro rfl; cases ht)
  obtain rfl : t' = t := by simpa [ht'] using ht
  exact .of_leaf htracked (declaredFields_table hkind haliases) (.table _ ht hcolumns)

/-- The query for a table is the table. -/
theorem kind_scanResult {table : List String} {fields : RowType} {r : Result}
    (h : (scanResult env table (.scan table fields)).Gives s r s') : r.node.kind = .table := by
  obtain ⟨t, own, ht, hkind, -⟩ := table?_traits (show table ≠ [] by
    rintro rfl
    cases (scanResult_built h).1)
  obtain rfl : t = r.node := by simpa [ht] using (scanResult_built h).1
  exact hkind

/-- Queries of one shape and width that are put together from left to right. -/
theorem setOperations_flat (op : SetOperator) (distinct : Bool) {first : Node} (rest : List Node)
    (hfirst : isPlainQuery first = true ∧ first.kind = .select) (hwide : ∀ n ∈ first :: rest, Wide schema n) :
    let folded := rest.foldl (fun u n => Node.setOperation (setKind op) u n distinct) first
    isPlainQuery folded = true ∧ Wide schema folded ∧ folded.columns schema = first.columns schema
      ∧ leftmost folded = some first ∧ (folded.kind = .select → folded = first) := by
  have hkinds := setKind_traits op
  have hstep : ∀ (ms : List Node) (u : Node), isPlainQuery u = true → Wide schema u →
      (∀ m ∈ ms, Wide schema m) →
      let folded := ms.foldl (fun u n => Node.setOperation (setKind op) u n distinct) u
      isPlainQuery folded = true ∧ Wide schema folded ∧ folded.columns schema = u.columns schema
        ∧ (folded.kind = .select → folded = u) := by
    intro ms
    induction ms with
    | nil => exact fun u hu hwide _ => ⟨hu, hwide, rfl, fun _ => rfl⟩
    | cons m ms ih =>
      intro u hu hwide hms
      have hset : isPlainQuery (Node.setOperation (setKind op) u m distinct) = true := by
        simp [isPlainQuery_iff, Node.setOperation, hkinds.1, hasAlias, child?]
      obtain ⟨hplain, hwides, hcolumns, hkind⟩ := ih _ hset (wide_setOperation hwide (hms m (by simp)))
        fun k hk => hms k (by simp [hk])
      refine ⟨hplain, hwides, hcolumns.trans ?_, fun hselect => ?_⟩
      · exact columns_setOperation (n := Node.setOperation (setKind op) u m distinct) hkinds.2.2.1
          (by simp [Node.setOperation, child?])
      · have hsame := hkind hselect
        rw [List.foldl_cons, hsame] at hselect
        exact absurd hselect hkinds.2.2.2
  obtain ⟨hplain, hwides, hcolumns, hkind⟩ := hstep rest first hfirst.1 (hwide first (by simp))
    fun n hn => hwide n (by simp [hn])
  refine ⟨hplain, hwides, hcolumns, ?_, hkind⟩
  rw [leftmost_foldl hkinds.1]
  exact leftmost_eq (by simp [isSetOperation, hfirst.2, Kind.isSetOperation])

/-- Named expressions without a table are the items of a list. -/
theorem listed_namedSelect {fields : RowType} {ns : List Node} (hlength : ns.length = fields.length)
    (hkinds : ∀ n ∈ ns, n.kind ∉ partKinds) : Listed fields (namedSelect fields ns) ns := by
  have hitems : List.zipWith (fun (f : Field) n => Node.aliased n f.name) fields ns = namedItems ns fields := by
    refine List.ext_getElem (by simp [namedItems, Nat.min_comm]) fun i hi hi' => ?_
    have hin : i < ns.length := by
      simp only [List.length_zipWith] at hi
      omega
    have hnone : ns[i].aliasOf? = none :=
      aliasOf?_of_kind (hkinds _ (List.getElem_mem _))
    simp [namedItems, namedItem, hnone]
  exact ⟨by simp [namedSelect, selectItems, selectList?, list?, hitems], hlength,
    fun m hm => produced_item.of_kind (hkinds m hm)⟩

/-- Named expressions without a table have the shape of the columns that name them. -/
theorem shaped_namedSelect {fields : RowType} {ns : List Node} (hlength : ns.length = fields.length)
    (hkinds : ∀ n ∈ ns, n.kind ∉ partKinds) : Shaped schema fields (namedSelect fields ns) := by
  have hlisted := listed_namedSelect hlength hkinds
  have hlist := hlisted.list
  have hkind : (namedSelect fields ns).kind = .select := rfl
  refine ⟨hkind, ?_, .inr ⟨ns, hlisted⟩, ?_, ?_, ?_⟩
  · simp [isPlainQuery, namedSelect, selectItems, hasAlias, child?]
  · simp [hlist]
  · rw [columns_select hkind, hlist]
    exact selectColumns_namedItems hlength _
  · simp [groupConditions, namedSelect, selectItems, child?]

theorem kinds_literalNodes {d : Dialect} {ls : List Literal} {ns : List Node}
    (h : literalNodes d ls = .ok ns) : ns.length = ls.length ∧ ∀ n ∈ ns, n.kind ∉ partKinds := by
  induction ls generalizing ns with
  | nil =>
    obtain rfl : [] = ns := by simpa [literalNodes] using h
    simp
  | cons l ls ih =>
    simp only [literalNodes, bind_eq_ok_iff, pure_eq_ok_iff] at h
    obtain ⟨n, hn, ns, hns, rfl⟩ := h
    obtain ⟨hlength, hkinds⟩ := ih hns
    refine ⟨by simp [hlength], fun m hm => ?_⟩
    rcases List.mem_cons.mp hm with rfl | hm
    · exact kind_literalNode hn
    · exact hkinds m hm

/-- A star under a condition has the shape of its FROM item. -/
theorem shaped_selectWhere {fields : RowType} {item condition : Node} {columns : List String}
    (hframe : ∃ own, item.frame schema = [(own, columns)]) (hcolumns : columns = fields.names ∨ fields = []) :
    Shaped schema fields (Node.selectWhere item condition) := by
  obtain ⟨own, hframe⟩ := hframe
  rw [selectWhere_eq]
  refine Shaped.set_of_ne ⟨rfl, isPlainQuery_selectFrom item, .inl (by simp [selectFrom, selectList?, list?]),
    fun _ => ⟨own, columns, by rw [(isStar_selectFrom item).frame_eq, hframe]⟩, ?_,
    by simp [groupConditions, selectFrom, child?]⟩ _ (by decide)
  rw [columns_selectFrom, hframe, Frame.columns_single]
  exact hcolumns

/-- **Constant rows** give a flat result. -/
theorem flat_values (henv : env.NeverQualifies) {fields : RowType} {tuples : List (List Literal)}
    {r : Result} (hwidth : ∀ t ∈ tuples, t.length = fields.length)
    (h : (valuesResult env fields tuples (.values fields tuples)).Gives s r s') :
    Flat schema (.values fields tuples) r := by
  have htracked := (valuesResult_built h).2
  simp only [valuesResult, ConvertM.gives_bind, ConvertM.gives_nextName, ConvertM.gives_lift,
    ConvertM.gives_makeResult henv] at h
  obtain ⟨name, s₁, ⟨hname, rfl⟩, n, s₂, ⟨hn, rfl⟩, rfl, rfl⟩ := h
  have hlate : ∃ c ∈ [Clause.select], 1 ≤ c.rank := ⟨.select, by simp, by decide⟩
  have hselect : Shaped schema (Rel.values fields tuples).fields n →
      Flat schema (.values fields tuples) (recorded n [.select] (.values fields tuples) none
        (givenName s.usedNames n)) := fun hshaped =>
    .of_query htracked hshaped.plain hshaped.declaredFields_eq (fun _ => hshaped) hshaped.columns
      (wide_select hshaped.kind) hlate
  split at hn
  · unfold aliasedValues at hn
    split at hn
    · obtain rfl := (pure_eq_ok_iff _ _).mp hn
      exact hselect (shaped_selectWhere (exists_frame_valuesItem name fields.names _) (.inl rfl))
    · simp only [bind_eq_ok_iff, pure_eq_ok_iff] at hn
      obtain ⟨rows, hrows, rfl⟩ := hn
      have hne : name ≠ "" := by
        rw [← hname]
        exact UsedNames.unique_ne_empty_of_ne (by decide)
      refine .of_leaf (n := valuesItem name fields.names rows) htracked (declaredFields_valuesItem name rows) ?_
      -- the name was free, so it stays
      have hgiven : givenName s.usedNames (valuesItem name fields.names rows) = name := by
        rw [givenName, aliasOf?_valuesItem hne, Option.getD_some]
        refine UsedNames.unique_of_free ?_
        rw [← hname]
        exact UsedNames.has_unique _ _
      have hneeded : (recorded (valuesItem name fields.names rows) [.select] (.values fields tuples) none
          (givenName s.usedNames (valuesItem name fields.names rows))).neededAlias = none := by
        simp [recorded, hgiven, aliasOf?_valuesItem hne]
      change Leaf schema fields.names (valuesItem name fields.names rows) (recorded (valuesItem name fields.names rows)
        [.select] (.values fields tuples) none
          (givenName s.usedNames (valuesItem name fields.names rows))).neededAlias
      rw [hneeded]
      refine .values name (forall_of_mapM hrows fun t ht row hrow => ?_)
      simp only [bind_eq_ok_iff, pure_eq_ok_iff] at hrow
      obtain ⟨ns, hns, rfl⟩ := hrow
      obtain ⟨hlength, hkinds⟩ := kinds_literalNodes hns
      refine ⟨ns, rfl, ?_, fun m hm => produced_oneValued.of_kind (hkinds m hm)⟩
      rw [hlength, hwidth t ht]
      simp [RowType.names]
  · simp only [unionValues, bind_eq_ok_iff] at hn
    obtain ⟨selects, hselects, hn⟩ := hn
    have hshaped : ∀ m ∈ selects, Shaped schema fields m :=
      forall_of_mapM hselects fun t ht m hm => by
        simp only [bind_eq_ok_iff, pure_eq_ok_iff] at hm
        obtain ⟨ns, hns, rfl⟩ := hm
        obtain ⟨hlength, hkinds⟩ := kinds_literalNodes hns
        exact shaped_namedSelect (by rw [hlength, hwidth t ht]) hkinds
    cases selects with
    | nil =>
      have hnulls : Shaped schema fields (namedSelect fields (fields.map fun f => typedNull env.dialect f.type)) :=
        shaped_namedSelect (by simp) fun m hm => by
          obtain ⟨f, -, rfl⟩ := List.mem_map.mp hm
          exact kind_typedNull _ _
      simp only [asFromItem_of_plainQuery hnulls.plain, bind_eq_ok_iff, pure_eq_ok_iff] at hn
      obtain ⟨item, hitem, rfl⟩ := hn
      cases hitem
      exact hselect (shaped_selectWhere (shows_derived _ (some name)).frame hnulls.columns)
    | cons first rest =>
      obtain rfl := (pure_eq_ok_iff _ _).mp hn
      have hfirst := hshaped first (by simp)
      have hunion := setOperations_flat .union false rest ⟨hfirst.plain, hfirst.kind⟩
        fun m hm => show Wide schema m from wide_select (hshaped m hm).kind
      simp only [setKind] at hunion
      obtain ⟨hplain, hwide, hcolumns, hleft, hkind⟩ := hunion
      refine .of_query htracked hplain ?_ (fun hk => ?_) ?_ hwide hlate
      · refine declaredFields_eq fun m hm => ?_
        obtain rfl : first = m := by simpa [hleft] using hm
        exact hfirst.declaredNames_eq
      · rw [hkind hk]
        exact hfirst
      · rw [hcolumns]
        exact hfirst.columns

/-! ## Operators on one input -/

/-- A condition in one of its clauses leaves the shape of a query. -/
theorem Shaped.withCondition {fields : RowType} {m : Node} (h : Shaped schema fields m) (clause : Clause)
    (c : Node) : Shaped schema fields (withCondition clause m c) := by
  unfold Convert.withCondition
  split
  · exact h.set _ (by decide) (by simp [groupConditions])
  · exact h.set _ (by decide) (by simp [groupConditions])
  · exact h.set_of_ne _ (by decide)

/-- **A filter** over a flat result gives one. -/
theorem flat_filter (henv : env.NeverQualifies) {input : Rel} {condition : Expr} {ids : List String}
    {x r : Result} (hx : Flat schema input x)
    (h : (filterResult env sub input condition ids (.filter input condition ids) x).Gives s r s') :
    Flat schema (.filter input condition ids) r := by
  have htracked := (filterResult_adds hx.tracked h).2
  obtain ⟨name, hsingle, -⟩ := hx.single
  obtain ⟨y, m, s₁, s₂, c, s₃, rfl, hm, -, hrecords⟩ := hsingle.filter_step henv h
  have hshaped : Shaped schema (Rel.filter input condition ids).fields m := by
    rw [Rel.fields]
    exact hx.shaped_opened henv hm
  refine .of_records hrecords htracked (hshaped.withCondition _ c)
    ⟨filterClause env input condition, by simp [Result.expecting], ?_⟩
  rcases filterClause_three env input condition with hclause | hclause | hclause <;> rw [hclause] <;> decide

/-- The columns of a projection have its names. -/
theorem names_project {input : Rel} {projects : List Expr} {names : List String} {distinct : Bool} {ids : List String}
    (hnames : names.length = projects.length) : (Rel.project input projects names distinct ids).fields.names = names := by
  refine List.ext_getElem (by simp [Rel.fields, RowType.names, hnames]) fun i hi hi' => ?_
  simp [Rel.fields, RowType.names]

/-- **A projection** over a flat result gives one. -/
theorem flat_project (henv : env.NeverQualifies) (hmap : env.fieldMap = []) {input : Rel}
    {projects : List Expr} {names : List String} {distinct : Bool} {ids : List String} {x r : Result}
    (hx : Flat schema input x) (hnames : names.length = projects.length)
    (houter : ∀ e ∈ projects, readsOuter e = false)
    (h : (projectResult env sub input projects distinct ids
      (.project input projects names distinct ids) x).Gives s r s') :
    Flat schema (.project input projects names distinct ids) r := by
  have htracked := (projectResult_sets hx.tracked h).2
  obtain ⟨name, hsingle, -⟩ := hx.single
  obtain ⟨y, m, s₁, s₂, n, rfl, hm, hlist, hrecords⟩ := hsingle.project_step henv h
  have hopened := hx.shaped_opened henv hm
  have hshaped : Shaped schema (Rel.project input projects names distinct ids).fields n := by
    rcases hlist with ⟨hidentity, rfl⟩ | ⟨-, ns, s₃, hns, -, rfl⟩
    · simp only [isIdentity, Bool.and_eq_true, beq_iff_eq] at hidentity
      exact hopened.congr hidentity.2
    · refine hopened.withList ?_ ?_
      · rw [ConvertM.length_of_gives_mapM hns]
        simp [Rel.fields, hnames]
      · exact Yields.mapM (fun e he _ _ _ hn =>
          item_projectedNode (fun i n hn => hx.item_of_field henv hmap hm hn) (houter e he) hn) _ _ _ hns
  refine .of_records hrecords htracked ?_ ⟨.select, by simp [Result.expecting], by decide⟩
  split
  · exact hshaped.set_of_ne _ (by decide)
  · exact hshaped

/-- The keys and the aggregates of an aggregation are items, one for each of its columns. -/
theorem Flat.items_of_aggregate (henv : env.NeverQualifies) (hmap : env.fieldMap = []) {input : Rel}
    {keys : List Ordinal} {sets : List (List Ordinal)} {calls : List AggregateCall} {x : Result}
    (hx : Flat schema input x) {expected : List Clause} {ignores : Bool} {m : Node}
    (hm : Opening env (x.expecting expected ignores) (.aggregate input keys sets calls) s m s') {ks as : List Node}
    (hks : keys.mapM (((x.expecting expected ignores).contextOver env (.aggregate input keys sets calls) m).field env)
      = .ok ks)
    (has : calls.mapM (aggregateNode env ((x.expecting expected ignores).contextOver env
      (.aggregate input keys sets calls) m)) = .ok as)
    (hlength : ks.length + as.length ≤ (Rel.aggregate input keys sets calls).fields.length) :
    (ks ++ as).length = (Rel.aggregate input keys sets calls).fields.length ∧ ∀ n ∈ ks ++ as, Item n := by
  refine ⟨?_, fun n hn => ?_⟩
  · have hbound := length_aggregateFields input keys sets calls
    rw [← length_of_mapM hks, ← length_of_mapM has] at hbound
    rw [List.length_append]
    omega
  · rcases List.mem_append.mp hn with hn | hn
    · exact forall_of_mapM hks (fun k _ n hn => hx.item_of_field henv hmap hm hn) n hn
    · exact forall_of_mapM has (fun call _ n hn => item_aggregateNode hn) n hn

/-- **An aggregation** with a column over a flat result gives one. -/
theorem flat_aggregate (henv : env.NeverQualifies) (hmap : env.fieldMap = []) {input : Rel}
    {keys : List Ordinal} {sets : List (List Ordinal)} {calls : List AggregateCall} {x r : Result}
    (hx : Flat schema input x) (hfields : (Rel.aggregate input keys sets calls).fields ≠ [])
    (h : (aggregateResult env keys sets calls (.aggregate input keys sets calls) x).Gives s r s') :
    Flat schema (.aggregate input keys sets calls) r := by
  have htracked := (aggregateResult_sets hx.tracked h).2
  obtain ⟨name, hsingle, -⟩ := hx.single
  obtain ⟨y, m, s₁, ks, gs, as, rfl, hm, hks, -, has, hlength, hrecords⟩ := hsingle.aggregate_step henv h
  obtain ⟨hfull, hitems⟩ := hx.items_of_aggregate henv hmap hm hks has hlength
  have hlisted := (hx.shaped_opened henv hm).withList hfull hitems
  have hne : (namedItems (ks ++ as) (Rel.aggregate input keys sets calls).fields).isEmpty = false := by
    rw [List.isEmpty_eq_false_iff, ← List.length_pos_iff, length_namedItems hfull.le, hfull,
      List.length_pos_iff]
    exact hfields
  refine .of_records hrecords htracked ?_ ⟨.groupBy, by simp [Result.expecting], by decide⟩
  simp only [aggregated, hne, Bool.false_eq_true, if_false]
  split
  · exact hlisted
  · exact hlisted.set_of_ne _ (by decide)

/-- The fields of the input and the windowed calls are as many as the columns. -/
theorem length_of_window {input : Rel} {groups : List (WindowGroup Expr)} {constants : List Literal}
    {names : List String} {ctx : Context} {width : Ordinal} {calls : List (List Node)} {columns : List Node}
    (hcalls : (groups.mapM (windowGroupNodes env sub ctx constants width)).Gives s calls s')
    (hcolumns : (List.range input.fields.length).mapM (fun (i : Nat) => ctx.field env i) = .ok columns) :
    (columns ++ calls.flatten).length = (Rel.window input groups constants names).fields.length := by
  have hwidth := length_of_mapM hcolumns
  have hlengths : List.Forall₂ (fun g (ns : List Node) => ns.length = g.calls.length) groups calls :=
    ConvertM.forall₂_of_gives_mapM (fun g _ s ns s' hg => length_windowGroupNodes hg) hcalls
  have hwindowed := length_windowFields hlengths
  simp only [List.length_range] at hwidth
  simp [Rel.fields, Rel.renameFirst, ← hwindowed, hwidth]

/-- **Windowed calls** over a flat result give one. -/
theorem flat_window (henv : env.NeverQualifies) (hmap : env.fieldMap = []) {input : Rel}
    {groups : List (WindowGroup Expr)} {constants : List Literal} {names : List String} {x r : Result}
    (hx : Flat schema input x)
    (h : (windowResult env sub input groups constants (.window input groups constants names) x).Gives
      s r s') :
    Flat schema (.window input groups constants names) r := by
  have htracked := (windowResult_sets hx.tracked h).2
  obtain ⟨name, hsingle, -⟩ := hx.single
  obtain ⟨y, m, s₁, s₂, calls, columns, rfl, hm, hcalls, hcolumns, -, hrecords⟩ :=
    hsingle.window_step henv h
  have hfull : (columns ++ calls.flatten).length = (Rel.window input groups constants names).fields.length :=
    length_of_window hcalls hcolumns
  have hitems : ∀ n ∈ columns ++ calls.flatten, Item n := by
    intro n hn
    rcases List.mem_append.mp hn with hn | hn
    · exact forall_of_mapM hcolumns (fun i _ n hn => hx.item_of_field henv hmap hm hn) n hn
    · obtain ⟨ns, hns, hn⟩ := List.mem_flatten.mp hn
      exact Yields.mapM (fun _ _ _ _ _ hg => item_windowGroupNodes hg) _ _ _ hcalls ns hns n hn
  exact .of_records hrecords htracked ((hx.shaped_opened henv hm).withList hfull hitems)
    ⟨.select, by simp [Result.expecting], by decide⟩

/-- The clauses of a sort leave the shape of a query. -/
theorem Shaped.sorted {fields : RowType} {m : Node} (h : Shaped schema fields m) (keys : List Node)
    (limit skip : Option Node) : Shaped schema fields (sorted m keys limit skip) := by
  refine sorted_of_set h (fun q key a hkey hq => hq.set_of_ne a ?_) keys limit skip
  simp only [finishingKeys, List.mem_cons, List.not_mem_nil, or_false] at hkey
  rcases hkey with rfl | rfl | rfl <;> decide

/-- A query with a select list that is spelled out has its shape. -/
theorem Shaped.spelled {fields : RowType} {m l : Node} {ctx : Context} {root : Bool}
    (h : Shaped schema fields m) (hitem : ∀ i n, ctx.field env i = .ok n → Item n)
    (hl : Spelled env ctx root fields m l) : Shaped schema fields l := by
  unfold Spelled at hl
  split at hl
  · obtain ⟨columns, hcolumns, -, rfl⟩ := hl
    exact h.withList (by simpa using length_of_mapM hcolumns)
      (forall_of_mapM hcolumns fun i _ n hn => hitem _ n hn)
  · rw [hl]
    exact h

/-- **A sort** over a flat result gives one. -/
theorem flat_sort (henv : env.NeverQualifies) (hmap : env.fieldMap = []) {input : Rel} {root : Bool}
    {collation : List Collation} {offset fetch : Option Expr} {x r : Result} (hx : Flat schema input x)
    (h : (sortResult env sub root collation offset fetch (.sort input collation offset fetch) x).Gives
      s r s') :
    Flat schema (.sort input collation offset fetch) r := by
  have htracked := (sortResult_adds hx.tracked h).2
  obtain ⟨name, hsingle, -⟩ := hx.single
  obtain ⟨y, m, s₁, l, keys, limit, s₂, skip, s₃, rfl, hm, hl, -, -, -, hrecords⟩ :=
    hsingle.sort_step henv h
  have hopened : Shaped schema (Rel.sort input collation offset fetch).fields m := by
    rw [Rel.fields]
    exact hx.shaped_opened henv hm
  have hshaped := hopened.spelled (fun i n hn => hx.item_of_field henv hmap hm hn) hl
  exact .of_records hrecords htracked (hshaped.sorted keys limit skip)
    ⟨.offset, by simp [Result.expecting], by decide⟩

/-! ## Set operations -/

/-- **A set operation** on queries for plans gives a flat result. -/
theorem flat_setOp (henv : env.NeverQualifies) {op : SetOperator} {all : Bool} {inputs : List Rel}
    {selects : List Node} {r : Result} (hlength : 2 ≤ inputs.length)
    (hselects : List.Forall₂ (fun rel n => Shaped schema (Rel.fields rel) n) inputs selects)
    (h : (setOpResult env op all (.setOp op all inputs) selects).Gives s r s') :
    Flat schema (.setOp op all inputs) r := by
  have htracked := (setOpResult_built (hselects.length_eq ▸ hlength) h).2
  cases hselects with
  | nil => simp at hlength
  | @cons input first inputs rest hfirst hrest =>
    simp only [setOpResult, ConvertM.gives_makeResult henv] at h
    obtain ⟨rfl, rfl⟩ := h
    have hwide : ∀ m ∈ first :: rest, Wide schema m := by
      intro m hm
      rcases List.mem_cons.mp hm with rfl | hm
      · exact wide_select hfirst.kind
      · obtain ⟨i, hi, rfl⟩ := List.mem_iff_getElem.mp hm
        exact wide_select ((List.forall₂_iff_get.mp hrest).2 i (hrest.length_eq ▸ hi) hi).kind
    obtain ⟨hplain, hwide, hcolumns, hleft, hkind⟩ := setOperations_flat op (!all) rest
      ⟨hfirst.plain, hfirst.kind⟩ hwide
    refine .of_query htracked hplain ?_ (fun hk => ?_) ?_ hwide ⟨.setOp, by simp, by decide⟩
    · refine declaredFields_eq fun m hm => ?_
      obtain rfl : first = m := by simpa [hleft] using hm
      exact hfirst.declaredNames_eq
    · rw [hkind hk]
      exact hfirst
    · rw [hcolumns]
      exact hfirst.columns

/-- The query with a select list for a flat result has the shape of the plan. -/
theorem Flat.shaped_asSelect (henv : env.NeverQualifies) {input : Rel} {x : Result} {m : Node}
    (hx : Flat schema input x) (h : (x.asSelect env).Gives s m s') : Shaped schema input.fields m := by
  rcases hx.asSelect henv h with ⟨rfl, hkind⟩ | ⟨item, rfl, hshows⟩
  · exact hx.shaped hkind
  · exact hx.shaped_selectFrom hshows

/-! ## Plans -/

mutual

/-- **`relationResult`** — every plan without joins gives a flat result. -/
theorem flat_relationResult (henv : env.NeverQualifies) (hmap : env.fieldMap = []) (rel : Rel) {root : Bool}
    {s s' : State} {r : Result} (hrel : rel.every (joinFree schema) = true)
    (h : (relationResult env sub root rel).Gives s r s') : Flat schema rel r := by
  cases rel with
  | scan table fields =>
    rw [relationResult] at h
    exact flat_scan henv (by simpa [Rel.every, joinFree] using hrel) h
  | values fields tuples =>
    rw [relationResult] at h
    exact flat_values henv (by simpa [Rel.every, joinFree] using hrel) h
  | filter input condition ids =>
    simp only [Rel.every, Bool.and_eq_true] at hrel
    rw [relationResult, ConvertM.gives_bind] at h
    obtain ⟨x, t, hx, h⟩ := h
    exact flat_filter henv (flat_relationResult henv hmap input hrel.2 hx) h
  | project input projects names distinct ids =>
    simp only [Rel.every, joinFree, Bool.and_eq_true, beq_iff_eq, List.all_eq_true,
      Bool.not_eq_true'] at hrel
    rw [relationResult, ConvertM.gives_bind] at h
    obtain ⟨x, t, hx, h⟩ := h
    exact flat_project henv hmap (flat_relationResult henv hmap input hrel.2 hx) hrel.1.1 hrel.1.2 h
  | aggregate input keys sets calls =>
    simp only [Rel.every, joinFree, Bool.and_eq_true, Bool.not_eq_true', List.isEmpty_eq_false_iff] at hrel
    rw [relationResult, ConvertM.gives_bind] at h
    obtain ⟨x, t, hx, h⟩ := h
    exact flat_aggregate henv hmap (flat_relationResult henv hmap input hrel.2 hx) hrel.1 h
  | window input groups constants names =>
    simp only [Rel.every, Bool.and_eq_true] at hrel
    rw [relationResult, ConvertM.gives_bind] at h
    obtain ⟨x, t, hx, h⟩ := h
    exact flat_window henv hmap (flat_relationResult henv hmap input hrel.2 hx) h
  | sort input collation offset fetch =>
    simp only [Rel.every, Bool.and_eq_true] at hrel
    rw [relationResult, ConvertM.gives_bind] at h
    obtain ⟨x, t, hx, h⟩ := h
    exact flat_sort henv hmap (flat_relationResult henv hmap input hrel.2 hx) h
  | setOp op all inputs =>
    simp only [Rel.every, joinFree, Bool.and_eq_true, decide_eq_true_eq] at hrel
    rw [relationResult, ConvertM.gives_bind] at h
    obtain ⟨ns, t, hns, h⟩ := h
    exact flat_setOp henv hrel.1 (shaped_relationSelects henv hmap inputs hrel.2 hns) h
  | join => simp [Rel.every, joinFree] at hrel
  | tableFunction => simp [Rel.every, joinFree] at hrel
  | rowPattern => simp [Rel.every, joinFree] at hrel

/-- **`relationSelects`** — plans without joins give queries of their shapes. -/
theorem shaped_relationSelects (henv : env.NeverQualifies) (hmap : env.fieldMap = []) (rels : List Rel)
    {s s' : State} {ns : List Node} (hrels : Rel.everyOf (joinFree schema) rels = true)
    (h : (relationSelects env sub rels).Gives s ns s') :
    List.Forall₂ (fun rel n => Shaped schema (Rel.fields rel) n) rels ns := by
  cases rels with
  | nil =>
    rw [relationSelects, ConvertM.gives_pure] at h
    rw [← h.1]
    exact .nil
  | cons rel rels =>
    simp only [Rel.everyOf, Bool.and_eq_true] at hrels
    simp only [relationSelects, ConvertM.gives_bind, ConvertM.gives_pure] at h
    obtain ⟨x, s₁, hx, n, s₂, hn, rest, s₃, hrest, rfl, -⟩ := h
    exact .cons ((flat_relationResult henv hmap rel hrels.1 hx).shaped_asSelect henv hn)
      (shaped_relationSelects henv hmap rels hrels.2 hrest)

end

end AlgebraSql.Convert
