import AlgebraSql.Proofs.FaithfulResults

/-!
# Faithful rows — tables, set operations and constant rows have the rows that a plan denotes.

A table is read under its path.  A set operation combines queries with select lists, whose bags it combines.
Constant rows are a FROM item of their own or one query for each tuple; without tuples they are a query whose
condition never holds.
-/

namespace AlgebraSql.Convert

open Sql Node

variable {env : Env} {sub : Rel → ConvertM Node} {s s' : State} {schema : Schema}

/-! ## Tables -/

/-- A node that is read as it is shows its rows under a star. -/
theorem Faithful.of_leaf {rel : Rel} {x : Result} (hflat : Flat schema rel x) (hdistinct : rel.fields.names.Nodup)
    {needed : Option String} (hleaf : Leaf schema rel.fields.names x.node needed)
    (hrows : ∀ (E : Engine) (P : Patterns) (db : Database) (outer : Names), db.schema = schema →
      ∃ v, x.node.tuples (E.withOperators P) db outer = some v
        ∧ ∀ f, ((v f : List Row) : Multiset Row) = rel.bag P db.tableRows) :
    Faithful schema rel x := by
  have hquery : x.query = selectFrom x.node := by rw [Result.query, hleaf.not_plainQuery, if_neg (by simp)]
  obtain ⟨hshows, hcolumns⟩ := hleaf.shows
  refine ⟨hflat, hdistinct, hquery ▸ hcolumns, fun E P db outer hdb => ?_, fun _ hkind => ?_⟩
  · rw [hquery, ← hshows.tuples outer hdb]
    exact hrows E P db outer hdb
  · rcases (isReadable_iff x.node).mp hleaf.isReadable with hk | hk | ⟨hk | hk, -⟩ <;> simp [hk] at hkind

/-- **A table** has its rows. -/
theorem Faithful.scan (henv : env.NeverQualifies) {table : List String} {fields : RowType} (htable : table ≠ [])
    (hcolumns : tableColumns schema table = fields.names) (hnames : fields.names.Nodup) (s : State) :
    ∃ r s', (scanResult env table (.scan table fields)).Gives s r s' ∧ Faithful schema (.scan table fields) r := by
  obtain ⟨t, own, ht, -⟩ := table?_traits htable
  obtain ⟨r, s', hr⟩ : ∃ r s', (scanResult env table (.scan table fields)).Gives s r s' := by
    simp only [scanResult, ConvertM.gives_bind, ConvertM.gives_lift, ConvertM.gives_makeResult henv]
    exact ⟨_, _, t, s, ⟨ht, rfl⟩, rfl, rfl⟩
  have hnode := (scanResult_built hr).1
  refine ⟨r, s', hr, .of_leaf (flat_scan henv hcolumns hr) hnames (.table none hnode hcolumns) fun E P db outer _ => ?_⟩
  refine ⟨fun _ => db.rows r.node.parts, ?_, fun f => ?_⟩
  · rw [tuples_eq, tuplesStep, kind_scanResult hr]
  · rw [Rel.bag, Database.tableRows, parts_table? hnode]

/-! ## Set operations -/

/-- **`QueryOf`** — a query with a select list that shows the columns of a plan and returns its bag. -/
structure QueryOf (schema : Schema) (rel : Rel) (n : Node) : Prop where
  shaped : Shaped schema rel.fields n
  columns : n.columns schema = rel.fields.names
  returns : Returns schema (fun P db => rel.bag P db.tableRows) n

/-- What denotes a plan is given as a query with a select list. -/
theorem Faithful.exists_asSelect (henv : env.NeverQualifies) {rel : Rel} {x : Result} (hx : Faithful schema rel x)
    (s : State) : ∃ n s', (x.asSelect env).Gives s n s' ∧ QueryOf schema rel n := by
  obtain ⟨n, s', hn⟩ := hx.flat.exists_asSelect henv s
  have hshaped := hx.flat.shaped_asSelect henv hn
  refine ⟨n, s', hn, ?_⟩
  rcases hx.flat.asSelect henv hn with ⟨rfl, hkind⟩ | ⟨item, rfl, hshows⟩
  · have hquery := Result.query_of_plain (hx.flat.shaped hkind).plain
    exact ⟨hshaped, hquery ▸ hx.columns, hquery ▸ hx.returns⟩
  · exact ⟨hshaped, hshows.columns_selectFrom.trans hx.columns, hx.returns.selectFrom hshows hx.flat.wide⟩

section

variable {op : SetOperator} {distinct : Bool}

/-- **A set operation** of two queries returns that of their bags. -/
theorem Returns.setOperation {l r : Node} {a b : Patterns → Database → Multiset Row} (hl : Returns schema a l)
    (hr : Returns schema b r) (hlevel : (l.columns schema).length = (r.columns schema).length) :
    Returns schema (fun P db => op.onBags (!distinct) (a P db) (b P db)) (Node.setOperation (setKind op) l r distinct) := by
  intro E P db outer hdb
  obtain ⟨v, hv, hbag⟩ := hl E P db outer hdb
  obtain ⟨w, hw, hbag'⟩ := hr E P db outer hdb
  have hleft : (Node.setOperation (setKind op) l r distinct).child? "this" = some l := by
    simp [Node.setOperation, child?]
  have hright : (Node.setOperation (setKind op) l r distinct).child? "expression" = some r := by
    simp [Node.setOperation, child?]
  have hflag : (Node.setOperation (setKind op) l r distinct).flag "distinct" = distinct := by
    simp [Node.setOperation, flag]
  have hsame : (Node.setOperation (setKind op) l r distinct).isLevel db = true := by
    simp [isLevel, hleft, hright, hdb, hlevel]
  refine ⟨fun f => Row.combine op distinct (v f) (w f), ?_, fun f => by rw [SetOperator.bag_combine, hbag, hbag']⟩
  rw [rows_eq]
  have hoperator : setOperator? (setKind op) = some op := by cases op <;> rfl
  have hstep : ∀ parts names, rowsStep (E.withOperators P) db (Node.setOperation (setKind op) l r distinct) parts names
      = (do
        let op ← setOperator? (setKind op)
        let left ← (parts.only "this").rows names
        let right ← (parts.only "expression").rows names
        if (Node.setOperation (setKind op) l r distinct).isLevel db then
          some fun f => Row.combine op ((Node.setOperation (setKind op) l r distinct).flag "distinct") (left f) (right f)
        else none) := fun parts names => by cases op <;> rfl
  rw [hstep, hoperator, only_partsOf hleft, only_partsOf hright]
  rw [show (l.meaning (E.withOperators P) db).rows outer = some v from hv,
    show (r.meaning (E.withOperators P) db).rows outer = some w from hw]
  simp only [Option.bind_eq_bind, Option.bind_some, hsame, hflag, if_true]

/-- Set operations from left to right return those of the bags. -/
theorem Returns.setOperations (op : SetOperator) (distinct : Bool) {bags : List (Patterns → Database → Multiset Row)}
    {rest : List Node} {width : Nat}
    (hrest : List.Forall₂ (fun bag n => Returns schema bag n ∧ (n.columns schema).length = width) bags rest)
    {first : Node} {bag : Patterns → Database → Multiset Row} (hfirst : Returns schema bag first)
    (hwidth : (first.columns schema).length = width) :
    Returns schema (fun P db => bags.foldl (fun t b => op.onBags (!distinct) t (b P db)) (bag P db))
      (rest.foldl (fun u n => Node.setOperation (setKind op) u n distinct) first) := by
  induction hrest generalizing first bag with
  | nil => exact hfirst
  | @cons b n bags rest hn _ ih =>
    have hcolumns : (Node.setOperation (setKind op) first n distinct).columns schema = first.columns schema :=
      columns_setOperation (setKind_traits op).2.2.1 (by simp [Node.setOperation, child?])
    exact ih (hfirst.setOperation hn.1 (hwidth.trans hn.2.symm)) (by rw [hcolumns, hwidth])

end

/-- **A set operation** on queries for plans returns that of their bags. -/
theorem Faithful.setOp (henv : env.NeverQualifies) {op : SetOperator} {all : Bool} {inputs : List Rel}
    {selects : List Node} (hlength : 2 ≤ inputs.length) (hselects : List.Forall₂ (QueryOf schema) inputs selects)
    (hnames : (Rel.setOp op all inputs).fields.names.Nodup)
    (hwidth : ∀ input ∈ inputs, input.fields.length = (Rel.setOp op all inputs).fields.length) (s : State) :
    ∃ r s', (setOpResult env op all (.setOp op all inputs) selects).Gives s r s'
      ∧ Faithful schema (.setOp op all inputs) r := by
  cases hselects with
  | nil => simp at hlength
  | @cons input first inputs rest hfirst hrest =>
    obtain ⟨r, s', hr⟩ : ∃ r s',
        (setOpResult env op all (.setOp op all (input :: inputs)) (first :: rest)).Gives s r s' := by
      simp only [setOpResult, ConvertM.gives_makeResult henv]
      exact ⟨_, _, rfl, rfl⟩
    have hshaped : List.Forall₂ (fun rel n => Shaped schema (Rel.fields rel) n) (input :: inputs) (first :: rest) :=
      .cons hfirst.shaped (hrest.imp fun _ _ h => h.shaped)
    have hflat := flat_setOp henv hlength hshaped hr
    have hnode : r.node = rest.foldl (fun u n => Node.setOperation (setKind op) u n (!all)) first := by
      simp only [setOpResult, ConvertM.gives_makeResult henv] at hr
      rw [hr.1, recorded_node]
    have hrestne : rest ≠ [] := by
      rw [← List.length_pos_iff, ← hrest.length_eq]
      simp only [List.length_cons] at hlength
      omega
    have hkind : r.node.kind ≠ .select := by
      obtain ⟨m, ms, rfl⟩ := List.exists_cons_of_ne_nil hrestne
      rw [hnode, List.foldl_cons]
      rcases kind_setOperations (setKind op) (!all) ms (Node.setOperation (setKind op) first m !all) with h | h <;> rw [h]
      · exact (setKind_traits op).2.2.2
      · exact (setKind_traits op).2.2.2
    have hwides : ∀ m ∈ first :: rest, Wide schema m := fun m hm => by
      obtain ⟨i, hi, rfl⟩ := List.mem_iff_getElem.mp hm
      exact wide_select ((List.forall₂_iff_get.mp hshaped).2 i (hshaped.length_eq ▸ hi) hi).kind
    obtain ⟨hplain, -, hcolumns, -⟩ := setOperations_flat op (!all) rest ⟨hfirst.shaped.plain, hfirst.shaped.kind⟩ hwides
    have hquery : r.query = rest.foldl (fun u n => Node.setOperation (setKind op) u n (!all)) first := by
      rw [Result.query_of_plain (by rw [hnode]; exact hplain), hnode]
    refine ⟨r, s', hr, hflat, hnames, ?_, ?_, fun _ h => absurd h hkind⟩
    · rw [hquery, hcolumns, hfirst.columns]
      rfl
    · have hbags : List.Forall₂ (fun bag n => Returns schema bag n
          ∧ (n.columns schema).length = input.fields.length) (inputs.map fun rel P db => rel.bag P db.tableRows) rest := by
        rw [List.forall₂_map_left_iff]
        refine List.Forall₂.imp (fun rel n h => h) (List.forall₂_iff_get.mpr ⟨hrest.length_eq, fun i hi hi' => ?_⟩)
        have hselect := (List.forall₂_iff_get.mp hrest).2 i hi hi'
        refine ⟨hselect.returns, ?_⟩
        rw [hselect.columns, RowType.names, List.length_map]
        exact hwidth _ (List.mem_cons_of_mem _ (List.get_mem _ _))
      have hreturns := Returns.setOperations op (!all) hbags hfirst.returns
        (by rw [hfirst.columns]; simp [RowType.names])
      rw [hquery]
      intro E P db outer hdb
      obtain ⟨v, hv, hbag⟩ := hreturns E P db outer hdb
      refine ⟨v, hv, fun f => (hbag f).trans ?_⟩
      simp only [Rel.bag, Rel.bags, Rel.bags_eq_map, List.foldl_map, Bool.not_not]

/-! ## Constant rows -/

/-- The row of a tuple of constants. -/
def datums (tuple : List Literal) : Row := tuple.map fun l => l.value.datum?.getD .null

section

variable {E : Engine} {α : Type} {V : Reading E α}

/-- Values one by one, from nodes that each show one. -/
theorem together_of_shows {ns : List Node} {ds : List Datum} (h : List.Forall₂ (fun n d => V.Shows n fun _ => d) ns ds) :
    together (ns.map V.value) = some fun _ => ds.map fun d => [d] := by
  induction h with
  | nil => rfl
  | @cons n d ns ds hn _ ih => rw [List.map_cons, show V.value n = some fun _ => [d] from hn, together, ih]; rfl

/-- A tuple has the values of its parts. -/
theorem value_tuple {ns : List Node} {ds : List Datum} (h : List.Forall₂ (fun n d => V.Shows n fun _ => d) ns ds) :
    V.value (Node.tuple ns) = some fun _ => ds := by
  have hchildren : (Node.tuple ns).children = ns := by simp [Node.tuple, children, Arg.children]
  rw [V.operation _ rfl, hchildren, together_of_shows h]
  refine congrArg some (funext fun _ => ?_)
  show (ds.map fun d => [d]).flatten = ds
  rw [← List.flatMap_def, List.flatMap_singleton']

end

/-- Constants are written as nodes that show them. -/
theorem exists_literalNodes (env : Env) {ls : List Literal} (h : ∀ l ∈ ls, l.value.datum?.isSome) :
    ∃ ns, literalNodes env.dialect ls = .ok ns ∧ ∀ (E : Engine) (P : Patterns) (db : Database) (names : Names),
      List.Forall₂ (fun n d => (Reading.scalar (E.withOperators P) db names).Shows n fun _ => d) ns (datums ls) := by
  induction ls with
  | nil => exact ⟨[], rfl, fun _ _ _ _ => .nil⟩
  | cons l ls ih =>
    obtain ⟨ns, hns, hshow⟩ := ih fun l hl => h l (List.mem_cons_of_mem _ hl)
    have hl : ∀ (E : Engine) (P : Patterns) (db : Database) (names : Names), ∃ n, literalNode env.dialect l = .ok n
        ∧ (Reading.scalar (E.withOperators P) db names).Shows n fun _ => l.value.datum?.getD .null :=
      fun E P db names => literalNode_shows (h l List.mem_cons_self)
    obtain ⟨E⟩ := (inferInstance : Nonempty Engine)
    obtain ⟨db⟩ := (inferInstance : Nonempty Database)
    obtain ⟨n, hn, -⟩ := hl E ⟨fun _ => true, fun _ => true⟩ db Names.none
    refine ⟨n :: ns, by simp [literalNodes, hn, hns, bind_eq_ok_iff], fun E P db names => .cons ?_ (hshow E P db names)⟩
    obtain ⟨n', hn', hshows⟩ := hl E P db names
    obtain rfl : n = n' := Except.ok.inj (hn.symm.trans hn')
    exact hshows

/-- Typed nulls show missing values. -/
theorem shows_typedNulls (d : Dialect) (fields : RowType) (E : Engine) (P : Patterns) (db : Database) (names : Names) :
    List.Forall₂ (fun n d => (Reading.scalar (E.withOperators P) db names).Shows n fun _ => d)
      (fields.map fun f => typedNull d f.type) (nulls fields.length) := by
  induction fields with
  | nil => exact .nil
  | cons f fields ih => exact .cons (value_typedNull _ d f.type) ih

/-- Constant rows in a FROM clause. -/
theorem tuples_valuesItem {E : Engine} {P : Patterns} {db : Database} {outer : Names} (name : String)
    (columns : List String) {rows : List Node} {rs : List Row}
    (h : List.Forall₂ (fun n r => n.scalar (E.withOperators P) db outer.beside = some fun _ => r) rows rs) :
    (valuesItem name columns rows).tuples (E.withOperators P) db outer = some fun _ => rs := by
  have htogether : together (rows.map (scalar (E.withOperators P) db outer.beside)) = some fun _ => rs := by
    induction h with
    | nil => rfl
    | @cons n r rows rs hn _ ih => rw [List.map_cons, hn, together, ih]; rfl
  have hlist : (valuesItem name columns rows).list? "expressions" = some rows := by simp [valuesItem, list?]
  rw [tuples_eq, tuplesStep, show (valuesItem name columns rows).kind = .values from rfl]
  simp only [rowsStep, show (valuesItem name columns rows).kind = .values from rfl, several_partsOf hlist, List.map_map]
  change (together (rows.map (scalar (E.withOperators P) db outer.beside))).map _ = _
  rw [htogether]
  rfl

/-- Constants and typed nulls call no aggregate functions. -/
theorem aggregates_of_related {ns : List Node}
    (h : List.Forall₂ (fun m _ : Node => m.aggregates = true → False) ns ns) : ∀ n ∈ ns, n.aggregates = false := by
  intro n hn
  obtain ⟨i, hi, rfl⟩ := List.mem_iff_getElem.mp hn
  rw [Bool.eq_false_iff]
  exact (List.forall₂_iff_get.mp h).2 i hi hi

section

variable {fields : RowType} {ns : List Node} {ds : Row}

/-- **One row** as a query without a table: it may be extended, and returns the row. -/
theorem open_namedSelect (hlength : ns.length = fields.length) (hne : fields ≠ [])
    (hkinds : ∀ n ∈ ns, n.kind ∉ partKinds) (hcalls : ∀ n ∈ ns, n.aggregates = false)
    (hshow : ∀ (E : Engine) (P : Patterns) (db : Database) (names : Names),
      List.Forall₂ (fun n d => (Reading.scalar (E.withOperators P) db names).Shows n fun _ => d) ns ds) :
    OpenSelect schema fields (namedSelect fields ns) ∧ Returns schema (fun _ _ => {ds}) (namedSelect fields ns) := by
  have hlisted := listed_namedSelect hlength hkinds
  have hvalues : ∀ (E : Engine) (P : Patterns) (db : Database) (names : Names),
      together (ns.map (scalar (E.withOperators P) db names)) = some fun _ => ds.map fun d => [d] :=
    fun E P db names => together_of_shows (hshow E P db names)
  have hrow : RowSelect (namedSelect fields ns) :=
    { kind := rfl
      absent := fun key hkey => by
        simp only [List.mem_cons, List.not_mem_nil, or_false] at hkey
        rcases hkey with rfl | rfl | rfl | rfl | rfl <;> simp [namedSelect, selectItems, child?]
      items := fun item hitem => by
        rw [hlisted.list_eq] at hitem
        obtain ⟨n, hn, name, rfl⟩ := mem_namedItems hitem
        rw [aggregates_namedItem, hcalls n hn]
      order := by simp [namedSelect, selectItems, child?] }
  have hunsorted : (namedSelect fields ns).child? "order" = none := by simp [namedSelect, selectItems, child?]
  refine ⟨⟨hrow, hunsorted, .inr ⟨ns, hlisted, hne⟩, fun E P db outer _ item hitem => ?_⟩, fun E P db outer _ => ?_⟩
  · rw [hlisted.list_eq] at hitem
    exact scalar_isSome_of_mem_namedItems (hvalues E P db _) hitem
  · have hselected : (namedSelect fields ns).selected (E.withOperators P) db outer = some fun _ => [[]] := by
      simp [selected, clause, namedSelect, selectItems, child?]
    have hout : (namedSelect fields ns).output (E.withOperators P) db ((namedSelect fields ns).fromNames db outer)
        = some fun s => (fun _ : Focus => ds) s.focus := by
      rw [hlisted.output_of_scalar hne (hvalues E P db _)]
      simp [Function.comp_def, single]
    obtain ⟨v, hv, hbag⟩ := @RowSelect.exists_rows (E.withOperators P) db _ outer hrow _ hselected (fun _ => ds) hout
      fun c hc => by
        rw [hunsorted] at hc
        cases hc
    refine ⟨v, hv, fun f => ?_⟩
    rw [hbag, show (namedSelect fields ns).flag "distinct" = false from rfl]
    simp [distinctBag]

/-- **No rows**: a star over a FROM item under a condition that is false. -/
theorem open_noRows {q item : Node} (hshows : Shows schema q item) (hcolumns : q.columns schema = fields.names)
    (hrows : ∀ (E : Engine) (P : Patterns) (db : Database) (outer : Names), db.schema = schema →
      ∃ v, item.tuples (E.withOperators P) db outer = some v) :
    OpenSelect schema fields (Node.selectWhere item Node.alwaysFalse)
      ∧ Returns schema (fun _ _ => 0) (Node.selectWhere item Node.alwaysFalse) := by
  rw [selectWhere_eq]
  refine ⟨(OpenSelect.selectFrom hshows hcolumns).set (by decide) _, fun E P db outer hdb => ?_⟩
  set n := (selectFrom item).set "where" (some (.node (wrap .where Node.alwaysFalse))) with hn
  obtain ⟨v, hv⟩ := hrows E P db outer hdb
  have hstar := (isStar_selectFrom item).set_where (wrap .where Node.alwaysFalse)
  have hfalse : n.clause "where" always (scalar (E.withOperators P) db (n.fromNames db outer))
      = some fun _ => [.bool false] := by
    have hvalue : (Reading.scalar (E.withOperators P) db (n.fromNames db outer)).Shows Node.alwaysFalse
        fun _ => (Datum.ofDigits "1").compare (· == .eq) (Datum.ofDigits "0") :=
      Reading.shows_comparison rfl (Reading.shows_number "1") (Reading.shows_number "0")
    rw [show (Datum.ofDigits "1").compare (· == .eq) (Datum.ofDigits "0") = .bool false by decide +kernel] at hvalue
    rw [clause, hn, child?_set_self, ← hn]
    exact (scalar_condition (by simp) Node.alwaysFalse _).trans hvalue
  rw [hstar.rows_eq, hfalse, hv]
  exact ⟨_, rfl, fun f => by simp [holds, single]⟩

end

section

variable {fields : RowType} {tuples : List (List Literal)} {r : Result}

/-- The node for constant rows is recorded as it is. -/
theorem exists_valuesResult (henv : env.NeverQualifies) (fields : RowType) (tuples : List (List Literal)) {s : State}
    {n : Node} (hn : (if env.dialect.capabilities.aliasedValues then aliasedValues env (s.usedNames.unique "t") fields tuples
      else unionValues env (s.usedNames.unique "t") fields tuples : Except Error Node) = .ok n) :
    ∃ r s', (valuesResult env fields tuples (.values fields tuples)).Gives s r s' ∧ r.node = n := by
  obtain ⟨r, s', hr⟩ : ∃ r s', (makeResult env n [.select] (.values fields tuples) none).Gives s r s' :=
    ⟨_, _, (ConvertM.gives_makeResult henv _ _ _ _ _ _ _).mpr ⟨rfl, rfl⟩⟩
  refine ⟨r, s', ?_, by rw [((ConvertM.gives_makeResult henv _ _ _ _ _ _ _).mp hr).1, recorded_node]⟩
  simp only [valuesResult, ConvertM.gives_bind, ConvertM.gives_nextName, ConvertM.gives_lift]
  exact ⟨_, s, ⟨rfl, rfl⟩, n, s, ⟨hn, rfl⟩, hr⟩

/-- Tuples of constants are written one by one. -/
theorem exists_tupleNodes (env : Env) (htuples : ∀ t ∈ tuples, ∀ l ∈ t, l.value.datum?.isSome) :
    ∃ rows, (tuples.mapM fun t => do return Node.tuple (← literalNodes env.dialect t)) = Except.ok rows
      ∧ ∀ (E : Engine) (P : Patterns) (db : Database) (names : Names),
        List.Forall₂ (fun n r => n.scalar (E.withOperators P) db names = some fun _ => r) rows (tuples.map datums) := by
  obtain ⟨rows, hrows, hshow⟩ := exists_mapM_forall₂ (f := fun t => do return Node.tuple (← literalNodes env.dialect t))
    (R := fun t n => ∀ (E : Engine) (P : Patterns) (db : Database) (names : Names),
      n.scalar (E.withOperators P) db names = some fun _ => datums t) fun t ht => by
    obtain ⟨ns, hns, hshow⟩ := exists_literalNodes env (htuples t ht)
    exact ⟨Node.tuple ns, by simp only [bind_eq_ok_iff, pure_eq_ok_iff]; exact ⟨ns, hns, rfl⟩,
      fun E P db names => value_tuple (hshow E P db names)⟩
  refine ⟨rows, hrows, fun E P db names => ?_⟩
  rw [List.forall₂_map_right_iff]
  exact (hshow.imp fun t n h => h E P db names).flip

/-- Tuples of constants as queries without a table. -/
theorem exists_namedSelects (env : Env) (schema : Schema) (hne : fields ≠ [])
    (htuples : ∀ t ∈ tuples, t.length = fields.length ∧ ∀ l ∈ t, l.value.datum?.isSome) :
    ∃ selects, (tuples.mapM fun t => do return namedSelect fields (← literalNodes env.dialect t)) = Except.ok selects
      ∧ List.Forall₂ (fun t n => Shaped schema fields n ∧ OpenSelect schema fields n
        ∧ Returns schema (fun _ _ => {datums t}) n) tuples selects :=
  exists_mapM_forall₂ fun t ht => by
    obtain ⟨hlength, hliterals⟩ := htuples t ht
    obtain ⟨ns, hns, hshow⟩ := exists_literalNodes env hliterals
    obtain ⟨hcount, hkinds⟩ := kinds_literalNodes hns
    have hfull : ns.length = fields.length := hcount.trans hlength
    have hcalls := aggregates_of_related (related_literalNodes (congruent_aggregates False) hns)
    exact ⟨namedSelect fields ns, by simp only [bind_eq_ok_iff, pure_eq_ok_iff]; exact ⟨ns, hns, rfl⟩,
      shaped_namedSelect hfull hkinds, open_namedSelect hfull hne hkinds hcalls hshow⟩

/-- The rows of tuples, put together one by one. -/
theorem foldl_datums (tuples : List (List Literal)) (bag : Multiset Row) :
    tuples.foldl (fun t tuple => SetOperator.onBags .union true t {datums tuple}) bag
      = bag + (tuples.map datums : List Row) := by
  induction tuples generalizing bag with
  | nil => simp
  | cons tuple tuples ih =>
    rw [List.foldl_cons, ih, SetOperator.onBags, if_pos rfl, SetOperator.counting, add_assoc, List.map_cons,
      ← Multiset.cons_coe, Multiset.singleton_add]

/-- A query for the rows of the tuples that is recorded as a SELECT is faithful. -/
theorem Faithful.of_values (hflat : Flat schema (.values fields tuples) r) (hnames : fields.names.Nodup)
    (hopen : OpenSelect schema fields r.node)
    (hreturns : Returns schema (fun P db => (Rel.values fields tuples).bag P db.tableRows) r.node) :
    Faithful schema (.values fields tuples) r := by
  refine .of_open hflat hnames hopen.select.kind hopen ?_
  rwa [Result.query_of_plain (hflat.shaped hopen.select.kind).plain]

theorem kind_typedNulls (d : Dialect) (fields : RowType) :
    ∀ n ∈ fields.map fun f => typedNull d f.type, n.kind ∉ partKinds := fun n hn => by
  obtain ⟨f, -, rfl⟩ := List.mem_map.mp hn
  exact kind_typedNull _ _

/-- **One query for each tuple**, put together from left to right, returns the rows of the tuples. -/
theorem Faithful.of_unions {t : List Literal} {first : Node} {rest : List Node}
    (hflat : Flat schema (.values fields (t :: tuples)) r) (hnames : fields.names.Nodup)
    (hnode : r.node = rest.foldl (fun u n => Node.setOperation .union u n false) first)
    (hfirst : Shaped schema fields first ∧ OpenSelect schema fields first ∧ Returns schema (fun _ _ => {datums t}) first)
    (hrest : List.Forall₂ (fun t n => Shaped schema fields n ∧ OpenSelect schema fields n
      ∧ Returns schema (fun _ _ => {datums t}) n) tuples rest) :
    Faithful schema (.values fields (t :: tuples)) r := by
  have hwides : ∀ m ∈ first :: rest, Wide schema m := fun m hm => by
    obtain ⟨i, hi, rfl⟩ := List.mem_iff_getElem.mp hm
    have hall : List.Forall₂ (fun _ n => Shaped schema fields n) (t :: tuples) (first :: rest) :=
      .cons hfirst.1 (hrest.imp fun _ _ h => h.1)
    have hkind : (first :: rest)[i].kind = .select :=
      ((List.forall₂_iff_get.mp hall).2 i (hall.length_eq ▸ hi) hi).kind
    intro E db names v hdb
    exact wide_select hkind hdb
  have hunion := setOperations_flat .union false rest ⟨hfirst.1.plain, hfirst.1.kind⟩ hwides
  simp only [setKind] at hunion
  obtain ⟨hplain, -, hcolumns, -, hsame⟩ := hunion
  have hquery : r.query = rest.foldl (fun u n => Node.setOperation .union u n false) first := by
    rw [Result.query_of_plain (by rw [hnode]; exact hplain), hnode]
  refine ⟨hflat, hnames, by rw [hquery, hcolumns, hfirst.2.1.columns_eq]; rfl, ?_, fun _ hkind => ?_⟩
  · have hlevel : ∀ n, OpenSelect schema fields n → (n.columns schema).length = fields.length := fun n hn => by
      rw [hn.columns_eq]
      simp [RowType.names]
    have hbags : List.Forall₂ (fun bag n => Returns schema bag n ∧ (n.columns schema).length = fields.length)
        (tuples.map fun t _ _ => {datums t}) rest := by
      rw [List.forall₂_map_left_iff]
      exact hrest.imp fun t n h => ⟨h.2.2, hlevel n h.2.1⟩
    have hreturns := Returns.setOperations .union false hbags hfirst.2.2 (hlevel first hfirst.2.1)
    rw [hquery]
    intro E P db outer hdb
    obtain ⟨v, hv, hrows⟩ := hreturns E P db outer hdb
    refine ⟨v, hv, fun f => (hrows f).trans ?_⟩
    simp only [List.foldl_map]
    show tuples.foldl (fun t tuple => SetOperator.onBags .union true t {datums tuple}) {datums t}
      = (((t :: tuples).map datums : List Row) : Multiset Row)
    rw [foldl_datums, List.map_cons, ← Multiset.cons_coe, Multiset.singleton_add]
  · rw [hnode] at hkind ⊢
    rw [hsame hkind]
    exact hfirst.2.1

/-- **Constant rows in a dialect that names them**: a FROM item for the tuples, or a row of nulls that is dropped. -/
theorem Faithful.aliasedValues (henv : env.NeverQualifies) (haliased : env.dialect.capabilities.aliasedValues = true)
    (hnames : fields.names.Nodup) (htuples : ∀ t ∈ tuples, t.length = fields.length ∧ ∀ l ∈ t, l.value.datum?.isSome)
    (s : State) :
    ∃ r s', (valuesResult env fields tuples (.values fields tuples)).Gives s r s'
      ∧ Faithful schema (.values fields tuples) r := by
  by_cases hempty : tuples = []
  · subst hempty
    obtain ⟨r, s', hr, hnode⟩ := exists_valuesResult henv fields [] (s := s)
      (n := Node.selectWhere (valuesItem (s.usedNames.unique "t") fields.names
        [Node.tuple (fields.map fun f => typedNull env.dialect f.type)]) Node.alwaysFalse) (by
          rw [if_pos haliased]
          rfl)
    have hleaf : Leaf schema fields.names (valuesItem (s.usedNames.unique "t") fields.names
        [Node.tuple (fields.map fun f => typedNull env.dialect f.type)]) none :=
      .values _ fun row hrow => ⟨_, List.mem_singleton.mp hrow, by simp [RowType.names],
        fun n hn => produced_oneValued.of_kind (kind_typedNulls _ _ n hn)⟩
    obtain ⟨hopen, hreturns⟩ := open_noRows hleaf.shows.1 hleaf.shows.2 fun E P db outer _ =>
      ⟨_, tuples_valuesItem _ _ (.cons (value_tuple (shows_typedNulls env.dialect fields E P db outer.beside)) .nil)⟩
    rw [← hnode] at hopen hreturns
    exact ⟨r, s', hr, .of_values (flat_values henv (by simp) hr) hnames hopen hreturns⟩
  · obtain ⟨rows, hrows, hshow⟩ := exists_tupleNodes env fun t ht => (htuples t ht).2
    obtain ⟨r, s', hr, hnode⟩ := exists_valuesResult henv fields tuples (s := s)
      (n := valuesItem (s.usedNames.unique "t") fields.names rows) (by
        rw [if_pos haliased, Convert.aliasedValues, if_neg (by simpa using hempty), hrows]
        rfl)
    have hflat : Flat schema (.values fields tuples) r := flat_values henv (fun t ht => (htuples t ht).1) hr
    have hplain : isPlainQuery r.node = false := by
      rw [hnode]
      simp [isPlainQuery, valuesItem, Kind.isSetOperation, isSetOperation]
    refine ⟨r, s', hr, .of_leaf hflat hnames (hflat.form.resolve_left (by simp [hplain])) fun E P db outer _ => ?_⟩
    exact ⟨_, by rw [hnode]; exact tuples_valuesItem _ _ (hshow E P db outer.beside), fun f => rfl⟩

/-- **Constant rows in other dialects**: one query for each tuple, or a query of nulls whose row is dropped. -/
theorem Faithful.unionValues (henv : env.NeverQualifies) (haliased : env.dialect.capabilities.aliasedValues ≠ true)
    (hne : fields ≠ []) (hnames : fields.names.Nodup)
    (htuples : ∀ t ∈ tuples, t.length = fields.length ∧ ∀ l ∈ t, l.value.datum?.isSome) (s : State) :
    ∃ r s', (valuesResult env fields tuples (.values fields tuples)).Gives s r s'
      ∧ Faithful schema (.values fields tuples) r := by
  obtain ⟨selects, hselects, hforall⟩ := exists_namedSelects env schema hne htuples
  cases hforall with
  | nil =>
    have hnullKinds := kind_typedNulls env.dialect fields
    have hnulls : OpenSelect schema fields (namedSelect fields (fields.map fun f => typedNull env.dialect f.type))
        ∧ Returns schema (fun _ _ => {nulls fields.length})
          (namedSelect fields (fields.map fun f => typedNull env.dialect f.type)) :=
      open_namedSelect (by simp) hne hnullKinds (fun n hn => by
        obtain ⟨f, -, rfl⟩ := List.mem_map.mp hn
        rw [Bool.eq_false_iff]
        exact related_typedNull (congruent_aggregates False) env.dialect f.type) (shows_typedNulls env.dialect fields)
    obtain ⟨hopen, hreturns⟩ := hnulls
    have hplain := (@shaped_namedSelect schema fields _ (by simp) hnullKinds).plain
    obtain ⟨r, s', hr, hnode⟩ := exists_valuesResult henv fields [] (s := s)
      (n := Node.selectWhere (derived (namedSelect fields (fields.map fun f => typedNull env.dialect f.type))
        (some (s.usedNames.unique "t"))) Node.alwaysFalse) (by
          rw [if_neg haliased, Convert.unionValues, hselects]
          simp only [asFromItem_of_plainQuery hplain]
          rfl)
    obtain ⟨hopen', hreturns'⟩ := open_noRows (shows_derived _ (some (s.usedNames.unique "t"))) hopen.columns_eq
      fun E P db outer hdb => by
        rw [(shows_derived _ _).tuples outer hdb]
        exact (hreturns E P db outer hdb).imp fun _ h => h.1
    rw [← hnode] at hopen' hreturns'
    exact ⟨r, s', hr, .of_values (flat_values henv (by simp) hr) hnames hopen' hreturns'⟩
  | @cons t first tuples rest hfirst hrest =>
    obtain ⟨r, s', hr, hnode⟩ := exists_valuesResult henv fields (t :: tuples) (s := s)
      (n := rest.foldl (fun u n => Node.setOperation .union u n false) first) (by
        rw [if_neg haliased, Convert.unionValues, hselects]
        rfl)
    exact ⟨r, s', hr, .of_unions (flat_values henv (fun t ht => (htuples t ht).1) hr) hnames hnode hfirst hrest⟩

/-- **Constant rows** are the rows of their tuples. -/
theorem Faithful.values (henv : env.NeverQualifies) (hne : fields ≠ []) (hnames : fields.names.Nodup)
    (htuples : ∀ t ∈ tuples, t.length = fields.length ∧ ∀ l ∈ t, l.value.datum?.isSome) (s : State) :
    ∃ r s', (valuesResult env fields tuples (.values fields tuples)).Gives s r s'
      ∧ Faithful schema (.values fields tuples) r := by
  by_cases haliased : env.dialect.capabilities.aliasedValues = true
  · exact Faithful.aliasedValues henv haliased hnames htuples s
  · exact Faithful.unionValues henv haliased hne hnames htuples s

end

end AlgebraSql.Convert
