import AlgebraSql.Proofs.RowSelects

/-!
# Bags of plans — the statement for a plan has the rows that the plan denotes.

A plan of tables, constant rows, filters, projections, set operations and sorts denotes a bag of rows for every
database, whatever its statement looks like.  Each operator either puts its clauses into the query of its
input or reads from that query; in both cases the rows of the new query are those of the operator, so the statement
for a whole plan returns what the plan denotes.
-/

namespace AlgebraSql

open Sql Node

/-! ## Bags -/

namespace SetOperator

/-- A set operation that counts how often a row occurs. -/
def counting : SetOperator → Multiset Row → Multiset Row → Multiset Row
  | .union, s, t => s + t
  | .intersect, s, t => s ∩ t
  | .except, s, t => s - t

/-- A set operation on bags: on the rows that occur, unless it counts how often they do. -/
def onBags (op : SetOperator) (all : Bool) (s t : Multiset Row) : Multiset Row :=
  if all then op.counting s t else (op.counting s.dedup t.dedup).dedup

theorem beq_row_eq : (List.instBEq : BEq Row) = instBEqOfDecidableEq := lawful_beq_subsingleton _ _

/-- Lists of rows are combined as their bags are. -/
theorem bag_combine (op : SetOperator) (distinct : Bool) (l r : List Row) :
    ((Row.combine op distinct l r : List Row) : Multiset Row) = op.onBags (!distinct) l r := by
  cases distinct with
  | false =>
    cases op with
    | union => rfl
    | intersect =>
      show ((l.bagInter r : List Row) : Multiset Row) = (l : Multiset Row) ∩ (r : Multiset Row)
      rw [Multiset.coe_inter, beq_row_eq]
    | except =>
      show ((l.diff r : List Row) : Multiset Row) = (l : Multiset Row) - (r : Multiset Row)
      rw [Multiset.coe_sub, beq_row_eq]
  | true =>
    -- without repetitions only the rows that occur matter
    have hdistinct : ∀ rows : List Row,
        (∀ row, row ∈ rows ↔ row ∈ op.counting (l : Multiset Row).dedup (r : Multiset Row).dedup) →
          ((rows.dedup : List Row) : Multiset Row) = op.onBags false l r := fun rows h => by
      rw [onBags, if_neg (by simp), ← Multiset.coe_dedup, Multiset.dedup_ext]
      exact fun row => by rw [Multiset.mem_coe, h]
    cases op with
    | union => exact hdistinct (l ++ r) fun row => by simp [counting]
    | intersect => exact hdistinct (l.filter (· ∈ r)) fun row => by simp [counting]
    | except =>
      refine hdistinct (l.filter (· ∉ r)) fun row => ?_
      rw [counting, Multiset.mem_sub_of_nodup (Multiset.nodup_dedup _)]
      simp

end SetOperator

/-- The rows of the table of a path, which is found under its name. -/
def Sql.Database.tableRows (db : Database) (path : List String) : List Row := db.rows (Convert.tableName path)

namespace Rel

mutual

/-- **`bag`** — the bag of rows that a plan of tables, constant rows, filters, projections, set operations and sorts
denotes, given the rows of the tables by their paths; it is empty for other operators. -/
def bag (P : Patterns) (rows : List String → List Row) : Rel → Multiset Row
  | .scan path _ => rows path
  | .values _ tuples => tuples.map fun tuple => tuple.map fun l => l.value.datum?.getD .null
  | .filter input condition _ => (bag P rows input).filter fun row => condition.value P row = .bool true
  | .project input projects _ distinct _ =>
    distinctBag distinct ((bag P rows input).map fun row => Scalar.values P row projects)
  | .sort input _ _ _ => bag P rows input
  | .setOp op all inputs =>
    match bags P rows inputs with
    | [] => 0
    | first :: rest => rest.foldl (op.onBags all) first
  | _ => 0

/-- The bags of several plans. -/
def bags (P : Patterns) (rows : List String → List Row) : List Rel → List (Multiset Row)
  | [] => []
  | rel :: rels => bag P rows rel :: bags P rows rels

end

theorem bags_eq_map (P : Patterns) (rows : List String → List Row) (rels : List Rel) :
    bags P rows rels = rels.map (bag P rows) := by
  induction rels with
  | nil => rfl
  | cons rel rels ih => rw [bags, ih, List.map_cons]

/-- **`RowPlan`** — a plan of tables, constant rows, filters, projections, set operations and sorts without limits over
tables whose columns are given by their paths.  Columns have names of their own, and expressions are plain. -/
inductive RowPlan (columns : List String → List String) : Rel → Prop
  | scan {path : List String} {fields : RowType} (hpath : path ≠ []) (hcolumns : columns path = fields.names)
      (hnames : fields.names.Nodup) : RowPlan columns (.scan path fields)
  | values {fields : RowType} {tuples : List (List Literal)} (hfields : fields ≠ []) (hnames : fields.names.Nodup)
      (htuples : ∀ tuple ∈ tuples, tuple.length = fields.length ∧ ∀ l ∈ tuple, l.value.datum?.isSome) :
      RowPlan columns (.values fields tuples)
  | filter {input : Rel} {condition : Expr} (hinput : RowPlan columns input)
      (hcondition : condition.Plain input.fields.length) (ids : List String) :
      RowPlan columns (.filter input condition ids)
  | project {input : Rel} {projects : List Expr} {names : List String} (hinput : RowPlan columns input)
      (hprojects : ∀ e ∈ projects, e.Plain input.fields.length) (hne : projects ≠ [])
      (hlength : names.length = projects.length) (hnames : names.Nodup) (distinct : Bool) (ids : List String) :
      RowPlan columns (.project input projects names distinct ids)
  | sort {input : Rel} {collation : List Collation} (hinput : RowPlan columns input)
      (hkeys : ∀ c ∈ collation, ∃ i < input.fields.length, c.key = (i : Nat)) :
      RowPlan columns (.sort input collation none none)
  | setOp {inputs : List Rel} (op : SetOperator) (all : Bool) (hlength : 2 ≤ inputs.length)
      (hinputs : ∀ input ∈ inputs, RowPlan columns input)
      (hwidth : ∀ input ∈ inputs, input.fields.length = (Rel.setOp op all inputs).fields.length) :
      RowPlan columns (.setOp op all inputs)

end Rel

namespace Convert

variable {env : Env} {sub : Rel → ConvertM Node} {s s' : State} {schema : Schema}

/-! ## Plain expressions -/

/-- The operators on plain expressions are no aggregate functions. -/
theorem not_aggregate_of_takes {op : Operator} {ts : List DataType} (h : op.Takes ts) :
    (op.form == .function && op.isAggregate) = false := by
  cases h with
  | connective h | comparison h | distinction h | test h | arithmetic h | membership h | pattern h =>
    revert h
    revert op
    decide
  | denial | sign | coalesce | case => decide

theorem subtermsAt_eq {ρ : Type} {shared : List (Scalar ρ)} {i : Nat} {e : Scalar ρ} (h : shared[i]? = some e) :
    Scalar.subtermsAt i shared = e.subterms := by
  induction shared generalizing i with
  | nil => cases h
  | cons e' es ih =>
    cases i with
    | zero =>
      obtain rfl : e' = e := by simpa using h
      rw [Scalar.subtermsAt, if_pos rfl]
    | succ i =>
      rw [Scalar.subtermsAt, if_neg (Nat.succ_ne_zero i)]
      exact ih (by simpa using h)

/-- **Plain expressions** are computed row by row, without sub-queries. -/
theorem queryFree_of_plain {d : Dialect} (hd : d.AddsNumbers) {width : Nat} {e : Expr} (h : e.Plain width) :
    QueryFree d e := by
  induction h with
  | inputRef h t =>
    intro u hu
    obtain rfl : u = _ := by simpa [Scalar.subterms] using hu
    trivial
  | @localRef i shared e h he t ih =>
    intro u hu
    rw [Scalar.subterms] at hu
    rcases List.mem_cons.mp hu with rfl | hu
    · trivial
    · exact ih u (subtermsAt_eq h ▸ hu)
  | literal h =>
    intro u hu
    obtain rfl : u = _ := by simpa [Scalar.subterms] using hu
    trivial
  | call htakes hoperands t ih =>
    intro u hu
    rw [Scalar.subterms, subtermsOf_eq] at hu
    rcases List.mem_cons.mp hu with rfl | hu
    · intro written hwritten
      rw [htakes.retarget hd, Except.ok.injEq] at hwritten
      rw [← hwritten]
      exact not_aggregate_of_takes htakes
    · obtain ⟨operand, hoperand, hu⟩ := List.mem_flatMap.mp hu
      exact ih operand hoperand u hu

/-- Projected plain expressions show their values wherever the fields of the input are shown. -/
theorem projectedNodes_show {E : Engine} {P : Patterns} {α : Type} {V : Reading (E.withOperators P) α} {row : α → Row}
    {width : Nat} {ctx : Context} (h : ctx.ShowsRow env V width row) (hd : env.dialect.AddsNumbers) {es : List Expr}
    (hes : ∀ e ∈ es, e.Plain width) :
    ∃ ns, (∀ s, (es.mapM (projectedNode env sub ctx)).Gives s ns s) ∧ ns.length = es.length
      ∧ together (ns.map V.value) = some fun a => (Scalar.values P (row a) es).map fun d => [d] := by
  induction es with
  | nil => exact ⟨[], fun s => (ConvertM.gives_pure _ _ _ _).mpr ⟨rfl, rfl⟩, rfl, rfl⟩
  | cons e es ih =>
    obtain ⟨n, hn, hmeans⟩ : ∃ n, (∀ s, (scalarNode env sub ctx e).Gives s n s) ∧ Means V P row e n :=
      scalarNode_means h hd e (hes e List.mem_cons_self)
    obtain ⟨ns, hns, hlength, hvalues⟩ := ih fun e he => hes e (List.mem_cons_of_mem _ he)
    refine ⟨typedIfNull env.dialect e.type n :: ns, fun s => ?_, by simp [hlength], ?_⟩
    · rw [List.mapM_cons, ConvertM.gives_bind]
      refine ⟨_, s, ?_, (ConvertM.gives_bind _ _ _ _ _).mpr ⟨ns, s, hns s, (ConvertM.gives_pure _ _ _ _).mpr ⟨rfl, rfl⟩⟩⟩
      exact (ConvertM.gives_bind _ _ _ _ _).mpr ⟨n, s, hn s, (ConvertM.gives_pure _ _ _ _).mpr ⟨rfl, rfl⟩⟩
    · have hvalue := value_typedIfNull V env.dialect e.type hmeans.shows
      simp only [List.map_cons, hvalue, together, hvalues, Option.map_some, Scalar.values]

/-! ## Open queries -/

/-- Whoever selects and puts out the same rows has the same bag, but for what is computed from the output. -/
theorem bag_of_outputs {E : Engine} {db : Database} {outer : Names} {m n : Node} (hm : RowSelect m) (hn : RowSelect n)
    (horder : m.child? "order" = none) (hdistinct : m.flag "distinct" = false) (horder' : n.child? "order" = none)
    (hselected : n.selected E db outer = m.selected E db outer) {out : Focus → Row} {g : Row → Row}
    (hout : m.output E db (m.fromNames db outer) = some fun s => out s.focus)
    (hout' : n.output E db (n.fromNames db outer) = some fun s => g (out s.focus)) {v : Focus → List Row}
    (hv : m.rows E db outer = some v) :
    ∃ w, n.rows E db outer = some w
      ∧ ∀ f, ((w f : List Row) : Multiset Row) = distinctBag (n.flag "distinct") ((v f : Multiset Row).map g) := by
  obtain ⟨t, -, ht, -⟩ := hm.selected_of_rows hv
  obtain ⟨w, hw, hbag⟩ := @RowSelect.exists_rows E db n outer hn t (hselected.trans ht) (fun f => g (out f)) hout'
    fun c hc => by rw [horder'] at hc; cases hc
  refine ⟨w, hw, fun f => ?_⟩
  rw [hbag, hm.bag_of_rows horder hdistinct ht hout hv, Multiset.map_coe, List.map_map]
  rfl

/-- Sort keys leave the bag of a query. -/
theorem bag_of_order {E : Engine} {db : Database} {outer : Names} {m c : Node} (hm : RowSelect m)
    (horder : m.child? "order" = none) (hc : c.aggregates = false)
    (hkeys : (orderIn E db (m.frame db.schema).cells.length (m.orderNames db outer) c).isSome = true)
    {out : Focus → Row} (hout : m.output E db (m.fromNames db outer) = some fun s => out s.focus)
    {v : Focus → List Row} (hv : m.rows E db outer = some v) :
    ∃ w, (m.set "order" (some (.node c))).rows E db outer = some w
      ∧ ∀ f, ((w f : List Row) : Multiset Row) = (v f : Multiset Row) := by
  set n := m.set "order" (some (.node c)) with hn
  obtain ⟨t, -, ht, -⟩ := hm.selected_of_rows hv
  have hframe : ∀ schema, n.frame schema = m.frame schema := fun schema => frame_set hm.kind (by decide) _
  have hlist : n.list "expressions" = m.list "expressions" := by
    rw [hn, list, list, list?_set_of_ne _ _ (by decide)]
  have houtput : n.output E db (n.fromNames db outer) = some fun s => out s.focus :=
    (hm.output_set (by decide) _).trans hout
  have hflag : n.flag "distinct" = m.flag "distinct" := flag_set_of_ne _ _ (by decide)
  obtain ⟨w, hw, hbag⟩ := (hm.setOrder hc).exists_rows ((hm.selected_set (by decide) _).trans ht) houtput fun c' hc' => by
    obtain rfl : c = c' := by simpa using hc'
    rwa [hframe, show n.orderNames db outer = m.orderNames db outer by
      rw [orderNames, orderNames, fromNames, fromNames, hframe, itemNames, itemNames, hlist]]
  obtain ⟨u, hu, hbag'⟩ := hm.exists_rows ht hout fun c' hc' => by rw [horder] at hc'; cases hc'
  obtain rfl : u = v := Option.some.inj (hu.symm.trans hv)
  exact ⟨w, hw, fun f => by rw [hbag, hbag', hflag]⟩

/-- **`Overlooks`** — the contexts over a query that shows columns, which know its items by their names or not. -/
inductive Overlooks (fields : RowType) (m : Node) (byName : Bool) : Context → Prop
  | columns (name : String) (hstar : m.selectList? = none) : Overlooks fields m byName (.aliases [(name, fields)] false)
  | items {ns : List Node} (hlisted : Listed fields m ns) (groupByAlias : Bool) :
    Overlooks fields m byName (.selectList (namedItems ns fields) byName groupByAlias)

/-- What such contexts know: columns, or the items themselves. -/
inductive Known (fields : RowType) (m : Node) : Node → Prop
  | column {f : Field} (hf : f ∈ fields) : Known fields m (Node.column f.name)
  | item {ns : List Node} (hlisted : Listed fields m ns) {n : Node} (hn : n ∈ ns) : Known fields m n

namespace Overlooks

variable {fields : RowType} {m n : Node} {byName : Bool} {ctx : Context} {i : Ordinal}

theorem known (h : Overlooks fields m byName ctx) (hmap : env.fieldMap = []) (hn : ctx.field env i = .ok n) :
    Known fields m n := by
  cases h with
  | columns name =>
    obtain ⟨f, hf, rfl⟩ := (field_aliases_iff hmap).mp hn
    obtain ⟨j, -, rfl⟩ := (nth?_isSome_iff _ i).mp (by rw [hf]; rfl)
    rw [nth?_whole] at hf
    exact .column (List.mem_of_getElem? hf)
  | @items ns hlisted groupByAlias =>
    cases byName with
    | false => exact .item hlisted (hlisted.mem_of_field hn)
    | true =>
      simp only [Context.field] at hn
      split at hn
      · rename_i item hitem
        obtain ⟨j, hj, rfl⟩ := (nth?_isSome_iff _ i).mp (by rw [hitem]; rfl)
        rw [length_namedItems hlisted.full.le, hlisted.full] at hj
        obtain ⟨k, hk, -, hget⟩ := hlisted.getElem? (List.getElem?_eq_getElem hj)
        obtain rfl : item = namedItem k fields[j].name := by simpa [hget, eq_comm] using hitem
        rcases itemField_namedItem_byName (hlisted.items k hk) fields[j].name (j : Nat) with hfield | ⟨-, hfield⟩
        · rw [hfield, Except.ok.injEq] at hn
          exact hn ▸ .column (List.getElem_mem hj)
        · rw [hfield, Except.ok.injEq] at hn
          exact hn ▸ .item hlisted hk
      · cases hn

/-- In ORDER BY, a text or a position may take the place of an item. -/
theorem known_orderField (h : Overlooks fields m byName ctx) (hmap : env.fieldMap = []) (hn : ctx.orderField env i = .ok n) :
    Known fields m n ∨ ∃ text, n = Node.string text ∨ n = Node.number text := by
  cases h with
  | columns name hstar =>
    have hcolumns : Overlooks fields m byName (.aliases [(name, fields)] false) := .columns name hstar
    exact .inl (hcolumns.known hmap hn)
  | @items ns hlisted groupByAlias =>
    simp only [Context.orderField, bind_eq_ok_iff, pure_eq_ok_iff] at hn
    obtain ⟨k, hk, rfl⟩ := hn
    have hitems : Overlooks fields m byName (.selectList (namedItems ns fields) byName groupByAlias) :=
      .items hlisted groupByAlias
    have hknown := hitems.known hmap hk
    cases i.nat? with
    | none => exact .inl hknown
    | some j =>
      simp only [Option.map_some, Option.getD_some, Context.sortKeyOf]
      split
      · exact .inr ⟨_, .inl rfl⟩
      · split
        · exact .inr ⟨_, .inr rfl⟩
        · exact .inl hknown

end Overlooks

/-- **`OpenSelect`** — a query of rows without an order that shows columns: those of its FROM clause, or an item for
each of them, which has a value. -/
structure OpenSelect (schema : Schema) (fields : RowType) (m : Node) : Prop where
  select : RowSelect m
  unsorted : m.child? "order" = none
  form : (m.selectList? = none ∧ ∃ own, m.frame schema = [(own, fields.names)])
    ∨ ∃ ns, Listed fields m ns ∧ fields ≠ []
  valued : ∀ (E : Engine) (P : Patterns) (db : Database) (outer : Names), db.schema = schema →
    ∀ item ∈ m.list "expressions", (item.scalar (E.withOperators P) db (m.fromNames db outer)).isSome = true

namespace OpenSelect

variable {fields : RowType} {m : Node}

/-- Columns of the same names are shown alike. -/
theorem congr {other : RowType} (h : OpenSelect schema other m) (hnames : fields.names = other.names) :
    OpenSelect schema fields m where
  select := h.select
  unsorted := h.unsorted
  valued := h.valued
  form := by
    rcases h.form with hstar | ⟨ns, hlisted, hne⟩
    · rw [hnames]
      exact .inl hstar
    · have hlength : fields.length = other.length := by
        have := congrArg List.length hnames
        simpa [RowType.names] using this
      refine .inr ⟨ns, ⟨by rw [namedItems_congr hnames]; exact hlisted.list, hlisted.full.trans hlength.symm,
        hlisted.items⟩, fun hnil => hne ?_⟩
      rw [← List.length_eq_zero_iff, ← hlength, hnil, List.length_nil]

/-- Rows may be left out or made distinct. -/
theorem set (h : OpenSelect schema fields m) {key : String} (hkey : key ∈ ["where", "distinct"]) (a : Arg) :
    OpenSelect schema fields (m.set key (some a)) := by
  have hne : ∀ other ∈ ["order", "from", "expressions"], key ≠ other := fun other hother heq => by
    subst heq
    simp only [List.mem_cons, List.not_mem_nil, or_false] at hkey hother
    rcases hkey with rfl | rfl <;> simp at hother
  have hlist : (m.set key (some a)).selectList? = m.selectList? := list?_set_of_ne _ _ (hne _ (by simp))
  refine ⟨h.select.set hkey a, by rw [child?_set_of_ne _ _ (hne _ (by simp)), h.unsorted], ?_, fun E P db outer hdb => ?_⟩
  · rw [frame_set h.select.kind (hne _ (by simp)), hlist]
    rcases h.form with hstar | ⟨ns, hlisted, hne⟩
    · exact .inl hstar
    · exact .inr ⟨ns, ⟨hlist.trans hlisted.list, hlisted.full, hlisted.items⟩, hne⟩
  · rw [list, show (m.set key (some a)).list? "expressions" = m.list? "expressions" from hlist, fromNames,
      frame_set h.select.kind (hne _ (by simp))]
    exact h.valued E P db outer hdb

/-- The items of such a query have values. -/
theorem exists_values (h : OpenSelect schema fields m) {ns : List Node} (hlisted : Listed fields m ns) (E : Engine)
    (P : Patterns) {db : Database} (hdb : db.schema = schema) (outer : Names) :
    ∃ v, together (ns.map (scalar (E.withOperators P) db (m.fromNames db outer))) = some v := by
  refine Option.isSome_iff_exists.mp ((together_isSome_iff _ _).mpr fun k hk => ?_)
  obtain ⟨name, hmem⟩ := hlisted.exists_named hk
  have hitem := h.valued E P db outer hdb _ hmem
  rwa [show (namedItem k name).scalar (E.withOperators P) db (m.fromNames db outer)
    = k.scalar (E.withOperators P) db (m.fromNames db outer) from
      Reading.value_namedItem (Reading.scalar _ db _) k name] at hitem

/-- **The output** of such a query, which contexts over it show. -/
theorem exists_output (h : OpenSelect schema fields m) (hmap : env.fieldMap = []) (hnodup : fields.names.Nodup)
    (E : Engine) (P : Patterns) {db : Database} (hdb : db.schema = schema) (outer : Names) :
    ∃ out : Focus → Row, m.output (E.withOperators P) db (m.fromNames db outer) = some (fun s => out s.focus)
      ∧ (∀ f, (out f).length = fields.length)
      ∧ ∀ ctx, Overlooks fields m false ctx → ctx.ShowsRow env
        (Reading.scalar (E.withOperators P) db (m.fromNames db outer)) fields.length out := by
  rcases h.form with ⟨hstar, own, hframe⟩ | ⟨ns, hlisted, hne⟩
  · have hlist : m.list "expressions" = [] := by simp [list, show m.list? "expressions" = none from hstar]
    have hwidth : (m.frame db.schema).cells.length = fields.length := by
      rw [hdb, hframe, length_cells, Frame.columns_single]
      simp [RowType.names]
    refine ⟨fun f => Row.pad fields.length f.row, by rw [output, hlist, hwidth]; rfl, fun f => by simp, fun ctx hctx => ?_⟩
    cases hctx with
    | items hlisted =>
      have hlist := hlisted.list
      rw [hstar] at hlist
      cases hlist
    | columns name =>
      rw [fromNames, hdb, hframe]
      have hrow := @showsRow_columns env (E.withOperators P) db fields hmap hnodup name own outer
      refine ⟨fun i hi => ?_, hrow.literal⟩
      obtain ⟨n, hn, hshows⟩ := hrow.field i hi
      refine ⟨n, hn, hshows.congr fun f => ?_⟩
      have hpad := Row.getD_pad f.row hi
      simp only [List.getD_eq_getElem?_getD] at hpad
      exact hpad.symm
  · obtain ⟨v, hv⟩ := h.exists_values hlisted E P hdb outer
    refine ⟨fun f => (v f).map single, hlisted.output_of_scalar hne hv, fun f => ?_, fun ctx hctx => ?_⟩
    · rw [List.length_map, length_together hv, List.length_map, hlisted.full]
    · cases hctx with
      | columns name hstar =>
        rw [hlisted.list] at hstar
        cases hstar
      | items hlisted' groupByAlias =>
        obtain rfl := hlisted.unique hlisted'
        have hone : ∀ k ∈ ns, ∀ u, (Reading.scalar (E.withOperators P) db (m.fromNames db outer)).value k = some u →
            ∀ f, u f = [single (u f)] := fun k hk u hu => (hlisted.items k hk).oneValued.scalar hu
        exact showsRow_items hlisted.full hlisted.items _ hone hv groupByAlias

/-- What contexts over such a query know calls no aggregate functions. -/
theorem aggregates_known (h : OpenSelect schema fields m) {n : Node} (hn : Known fields m n) : n.aggregates = false := by
  cases hn with
  | column hf => exact aggregates_column _
  | item hlisted hn =>
    obtain ⟨name, hmem⟩ := hlisted.exists_named hn
    rw [← aggregates_namedItem n name]
    exact h.select.items _ hmem

/-- What contexts over such a query know has a value in ORDER BY. -/
theorem analytic_known (h : OpenSelect schema fields m) (hnodup : fields.names.Nodup) (E : Engine) (P : Patterns)
    {db : Database} (hdb : db.schema = schema) (outer : Names) {n : Node} (hn : Known fields m n) :
    (n.analytic (E.withOperators P) db (m.orderNames db outer)).isSome = true := by
  cases hn with
  | item hlisted hn =>
    obtain ⟨v, hv⟩ := h.exists_values hlisted E P hdb outer
    obtain ⟨u, hu⟩ := Option.isSome_iff_exists.mp ((together_isSome_iff _ _).mp (by rw [hv]; rfl) n hn)
    exact analytic_isSome_mono (fun qualifier name hname => orderNames_isSome qualifier name (.inl hname)) n
      (by rw [analytic_of_scalar hu]; rfl)
  | @column f hf =>
    obtain ⟨i, hi, rfl⟩ := List.mem_iff_getElem.mp hf
    have hname : fields.names[i]? = some fields[i].name := by simp [RowType.names, hi]
    have hfound : (m.orderNames db outer none fields[i].name).isSome = true := by
      refine orderNames_isSome none _ ?_
      rcases h.form with ⟨-, own, hframe⟩ | ⟨ns, hlisted, -⟩
      · rw [fromNames_column (hdb ▸ hframe) hnodup hname]
        exact .inl rfl
      · rw [itemNames, hlisted.list_eq, outputNames_namedItems hlisted.full,
          itemPlace?_of_count hname (List.nodup_iff_count_le_one.mp hnodup _)]
        exact .inr rfl
    obtain ⟨v, hv⟩ := Option.isSome_iff_exists.mp hfound
    have hcolumn : (Node.column fields[i].name).scalar (E.withOperators P) db (m.orderNames db outer)
        = some fun f => [v f] := by
      rw [scalar_of_column rfl]
      have hbare : (Node.column fields[i].name).name = fields[i].name
          ∧ (Node.column fields[i].name).qualifier? = none := by
        simp [Node.column, Node.name, text, innerText, identifier, qualifier?, kept, child?]
      rw [hbare.1, hbare.2, hv]
      rfl
    rw [analytic_of_scalar hcolumn]
    rfl

/-- **Sort keys** over such a query have values in its ORDER BY and call no aggregate functions. -/
theorem sortKeys (h : OpenSelect schema fields m) (hmap : env.fieldMap = []) {byName : Bool} {ctx : Context}
    (hctx : Overlooks fields m byName ctx) {cs : List Collation} {keys : List Node}
    (hkeys : collationsNodes env ctx cs = .ok keys) :
    (Node.order keys).aggregates = false ∧ (fields.names.Nodup → ∀ (E : Engine) (P : Patterns) (db : Database)
      (outer : Names), db.schema = schema → (orderIn (E.withOperators P) db (m.frame db.schema).cells.length
        (m.orderNames db outer) (Node.order keys)).isSome = true) := by
  -- operations keep both, so only the fields count
  have hrelated : ∀ {R : Node → Node → Prop}, Congruent R → (∀ n, Known fields m n → R n n) → ∀ key ∈ keys, R key key :=
    fun {R} hR hknown key hkey => by
      obtain ⟨c, -, tested, n, htested, hn, hkey⟩ := mem_collationsNodes hkeys hkey
      refine related_sortKeys hR (hknown _ (hctx.known hmap htested)) ?_ hkey
      rcases hctx.known_orderField hmap hn with hn | ⟨text, rfl | rfl⟩
      · exact hknown _ hn
      · exact hR.string text
      · exact hR.number text
  refine ⟨?_, fun hnodup E P db outer hdb => orderIn_isSome ?_ _⟩
  · have hchildren : (Node.order keys).children = keys := by simp [Node.order, children, Arg.children]
    rw [aggregates_of_operation (.inl rfl), hchildren, List.any_eq_false]
    intro key hkey hcall
    exact hrelated (congruent_aggregates False) (fun n hn hcall => by
      rw [h.aggregates_known hn] at hcall
      cases hcall) key hkey hcall
  · exact hrelated (congruent_valued _) fun n hn => h.analytic_known hnodup E P hdb outer hn

end OpenSelect

end Convert
end AlgebraSql
