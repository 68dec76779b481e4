import AlgebraSql.Proofs.Shapes

/-!
# Flat results — how the result for a plan without joins is read.

The statement for such a plan is the query of its result, or a star over a table or over constant
rows.  An operator above opens a SELECT as it is; anything else it reads through a FROM item that has
the columns and the rows of the statement.
-/

namespace AlgebraSql.Convert

open Sql Node

variable {env : Env} {s s' : State} {schema : Schema}

/-! ## FROM items -/

/-- A FROM item has the columns and the rows of a query. -/
structure Shows (schema : Schema) (q item : Node) : Prop where
  frame : ∃ own, item.frame schema = [(own, q.columns schema)]
  tuples : ∀ {E : Engine} {db : Database} (names : Names), db.schema = schema →
    item.tuples E db names = q.rows E db names

/-- A star over rows of the right width returns them as they are. -/
theorem rows_selectFrom {E : Engine} {db : Database} {item : Node} {names : Names}
    (hwide : ∀ v, item.tuples E db names = some v → ∀ f, ∀ row ∈ v f,
      row.length = (item.frame db.schema).cells.length) :
    (selectFrom item).rows E db names = item.tuples E db names := by
  have habsent : (selectFrom item).clause "where" always
      (scalar E db ((selectFrom item).fromNames db names)) = some always := by
    simp [clause, selectFrom, child?]
  rw [(isStar_selectFrom item).rows_eq, habsent]
  cases hv : item.tuples E db names with
  | none => rfl
  | some v =>
    simp only [Option.bind_eq_bind, Option.bind_some, Option.pure_def, Option.some.injEq, holds_always,
      List.filter_true]
    funext f
    refine (List.map_congr_left fun row hrow => ?_).trans (List.map_id _)
    exact Row.pad_of_length (hwide v hv f row hrow)

theorem Shows.rows_selectFrom {E : Engine} {db : Database} {q item : Node} (h : Shows schema q item)
    (hwide : Wide schema q) (hdb : db.schema = schema) (names : Names) :
    (selectFrom item).rows E db names = q.rows E db names := by
  rw [← h.tuples names hdb]
  refine Convert.rows_selectFrom fun v hv f row hrow => ?_
  obtain ⟨own, hframe⟩ := h.frame
  rw [h.tuples names hdb] at hv
  rw [hdb, hframe, hwide hdb hv f row hrow, length_cells, Frame.columns_single]

/-- A star over a FROM item has its columns. -/
theorem Shows.columns_selectFrom {q item : Node} (h : Shows schema q item) :
    (selectFrom item).columns schema = q.columns schema := by
  obtain ⟨own, hframe⟩ := h.frame
  rw [Sql.Node.columns_selectFrom, hframe, Frame.columns_single]

theorem exists_frame_valuesItem (name : String) (columns : List String) (rows : List Node) :
    ∃ own, (valuesItem name columns rows).frame schema = [(own, columns)] :=
  ⟨_, by rw [frame_values rfl, aliasColumns_valuesItem]⟩

/-- A query in parentheses shows the query. -/
theorem shows_derived (q : Node) (name : Option String) : Shows schema q (derived q name) where
  frame := by
    cases name with
    | none => exact ⟨_, frame_subquery rfl (by simp [derived, subquery, wrap, child?])⟩
    | some name => exact ⟨_, frame_subquery rfl (by simp [derived, child?])⟩
  tuples := by
    intro E db names _
    have hthis : (derived q name).child? "this" = some q := by
      cases name <;> simp [derived, subquery, wrap, child?]
    have hkind : (derived q name).kind = .subquery := by cases name <;> rfl
    rw [tuples_eq, tuplesStep, hkind]
    simp only [rowsStep, hkind, only_partsOf hthis]
    rfl

/-- A node that gives a row of a width. -/
def WideRow (width : Nat) (row : Node) : Prop :=
  ∃ ns, row = Node.tuple ns ∧ ns.length = width ∧ ∀ m ∈ ns, m.OneValued

/-- Expressions of one value each give as many values as there are expressions. -/
theorem length_flatten_together {E : Engine} {db : Database} {names : Names} {ns : List Node}
    (h : ∀ m ∈ ns, m.OneValued) {v : Focus → List (List Datum)}
    (hv : together (ns.map (scalar E db names)) = some v) (f : Focus) :
    (v f).flatten.length = ns.length := by
  induction ns generalizing v with
  | nil =>
    cases hv
    rfl
  | cons n ns ih =>
    cases hn : n.scalar E db names with
    | none => simp [together, hn] at hv
    | some u =>
      simp only [List.map_cons, hn, together, Option.map_eq_some_iff] at hv
      obtain ⟨w, hw, rfl⟩ := hv
      have hone := (h n (by simp)).scalar hn f
      have hrest := ih (fun m hm => h m (by simp [hm])) hw
      rw [List.flatten_cons, List.length_append, hrest, hone]
      simp [Nat.add_comm]

theorem WideRow.length_eq {E : Engine} {db : Database} {names : Names} {width : Nat} {row : Node}
    (h : WideRow width row) {v : Focus → List Datum} (hv : row.scalar E db names = some v) (f : Focus) :
    (v f).length = width := by
  obtain ⟨ns, rfl, hlength, hone⟩ := h
  have hchildren : (Node.tuple ns).children = ns := by simp [Node.tuple, children, Arg.children]
  rw [scalar_of_operation rfl, hchildren] at hv
  simp only [Option.map_eq_some_iff] at hv
  obtain ⟨w, hw, rfl⟩ := hv
  rw [← hlength, ← length_flatten_together hone hw f]
  rfl

/-- What a FROM clause reads as it is: a table, or constant rows under names for the columns.  The
table may have to be referred to by another name. -/
inductive Leaf (schema : Schema) (columns : List String) : Node → Option String → Prop
  | table {path : List String} {t : Node} (needed : Option String) (ht : Node.table? path = .ok t)
      (hcolumns : tableColumns schema path = columns) : Leaf schema columns t needed
  | values (name : String) {rows : List Node} (hrows : ∀ row ∈ rows, WideRow columns.length row) :
      Leaf schema columns (valuesItem name columns rows) none

namespace Leaf

variable {columns : List String} {n : Node} {needed : Option String}

theorem isReadable (h : Leaf schema columns n needed) : isReadable n = true := by
  cases h with
  | @table path _ _ ht hcolumns =>
    obtain ⟨t, own, ht', hkind, -⟩ := table?_traits (show path ≠ [] by rintro rfl; cases ht)
    obtain rfl : t = n := by simpa [ht'] using ht
    simp [isReadable_iff, hkind]
  | values => simp [isReadable_iff, valuesItem, hasAlias, child?]

theorem not_plainQuery (h : Leaf schema columns n needed) : isPlainQuery n = false := by
  have hread := (isReadable_iff n).mp h.isReadable
  by_contra hplain
  rw [Bool.not_eq_false, isPlainQuery_iff] at hplain
  rcases hread with hk | hk | ⟨hk | hk, -⟩ <;> simp [hk, Kind.isSetOperation] at hplain

/-- A table under another name has the same columns and rows. -/
theorem renamed_table {path : List String} {t : Node} (ht : Node.table? path = .ok t)
    (hcolumns : tableColumns schema path = columns) (a : Arg) :
    (t.set "alias" (some a)).kind = .table
      ∧ (∃ own, (t.set "alias" (some a)).frame schema = [(own, columns)])
      ∧ ∀ (E : Engine) (db : Database) names,
        (t.set "alias" (some a)).tuples E db names = t.tuples E db names := by
  obtain ⟨t', own, ht', hkind, -⟩ := table?_traits (show path ≠ [] by rintro rfl; cases ht)
  obtain rfl : t' = t := by simpa [ht'] using ht
  have hrenamed : (t'.set "alias" (some a)).kind = .table := by simp [hkind]
  have hschema : schema t'.parts = columns := by rw [← hcolumns, tableColumns, parts_table? ht']
  refine ⟨hrenamed, ⟨_, by rw [frame_table hrenamed, parts_set_alias, hschema]⟩, fun E db names => ?_⟩
  rw [tuples_eq, tuples_eq, tuplesStep, tuplesStep, hrenamed, hkind]
  simp only [parts_set_alias]

/-- What is read as it is has its columns, and rows of their width. -/
theorem frame_eq (h : Leaf schema columns n needed) : (∃ own, n.frame schema = [(own, columns)])
    ∧ ∀ {E : Engine} {db : Database} {names : Names} {v : Focus → List Row}, db.schema = schema →
      n.tuples E db names = some v → ∀ f, ∀ row ∈ v f, row.length = columns.length := by
  cases h with
  | @table path _ _ ht hcolumns =>
    obtain ⟨t, own, ht', hkind, -⟩ := table?_traits (show path ≠ [] by rintro rfl; cases ht)
    obtain rfl : t = n := by simpa [ht'] using ht
    have hschema : schema t.parts = columns := by rw [← hcolumns, tableColumns, parts_table? ht']
    refine ⟨⟨_, by rw [frame_table hkind, hschema]⟩, ?_⟩
    rintro E db names v rfl hv f row hrow
    rw [tuples_eq, tuplesStep, hkind] at hv
    cases hv
    rw [db.width _ row hrow, hschema]
  | values name hrows =>
    rename_i rows
    refine ⟨exists_frame_valuesItem name columns rows, ?_⟩
    rintro E db names v rfl hv f row hrow
    have hlist : (valuesItem name columns rows).list? "expressions" = some rows := by
      simp [valuesItem, list?]
    rw [tuples_eq, tuplesStep, show (valuesItem name columns rows).kind = .values from rfl] at hv
    simp only [rowsStep, show (valuesItem name columns rows).kind = .values from rfl,
      several_partsOf hlist, List.map_map, Option.map_eq_some_iff] at hv
    obtain ⟨vs, hvs, rfl⟩ := hv
    -- each row has the values of its tuple
    have hrow : ∀ {ms : List Node} {vs : Focus → List Row}, (∀ m ∈ ms, WideRow columns.length m) →
        together (ms.map (scalar E db names.beside)) = some vs →
          ∀ row ∈ vs f.beside, row.length = columns.length := by
      intro ms
      induction ms with
      | nil =>
        intro vs _ hvs row hrow
        cases hvs
        cases hrow
      | cons m ms ih =>
        intro vs hms hvs row hrow
        cases hm : m.scalar E db names.beside with
        | none => simp [together, hm] at hvs
        | some u =>
          simp only [List.map_cons, hm, together, Option.map_eq_some_iff] at hvs
          obtain ⟨w, hw, rfl⟩ := hvs
          rcases List.mem_cons.mp hrow with rfl | hrow
          · exact (hms m (by simp)).length_eq hm _
          · exact ih (fun m hm => hms m (by simp [hm])) hw row hrow
    exact hrow hrows hvs row ‹_›

/-- What is read as it is shows a star over itself. -/
theorem shows (h : Leaf schema columns n needed) : Shows schema (selectFrom n) n
    ∧ (selectFrom n).columns schema = columns := by
  obtain ⟨⟨own, hframe⟩, hwide⟩ := h.frame_eq
  have hcolumns : (selectFrom n).columns schema = columns := by
    rw [columns_selectFrom, hframe, Frame.columns_single]
  refine ⟨⟨⟨own, by rw [hframe, hcolumns]⟩, ?_⟩, hcolumns⟩
  intro E db names hdb
  refine (rows_selectFrom fun v hv f row hrow => ?_).symm
  rw [hwide hdb hv f row hrow, hdb, hframe, length_cells, Frame.columns_single]

end Leaf

/-! ## Results -/

/-- The statement for a result: its query, or a star over what is read as it is. -/
def Result.query (x : Result) : Node := if isPlainQuery x.node then x.node else selectFrom x.node

theorem Result.query_of_plain {x : Result} (h : isPlainQuery x.node = true) : x.query = x.node := by
  simp [Result.query, h]

/-- **`Flat`** — the result for a plan without joins. -/
structure Flat (schema : Schema) (rel : Rel) (x : Result) : Prop where
  tracked : Tracked rel x
  single : ∃ name, x.Single name ∧ (isPlainQuery x.node = true → x.neededAlias = some name)
  fields : x.fields = rel.fields
  form : isPlainQuery x.node = true ∨ Leaf schema rel.fields.names x.node x.neededAlias
  shaped : x.node.kind = .select → Shaped schema rel.fields x.node
  columns : x.query.columns schema = rel.fields.names ∨ rel.fields = []
  wide : Wide schema x.query
  /-- A SELECT is more than a FROM clause. -/
  late : x.node.kind = .select → ∃ c ∈ x.clauses, 1 ≤ c.rank

namespace Flat

variable {input rel : Rel} {x : Result} {m : Node}

/-- The statement for a flat result. -/
theorem asStatement (henv : env.NeverQualifies) (hx : Flat schema input x)
    (h : (x.asStatement env).Gives s m s') : m = x.query := by
  unfold Result.asStatement at h
  rcases hx.form with hplain | hleaf
  · rw [Result.query_of_plain hplain]
    split at h
    · exact ((ConvertM.gives_pure _ _ _ _).mp h).1.symm
    · rename_i hset
      have hkind : x.node.kind = .select := by
        rw [isPlainQuery_iff] at hplain
        rcases hplain.1 with hk | hk
        · exact hk
        · exact absurd hk (by simpa [isSetOperation] using hset)
      exact ((ConvertM.gives_asSelect_of_select hkind _ _ _).mp h).1
  · have hread := (isReadable_iff x.node).mp hleaf.isReadable
    have hkinds : x.node.isSetOperation = false ∧ x.node.kind ≠ .select := by
      rcases hread with hk | hk | ⟨hk | hk, -⟩ <;> simp [isSetOperation, hk, Kind.isSetOperation]
    rw [hkinds.1] at h
    simp only [Bool.false_eq_true, if_false] at h
    rw [ConvertM.gives_asSelect_of_ne_select henv hkinds.2,
      ConvertM.gives_wrapSelect_of_readable henv hleaf.isReadable] at h
    rw [h.1, Result.query, hleaf.not_plainQuery, if_neg (by simp)]

/-- A flat result as a query with a select list: the SELECT itself, or a star that shows it. -/
theorem asSelect (henv : env.NeverQualifies) (hx : Flat schema input x)
    (h : (x.asSelect env).Gives s m s') :
    (m = x.node ∧ x.node.kind = .select) ∨ ∃ item, m = selectFrom item ∧ Shows schema x.query item := by
  by_cases hkind : x.node.kind = .select
  · exact .inl ⟨((ConvertM.gives_asSelect_of_select hkind _ _ _).mp h).1, hkind⟩
  right
  rw [ConvertM.gives_asSelect_of_ne_select henv hkind] at h
  rcases hx.form with hplain | hleaf
  · rw [Result.query_of_plain hplain]
    exact ⟨_, ((ConvertM.gives_wrapSelect_of_plainQuery hplain _ _ _).mp h).1, shows_derived _ _⟩
  · rw [Result.query, hleaf.not_plainQuery, if_neg (by simp)]
    exact ⟨_, ((ConvertM.gives_wrapSelect_of_readable henv hleaf.isReadable _ _ _).mp h).1,
      hleaf.shows.1⟩

/-- A flat result as a FROM item under the name that it needs. -/
theorem asFrom (hx : Flat schema input x) : ∃ item, x.asFrom = .ok item ∧ isReadable item = true
    ∧ Shows schema x.query item := by
  rcases hx.form with hplain | hleaf
  · obtain ⟨name, -, hneeded⟩ := hx.single
    rw [Result.query_of_plain hplain]
    exact ⟨derived x.node (some name), by
      simp only [Result.asFrom, hneeded hplain, asFromItem_of_plainQuery hplain], isReadable_derived _ _,
      shows_derived _ _⟩
  · rw [Result.query, hleaf.not_plainQuery, if_neg (by simp)]
    have hsame : x.neededAlias = none → ∃ item, x.asFrom = .ok item ∧ isReadable item = true
        ∧ Shows schema (selectFrom x.node) item := fun hnone =>
      ⟨x.node, by simp [Result.asFrom, hnone], hleaf.isReadable, hleaf.shows.1⟩
    cases hneeded : x.neededAlias with
    | none => exact hsame hneeded
    | some name =>
      rw [hneeded] at hleaf
      obtain ⟨hshows, hcolumns⟩ := hleaf.shows
      generalize hnode : x.node = n at *
      cases hleaf with
      | table _ ht hcolumns' =>
        obtain ⟨hkind, ⟨own, hframe⟩, htuples⟩ := Leaf.renamed_table ht hcolumns'
          (.node (tableAlias name n.aliasColumns))
        have hitem : n.isFromItem = true := by
          have : n.kind = .table := by simpa using hkind
          simp [isFromItem, this]
        refine ⟨n.set "alias" (some (.node (tableAlias name n.aliasColumns))),
          by simp [Result.asFrom, hneeded, hnode, asFromItem, hitem],
          (isReadable_iff _).mpr (.inl hkind), ⟨own, by rw [hframe, hcolumns]⟩, ?_⟩
        intro E db names hdb
        rw [htuples, hshows.tuples names hdb]

/-- **Opening a flat result**: the SELECT itself if it is not wrapped, or a star that shows it. -/
theorem opened (henv : env.NeverQualifies) (hx : Flat schema input x) {expected : List Clause}
    {ignores : Bool} (h : Opening env (x.expecting expected ignores) rel s m s') :
    (m = x.node ∧ x.node.kind = .select ∧ (x.expecting expected ignores).mustWrap env rel = false)
      ∨ ∃ item, m = selectFrom item ∧ Shows schema x.query item := by
  unfold Opening at h
  split at h
  · obtain ⟨item, hitem, hread, hshows⟩ := hx.asFrom
    have hitem' : (x.expecting expected ignores).asFrom = .ok item := hitem
    rw [ConvertM.gives_subSelect hitem', ConvertM.gives_wrapSelect_of_readable henv hread] at h
    exact .inr ⟨item, h.1, hshows⟩
  · rename_i hwrap
    have h' : (x.asSelect env).Gives s m s' := h
    rcases hx.asSelect henv h' with ⟨hm, hkind⟩ | hread
    · exact .inl ⟨hm, hkind, by simpa using hwrap⟩
    · exact .inr hread

/-- A star that shows a flat result has its shape. -/
theorem shaped_selectFrom (hx : Flat schema input x) {item : Node} (h : Shows schema x.query item) :
    Shaped schema input.fields (selectFrom item) where
  kind := rfl
  plain := isPlainQuery_selectFrom item
  items := .inl (by simp [selectFrom, selectList?, list?])
  frame _ := by
    obtain ⟨own, hframe⟩ := h.frame
    exact ⟨own, _, by rw [(isStar_selectFrom item).frame_eq, hframe]⟩
  columns := by
    rw [h.columns_selectFrom]
    exact hx.columns
  conditions := by simp [groupConditions, selectFrom, child?]

/-- What is opened has the shape of the result. -/
theorem shaped_opened (henv : env.NeverQualifies) (hx : Flat schema input x) {expected : List Clause}
    {ignores : Bool} (h : Opening env (x.expecting expected ignores) rel s m s') :
    Shaped schema input.fields m := by
  rcases hx.opened henv h with ⟨rfl, hkind, -⟩ | ⟨item, rfl, hshows⟩
  · exact hx.shaped hkind
  · exact hx.shaped_selectFrom hshows

/-- The fields of a query over a flat result are items. -/
theorem item_of_field (henv : env.NeverQualifies) (hmap : env.fieldMap = []) (hx : Flat schema input x)
    {expected : List Clause} {ignores : Bool}
    (h : Opening env (x.expecting expected ignores) rel s m s') {i : Ordinal} {n : Node}
    (hn : ((x.expecting expected ignores).contextOver env rel m).field env i = .ok n) : Item n := by
  obtain ⟨name, hsingle, -⟩ := hx.single
  unfold Result.contextOver at hn
  rcases (hx.shaped_opened henv h).items with hstar | ⟨ns, hlisted⟩
  · simp only [hstar, (hsingle.expecting expected ignores).aliases, field_aliases_iff hmap] at hn
    obtain ⟨f, -, rfl⟩ := hn
    exact item_column _ _
  · simp only [hlisted.list, Result.itemContext, Context.field] at hn
    split at hn
    · rename_i item hitem
      obtain ⟨j, hj, rfl⟩ := (nth?_isSome_iff _ i).mp (by rw [hitem]; rfl)
      rw [length_namedItems hlisted.full.le] at hj
      have hj' : j < input.fields.length := hlisted.full ▸ hj
      obtain ⟨k, hk, -, hget⟩ := hlisted.getElem? (List.getElem?_eq_getElem hj')
      obtain rfl : item = namedItem k input.fields[j].name := by
        simpa [hget, eq_comm] using hitem
      generalize (_ || _ : Bool) = byName at hn
      cases byName with
      | false =>
        rw [itemField_namedItem (hlisted.items k hk)] at hn
        cases hn
        exact hlisted.items _ hk
      | true =>
        rcases itemField_namedItem_byName (hlisted.items k hk) input.fields[j].name (j : Ordinal) with
          hcolumn | ⟨-, hsame⟩
        · rw [hcolumn] at hn
          cases hn
          exact item_column _ _
        · rw [hsame] at hn
          cases hn
          exact hlisted.items _ hk
    · cases hn

/-- A SELECT that is recorded over an opened query is a flat result. -/
theorem of_records {y r : Result} {n : Node} (h : Records env rel y m n r) (htracked : Tracked rel r)
    (hshaped : Shaped schema rel.fields n) (hlate : ∃ c ∈ y.expected, 1 ≤ c.rank) : Flat schema rel r := by
  have hnode := h.node_eq
  have hquery : r.query = n := by rw [Result.query_of_plain (by rw [hnode]; exact hshaped.plain), hnode]
  obtain ⟨c, hc, hrank⟩ := hlate
  have hmem := h.mem_clauses hc
  obtain ⟨name, hrec, hsingle⟩ := h
  refine ⟨htracked, ⟨name, hsingle, fun _ => ?_⟩, ?_, .inl (by rw [hnode]; exact hshaped.plain), ?_, ?_, ?_, ?_⟩
  · rw [hrec]
    exact needed_recorded hshaped.plain _ _ _ _
  · rw [hrec, recorded_fields, hshaped.declaredFields_eq]
  · rw [hnode]
    exact fun _ => hshaped
  · rw [hquery]
    exact hshaped.columns
  · rw [hquery]
    exact wide_select hshaped.kind
  · exact fun _ => ⟨c, hmem, hrank⟩

end Flat

end AlgebraSql.Convert
