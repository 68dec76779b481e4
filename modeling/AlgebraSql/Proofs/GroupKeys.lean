import AlgebraSql.Proofs.ItemNames
import AlgebraSql.Proofs.Steps
import AlgebraSql.Proofs.Written

/-!
# Keys of groups — how the keys of an aggregation over a projection are written.

A projection over a table shows columns of the table and expressions under names.  An aggregation
over it writes a key as a column in its select list and in GROUP BY, or as an expression under a name
in the one and as that name in the other.
-/

namespace AlgebraSql.Convert

open Sql Node

variable {env : Env} {sub : Rel → ConvertM Node} {s s' : State} {schema : Schema}

/-! ## Tables under a projection -/

/-- A table is read as it is or under another name, and shows its columns. -/
theorem source_of_table (henv : env.NeverQualifies) {table : List String} {t : Node}
    (ht : Node.table? table = .ok t) {x : Result} (hx : x.node = t) {wrapped : Bool} {m : Node}
    (h : (if wrapped then x.subSelect env else x.asSelect env).Gives s m s') :
    ∃ item own, m = Node.selectFrom item ∧ item.frame schema = [(own, tableColumns schema table)]
      ∧ item.kind = .table := by
  have hpath : table ≠ [] := by
    rintro rfl
    cases ht
  obtain ⟨t', own, ht', hkind, -, -, -⟩ := table?_traits hpath
  obtain rfl : t' = t := by simpa [ht'] using ht
  have hreadable : isReadable t' = true := (isReadable_iff _).mpr (.inl hkind)
  have hcolumns : schema t'.parts = tableColumns schema table := by rw [tableColumns, parts_table? ht']
  cases wrapped with
  | false =>
    have hselect : x.node.kind ≠ .select := by simp [hx, hkind]
    simp only [Bool.false_eq_true, if_false] at h
    rw [ConvertM.gives_asSelect_of_ne_select henv hselect, hx,
      ConvertM.gives_wrapSelect_of_readable henv hreadable] at h
    exact ⟨t', _, h.1, by rw [frame_table hkind, hcolumns], hkind⟩
  | true =>
    have hitem : t'.isFromItem = true := by simp [isFromItem, hkind]
    obtain ⟨item, hitem, hframe, htable⟩ : ∃ item, x.asFrom = .ok item
        ∧ item.frame schema = [(item.outputName, tableColumns schema table)]
        ∧ item.kind = .table := by
      cases hneeded : x.neededAlias with
      | none => exact ⟨t', by simp [Result.asFrom, hneeded, hx], by rw [frame_table hkind, hcolumns],
          hkind⟩
      | some name =>
        have hkind' : (t'.set "alias" (some (.node (tableAlias name t'.aliasColumns)))).kind = .table := by
          simp [hkind]
        refine ⟨_, by simp [Result.asFrom, hneeded, hx, asFromItem, hitem], ?_, hkind'⟩
        rw [frame_table hkind', parts_set_alias, hcolumns]
    simp only [if_true] at h
    rw [ConvertM.gives_subSelect hitem,
      ConvertM.gives_wrapSelect_of_readable henv ((isReadable_iff _).mpr (.inl htable))] at h
    exact ⟨item, _, h.1, hframe, htable⟩

/-- An expression and what a projection over columns writes for it. -/
structure Projected (columns : List String) (e : Expr) (n : Node) : Prop where
  written : Written columns n
  field : e.inputRef? ≠ none → n.kind = .column
  null : n.is .null = true → n = Node.null ∧ e.type.name = .null

theorem yields_projectedNode {columns : List String} {ctx : Context}
    (hfield : ∀ i n, ctx.field env i = .ok n → ∃ name ∈ columns, n = Node.column name) {e : Expr}
    (he : readsOuter e = false) {n : Node} (h : (projectedNode env sub ctx e).Gives s n s') :
    Projected columns e n := by
  have hwritten : ∀ i m, ctx.field env i = .ok m → Written columns m := by
    intro i m hm
    obtain ⟨name, hname, rfl⟩ := hfield i m hm
    exact .field hname
  simp only [projectedNode, ConvertM.gives_bind, ConvertM.gives_pure] at h
  obtain ⟨m, s₁, hm, rfl, rfl⟩ := h
  have hmwritten := produced_scalarNode (produced_written columns) hwritten e he s m s₁ hm
  by_cases hnull : m.is .null = true
  · rw [if_pos hnull]
    have hkind : typedNull env.dialect e.type = Node.null ∧ e.type.name = .null
        ∨ (typedNull env.dialect e.type).kind = .cast := by
      unfold typedNull
      split
      · rename_i htype
        exact .inl ⟨rfl, by simpa using htype⟩
      · exact .inr rfl
    refine ⟨(produced_written columns).of_kind ?_, fun href => ?_, fun hn => ?_⟩
    · rcases hkind with ⟨hk, -⟩ | hk <;> simp [hk, Node.null]
    · -- a field is no null
      cases e <;> simp only [Scalar.inputRef?, ne_eq, not_true_eq_false] at href
      rename_i i t
      rw [scalarNode, ConvertM.gives_lift] at hm
      obtain ⟨name, -, rfl⟩ := hfield i m hm.1
      simp [Node.column] at hnull
    · rcases hkind with hnull | hk
      · exact hnull
      · simp [Node.is, hk] at hn
  · rw [if_neg hnull]
    refine ⟨hmwritten, fun href => ?_, fun hn => absurd hn hnull⟩
    cases e <;> simp only [Scalar.inputRef?, ne_eq, not_true_eq_false] at href
    rename_i i t
    rw [scalarNode, ConvertM.gives_lift] at hm
    obtain ⟨name, -, rfl⟩ := hfield i m hm.1
    rfl

/-- The result of a projection over a table. -/
structure ProjectedTable (schema : Schema) (columns : List String) (projects : List Expr)
    (rel : Rel) (x : Result) : Prop where
  fields : x.fields = rel.fields
  single : ∃ name, x.Single name ∧ x.neededAlias = some name
  plain : isPlainQuery x.node = true ∧ x.node.kind = .select
  ungrouped : x.node.child? "group" = none
  frame : (x.node.frame schema).columns = columns
  source : ∃ item, x.node.child? "from" = some (Node.wrap .from item) ∧ item.kind = .table
  ungroupedClauses : .groupBy ∉ x.clauses
  listed : (x.node.selectList? = none ∧ rel.fields.names = columns)
    ∨ ∃ ns, x.node.selectList? = some (namedItems ns rel.fields)
      ∧ List.Forall₂ (Projected columns) projects ns ∧ ns.length = rel.fields.length

/-- A field of an input by itself is a column of it. -/
theorem exists_name_of_field (hmap : env.fieldMap = []) {name : String} {fields : RowType} {i : Ordinal} {n : Node}
    (h : (Context.aliases [(name, fields)] false).field env i = .ok n) : ∃ column ∈ fields.names, n = Node.column column := by
  rw [field_aliases_iff hmap] at h
  obtain ⟨f, hf, rfl⟩ := h
  exact ⟨f.name, List.mem_map_of_mem (mem_of_nth? hf), rfl⟩

/-- A query that may be made distinct keeps its kind, its list and its other clauses. -/
theorem traits_distinct (n : Node) (distinct : Bool) :
    (if distinct then n.set "distinct" (some (.flag true)) else n).kind = n.kind
      ∧ (if distinct then n.set "distinct" (some (.flag true)) else n).selectList? = n.selectList?
      ∧ ∀ key, key ≠ "distinct" → (if distinct then n.set "distinct" (some (.flag true)) else n).arg? key = n.arg? key := by
  cases distinct with
  | false => exact ⟨rfl, rfl, fun key _ => rfl⟩
  | true =>
    refine ⟨by simp, list?_set_of_ne n _ (by decide), fun key hkey => ?_⟩
    simp only [if_true]
    exact arg?_set_of_ne n _ hkey.symm

/-- **A projection over a table** is written over the columns of the table. -/
theorem projectedTable (henv : env.NeverQualifies) (hmap : env.fieldMap = []) {table : List String}
    {fields : RowType} {projects : List Expr} {names : List String} {distinct : Bool}
    {ids : List String} (hcolumns : tableColumns schema table = fields.names)
    (hnames : names.length = projects.length) (houter : ∀ e ∈ projects, readsOuter e = false)
    {root : Bool} {x : Result}
    (h : (relationResult env sub root (.project (.scan table fields) projects names distinct ids)).Gives
      s x s') :
    ProjectedTable schema fields.names projects (.project (.scan table fields) projects names distinct ids)
      x := by
  rw [relationResult] at h
  simp only [relationResult, ConvertM.gives_bind] at h
  obtain ⟨x₀, s₁, hscan, h⟩ := h
  simp only [scanResult, ConvertM.gives_bind, ConvertM.gives_lift,
    ConvertM.gives_makeResult henv] at hscan
  obtain ⟨t, s₂, ⟨ht, rfl⟩, rfl, rfl⟩ := hscan
  have hpath : table ≠ [] := by
    rintro rfl
    cases ht
  obtain ⟨t', own, ht', hkind, -, haliases, -⟩ := table?_traits hpath
  obtain rfl : t' = t := by simpa [ht'] using ht
  have hdeclared : declaredFields (.scan table fields) t' = fields := declaredFields_table hkind haliases
  have hsingle := Result.single_recorded t' [.from] (.scan table fields) none
    (givenName s.usedNames t') (by simp)
  generalize givenName s.usedNames t' = name at hsingle h
  obtain ⟨y, m, s₃, s₄, n, rfl, hm, hlist, hrecords⟩ := hsingle.project_step henv h
  obtain ⟨item, own', rfl, hframe, htable⟩ :
      ∃ item own, m = Node.selectFrom item ∧ item.frame schema = [(own, tableColumns schema table)]
        ∧ item.kind = .table :=
    source_of_table henv ht (by simp [Result.expecting]) hm
  have hfield : ∀ i n, ((Result.expecting (recorded t' [.from] (.scan table fields) none name)
      [.select]).contextOver env (.project (.scan table fields) projects names distinct ids)
        (Node.selectFrom item)).field env i = .ok n → ∃ column ∈ fields.names, n = Node.column column := by
    intro i n hn
    have hcontext : (Result.expecting (recorded t' [.from] (.scan table fields) none name)
        [.select]).contextOver env (.project (.scan table fields) projects names distinct ids)
          (Node.selectFrom item) = .aliases [(name, fields)] false := by
      simp [Result.contextOver, Node.selectFrom, selectList?, list?, Result.expecting, hdeclared]
    exact exists_name_of_field hmap (hcontext ▸ hn)
  -- the query is `SELECT * FROM item`, perhaps with a list and perhaps distinct
  set rel := Rel.project (.scan table fields) projects names distinct ids with hrel
  have hlisted : (n.selectList? = none ∧ rel.fields.names = fields.names)
      ∨ ∃ ns, n.selectList? = some (namedItems ns rel.fields)
        ∧ List.Forall₂ (Projected fields.names) projects ns ∧ ns.length = rel.fields.length := by
    rcases hlist with ⟨hidentity, rfl⟩ | ⟨-, ns, s₅, hns, -, rfl⟩
    · simp only [isIdentity, Bool.and_eq_true, beq_iff_eq] at hidentity
      exact .inl ⟨by simp [Node.selectFrom, selectList?, list?], by rw [hidentity.2]; rfl⟩
    · refine .inr ⟨ns, by simp [withList, selectList?, list?], ?_, ?_⟩
      · exact ConvertM.forall₂_of_gives_mapM
          (fun e he _ _ _ hn => yields_projectedNode hfield (houter e he) hn) hns
      · rw [ConvertM.length_of_gives_mapM hns]
        simp [hrel, Rel.fields, hnames]
  have hargs : n.kind = .select
      ∧ ∀ key, key ≠ "expressions" → n.arg? key = (Node.selectFrom item).arg? key := by
    rcases hlist with ⟨-, rfl⟩ | ⟨-, ns, s₅, -, -, rfl⟩
    · exact ⟨rfl, fun _ _ => rfl⟩
    · exact ⟨rfl, fun key hkey => arg?_set_of_ne _ _ hkey.symm⟩
  obtain ⟨hkind', hlist', hargs'⟩ := traits_distinct n distinct
  replace hkind' := hkind'.trans hargs.1
  replace hargs' := fun key hkey hne => (hargs' key hne).trans (hargs.2 key hkey)
  generalize (if distinct then n.set "distinct" (some (.flag true)) else n) = n' at *
  have hfrom : n'.child? "from" = some (Node.wrap .from item) := by
    rw [child?, hargs' "from" (by decide) (by decide)]
    simp [Node.selectFrom]
  have hplain : isPlainQuery n' = true := by
    refine (isPlainQuery_iff _).mpr ⟨.inl hkind', ?_⟩
    simp [hasAlias, child?, hargs' "alias" (by decide) (by decide), Node.selectFrom]
  rw [← hlist'] at hlisted
  have hfields : declaredFields rel n' = rel.fields := declaredFields_select hplain hkind'
    (hlisted.imp (fun h => h.1) fun hlist => hlist.imp fun ns hns => ⟨hns.1, hns.2.2⟩)
  obtain ⟨name', rfl, hsingle'⟩ := hrecords
  refine ⟨by simpa using hfields, ⟨name', hsingle', ?_⟩, by simp [hplain, hkind'], ?_, ?_,
    ⟨item, by simpa using hfrom, htable⟩, ?_, by simpa using hlisted⟩
  · exact needed_recorded hplain _ _ _ _
  · rw [recorded_node, child?, hargs' "group" (by decide) (by decide)]
    simp [Node.selectFrom]
  · rw [recorded_node, frame_select hkind' hfrom, hframe, Frame.columns_single, hcolumns]
  · simp only [recorded_clauses, Result.builderOver, Result.expecting]
    split <;> simp

/-! ## Keys -/

/-- What a key of an aggregation is written as in the select list and in GROUP BY, over columns that
FROM shows: as a column in both, or as an expression under a name and by that name. -/
inductive Key (columns : List String) (e : Option Expr) (f : Field) : Node → Node → Prop
  | column {name : String} (h : name ∈ columns) : Key columns e f (Node.column name) (Node.column name)
  | qualified (name table : String) :
    Key columns e f (Node.column name (some table)) (Node.column name (some table))
  | computed {n : Node} (hexpr : ∀ e', e = some e' → e'.inputRef? = none) (hkind : n.kind ≠ .column)
    (halias : n.aliasOf? = none)
    (hnull : n.is .null = true → n = Node.null ∧ f.type.name = .null) : Key columns e f n (Node.column f.name)

/-- An item of a select list as an expression. -/
theorem itemField_eq_ok_iff {k : Ordinal} {item K : Node} :
    Context.itemField false k item = .ok K ↔ item.expression? = some K := by
  unfold Context.itemField expression?
  cases item.is .aliased with
  | false => simp
  | true => cases item.this? <;> simp

/-- An item that is written under the name of its column stands for what it is written for. -/
theorem key_of_projected {columns : List String} {e : Expr} {n K g : Node} {f : Field} {k : Ordinal}
    (hn : Projected columns e n) (hf : f.type = e.type)
    (hK : Context.itemField false k (namedItem n f.name) = .ok K)
    (hg : (if Context.isComputed (namedItem n f.name) then
      .ok (Node.column (namedItem n f.name).aliasName) else .ok K : Except Error Node) = .ok g) :
    Key columns (some e) f K g := by
  have hthis : (Node.aliased n f.name).this? = some n := by simp [Node.aliased, this?, child?]
  have hkind : (Node.aliased n f.name).is .aliased = true := rfl
  have hname : (Node.aliased n f.name).aliasName = f.name := by simp [Node.aliased, aliasName, nameUnder]
  have hcolumn : n.kind = .column → K = n ∧ g = n := by
    intro hn
    have hitem : Context.itemField false k (namedItem n f.name) = .ok n
        ∧ Context.isComputed (namedItem n f.name) = false := by
      unfold namedItem
      split
      · have haliased : n.is .aliased = false := by simp [Node.is, hn]
        simp [Context.itemField, Context.isComputed, haliased]
      · have hcolumn : n.is .column = true := (is_eq_true_iff _ _).mpr hn
        simp [Context.itemField, Context.isComputed, hthis, hkind, hcolumn]
    rw [hitem.1] at hK
    cases hK
    rw [hitem.2] at hg
    cases hg
    exact ⟨rfl, rfl⟩
  cases hn.written with
  | field h =>
    obtain ⟨rfl, rfl⟩ := hcolumn rfl
    exact .column h
  | qualified name table =>
    obtain ⟨rfl, rfl⟩ := hcolumn rfl
    exact .qualified name table
  | built hbuilt halias =>
    have hitem : namedItem n f.name = Node.aliased n f.name := by simp [namedItem, halias]
    have hcolumn : n.is .column = false := by simp [Node.is, hbuilt]
    have hcomputed : Context.isComputed (Node.aliased n f.name) = true := by
      simp [Context.isComputed, hthis, hkind, hcolumn]
    rw [hitem] at hK hg
    rw [if_pos hcomputed, hname] at hg
    simp only [Context.itemField, hkind, hthis, if_true, Bool.false_eq_true, if_false] at hK
    cases hK
    cases hg
    refine .computed ?_ hbuilt halias fun hnull => by rw [hf]; exact hn.null hnull
    rintro e' he'
    obtain rfl : e = e' := by simpa using he'
    by_contra href
    exact hbuilt (hn.field href)

/-- **`KeysOver`** — what a context writes for a key is what a projection over columns lists and groups for a field of
its input; a key by the name of an expression is an item of the list. -/
def KeysOver (env : Env) (ctx : Context) (columns : List String) (fields : RowType) (projects : List Expr) (q : Node) :
    Prop :=
  ∀ k K g, ctx.field env k = .ok K → ctx.groupField env k = .ok g →
    ∃ f, nth? fields k = some f ∧ Key columns (nth? projects k) f K g
      ∧ ∀ name, g = Node.column name → name ∉ columns → q.itemAt? k = some K

section

variable {columns : List String} {fields : RowType} {projects : List Expr} {q : Node}

/-- Under a star, keys are columns of FROM. -/
theorem keysOver_columns (hmap : env.fieldMap = []) {name : String} (hmem : ∀ f ∈ fields, f.name ∈ columns) :
    KeysOver env (.aliases [(name, fields)] false) columns fields projects q := by
  intro k K g hK hg
  simp only [Context.groupField] at hg
  rw [hK] at hg
  cases hg
  obtain ⟨f, hf, rfl⟩ := (field_aliases_iff hmap).mp hK
  refine ⟨f, hf, .column (hmem f (mem_of_nth? hf)), fun other hother hnone => ?_⟩
  obtain rfl : f.name = other := by simpa [Node.column, Node.identifier] using hother
  exact absurd (hmem f (mem_of_nth? hf)) hnone

/-- Over a list, a key is an item of the list. -/
theorem keysOver_items {ns : List Node} (hlisted : q.selectList? = some (namedItems ns fields))
    (hprojected : List.Forall₂ (Projected columns) projects ns) (hlength : ns.length = fields.length)
    (htypes : ∀ k e f, nth? projects k = some e → nth? fields k = some f → f.type = e.type) :
    KeysOver env (.selectList (namedItems ns fields) false true) columns fields projects q := by
  intro k K g hK hg
  simp only [Context.field, Context.groupField] at hK hg
  cases hitem : nth? (namedItems ns fields) k with
  | none =>
    rw [hitem] at hK
    cases hK
  | some item =>
    rw [hitem] at hK hg
    simp only at hK hg
    rw [hK] at hg
    obtain ⟨i, hi, rfl⟩ := (nth?_isSome_iff _ k).mp (by rw [hitem]; rfl)
    rw [length_namedItems hlength.le] at hi
    have hi' : i < fields.length := hlength ▸ hi
    have hfi : nth? fields (i : Ordinal) = some fields[i] := by simp
    have hip : i < projects.length := hprojected.length_eq ▸ hi
    have hei : nth? projects (i : Ordinal) = some projects[i] := by simp
    have hitemi : item = namedItem ns[i] fields[i].name := by
      have : (namedItems ns fields)[i]? = some item := by simpa using hitem
      simpa [namedItems, List.getElem?_zipWith, hi, hi', eq_comm] using this
    subst hitemi
    refine ⟨_, hfi, ?_, fun _ _ _ => ?_⟩
    · rw [hei]
      exact key_of_projected ((List.forall₂_iff_get.mp hprojected).2 i _ hi) (htypes _ _ _ hei hfi) hK hg
    · simp only [itemAt?, hlisted, Option.bind_some, hitem]
      exact itemField_eq_ok_iff.mp hK

end

/-- The fields of a projection over a table are columns of its query. -/
theorem ProjectedTable.mem_columns {columns : List String} {projects : List Expr} {rel : Rel} {x : Result}
    (hx : ProjectedTable schema columns projects rel x) : ∀ f ∈ rel.fields, f.name ∈ x.node.columns schema := by
  intro f hf
  rw [columns_select hx.plain.2]
  rcases hx.listed with ⟨hnone, hnames⟩ | ⟨ns, hlisted, -, hlength⟩
  · rw [hnone]
    simp only [selectColumns, hx.frame, ← hnames]
    exact List.mem_map_of_mem hf
  · rw [hlisted]
    have hnames := outputNames_namedItems hlength
    cases hitems : namedItems ns rel.fields with
    | nil =>
      rw [hitems] at hnames
      have : rel.fields = [] := by simpa [RowType.names] using hnames.symm
      rw [this] at hf
      cases hf
    | cons item items =>
      simp only [selectColumns]
      rw [← hitems, hnames]
      exact List.mem_map_of_mem hf

/-- **The keys** of an aggregation over a projection over a table. -/
theorem keys_of_projectedTable (henv : env.NeverQualifies) (hmap : env.fieldMap = [])
    (halias : env.dialect.capabilities.groupByAlias = true) {columns : List String}
    {projects : List Expr} {input groups : Rel} {x : Result}
    (hx : ProjectedTable schema columns projects input x)
    (htypes : ∀ k e f, nth? projects k = some e → nth? input.fields k = some f → f.type = e.type)
    {ignores : Bool} (hgroups : ∃ keys sets calls, groups = .aggregate input keys sets calls) {m : Node}
    (hm : Opening env (x.expecting [.groupBy] ignores) groups s m s') :
    (isPlainQuery m = true ∧ m.kind = .select) ∧ m.child? "group" = none
      ∧ KeysOver env ((x.expecting [.groupBy] ignores).contextOver env groups m) (m.frame schema).columns input.fields
        projects x.node := by
  obtain ⟨name, hsingle, hneeded⟩ := hx.single
  have hopened : if (x.expecting [.groupBy] ignores).mustWrap env groups then
      m = Node.selectFrom (derived x.node (some name)) else m = x.node :=
    Opening.of_select (x := x.expecting [.groupBy] ignores) henv hx.plain.1 hx.plain.2 hneeded hm
  have hstar : m.selectList? = none → (x.expecting [.groupBy] ignores).contextOver env groups m
      = .aliases [(name, input.fields)] false := fun hlist => by
    simp [Result.contextOver, hlist, Result.expecting, hsingle.aliases, hx.fields]
  split at hopened
  · -- the projection is read in parentheses
    subst hopened
    have hfrom : (Node.selectFrom (derived x.node (some name))).child? "from"
        = some (Node.wrap .from (derived x.node (some name))) := by simp [Node.selectFrom, child?]
    have hquery : (derived x.node (some name)).child? "this" = some x.node := by simp [derived, child?]
    refine ⟨⟨isPlainQuery_selectFrom _, rfl⟩, by simp [Node.selectFrom, child?], ?_⟩
    rw [hstar (by simp [Node.selectFrom, selectList?, list?]), frame_select rfl hfrom, frame_subquery rfl hquery,
      Frame.columns_single]
    exact keysOver_columns hmap hx.mem_columns
  · subst hopened
    refine ⟨hx.plain, hx.ungrouped, ?_⟩
    rw [hx.frame]
    rcases hx.listed with ⟨hnone, hnames⟩ | ⟨ns, hlisted, hprojected, hlength⟩
    · rw [hstar hnone]
      exact keysOver_columns hmap fun f hf => hnames ▸ List.mem_map_of_mem hf
    · obtain ⟨keys, sets, calls, rfl⟩ := hgroups
      have hcontext : (x.expecting [.groupBy] ignores).contextOver env (.aggregate input keys sets calls)
          x.node = .selectList (namedItems ns input.fields) false true := by
        simp [Result.contextOver, hlisted, Result.itemContext, Result.expecting, halias]
      rw [hcontext]
      exact keysOver_items hlisted hprojected hlength htypes

end AlgebraSql.Convert
