import AlgebraSql.Proofs.GroupNames
import AlgebraSql.Proofs.GroupValues

/-!
# Listed names — the names in GROUP BY stay in the select list.

A key that is computed is grouped by the name of its select item.  Filters and sorts leave the select
list alone, and windowed calls keep all its names.  A projection replaces the list, and the rule that
looks for dropped names sees the names that stand directly in GROUP BY.  So the names are listed if
GROUP BY is plain, and under grouping sets if the projections keep them.
-/

open AlgebraSql.Convert

namespace AlgebraSql.Sql.Node

/-! ## Names in GROUP BY -/

theorem subnodesOfList_eq (ns : List Node) : subnodesOfList ns = ns.flatMap subnodes := by
  induction ns with
  | nil => rfl
  | cons n ns ih => simp [subnodesOfList, ih]

/-- A node and all nodes below its children. -/
theorem subnodes_eq (n : Node) : n.subnodes = n :: n.children.flatMap subnodes := by
  obtain ⟨kind, args⟩ := n
  have hargs : subnodesOfArgs args = (args.flatMap fun p => p.2.children).flatMap subnodes := by
    induction args with
    | nil => rfl
    | cons p rest ih =>
      obtain ⟨key, a⟩ := p
      cases a <;> simp [subnodesOfArgs, Arg.children, ih, subnodesOfList_eq]
  rw [subnodes, hargs]
  rfl

/-- The columns anywhere in GROUP BY. -/
def groupColumns (n : Node) : List Node :=
  match n.child? "group" with
  | some g => g.subnodes.filter (·.is .column)
  | none => []

/-- Every name in GROUP BY is that of a named item of the select list or of a column of FROM. -/
def GroupNamesListed (schema : Schema) (n : Node) : Prop :=
  ∀ g ∈ n.groupColumns, g.qualifier? = none →
    g.name ∈ WrapCheck.aliasNames (n.list "expressions") ∨ g.name ∈ (n.frame schema).columns

/-- A SELECT of a statement: the statement itself, or one that it reads from.  Sub-queries inside
expressions are statements of their own. -/
inductive SelectOf : Node → Node → Prop
  | itself {n : Node} (h : n.kind = .select) : SelectOf n n
  | read {n item m q : Node} (hitem : n.fromItem? = some item) (hkind : item.kind = .subquery)
    (hthis : item.this? = some m) (h : SelectOf m q) : SelectOf n q

/-- Every name in GROUP BY of a SELECT of the statement is listed there. -/
def AllListed (schema : Schema) (n : Node) : Prop := ∀ q, SelectOf n q → GroupNamesListed schema q

theorem groupColumns_of_none {n : Node} (h : n.child? "group" = none) : n.groupColumns = [] := by
  unfold groupColumns
  rw [h]

/-- A query that reads what another one reads has the SELECTs below it. -/
theorem AllListed.of_from {schema : Schema} {m n : Node} (hm : AllListed schema m)
    (hfrom : n.child? "from" = m.child? "from") (hn : GroupNamesListed schema n) : AllListed schema n := by
  intro q hq
  cases hq with
  | itself _ => exact hn
  | read hitem hkind hthis h =>
    refine hm q (.read ?_ hkind hthis h)
    rwa [fromItem?, hfrom] at hitem

/-- A star over a query in parentheses has the SELECTs of the query, and does not group. -/
theorem AllListed.selectFrom {schema : Schema} {n : Node} (h : AllListed schema n) (name : Option String) :
    AllListed schema (selectFrom (derived n name)) := by
  intro q hq
  cases hq with
  | itself _ =>
    intro g hg
    rw [groupColumns_of_none (by simp [Node.selectFrom, child?])] at hg
    cases hg
  | read hitem _ hthis hq =>
    have hfrom : (Node.selectFrom (derived n name)).fromItem? = some (derived n name) := by
      simp [Node.selectFrom, fromItem?, child?, this?, Node.wrap]
    have hquery : (derived n name).this? = some n := by
      cases name <;> simp [derived, Node.subquery, Node.wrap, this?, child?]
    obtain rfl : derived n name = _ := by simpa [hfrom] using hitem
    obtain rfl : n = _ := by simpa [hquery] using hthis
    exact h q hq

/-- Only the first node below a column is a column. -/
theorem eq_of_mem_subnodes_column {name : String} {table : Option String} {c : Node}
    (h : c ∈ (Node.column name table).subnodes) (hc : c.kind = .column) : c = Node.column name table := by
  cases table with
  | none =>
    simp only [Node.column, kept, Option.map_none, Option.getD_none, identifier, subnodes, subnodesOfArgs,
      List.mem_cons, List.append_nil, List.not_mem_nil, or_false] at h
    rcases h with rfl | rfl
    · rfl
    · cases hc
  | some table =>
    simp only [Node.column, kept, Option.map_some, Option.getD_some, identifier, subnodes, subnodesOfArgs,
      List.mem_cons, List.append_nil, List.mem_append, List.not_mem_nil, or_false] at h
    rcases h with rfl | rfl | rfl
    · rfl
    · cases hc
    · cases hc

end AlgebraSql.Sql.Node

namespace AlgebraSql.Convert

open Sql Node

variable {env : Env} {sub : Rel → ConvertM Node} {s s' : State} {schema : Schema}

/-- What stands in a list of nodes that is made step by step was made by one of the steps. -/
theorem mem_of_mapM {α β : Type} {f : α → Except Error β} {as : List α} {bs : List β}
    (h : as.mapM f = .ok bs) {b : β} (hb : b ∈ bs) : ∃ a ∈ as, f a = .ok b := by
  obtain ⟨i, hi, rfl⟩ := List.mem_iff_getElem.mp hb
  have hlength : i < as.length := length_of_mapM h ▸ hi
  obtain ⟨b', hb', hf⟩ := getElem?_of_mapM h (List.getElem?_eq_getElem hlength)
  obtain rfl : bs[i] = b' := by simpa [hi] using hb'
  exact ⟨as[i], List.getElem_mem hlength, hf⟩

/-- **Every column in GROUP BY** is written for a key, whatever the grouping sets. -/
theorem key_of_groupByNodes {ctx : Context} {keys : List Ordinal} {sets : List (List Ordinal)}
    {gs : List Node} (h : groupByNodes env ctx keys sets = .ok gs) (hsets : ∀ set ∈ sets, ∀ k ∈ set, k ∈ keys)
    {c : Node} (hc : c ∈ subnodesOfList gs) (hcolumn : c.kind = .column) :
    ∃ k ∈ keys, ∃ g, ctx.groupField env k = .ok g ∧ c ∈ g.subnodes
      ∧ (groupKind keys sets = .simple → g ∈ gs) := by
  have hlist : ∀ {ks : List Ordinal} {ns : List Node}, keyNodes env ctx ks = .ok ns → c ∈ subnodesOfList ns →
      ∃ k ∈ ks, ∃ g, ctx.groupField env k = .ok g ∧ c ∈ g.subnodes ∧ g ∈ ns := by
    intro ks ns hns hmem
    rw [subnodesOfList_eq] at hmem
    obtain ⟨g, hg, hmem⟩ := List.mem_flatMap.mp hmem
    obtain ⟨k, hk, hfield⟩ := mem_of_mapM hns hg
    exact ⟨k, hk, g, hfield, hmem, hg⟩
  have hbelow : ∀ {kind : Kind} {ns : List Node}, kind ≠ .column → c ∈ subnodesOfList [listNode kind ns] →
      c ∈ subnodesOfList ns := by
    intro kind ns hkind hmem
    simp only [listNode, subnodesOfList, subnodes, subnodesOfArgs, List.append_nil, List.mem_cons] at hmem
    rcases hmem with rfl | hmem
    · exact absurd hcolumn hkind
    · exact hmem
  simp only [groupByNodes] at h
  split at h
  · cases h
  · split at h
    · rename_i hkind
      obtain ⟨k, hk, g, hfield, hmem, hg⟩ := hlist h hc
      exact ⟨k, hk, g, hfield, hmem, fun _ => hg⟩
    · rename_i hkind
      simp only [bind_eq_ok_iff, pure_eq_ok_iff] at h
      obtain ⟨ns, hns, rfl⟩ := h
      obtain ⟨k, hk, g, hfield, hmem, -⟩ := hlist hns (hbelow (by decide) hc)
      refine ⟨k, ?_, g, hfield, hmem, fun hsimple => by simp [hsimple] at hkind⟩
      cases hrollup : rollupKeys keys sets with
      | none => simpa [hrollup] using hk
      | some dropped =>
        obtain ⟨set, hset, hmem⟩ := mem_of_mem_rollupKeys hrollup (by simpa [hrollup] using hk)
        exact hsets set hset k hmem
    · rename_i hkind
      simp only [bind_eq_ok_iff, pure_eq_ok_iff] at h
      obtain ⟨ns, hns, rfl⟩ := h
      obtain ⟨k, hk, g, hfield, hmem, -⟩ := hlist hns (hbelow (by decide) hc)
      exact ⟨k, hk, g, hfield, hmem, fun hsimple => by simp [hsimple] at hkind⟩
    · rename_i hkind
      simp only [bind_eq_ok_iff, pure_eq_ok_iff] at h
      obtain ⟨ns, hns, rfl⟩ := h
      have hmem := hbelow (by decide) hc
      rw [subnodesOfList_eq] at hmem
      obtain ⟨n, hn, hmem⟩ := List.mem_flatMap.mp hmem
      obtain ⟨set, hset, hnode⟩ := mem_of_mapM hns hn
      unfold groupingSetNode at hnode
      split at hnode
      · rename_i key
        exact ⟨key, hsets _ hset key (by simp), n, hnode, hmem, fun hsimple => by simp [hsimple] at hkind⟩
      · simp only [bind_eq_ok_iff, pure_eq_ok_iff] at hnode
        obtain ⟨parts, hparts, rfl⟩ := hnode
        have hparts' : c ∈ subnodesOfList parts := by
          simp only [Node.tuple, subnodes, subnodesOfArgs, List.append_nil, List.mem_cons] at hmem
          rcases hmem with rfl | hmem
          · cases hcolumn
          · exact hmem
        obtain ⟨k, hk, g, hfield, hmem, -⟩ := hlist hparts hparts'
        exact ⟨k, hsets _ hset k hk, g, hfield, hmem, fun hsimple => by simp [hsimple] at hkind⟩

/-! ## Select items over columns -/

/-- An expression of a select list over columns: one of the columns, or something that is built. -/
inductive Own (columns : List String) : Node → Prop
  | column {name : String} (h : name ∈ columns) : Own columns (Node.column name)
  | built {n : Node} (hkind : n.kind ≠ .column) (halias : n.aliasOf? = none) : Own columns n

/-- Expressions that read their input only are written so. -/
theorem made_own (columns : List String) : Made (Own columns) where
  of_kind h := .built (fun hk => h (by simp [partKinds, hk])) (aliasOf?_of_kind h)
  subquery q := .built (by simp [Node.subquery, Node.wrap])
    (by simp [Node.subquery, Node.wrap, aliasOf?, isFromItem, aliasName, nameUnder])

theorem own_aggregateNode {columns : List String} {ctx : Context} {call : AggregateCall} {n : Node}
    (h : aggregateNode env ctx call = .ok n) : Own columns n := by
  rcases isAggregate_aggregateNode h with haggregate | ⟨m, -, rfl⟩
  · cases haggregate <;> exact .built (by simp [Node.aggregate, filtered, withinGroup]) rfl
  · exact .built (by simp [orZero, Node.call]) rfl

section Items

variable {columns : List String} {ns : List Node} {fields : RowType}

/-- An item under the name of its column stands for what it is written for. -/
theorem Own.expression?_namedItem {n : Node} (h : Own columns n) (name : String) :
    (namedItem n name).expression? = some n := by
  have haliased : (Node.aliased n name).expression? = some n := by
    simp [Node.aliased, expression?, this?, child?]
  unfold namedItem
  split
  · rename_i hname
    cases h with
    | column _ => simp [Node.column, expression?]
    | built _ halias => simp [halias] at hname
  · exact haliased

/-- An item has the name of its column as an alias, unless it is a column of that name. -/
theorem Own.named {n : Node} (h : Own columns n) (name : String) :
    namedItem n name = Node.aliased n name ∨ name ∈ columns := by
  unfold namedItem
  split
  · rename_i hname
    cases h with
    | column hmem =>
      right
      simp only [aliasOf?_column, beq_iff_eq, Option.some.injEq] at hname
      exact hname ▸ hmem
    | built _ halias => simp [halias] at hname
  · exact .inl rfl

/-- The names of columns are names of items, or columns of FROM. -/
theorem mem_aliasNames_of_mem (hns : ∀ n ∈ ns, Own columns n) (hfull : ns.length = fields.length)
    {name : String} (hname : name ∈ fields.names) :
    name ∈ WrapCheck.aliasNames (namedItems ns fields) ∨ name ∈ columns := by
  obtain ⟨f, hf, rfl⟩ := List.mem_map.mp hname
  obtain ⟨i, hi, rfl⟩ := List.mem_iff_getElem.mp hf
  have hn : i < ns.length := hfull ▸ hi
  refine ((hns _ (List.getElem_mem hn)).named fields[i].name).imp_left fun hitem => ?_
  have hmem : Node.aliased ns[i] fields[i].name ∈ namedItems ns fields := by
    refine List.mem_of_getElem? (i := i) ?_
    rw [namedItems, List.getElem?_zipWith]
    simp [hn, hi, hitem]
  exact List.mem_map.mpr ⟨_, List.mem_filter.mpr ⟨hmem, rfl⟩, by simp [Node.aliased, aliasName, nameUnder]⟩

/-- The names of items are names of columns. -/
theorem mem_of_mem_aliasNames (hns : ∀ n ∈ ns, Own columns n) {name : String}
    (h : name ∈ WrapCheck.aliasNames (namedItems ns fields)) : name ∈ fields.names := by
  obtain ⟨item, hitem, rfl⟩ := List.mem_map.mp h
  obtain ⟨hmem, haliased⟩ := List.mem_filter.mp hitem
  obtain ⟨i, hi⟩ := List.mem_iff_getElem?.mp hmem
  simp only [namedItems, List.getElem?_zipWith_eq_some] at hi
  obtain ⟨n, f, hn, hf, rfl⟩ := hi
  have hown := hns n (List.mem_of_getElem? hn)
  have hname : (namedItem n f.name).aliasName = f.name := by
    unfold namedItem at haliased ⊢
    split
    · rename_i hname
      cases hown with
      | column _ =>
        rw [if_pos hname] at haliased
        cases haliased
      | built _ halias => simp [halias] at hname
    · simp [Node.aliased, aliasName, nameUnder]
  rw [hname]
  exact List.mem_map_of_mem (List.mem_of_getElem? hf)

end Items

/-- A SELECT has a star, or lists columns of FROM and what is built from them. -/
def OwnList (schema : Schema) (fields : RowType) (n : Node) : Prop :=
  n.selectList? = none ∨ ∃ ns, n.selectList? = some (namedItems ns fields) ∧ ns.length = fields.length
    ∧ ∀ m ∈ ns, Own (n.frame schema).columns m

namespace OwnList

variable {fields : RowType} {n : Node}

/-- A clause leaves the items. -/
theorem set (h : OwnList schema fields n) (hn : n.kind = .select) {key : String} (a : Arg)
    (hkey : key ∉ ["from", "expressions"]) : OwnList schema fields (n.set key (some a)) := by
  simp only [List.mem_cons, List.not_mem_nil, or_false, not_or] at hkey
  have hlist : (n.set key (some a)).selectList? = n.selectList? := list?_set_of_ne n a hkey.2
  unfold OwnList
  rw [hlist, frame_set hn hkey.1]
  exact h

/-- A new list has the columns that it names. -/
theorem withList (hn : n.kind = .select) {ns : List Node} (hfull : ns.length = fields.length)
    (hns : ∀ m ∈ ns, Own (n.frame schema).columns m) : OwnList schema fields (withList n (namedItems ns fields)) := by
  refine .inr ⟨ns, by simp [Convert.withList, selectList?, list?], hfull, ?_⟩
  rwa [Convert.withList, frame_set hn (by decide)]

/-- Columns of the same names have the same items. -/
theorem congr {other : RowType} (h : OwnList schema other n) (hnames : fields.names = other.names) :
    OwnList schema fields n := by
  refine h.imp_right ?_
  rintro ⟨ns, hlist, hfull, hns⟩
  have hlength : fields.length = other.length := by simpa [RowType.names] using congrArg List.length hnames
  exact ⟨ns, by rw [hlist, namedItems_congr hnames ns], hfull.trans hlength.symm, hns⟩

end OwnList

/-- Only sorts and conditions on groups refer to items by their names. -/
theorem itemContext_of_expressions {r : Result} {rel : Rel} {items : List Node} (hsort : isSort rel = false)
    (hhaving : .having ∉ r.expected) : r.itemContext env rel items
      = .selectList items false (r.expected.contains .groupBy && env.dialect.capabilities.groupByAlias) := by
  have hcontains : r.expected.contains .having = false := by simpa using hhaving
  unfold Result.itemContext
  rw [hcontains]
  cases rel <;> first | rfl | cases hsort

section Opened

variable {input rel : Rel} {x : Result} {m : Node} {expected : List Clause} {ignores : Bool}

/-- What is opened has items over its own columns. -/
theorem Flat.ownList_opened (henv : env.NeverQualifies) (hx : Flat schema input x)
    (hown : x.node.kind = .select → OwnList schema input.fields x.node)
    (hm : Opening env (x.expecting expected ignores) rel s m s') : OwnList schema input.fields m := by
  rcases hx.opened henv hm with ⟨rfl, hkind, -⟩ | ⟨item, rfl, -⟩
  · exact hown hkind
  · exact .inl (by simp [Node.selectFrom, selectList?, list?])

/-- **The fields of a flat result** are columns of FROM or built from them, unless items go by their
names. -/
theorem Flat.own_of_field (henv : env.NeverQualifies) (hmap : env.fieldMap = []) (hx : Flat schema input x)
    (hown : x.node.kind = .select → OwnList schema input.fields x.node)
    (hm : Opening env (x.expecting expected ignores) rel s m s')
    (hnames : m.selectList? ≠ none → isSort rel = false ∧ .having ∉ expected) {i : Ordinal} {n : Node}
    (hn : ((x.expecting expected ignores).contextOver env rel m).field env i = .ok n) :
    Own (m.frame schema).columns n := by
  obtain ⟨name, hsingle, -⟩ := hx.single
  have hshaped := hx.shaped_opened henv hm
  unfold Result.contextOver at hn
  rcases hx.ownList_opened henv hown hm with hstar | ⟨ns, hlist, hfull, hns⟩
  · -- a star shows the fields as columns of its only FROM item
    simp only [hstar, (hsingle.expecting expected ignores).aliases, field_aliases_iff hmap] at hn
    obtain ⟨f, hf, rfl⟩ := hn
    obtain ⟨own, columns, hframe, hcolumns⟩ := hshaped.frame_of_star hstar
    have hmem : f ∈ input.fields := by
      rw [← hx.fields]
      exact mem_of_nth? hf
    refine .column ?_
    rw [hframe, Frame.columns_single]
    rcases hcolumns with rfl | hnil
    · exact List.mem_map_of_mem hmem
    · simp [hnil] at hmem
  · obtain ⟨hsort, hhaving⟩ := hnames (by simp [hlist])
    have hexpected : .having ∉ (x.expecting expected ignores).expected := by
      simpa [Result.expecting, List.mem_eraseDups] using hhaving
    simp only [hlist, itemContext_of_expressions hsort hexpected, Context.field] at hn
    split at hn
    · rename_i item hitem
      rw [itemField_eq_ok_iff] at hn
      obtain ⟨j, hj⟩ := List.mem_iff_getElem?.mp (mem_of_nth? hitem)
      simp only [namedItems, List.getElem?_zipWith_eq_some] at hj
      obtain ⟨k, f, hk, -, rfl⟩ := hj
      have hk' := hns k (List.mem_of_getElem? hk)
      rw [hk'.expression?_namedItem] at hn
      cases hn
      exact hk'
    · cases hn

/-- What a projection over a flat result lists. -/
theorem Flat.items_of_project (henv : env.NeverQualifies) (hmap : env.fieldMap = []) {projects : List Expr}
    {names : List String} {distinct : Bool} {ids : List String} {n : Node} {s₂ : State}
    (hx : Flat schema input x) (hown : x.node.kind = .select → OwnList schema input.fields x.node)
    (hlength : names.length = projects.length) (hreads : ∀ e ∈ projects, readsElsewhere e = false)
    (hm : Opening env (x.expecting [.select]) (.project input projects names distinct ids) s m s')
    (hlist : (isIdentity input projects (Rel.project input projects names distinct ids).fields = true ∧ n = m)
      ∨ (isIdentity input projects (Rel.project input projects names distinct ids).fields = false ∧ ∃ ns s₃,
        (projects.mapM (projectedNode env sub ((x.expecting [.select]).contextOver env
          (.project input projects names distinct ids) m))).Gives s₂ ns s₃
        ∧ ns.length ≤ (Rel.project input projects names distinct ids).fields.length
        ∧ n = withList m (namedItems ns (Rel.project input projects names distinct ids).fields))) :
    OwnList schema (Rel.project input projects names distinct ids).fields n
      ∧ (n = m ∨ ∃ ns, n = withList m (namedItems ns (Rel.project input projects names distinct ids).fields)
        ∧ ns.length = (Rel.project input projects names distinct ids).fields.length
        ∧ ∀ k ∈ ns, Own (m.frame schema).columns k) := by
  rcases hlist with ⟨hidentity, rfl⟩ | ⟨-, ns, s₃, hns, -, rfl⟩
  · simp only [isIdentity, Bool.and_eq_true, beq_iff_eq] at hidentity
    exact ⟨OwnList.congr (hx.ownList_opened henv hown hm) hidentity.2, .inl rfl⟩
  · have hfull : ns.length = (Rel.project input projects names distinct ids).fields.length := by
      rw [ConvertM.length_of_gives_mapM hns]
      simp [Rel.fields, hlength]
    have hnodes : ∀ k ∈ ns, Own (m.frame schema).columns k :=
      Yields.mapM (fun e he _ _ _ hk => made_projectedNode (made_own _)
        (made_of_input (made_own _) (fun i k hk => hx.own_of_field henv hmap hown hm
          (fun _ => ⟨rfl, by decide⟩) hk) e (hreads e he)) hk) _ _ _ hns
    exact ⟨.withList (hx.shaped_opened henv hm).kind hfull hnodes, .inr ⟨ns, rfl, hfull, hnodes⟩⟩

end Opened

/-! ## Queries over groups -/

/-- A query groups and reads as another one does. -/
structure GroupsAlike (schema : Schema) (m n : Node) : Prop where
  kind : n.kind = m.kind
  plain : isPlainQuery m = true → isPlainQuery n = true
  group : n.child? "group" = m.child? "group"
  source : n.child? "from" = m.child? "from"
  frame : n.frame schema = m.frame schema

namespace GroupsAlike

variable {m n : Node}

theorem refl (m : Node) : GroupsAlike schema m m := ⟨rfl, id, rfl, rfl, rfl⟩

/-- Another clause than these changes nothing. -/
theorem set (h : GroupsAlike schema m n) (hm : m.kind = .select) {key : String} (a : Arg)
    (hkey : key ∉ ["from", "group", "alias"]) : GroupsAlike schema m (n.set key (some a)) := by
  simp only [List.mem_cons, List.not_mem_nil, or_false, not_or] at hkey
  refine ⟨by rw [kind_set, h.kind], fun hplain => isPlainQuery_set (h.plain hplain) hkey.2.2 a, ?_, ?_, ?_⟩
  · rw [child?_set_of_ne n a hkey.2.1, h.group]
  · rw [child?_set_of_ne n a hkey.1, h.source]
  · rw [frame_set (by rw [h.kind, hm]) hkey.1, h.frame]

theorem groupColumns_eq (h : GroupsAlike schema m n) : n.groupColumns = m.groupColumns := by
  unfold groupColumns
  rw [h.group]

theorem groupBy?_eq (h : GroupsAlike schema m n) : n.groupBy? = m.groupBy? := by
  unfold groupBy?
  rw [h.group]

end GroupsAlike

/-- **`Listing`** — the result for a plan over groups.  `keyName` holds for the names by which computed
keys are grouped, and `simple` says that they stand directly in GROUP BY. -/
structure Listing (schema : Schema) (keyName : String → Prop) (simple : Prop) (rel : Rel) (x : Result) :
    Prop where
  single : ∃ name, x.Single name ∧ x.neededAlias = some name
  plain : isPlainQuery x.node = true
  kind : x.node.kind = .select
  grouped : x.node.child? "group" ≠ none → .groupBy ∈ x.clauses
  keyed : ∀ g ∈ x.node.groupColumns, g.qualifier? = none → g.name ∉ (x.node.frame schema).columns → keyName g.name
  direct : simple → ∀ g ∈ x.node.groupColumns, g.qualifier? = none →
    ∃ gs, x.node.groupBy? = some gs ∧ Node.column g.name ∈ gs
  listed : AllListed schema x.node
  /-- Without names there is nothing to list. -/
  items : (∀ name, ¬keyName name) ∨ Flat schema rel x ∧ OwnList schema rel.fields x.node

namespace Listing

variable {keyName : String → Prop} {simple : Prop} {input rel : Rel} {x r : Result} {m n : Node}
  {expected : List Clause} {ignores : Bool}

/-- **One operator** over the groups keeps the invariant if it keeps GROUP BY and the names that stand
for keys, wherever its query is not wrapped. -/
theorem of_records (henv : env.NeverQualifies) (hx : Listing schema keyName simple input x)
    (hm : Opening env (x.expecting expected ignores) rel s m s')
    (hr : Records env rel (x.expecting expected ignores) m n r) (hkeeps : m.kind = .select → GroupsAlike schema m n)
    (hnames : (x.expecting expected ignores).mustWrap env rel = false → m = x.node →
      ∀ name ∈ WrapCheck.aliasNames (x.node.list "expressions"), keyName name →
        (∃ g ∈ x.node.groupColumns, g.qualifier? = none ∧ g.name = name) →
          name ∈ WrapCheck.aliasNames (n.list "expressions") ∨ name ∈ (x.node.frame schema).columns)
    (hitems : (∀ name, ¬keyName name) ∨ Flat schema rel r ∧ OwnList schema rel.fields n) :
    Listing schema keyName simple rel r := by
  obtain ⟨name, -, hneeded⟩ := hx.single
  have hopened : if (x.expecting expected ignores).mustWrap env rel then
      m = Node.selectFrom (derived x.node (some name)) else m = x.node :=
    Opening.of_select (x := x.expecting expected ignores) henv hx.plain hx.kind hneeded hm
  have hnode : r.node = n := hr.node_eq
  have hkind : m.kind = .select := by
    split at hopened
    · rw [hopened]
      rfl
    · rw [hopened, hx.kind]
  have hmplain : isPlainQuery m = true := by
    split at hopened
    · rw [hopened]
      exact isPlainQuery_selectFrom _
    · rw [hopened, hx.plain]
  have hkeeps := hkeeps hkind
  have hplain : isPlainQuery r.node = true := by
    rw [hnode]
    exact hkeeps.plain hmplain
  have hsingle : ∃ name, r.Single name ∧ r.neededAlias = some name := by
    obtain ⟨name, hrecorded, hsingle⟩ := hr
    subst hrecorded
    exact ⟨name, hsingle, needed_recorded (by simpa using hplain) _ _ _ _⟩
  have hclauses : m.child? "group" ≠ none → .groupBy ∈ r.clauses := by
    intro hgroup
    obtain ⟨name, hrecorded, -⟩ := hr
    split at hopened
    · simp [hopened, Node.selectFrom, child?] at hgroup
    · rename_i hwrap
      rw [hopened] at hgroup
      rw [hrecorded, recorded_clauses, Result.builderOver, if_neg hwrap]
      exact List.mem_append_left _ (hx.grouped hgroup)
  rw [← hnode] at hkeeps hitems hnames
  split at hopened
  · -- the groups are in a query of their own, which is read in parentheses
    have hnone : r.node.groupColumns = [] := by
      rw [hkeeps.groupColumns_eq, hopened]
      exact groupColumns_of_none (by simp [Node.selectFrom, child?])
    have hlisted : AllListed schema m := by
      rw [hopened]
      exact hx.listed.selectFrom (some name)
    refine ⟨hsingle, hplain, by rw [hkeeps.kind, hkind], fun hgroup => hclauses (hkeeps.group ▸ hgroup),
      ?_, ?_, ?_, hitems⟩
    · intro g hg
      rw [hnone] at hg
      cases hg
    · intro _ g hg
      rw [hnone] at hg
      cases hg
    · refine hlisted.of_from hkeeps.source fun g hg => ?_
      rw [hnone] at hg
      cases hg
  · rename_i hwrap
    subst hopened
    refine ⟨hsingle, hplain, by rw [hkeeps.kind, hkind], fun hgroup => hclauses (hkeeps.group ▸ hgroup),
      ?_, ?_, ?_, hitems⟩
    · rw [hkeeps.groupColumns_eq, hkeeps.frame]
      exact hx.keyed
    · rw [hkeeps.groupColumns_eq, hkeeps.groupBy?_eq]
      exact hx.direct
    · refine hx.listed.of_from hkeeps.source fun g hg hqualifier => ?_
      rw [hkeeps.groupColumns_eq] at hg
      rw [hkeeps.frame]
      by_cases hcolumn : g.name ∈ (x.node.frame schema).columns
      · exact .inr hcolumn
      · have hlisted := hx.listed x.node (.itself hx.kind) g hg hqualifier
        exact hnames (by simpa using hwrap) rfl g.name (hlisted.resolve_right hcolumn)
          (hx.keyed g hg hqualifier hcolumn) ⟨g, hg, hqualifier, rfl⟩

/-- **A filter** keeps the select list. -/
theorem filter (henv : env.NeverQualifies) {condition : Expr} {ids : List String}
    (hx : Listing schema keyName simple input x)
    (h : (filterResult env sub input condition ids (.filter input condition ids) x).Gives s r s') :
    Listing schema keyName simple (.filter input condition ids) r := by
  obtain ⟨name, hsingle, -⟩ := hx.single
  obtain ⟨y, m, s₁, s₂, c, s₃, rfl, hm, -, hrecords⟩ := hsingle.filter_step henv h
  generalize filterClause env input condition = clause at hm hrecords
  have hlist : ∀ fields, m.kind = .select → OwnList schema fields m →
      OwnList schema fields (withCondition clause m c) := by
    intro fields hkind hown
    unfold withCondition
    split <;> exact hown.set hkind _ (by decide)
  refine of_records henv hx hm hrecords (fun hkind => ?_) (fun _ hnode name hname _ _ => .inl ?_) ?_
  · unfold withCondition
    split <;> exact (GroupsAlike.refl m).set hkind _ (by decide)
  · have hsame : (withCondition clause m c).list "expressions" = m.list "expressions" := by
      unfold withCondition Node.list
      split <;> rw [list?_set_of_ne _ _ (by decide)]
    rwa [hsame, hnode]
  · refine hx.items.imp_right fun hboth => ?_
    obtain ⟨hflat, hown⟩ := hboth
    refine ⟨flat_filter henv hflat h, ?_⟩
    exact hlist input.fields (hflat.shaped_opened henv hm).kind (hflat.ownList_opened henv (fun _ => hown) hm)

/-- **A projection** lists the names if it keeps them, or if GROUP BY shows them to the rule about
dropped names. -/
theorem project (henv : env.NeverQualifies) (hmap : env.fieldMap = [])
    (halias : env.dialect.capabilities.groupByAlias = true) {projects : List Expr} {names : List String}
    {distinct : Bool} {ids : List String} (hlength : names.length = projects.length)
    (hreads : ∀ e ∈ projects, readsElsewhere e = false) (hkept : simple ∨ ∀ name, keyName name → name ∈ names)
    (hx : Listing schema keyName simple input x)
    (h : (projectResult env sub input projects distinct ids
      (.project input projects names distinct ids) x).Gives s r s') :
    Listing schema keyName simple (.project input projects names distinct ids) r := by
  obtain ⟨name, hsingle, -⟩ := hx.single
  obtain ⟨y, m, s₁, s₂, n, rfl, hm, hlist, hrecords⟩ := hsingle.project_step henv h
  set rel := Rel.project input projects names distinct ids with hrel
  have hfields : rel.fields.names = names := names_project hlength
  have hset : ∀ k : Node, (if distinct then k.set "distinct" (some (.flag true)) else k).list "expressions"
      = k.list "expressions" := by
    intro k
    unfold Node.list
    split
    · rw [list?_set_of_ne _ _ (by decide)]
    · rfl
  have hitems := fun (hflat : Flat schema input x) (hown : OwnList schema input.fields x.node) =>
    hflat.items_of_project henv hmap (fun _ => hown) hlength hreads hm hlist
  refine of_records henv hx hm hrecords (fun hkind => ?_) (fun hwrap hnode name hname hkey hgroup => ?_) ?_
  · have hkeeps : GroupsAlike schema m n := by
      rcases hlist with ⟨-, rfl⟩ | ⟨-, ns, s₃, -, -, rfl⟩
      · exact .refl _
      · exact (GroupsAlike.refl m).set hkind _ (by decide)
    split
    · exact hkeeps.set hkind _ (by decide)
    · exact hkeeps
  · rw [hset]
    rcases hx.items with hnone | ⟨hflat, hown⟩
    · exact absurd hkey (hnone name)
    rcases (hitems hflat hown).2 with rfl | ⟨ns, rfl, hfull, hns⟩
    · exact .inl (hnode ▸ hname)
    · have hmem : name ∈ rel.fields.names := by
        rcases hkept with hsimple | hkept
        · -- the name stands directly in GROUP BY, so the rules would have noticed that it is dropped
          obtain ⟨g, hg, hqualifier, rfl⟩ := hgroup
          obtain ⟨gs, hgs, hmem⟩ := hx.direct hsimple g hg hqualifier
          have hgroup : x.node.child? "group" ≠ none := by
            intro hnone
            rw [groupColumns_of_none hnone] at hg
            cases hg
          obtain ⟨items, hitems⟩ : ∃ items, x.node.selectList? = some items := by
            rcases hown with hstar | ⟨ns, hlist, -⟩
            · rw [Node.list, show x.node.list? "expressions" = none from hstar] at hname
              simp [WrapCheck.aliasNames] at hname
            · exact ⟨_, hlist⟩
          refine mem_names_of_grouped (c := wrapCheck env (x.expecting [.select]) rel) hx.kind hgs hitems
            (groupsByDropped_eq_false halias (hx.grouped hgroup) hwrap) hmem ?_
          rwa [Node.list, show x.node.list? "expressions" = some items from hitems] at hname
        · rw [hfields]
          exact hkept name hkey
      have hlisted : (withList m (namedItems ns rel.fields)).list "expressions" = namedItems ns rel.fields := by
        simp [withList, Node.list, list?]
      rw [hlisted, ← hnode]
      exact mem_aliasNames_of_mem hns hfull hmem
  · refine hx.items.imp_right fun hboth => ?_
    obtain ⟨hflat, hown⟩ := hboth
    refine ⟨?_, ?_⟩
    · refine flat_project henv hmap hflat hlength (fun e he => ?_) h
      exact readsOuter_of_readsElsewhere (hreads e he)
    · have hkind : n.kind = .select := by
        have hopened := (hflat.shaped_opened henv hm).kind
        rcases hlist with ⟨-, rfl⟩ | ⟨-, ns, s₃, -, -, rfl⟩
        · exact hopened
        · simpa [withList] using hopened
      split
      · exact (hitems hflat hown).1.set hkind _ (by decide)
      · exact (hitems hflat hown).1

/-- **Windowed calls** come behind the fields of the input, whose names they keep. -/
theorem window (henv : env.NeverQualifies) (hmap : env.fieldMap = []) {groups : List (WindowGroup Expr)}
    {constants : List Literal} {names : List String} (hx : Listing schema keyName simple input x)
    (h : (windowResult env sub input groups constants (.window input groups constants names) x).Gives
      s r s') :
    Listing schema keyName simple (.window input groups constants names) r := by
  obtain ⟨name, hsingle, -⟩ := hx.single
  obtain ⟨y, m, s₁, s₂, calls, columns, rfl, hm, hcalls, hcolumns, -, hrecords⟩ := hsingle.window_step henv h
  set rel := Rel.window input groups constants names with hrel
  have hitems : ∀ hflat : Flat schema input x, OwnList schema input.fields x.node →
      (columns ++ calls.flatten).length = rel.fields.length
        ∧ ∀ k ∈ columns ++ calls.flatten, Own (m.frame schema).columns k := by
    intro hflat hown
    refine ⟨length_of_window hcalls hcolumns, fun k hk => ?_⟩
    rcases List.mem_append.mp hk with hk | hk
    · exact forall_of_mapM hcolumns (fun i _ n hn => hflat.own_of_field henv hmap (fun _ => hown) hm
        (fun _ => ⟨rfl, by decide⟩) hn) k hk
    · obtain ⟨ns, hns, hk⟩ := List.mem_flatten.mp hk
      have hkinds : ∀ ns ∈ calls, ∀ k ∈ ns, k.kind ∉ partKinds :=
        Yields.mapM (fun _ _ _ _ _ hg => kind_windowGroupNodes hg) _ _ _ hcalls
      exact (made_own _).of_kind (hkinds ns hns k hk)
  refine of_records henv hx hm hrecords (fun hkind => (GroupsAlike.refl m).set hkind _ (by decide))
    (fun _ hnode name hname hkey _ => ?_) ?_
  · rcases hx.items with hnone | ⟨hflat, hown⟩
    · exact absurd hkey (hnone name)
    obtain ⟨hfull, hns⟩ := hitems hflat hown
    have hmem : name ∈ rel.fields.names := by
      rcases hown with hstar | ⟨ns, hlist, -, hns⟩
      · rw [Node.list, show x.node.list? "expressions" = none from hstar] at hname
        simp [WrapCheck.aliasNames] at hname
      · rw [Node.list, show x.node.list? "expressions" = some _ from hlist] at hname
        have := mem_of_mem_aliasNames hns hname
        simp only [hrel, Rel.fields, RowType.names, List.map_append, List.mem_append]
        exact .inl this
    have hlisted : (withList m (namedItems (columns ++ calls.flatten) rel.fields)).list "expressions"
        = namedItems (columns ++ calls.flatten) rel.fields := by
      simp [withList, Node.list, list?]
    rw [hlisted, ← hnode]
    exact mem_aliasNames_of_mem hns hfull hmem
  · refine hx.items.imp_right fun hboth => ?_
    obtain ⟨hflat, hown⟩ := hboth
    refine ⟨flat_window henv hmap hflat h, ?_⟩
    obtain ⟨hfull, hns⟩ := hitems hflat hown
    exact .withList (hflat.shaped_opened henv hm).kind hfull hns

/-- **A sort** keeps the select list, or spells a star out. -/
theorem sort (henv : env.NeverQualifies) (hmap : env.fieldMap = []) {root : Bool}
    {collation : List Collation} {offset fetch : Option Expr} (hx : Listing schema keyName simple input x)
    (h : (sortResult env sub root collation offset fetch (.sort input collation offset fetch) x).Gives
      s r s') :
    Listing schema keyName simple (.sort input collation offset fetch) r := by
  obtain ⟨name, hsingle, -⟩ := hx.single
  obtain ⟨y, m, s₁, l, keys, limit, s₂, skip, s₃, rfl, hm, hl, -, -, -, hrecords⟩ :=
    hsingle.sort_step henv h
  have hspelled : l = m ∨ m.selectList? = none ∧ ∃ columns, l = withList m (namedItems columns input.fields)
      ∧ columns.length = input.fields.length ∧ ∀ k ∈ columns, ∃ i : Nat,
        ((x.expecting [.orderBy, .fetch, .offset]).contextOver env (.sort input collation offset fetch) m).field
          env i = .ok k := by
    unfold Spelled at hl
    split at hl
    · rename_i hstar
      obtain ⟨columns, hcolumns, -, rfl⟩ := hl
      refine .inr ⟨hstar.2, columns, rfl, by simpa [Rel.fields] using length_of_mapM hcolumns, fun k hk => ?_⟩
      obtain ⟨i, -, hi⟩ := mem_of_mapM hcolumns hk
      exact ⟨i, hi⟩
    · exact .inl hl
  have hkeeps : m.kind = .select → GroupsAlike schema m (sorted l keys limit skip) := by
    intro hkind
    have hl : GroupsAlike schema m l := by
      rcases hspelled with rfl | ⟨-, columns, rfl, -⟩
      · exact .refl l
      · exact (GroupsAlike.refl m).set hkind _ (by decide)
    refine sorted_of_set hl (fun q key a hkey hq => hq.set hkind a ?_) keys limit skip
    simp only [finishingKeys, List.mem_cons, List.not_mem_nil, or_false] at hkey
    rcases hkey with rfl | rfl | rfl <;> decide
  have hlist : (sorted l keys limit skip).list "expressions" = l.list "expressions" := by
    refine sorted_of_set (P := fun q => q.list "expressions" = l.list "expressions") rfl
      (fun q key a hkey hq => ?_) keys limit skip
    simp only [finishingKeys, List.mem_cons, List.not_mem_nil, or_false] at hkey
    rw [← hq, Node.list, Node.list, list?_set_of_ne q a (by rcases hkey with rfl | rfl | rfl <;> decide)]
  refine of_records henv hx hm hrecords hkeeps (fun _ hnode name hname _ _ => .inl ?_) ?_
  · rcases hspelled with rfl | ⟨hstar, -⟩
    · rwa [hlist, hnode]
    · -- a star has no names
      rw [← hnode, Node.list, show m.list? "expressions" = none from hstar] at hname
      simp [WrapCheck.aliasNames] at hname
  · refine hx.items.imp_right fun hboth => ?_
    obtain ⟨hflat, hown⟩ := hboth
    refine ⟨flat_sort henv hmap hflat h, ?_⟩
    have hkind := (hflat.shaped_opened henv hm).kind
    have hl : OwnList schema input.fields l ∧ l.kind = .select := by
      rcases hspelled with rfl | ⟨hstar, columns, rfl, hfull, hcolumns⟩
      · exact ⟨hflat.ownList_opened henv (fun _ => hown) hm, hkind⟩
      · refine ⟨.withList hkind hfull fun k hk => ?_, by simpa [withList] using hkind⟩
        obtain ⟨i, hi⟩ := hcolumns k hk
        exact hflat.own_of_field henv hmap (fun _ => hown) hm (fun hlist => absurd hstar hlist) hi
    refine (sorted_of_set (P := fun q => OwnList schema input.fields q ∧ q.kind = .select) hl
      (fun q key a hkey hq => ⟨hq.1.set hq.2 a ?_, by rw [kind_set, hq.2]⟩) keys limit skip).1
    simp only [finishingKeys, List.mem_cons, List.not_mem_nil, or_false] at hkey
    rcases hkey with rfl | rfl | rfl <;> decide

end Listing

/-! ## Groups of a projection over a table -/

/-- Rows of a projection over a table, grouped with any grouping sets. -/
structure GroupedTable where
  table : List String
  fields : RowType
  projects : List Expr
  names : List String
  distinct : Bool
  ids : List String
  keys : List Ordinal
  sets : List (List Ordinal)
  calls : List AggregateCall

namespace GroupedTable

variable (p : GroupedTable)

/-- The projection over the table. -/
def input : Rel := .project (.scan p.table p.fields) p.projects p.names p.distinct p.ids

/-- The groups. -/
def groups : Rel := .aggregate p.input p.keys p.sets p.calls

/-- A name by which a key is grouped: that of a key which the projection computes, unless a column of the
table has the name.  Over distinct rows the keys are columns. -/
def KeyName (name : String) : Prop :=
  p.distinct = false ∧ name ∉ p.fields.names
    ∧ ∃ k ∈ p.keys, ∃ e f, nth? p.projects k = some e ∧ e.inputRef? = none
      ∧ nth? p.input.fields k = some f ∧ f.name = name

/-- Each expression has a name and reads the table only, and grouping sets are sets of keys. -/
structure Sound : Prop where
  named : p.names.length = p.projects.length
  reads : ∀ e ∈ p.projects, readsElsewhere e = false
  sets : ∀ set ∈ p.sets, ∀ k ∈ set, k ∈ p.keys

/-- The groups show the keys under their names. -/
def ShowsKeys : Prop := ∀ name, p.KeyName name → name ∈ p.groups.fields.names

end GroupedTable

variable {p : GroupedTable}

/-- The projection over the table lists columns of the table and what is built from them. -/
theorem GroupedTable.flat_input (henv : env.NeverQualifies) (hmap : env.fieldMap = []) (hp : p.Sound)
    (hcolumns : tableColumns schema p.table = p.fields.names) {root : Bool} {x : Result}
    (h : (relationResult env sub root p.input).Gives s x s') :
    Flat schema p.input x ∧ OwnList schema p.input.fields x.node := by
  rw [input, relationResult, ConvertM.gives_bind] at h
  obtain ⟨t, s₁, ht, h⟩ := h
  rw [relationResult] at ht
  have htable := flat_scan henv hcolumns ht
  have hflat := flat_project henv hmap htable hp.named
    (fun e he => readsOuter_of_readsElsewhere (hp.reads e he)) h
  obtain ⟨name, hsingle, -⟩ := htable.single
  obtain ⟨y, m, s₂, s₃, n, rfl, hm, hlist, hrecords⟩ := hsingle.project_step henv h
  have hnone : t.node.kind = .select → OwnList schema (Rel.scan p.table p.fields).fields t.node := by
    intro hkind
    rw [kind_scanResult ht] at hkind
    cases hkind
  have hown := (htable.items_of_project henv hmap hnone hp.named hp.reads hm hlist).1
  have hkind : n.kind = .select := by
    have hopened := (htable.shaped_opened henv hm).kind
    rcases hlist with ⟨-, rfl⟩ | ⟨-, ns, s₄, -, -, rfl⟩
    · exact hopened
    · simpa [withList] using hopened
  refine ⟨hflat, ?_⟩
  rw [hrecords.node_eq]
  split
  · exact hown.set hkind _ (by decide)
  · exact hown

/-- Over distinct rows a projection is read in parentheses. -/
theorem GroupedTable.wrapped_of_distinct {x : Result} (hx : ProjectedTable schema p.fields.names p.projects p.input x)
    (hclauses : x.clauses ≠ []) (hdistinct : p.distinct = true) :
    (x.expecting [.groupBy] (ignoresClauses p.groups)).mustWrap env p.groups = true := by
  by_contra hwrap
  rw [Bool.not_eq_true] at hwrap
  rcases unwrapped_cases (r := x.expecting [.groupBy] (ignoresClauses p.groups)) hclauses hwrap with
    ⟨_, _, _, hrel, -⟩ | ⟨-, hrule⟩
  · cases hrel
  · refine hrule ?_
    have hungrouped : x.clauses.contains .groupBy = false := by simpa using hx.ungroupedClauses
    change (if x.clauses.contains .groupBy then _ else wrapIf p.distinct) = some true
    rw [hungrouped, hdistinct]
    rfl

/-- A name in GROUP BY is a column of FROM or the name of a computed key. -/
theorem GroupedTable.column_or_keyName (henv : env.NeverQualifies) (hmap : env.fieldMap = [])
    (halias : env.dialect.capabilities.groupByAlias = true) {x : Result}
    (hx : ProjectedTable schema p.fields.names p.projects p.input x) (hflat : Flat schema p.input x)
    {m : Node} (hm : Opening env (x.expecting [.groupBy] (ignoresClauses p.groups)) p.groups s m s')
    {k : Ordinal} (hk : k ∈ p.keys) {K g : Node}
    (hK : ((x.expecting [.groupBy] (ignoresClauses p.groups)).contextOver env p.groups m).field env k = .ok K)
    (hg : ((x.expecting [.groupBy] (ignoresClauses p.groups)).contextOver env p.groups m).groupField env k = .ok g)
    {c : Node} (hc : c ∈ g.subnodes) (hkind : c.kind = .column) (hqualifier : c.qualifier? = none) :
    c = g ∧ g = Node.column c.name ∧ (c.name ∈ (m.frame schema).columns ∨ p.KeyName c.name) := by
  obtain ⟨-, -, hkeys⟩ := keys_of_projectedTable henv hmap halias hx
    (fun k e f he hf => by
      obtain ⟨i, hi, rfl⟩ := (nth?_isSome_iff _ k).mp (by rw [he]; rfl)
      simp only [input, Rel.fields, nth?_whole, List.getElem?_zipWith_eq_some] at he hf
      obtain ⟨name, e', -, he', rfl⟩ := hf
      obtain rfl : e = e' := by simpa [he] using he'
      rfl) ⟨_, _, _, rfl⟩ hm
  obtain ⟨f, hf, hkey, -⟩ := hkeys k K g hK hg
  cases hkey with
  | column hmem =>
    obtain rfl := eq_of_mem_subnodes_column hc hkind
    exact ⟨rfl, by rw [name_column], .inl (by rwa [name_column])⟩
  | qualified name table =>
    obtain rfl := eq_of_mem_subnodes_column hc hkind
    simp [qualifier?, Node.column, Node.kept, child?] at hqualifier
  | computed hexpr hbuilt halias hnull =>
    obtain rfl := eq_of_mem_subnodes_column hc hkind
    refine ⟨rfl, by rw [name_column], ?_⟩
    rw [name_column]
    obtain ⟨name, hsingle, hneeded⟩ := hx.single
    have hopened : if (x.expecting [.groupBy] (ignoresClauses p.groups)).mustWrap env p.groups then
        m = Node.selectFrom (derived x.node (some name)) else m = x.node :=
      Opening.of_select (x := x.expecting [.groupBy] (ignoresClauses p.groups)) henv hx.plain.1 hx.plain.2
        hneeded hm
    split at hopened
    · -- a query in parentheses shows the key as a column
      subst hopened
      left
      have hstar : (Node.selectFrom (derived x.node (some name))).selectList? = none := by
        simp [Node.selectFrom, selectList?, list?]
      obtain ⟨own, columns, hframe, hcolumns⟩ := (hflat.shaped_opened henv hm).frame_of_star hstar
      rw [hframe, Frame.columns_single]
      rcases hcolumns with rfl | hnil
      · exact List.mem_map_of_mem (mem_of_nth? hf)
      · rw [hnil] at hf
        exact absurd (mem_of_nth? hf) List.not_mem_nil
    · rename_i hwrap
      subst hopened
      rw [hx.frame]
      by_cases hmem : f.name ∈ p.fields.names
      · exact .inl hmem
      · right
        have hdistinct : p.distinct = false := by
          by_contra hdistinct
          exact hwrap (wrapped_of_distinct hx hflat.tracked.used (by simpa using hdistinct))
        obtain ⟨i, -, rfl⟩ := (nth?_isSome_iff _ k).mp (by rw [hf]; rfl)
        cases he : p.projects[i]? with
        | none => simp [input, Rel.fields, List.getElem?_zipWith, he] at hf
        | some e => exact ⟨hdistinct, hmem, _, hk, e, f, by simpa using he, hexpr e (by simpa using he), hf, rfl⟩

/-- The query of an aggregation reads what was opened, and groups by what is written for it. -/
theorem aggregated_reads (schema : Schema) {m : Node} (hkind : m.kind = .select) (hplain : isPlainQuery m = true)
    (hgroup : m.child? "group" = none) (items gs : List Node) (hasCalls : Bool) :
    (aggregated m items gs hasCalls).kind = .select ∧ isPlainQuery (aggregated m items gs hasCalls) = true
      ∧ (aggregated m items gs hasCalls).child? "from" = m.child? "from"
      ∧ (aggregated m items gs hasCalls).frame schema = m.frame schema
      ∧ (aggregated m items gs hasCalls).selectList? = some (if items.isEmpty then [Node.number "1"] else items)
      ∧ ((aggregated m items gs hasCalls).child? "group" = none
        ∨ (aggregated m items gs hasCalls).child? "group" = some (listNode .group gs)) := by
  set l := withList m (if items.isEmpty then [Node.number "1"] else items) with hl
  have hlist : l.selectList? = some (if items.isEmpty then [Node.number "1"] else items) := by
    simp [hl, withList, selectList?, list?]
  have hlkind : l.kind = .select := by simp [hl, withList, hkind]
  have hlplain : isPlainQuery l = true := isPlainQuery_set hplain (by decide) _
  have hlfrom : l.child? "from" = m.child? "from" := child?_set_of_ne m _ (by decide)
  have hlframe : l.frame schema = m.frame schema := frame_set hkind (by decide) _
  have hlgroup : l.child? "group" = none := by
    rw [hl, withList, child?_set_of_ne m _ (by decide), hgroup]
  unfold aggregated
  dsimp only
  rw [← hl]
  split
  · exact ⟨hlkind, hlplain, hlfrom, hlframe, hlist, .inl hlgroup⟩
  · refine ⟨by simpa using hlkind, isPlainQuery_set hlplain (by decide) _, ?_, ?_, ?_, .inr (by simp)⟩
    · rw [child?_set_of_ne l _ (by decide), hlfrom]
    · rw [frame_set hlkind (by decide), hlframe]
    · rw [← hlist]
      exact list?_set_of_ne l _ (by decide)

/-- A projection over a table does not group, nor does anything that it reads. -/
theorem ProjectedTable.allListed {columns : List String} {projects : List Expr} {rel : Rel} {x : Result}
    (hx : ProjectedTable schema columns projects rel x) : AllListed schema x.node := by
  intro q hq
  cases hq with
  | itself _ =>
    intro g hg
    rw [groupColumns_of_none hx.ungrouped] at hg
    cases hg
  | read hitem hkind hthis _ =>
    obtain ⟨item, hfrom, htable⟩ := hx.source
    have hsource : x.node.fromItem? = some item := by
      rw [fromItem?, hfrom]
      simp [Node.wrap, this?, child?]
    rw [hsource, Option.some.injEq] at hitem
    rw [← hitem, htable] at hkind
    cases hkind

/-- The columns in GROUP BY stand in one of its keys. -/
theorem mem_of_mem_groupColumns {n c : Node} {gs : List Node} (hgroup : n.child? "group" = some (listNode .group gs))
    (hc : c ∈ n.groupColumns) : c ∈ subnodesOfList gs ∧ c.kind = .column := by
  unfold groupColumns at hc
  rw [hgroup] at hc
  have hkind : c.kind = .column := (is_eq_true_iff _ _).mp (List.mem_filter.mp hc).2
  have hmem := (List.mem_filter.mp hc).1
  simp only [listNode, subnodes, subnodesOfArgs, List.append_nil, List.mem_cons] at hmem
  rcases hmem with rfl | hmem
  · cases hkind
  · exact ⟨hmem, hkind⟩

/-- **The groups** list the names by which they are grouped. -/
theorem listing_groups (henv : env.NeverQualifies) (hmap : env.fieldMap = [])
    (halias : env.dialect.capabilities.groupByAlias = true) (hp : p.Sound) (hshows : p.ShowsKeys)
    (hcolumns : tableColumns schema p.table = p.fields.names) {root : Bool} {r : Result}
    (h : (relationResult env sub root p.groups).Gives s r s') :
    Listing schema p.KeyName (groupKind p.keys p.sets = .simple) p.groups r := by
  rw [GroupedTable.groups, relationResult, ConvertM.gives_bind] at h
  obtain ⟨x, s₁, hx, h⟩ := h
  have hprojected := projectedTable henv hmap hcolumns hp.named
    (fun e he => readsOuter_of_readsElsewhere (hp.reads e he)) hx
  obtain ⟨hflat, hown⟩ := GroupedTable.flat_input henv hmap hp hcolumns hx
  obtain ⟨name, hsingle, hneeded⟩ := hprojected.single
  have hresult := h
  obtain ⟨y, m, s₂, ks, gs, as, rfl, hm, hks, hgs, has, hlength, hrecords⟩ := hsingle.aggregate_step henv h
  have hopened : if (x.expecting [.groupBy] (ignoresClauses p.groups)).mustWrap env p.groups then
      m = Node.selectFrom (derived x.node (some name)) else m = x.node :=
    Opening.of_select (x := x.expecting [.groupBy] (ignoresClauses p.groups)) henv hprojected.plain.1
      hprojected.plain.2 hneeded hm
  have hshaped := hflat.shaped_opened henv hm
  -- nothing below groups
  have hbelow : AllListed schema m ∧ m.child? "group" = none := by
    split at hopened
    · rw [hopened]
      exact ⟨hprojected.allListed.selectFrom (some name), by simp [Node.selectFrom, child?]⟩
    · rw [hopened]
      exact ⟨hprojected.allListed, hprojected.ungrouped⟩
  obtain ⟨hkind, hplain, hfrom, hframe, hlist, hgroup⟩ := aggregated_reads schema hshaped.kind
    hshaped.plain hbelow.2 (namedItems (ks ++ as) p.groups.fields) gs !p.calls.isEmpty
  have hnode : r.node = aggregated m (namedItems (ks ++ as) p.groups.fields) gs !p.calls.isEmpty := hrecords.node_eq
  rw [← hnode] at hkind hplain hfrom hframe hlist hgroup
  -- what stands in GROUP BY is written for keys
  have hcolumn : ∀ c ∈ r.node.groupColumns, c.qualifier? = none →
      (c.name ∈ (r.node.frame schema).columns ∨ p.KeyName c.name) ∧ (groupKind p.keys p.sets = .simple →
        ∃ gs, r.node.groupBy? = some gs ∧ Node.column c.name ∈ gs) := by
    intro c hc hqualifier
    rcases hgroup with hnone | hgroup
    · rw [groupColumns_of_none hnone] at hc
      cases hc
    obtain ⟨hmem, hkind⟩ := mem_of_mem_groupColumns hgroup hc
    obtain ⟨k, hk, g, hfield, hbelow, hdirect⟩ := key_of_groupByNodes hgs hp.sets hmem hkind
    obtain ⟨j, hj⟩ := List.mem_iff_getElem?.mp hk
    obtain ⟨K, -, hK⟩ := getElem?_of_mapM hks hj
    obtain ⟨rfl, hname, hcases⟩ := GroupedTable.column_or_keyName henv hmap halias hprojected hflat hm hk hK
      hfield hbelow hkind hqualifier
    rw [hframe]
    refine ⟨hcases, fun hsimple => ⟨gs, ?_, ?_⟩⟩
    · simp [groupBy?, hgroup, listNode, Node.list, list?]
    · rw [← hname]
      exact hdirect hsimple
  have hitems : p.groups.fields ≠ [] → (ks ++ as).length = p.groups.fields.length
      ∧ ∀ k ∈ ks ++ as, Own (m.frame schema).columns k := by
    intro hfields
    refine ⟨(hflat.items_of_aggregate henv hmap hm hks has hlength).1, fun k hk => ?_⟩
    rcases List.mem_append.mp hk with hk | hk
    · exact forall_of_mapM hks (fun i _ n hn => hflat.own_of_field henv hmap (fun _ => hown) hm
        (fun _ => ⟨rfl, by decide⟩) hn) k hk
    · exact forall_of_mapM has (fun call _ n hn => own_aggregateNode hn) k hk
  have hfull : p.groups.fields ≠ [] → r.node.selectList? = some (namedItems (ks ++ as) p.groups.fields) := by
    intro hfields
    have hlength := (hitems hfields).1
    have hne : (namedItems (ks ++ as) p.groups.fields).isEmpty = false := by
      rw [List.isEmpty_eq_false_iff, ← List.length_pos_iff, length_namedItems hlength.le, hlength]
      exact List.length_pos_iff.mpr hfields
    rw [hlist, hne]
    rfl
  refine ⟨?_, hplain, hkind, fun _ => hrecords.mem_clauses (by simp [Result.expecting]),
    fun c hc hqualifier hnone => (hcolumn c hc hqualifier).1.resolve_left hnone,
    fun hsimple c hc hqualifier => (hcolumn c hc hqualifier).2 hsimple, ?_, ?_⟩
  · obtain ⟨rname, rfl, hrsingle⟩ := hrecords
    exact ⟨rname, hrsingle, needed_recorded (by simpa using hplain) _ _ _ _⟩
  · refine hbelow.1.of_from hfrom fun c hc hqualifier => ?_
    rcases (hcolumn c hc hqualifier).1 with hmem | hkey
    · exact .inr hmem
    · have hname := hshows _ hkey
      have hfields : p.groups.fields ≠ [] := by
        intro hnil
        simp [hnil, RowType.names] at hname
      obtain ⟨hlength, hns⟩ := hitems hfields
      rw [Node.list, show r.node.list? "expressions" = _ from hfull hfields, hframe]
      exact mem_aliasNames_of_mem hns hlength hname
  · by_cases hfields : p.groups.fields = []
    · refine .inl fun name hkey => ?_
      have := hshows name hkey
      simp [hfields, RowType.names] at this
    · obtain ⟨hlength, hns⟩ := hitems hfields
      exact .inr ⟨flat_aggregate henv hmap hflat hfields hresult, .inr ⟨_, hfull hfields, hlength, by rwa [hframe]⟩⟩

/-! ## Plans over groups -/

/-- Filters, projections, windowed calls and sorts over a plan, one above the other; expressions of
projections have names, which are allowed, and read their input only. -/
inductive Stacked (base : Rel) (allowed : List String → Prop) : Rel → Prop
  | base : Stacked base allowed base
  | filter {input : Rel} (condition : Expr) (ids : List String) (h : Stacked base allowed input) :
    Stacked base allowed (.filter input condition ids)
  | project {input : Rel} {projects : List Expr} {names : List String} (distinct : Bool) (ids : List String)
    (hlength : names.length = projects.length) (hreads : ∀ e ∈ projects, readsElsewhere e = false)
    (hallowed : allowed names) (h : Stacked base allowed input) :
    Stacked base allowed (.project input projects names distinct ids)
  | window {input : Rel} (groups : List (WindowGroup Expr)) (constants : List Literal) (names : List String)
    (h : Stacked base allowed input) : Stacked base allowed (.window input groups constants names)
  | sort {input : Rel} (collation : List Collation) (offset fetch : Option Expr)
    (h : Stacked base allowed input) : Stacked base allowed (.sort input collation offset fetch)

/-- A projection keeps the names by which keys are grouped, or need not. -/
def GroupedTable.Keeping (p : GroupedTable) (names : List String) : Prop :=
  groupKind p.keys p.sets = .simple ∨ ∀ name, p.KeyName name → name ∈ names

/-- **Every plan over the groups** lists the names by which they are grouped. -/
theorem listing_stacked (henv : env.NeverQualifies) (hmap : env.fieldMap = [])
    (halias : env.dialect.capabilities.groupByAlias = true) (hp : p.Sound) (hshows : p.ShowsKeys)
    (hcolumns : tableColumns schema p.table = p.fields.names) {rel : Rel}
    (hrel : Stacked p.groups p.Keeping rel) {root : Bool} {s s' : State} {r : Result}
    (h : (relationResult env sub root rel).Gives s r s') :
    Listing schema p.KeyName (groupKind p.keys p.sets = .simple) rel r := by
  induction hrel generalizing root s s' r with
  | base => exact listing_groups henv hmap halias hp hshows hcolumns h
  | filter condition ids _ ih =>
    rw [relationResult, ConvertM.gives_bind] at h
    obtain ⟨x, s₁, hx, h⟩ := h
    exact (ih hx).filter henv h
  | project distinct ids hlength hreads hallowed _ ih =>
    rw [relationResult, ConvertM.gives_bind] at h
    obtain ⟨x, s₁, hx, h⟩ := h
    exact (ih hx).project henv hmap halias hlength hreads hallowed h
  | window groups constants names _ ih =>
    rw [relationResult, ConvertM.gives_bind] at h
    obtain ⟨x, s₁, hx, h⟩ := h
    exact (ih hx).window henv hmap h
  | sort collation offset fetch _ ih =>
    rw [relationResult, ConvertM.gives_bind] at h
    obtain ⟨x, s₁, hx, h⟩ := h
    exact (ih hx).sort henv hmap h

/-- **Names in GROUP BY stay listed**: in every SELECT of the statement they are names of select items or
columns of FROM, if grouping is plain or the projections keep the names of keys. -/
theorem statement_namesListed {d : Dialect} (hd : d ∈ Dialect.all)
    (halias : d.capabilities.groupByAlias = true) (hp : p.Sound) (hshows : p.ShowsKeys)
    (hcolumns : tableColumns schema p.table = p.fields.names) {rel : Rel}
    (hrel : Stacked p.groups p.Keeping rel) {n : Node} (hn : statement d rel = .ok n) :
    AllListed schema n := by
  have henv := Env.neverQualifies_plain hd
  rw [statement_eq, ConvertM.value_eq_ok_iff] at hn
  obtain ⟨s, hn⟩ := hn
  rw [planStatement, planResult_eq _ le_rfl, ConvertM.gives_bind] at hn
  obtain ⟨r, s₁, hr, hn⟩ := hn
  have hlisting := listing_stacked henv rfl halias hp hshows hcolumns hrel hr
  have hselect : r.node.isSetOperation = false := by
    simp [isSetOperation, hlisting.kind, Kind.isSetOperation]
  unfold Result.asStatement at hn
  rw [hselect, if_neg (by simp), ConvertM.gives_asSelect_of_select hlisting.kind] at hn
  rw [hn.1]
  exact hlisting.listed

/-- The sums of one column of a table by the successors of the other one, and their total. -/
def rollupBySuccessor : GroupedTable where
  table := ["t"]
  fields := [⟨"a", DataType.integer⟩, ⟨"b", DataType.integer⟩]
  projects := [.call Operator.plus [.inputRef (.whole 0) DataType.integer,
    .literal ⟨.exact "1", DataType.integer⟩] DataType.integer, .inputRef (.whole 1) DataType.integer]
  names := ["x", "y"]
  distinct := false
  ids := []
  keys := [.whole 0]
  sets := [[.whole 0], []]
  calls := [{ op := Operator.sum, args := [.whole 1], name := some "s" }]

/-- The sums by successors under another name. -/
def totalsBySuccessor : Rel :=
  .project rollupBySuccessor.groups [.inputRef (.whole 1) DataType.integer, .inputRef (.whole 0) DataType.integer]
    ["total", "x"] false []

/-- The sums alone, without their successors. -/
def totalsAlone : Rel :=
  .project rollupBySuccessor.groups [.inputRef (.whole 1) DataType.integer] ["total"] false []

theorem sound_rollupBySuccessor : rollupBySuccessor.Sound := by
  refine ⟨rfl, by decide +kernel, fun set hset k hk => ?_⟩
  simp only [rollupBySuccessor, List.mem_cons, List.not_mem_nil, or_false] at hset
  rcases hset with rfl | rfl
  · exact hk
  · cases hk

theorem keyName_rollupBySuccessor {name : String} (h : rollupBySuccessor.KeyName name) : name = "x" := by
  obtain ⟨-, -, k, hk, e, f, -, -, hf, rfl⟩ := h
  obtain rfl : k = .whole 0 := by simpa [rollupBySuccessor] using hk
  have hfield : nth? rollupBySuccessor.input.fields (.whole 0) = some ⟨"x", DataType.integer⟩ := rfl
  rw [hfield, Option.some.injEq] at hf
  rw [← hf]

/-- The sums by successors keep the name of their key under a ROLLUP. -/
theorem statement_namesListed_rollup : ∃ n, statement Dialect.snowflake totalsBySuccessor = .ok n
    ∧ AllListed successorSchema n := by
  have hok : (statement Dialect.snowflake totalsBySuccessor).toOption.isSome = true := by decide +kernel
  cases hn : statement Dialect.snowflake totalsBySuccessor with
  | error e => simp [hn, Except.toOption] at hok
  | ok n =>
    have hshows : rollupBySuccessor.ShowsKeys := by
      intro name hname
      rw [keyName_rollupBySuccessor hname]
      decide +kernel
    have hstacked : Stacked rollupBySuccessor.groups rollupBySuccessor.Keeping totalsBySuccessor := by
      refine .project false [] rfl (by decide +kernel) (.inr fun name hname => ?_) .base
      rw [keyName_rollupBySuccessor hname]
      decide
    exact ⟨n, rfl, statement_namesListed (by simp [Dialect.all]) (by decide) sound_rollupBySuccessor hshows
      (by decide +kernel) hstacked hn⟩

/-- Without it, the name in the ROLLUP is nowhere. -/
theorem totalsAlone_not_namesListed : ∃ n, statement Dialect.snowflake totalsAlone = .ok n
    ∧ ¬AllListed successorSchema n := by
  have hn : (statement Dialect.snowflake totalsAlone).toOption.map (fun n => (n.kind,
      n.groupColumns.map fun g => (g.name, g.qualifier?), WrapCheck.aliasNames (n.list "expressions"),
        (n.frame successorSchema).columns)) = some (.select, [("x", none)], ["total"], ["a", "b"]) := by
    decide +kernel
  cases hn' : statement Dialect.snowflake totalsAlone with
  | error e => simp [hn', Except.toOption] at hn
  | ok n =>
    rw [hn'] at hn
    simp only [Except.toOption, Option.map_some, Option.some.injEq, Prod.mk.injEq] at hn
    obtain ⟨hkind, hcolumns, hnames, hframe⟩ := hn
    refine ⟨n, rfl, fun hlisted => ?_⟩
    obtain ⟨g, hg, hname⟩ := List.map_eq_singleton_iff.mp hcolumns
    simp only [Prod.mk.injEq] at hname
    have := hlisted n (.itself hkind) g (by rw [hg]; simp) hname.2
    rw [hname.1, hnames, hframe] at this
    simp at this

end AlgebraSql.Convert
