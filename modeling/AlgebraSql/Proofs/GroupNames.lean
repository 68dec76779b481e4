import AlgebraSql.Proofs.GroupKeys
import AlgebraSql.Proofs.SubQueries

/-!
# Names in GROUP BY — when they stand for the keys that they were written for.

Where a dialect lets GROUP BY name a select item, a computed key is written by the name of its item.
A projection over the aggregation replaces the select list, so the name stands for what the
projection puts under it.  It still stands for the key as long as the projection gives the name to
nothing but that key; the rules about wrapping only make sure that the name is there.
-/

namespace AlgebraSql.Convert

open Sql Node

variable {env : Env} {sub : Rel → ConvertM Node} {s s' : State} {schema : Schema}

/-! ## Groups -/

/-- A projection over the groups of a projection over a table. -/
structure GroupPlan where
  table : List String
  fields : RowType
  projects : List Expr
  names : List String
  distinct : Bool
  ids : List String
  keys : List Ordinal
  sets : List (List Ordinal)
  calls : List AggregateCall
  outputs : List Expr
  outputNames : List String
  outputIds : List String

namespace GroupPlan

variable (p : GroupPlan)

/-- The projection over the table. -/
def input : Rel := .project (.scan p.table p.fields) p.projects p.names p.distinct p.ids

/-- The groups. -/
def groups : Rel := .aggregate p.input p.keys p.sets p.calls

/-- The projection over the groups. -/
def output : Rel := .project p.groups p.outputs p.outputNames false p.outputIds

/-- The key at a position is a field of the input that computes something. -/
def Computed (j : Nat) (f : Field) : Prop :=
  ∃ k e, p.keys[j]? = some k ∧ nth? p.projects k = some e ∧ e.inputRef? = none
    ∧ nth? p.input.fields k = some f

/-- There are keys, which are grouped by as they are, each expression has a name, and the input reads
no row from around it. -/
structure Plain : Prop where
  named : p.names.length = p.projects.length
  outputNamed : p.outputNames.length = p.outputs.length
  keyed : p.keys ≠ []
  grouped : groupKind p.keys p.sets = .simple
  closed : ∀ e ∈ p.projects, readsOuter e = false

/-- The names of keys differ, and the output gives the name of a key that computes something to
nothing else. -/
structure KeepsNames : Prop where
  distinct : ((Rel.pick p.input.fields p.keys).names.map Text.lower).Nodup
  kept : ∀ j f, p.Computed j f → ∀ i : Nat, p.outputNames[i]? = some f.name →
    p.outputs[i]? = some (.inputRef (j : Nat) f.type)
  once : ∀ j f, p.Computed j f → p.outputNames.count f.name ≤ 1

/-- A field of the input has the type of its expression. -/
theorem type_eq {k : Ordinal} {e : Expr} {f : Field} (he : nth? p.projects k = some e)
    (hf : nth? p.input.fields k = some f) : f.type = e.type := by
  obtain ⟨i, -, rfl⟩ := (nth?_isSome_iff _ k).mp (by rw [he]; rfl)
  simp only [nth?_whole] at he hf
  rw [input, Rel.fields, List.getElem?_zipWith, he] at hf
  cases hn : p.names[i]? with
  | none => simp [hn] at hf
  | some name =>
    obtain rfl : (⟨name, e.type⟩ : Field) = f := by simpa [hn] using hf
    rfl

/-- The output has the names that it was given. -/
theorem names_output (hp : p.Plain) : p.output.fields.names = p.outputNames := by
  have hnames : ∀ (names : List String) (es : List Expr), names.length = es.length →
      (List.zipWith (fun name (e : Expr) => (⟨name, e.type⟩ : Field)) names es).map (·.name) = names := by
    intro names
    induction names with
    | nil => simp
    | cons name names ih =>
      intro es hes
      cases es with
      | nil => cases hes
      | cons e es => simp [ih es (by simpa using hes)]
  exact hnames _ _ hp.outputNamed

end GroupPlan

/-- The query for groups: which items and which grouping items its keys have. -/
structure Grouped (schema : Schema) (p : GroupPlan) (l a : Node) (ks gs rest : List Node) : Prop where
  plain : isPlainQuery a = true ∧ a.kind = .select
  list : a.selectList? = some (namedItems (ks ++ rest) p.groups.fields)
  full : (ks ++ rest).length = p.groups.fields.length
  group : a.child? "group" = some (listNode .group gs)
  lengths : ks.length = p.keys.length ∧ gs.length = p.keys.length
  cell : ∀ (j : Nat) k, p.keys[j]? = some k → ∃ K g f, ks[j]? = some K ∧ gs[j]? = some g
    ∧ nth? p.input.fields k = some f ∧ p.groups.fields[j]? = some f
    ∧ Key (a.frame schema).columns (nth? p.projects k) f K g
    ∧ (∀ name, g = Node.column name → name ∉ (a.frame schema).columns → l.itemAt? k = some K)

/-- The positions of keys that are there pick one field each. -/
theorem getElem?_pick {fields : RowType} {keys : List Ordinal} (h : ∀ k ∈ keys, (nth? fields k).isSome)
    {j : Nat} {k : Ordinal} (hk : keys[j]? = some k) : (Rel.pick fields keys)[j]? = nth? fields k := by
  induction keys generalizing j with
  | nil => cases hk
  | cons first keys ih =>
    obtain ⟨f, hf⟩ := Option.isSome_iff_exists.mp (h first (by simp))
    have hpick : Rel.pick fields (first :: keys) = f :: Rel.pick fields keys := by
      simp [Rel.pick, hf]
    rw [hpick]
    cases j with
    | zero =>
      obtain rfl : first = k := by simpa using hk
      simp [hf]
    | succ j => simpa using ih (fun k hk => h k (by simp [hk])) (by simpa using hk)

/-- **The query for groups** of a projection over a table. -/
theorem grouped_of_gives (henv : env.NeverQualifies) (hmap : env.fieldMap = [])
    (halias : env.dialect.capabilities.groupByAlias = true) {p : GroupPlan} (hp : p.Plain)
    (hdistinct : ((Rel.pick p.input.fields p.keys).names.map Text.lower).Nodup)
    (hcolumns : tableColumns schema p.table = p.fields.names) {root : Bool} {r : Result}
    (h : (relationResult env sub root p.groups).Gives s r s') :
    ∃ x s₁ ks gs rest, (relationResult env sub false p.input).Gives s x s₁ ∧ x.node.kind = .select
      ∧ Grouped schema p x.node r.node ks gs rest ∧ .groupBy ∈ r.clauses
      ∧ ∃ name, r.Single name ∧ r.neededAlias = some name := by
  rw [GroupPlan.groups, relationResult, ConvertM.gives_bind] at h
  obtain ⟨x, s₁, hx, h⟩ := h
  have hprojected := projectedTable henv hmap hcolumns hp.named hp.closed hx
  obtain ⟨name, hsingle, hneeded⟩ := hprojected.single
  obtain ⟨y, m, s₂, ks, gs, as, rfl, hm, hks, hgs, has, hlength, hrecords⟩ :=
    hsingle.aggregate_step henv h
  obtain ⟨hplain, -, hkeys⟩ := keys_of_projectedTable henv hmap halias hprojected
    (fun _ _ _ => p.type_eq) ⟨_, _, _, rfl⟩ hm
  have hgs' : keyNodes env ((x.expecting [.groupBy] (ignoresClauses
      (.aggregate p.input p.keys p.sets p.calls))).contextOver env
        (.aggregate p.input p.keys p.sets p.calls) m) p.keys = .ok gs := by
    simpa [groupByNodes, hp.grouped] using hgs
  have hcell : ∀ (j : Nat) k, p.keys[j]? = some k → ∃ K g f, ks[j]? = some K ∧ gs[j]? = some g
      ∧ nth? p.input.fields k = some f ∧ Key (m.frame schema).columns (nth? p.projects k) f K g
      ∧ (∀ name, g = Node.column name → name ∉ (m.frame schema).columns → x.node.itemAt? k = some K) := by
    intro j k hk
    obtain ⟨K, hK, hfield⟩ := getElem?_of_mapM hks hk
    obtain ⟨g, hg, hgroup⟩ := getElem?_of_mapM hgs' hk
    obtain ⟨f, hf, hkey, hitem⟩ := hkeys k K g hfield hgroup
    exact ⟨K, g, f, hK, hg, hf, hkey, hitem⟩
  have hpicked : ∀ k ∈ p.keys, (nth? p.input.fields k).isSome := by
    intro k hk
    obtain ⟨j, hj⟩ := List.mem_iff_getElem?.mp hk
    obtain ⟨-, -, f, -, -, hf, -⟩ := hcell j k hj
    simp [hf]
  obtain ⟨rest, hfields, -⟩ := RowType.unique_append_of_nodup
    (Rel.aggregateFields p.input.fields p.keys.length p.calls) hdistinct
  have hklength := length_of_mapM hks
  have hglength := length_of_mapM hgs'
  have halength := length_of_mapM has
  have hbound := length_aggregateFields p.input p.keys p.sets p.calls
  have hfull : (ks ++ as).length = p.groups.fields.length := by
    simp only [GroupPlan.groups, List.length_append] at hlength ⊢
    omega
  have hkpos : 0 < p.keys.length := List.length_pos_iff.mpr hp.keyed
  -- there are keys, so there are items and grouping items
  have hnode : r.node = (withList m (namedItems (ks ++ as) p.groups.fields)).set "group"
      (some (.node (listNode .group gs))) := by
    have hitems : (namedItems (ks ++ as) p.groups.fields).isEmpty = false := by
      rw [List.isEmpty_eq_false_iff, ← List.length_pos_iff, length_namedItems hfull.le,
        List.length_append]
      omega
    have hgroups : gs.isEmpty = false := by
      rw [List.isEmpty_eq_false_iff, ← List.length_pos_iff]
      omega
    rw [hrecords.node_eq]
    change aggregated m (namedItems (ks ++ as) p.groups.fields) gs _ = _
    simp only [aggregated, hitems, hgroups, Bool.false_and, Bool.false_eq_true, if_false]
  have hkind : r.node.kind = .select := by simp [hnode, withList, hplain.2]
  have hquery : isPlainQuery r.node = true := by
    rw [hnode]
    exact isPlainQuery_set (isPlainQuery_set hplain.1 (by decide) _) (by decide) _
  have hlist : r.node.selectList? = some (namedItems (ks ++ as) p.groups.fields) := by
    rw [hnode, selectList?, list?_set_of_ne _ _ (by decide)]
    simp [withList, list?]
  have hframe : r.node.frame schema = m.frame schema := by
    rw [hnode, frame_set (by simp [withList, hplain.2]) (by decide), withList,
      frame_set hplain.2 (by decide)]
  refine ⟨x, s₁, ks, gs, as, hx, hprojected.plain.2, ⟨⟨hquery, hkind⟩, hlist, hfull, by simp [hnode],
    ⟨hklength, hglength⟩, fun j k hk => ?_⟩, hrecords.mem_clauses (by simp [Result.expecting]), ?_⟩
  · obtain ⟨K, g, f, hK, hg, hf, hkey, hitem⟩ := hcell j k hk
    have hfieldj : p.groups.fields[j]? = some f := by
      rw [GroupPlan.groups, Rel.fields, hfields, List.getElem?_append_left, getElem?_pick hpicked hk, hf]
      by_contra hlarge
      have := getElem?_pick hpicked hk
      rw [List.getElem?_eq_none (by omega), hf] at this
      cases this
    rw [hframe]
    exact ⟨K, g, f, hK, hg, hf, hfieldj, hkey, hitem⟩
  · obtain ⟨name', rfl, hsingle'⟩ := hrecords
    rw [recorded_node] at hquery
    exact ⟨name', hsingle', needed_recorded hquery _ _ _ _⟩

/-! ## Projections over groups -/

/-- The item of a name that only one column has. -/
theorem itemNamed?_of_items {n : Node} {ns : List Node} {fields : RowType}
    (hlist : n.selectList? = some (namedItems ns fields)) (hfull : ns.length = fields.length) {i : Nat}
    {K : Node} {f : Field} (hK : ns[i]? = some K) (hf : fields[i]? = some f)
    (hcount : fields.names.count f.name ≤ 1) : n.itemNamed? f.name = some (namedItem K f.name) := by
  have hitems : n.list "expressions" = namedItems ns fields := by
    rw [list, show n.list? "expressions" = _ from hlist]
    rfl
  have hnames : n.itemNames = fields.names := by
    rw [itemNames, hitems, outputNames_namedItems hfull]
  have hname : fields.names[i]? = some f.name := by simp [RowType.names, hf]
  have hitem : (namedItems ns fields)[i]? = some (namedItem K f.name) := by
    simp [namedItems, List.getElem?_zipWith, hK, hf]
  rw [itemNamed?, hnames, itemPlace?_of_count hname hcount, hitems]
  exact hitem

variable {p : GroupPlan} {l a : Node} {ks gs rest : List Node} {r : Result}

/-- The query for groups names its keys as its columns. -/
theorem Grouped.itemNamed? (h : Grouped schema p l a ks gs rest) {j : Nat} {f : Field} {K : Node}
    (hf : p.groups.fields[j]? = some f) (hK : ks[j]? = some K) :
    a.itemNamed? f.name = some (namedItem K f.name) := by
  have hj : j < ks.length := (List.getElem?_eq_some_iff.mp hK).1
  refine itemNamed?_of_items h.list h.full (by rw [List.getElem?_append_left hj, hK]) hf ?_
  exact List.nodup_iff_count_le_one.mp (RowType.nodup_unique _) _

/-- A key that is written under a name computes something. -/
theorem computed_of_key {columns : List String} {j : Nat} {k : Ordinal} {K g : Node} {f : Field}
    (hk : p.keys[j]? = some k) (hf : nth? p.input.fields k = some f)
    (hkey : Key columns (nth? p.projects k) f K g) (hg : g.qualifier? = none) (hname : g.name ∉ columns) :
    g.name = f.name ∧ K.aliasOf? = none ∧ p.Computed j f
      ∧ (K.is .null = true → K = Node.null ∧ f.type.name = .null) := by
  cases hkey with
  | column h => exact absurd (by simpa [Node.column, Node.name, text, innerText, identifier] using h) hname
  | qualified name table => simp [qualifier?, Node.column, Node.kept, child?] at hg
  | computed hexpr hkind halias hnull =>
    refine ⟨by simp [Node.column, Node.name, text, innerText, identifier], halias, ?_, hnull⟩
    obtain ⟨i, -, rfl⟩ := (nth?_isSome_iff _ k).mp (by rw [hf]; rfl)
    cases he : p.projects[i]? with
    | none => simp [GroupPlan.input, Rel.fields, List.getElem?_zipWith, he] at hf
    | some e => exact ⟨_, e, hk, by simpa using he, hexpr e (by simpa using he), hf⟩

/-- What stands for the keys in a query that puts the groups under another select list. -/
def NamesKeys (p : GroupPlan) (ks : List Node) (n : Node) : Prop :=
  ∀ j f K, p.Computed j f → p.groups.fields[j]? = some f → ks[j]? = some K → K.aliasOf? = none →
    (K.is .null = true → K = Node.null ∧ f.type.name = .null) →
      n.itemNamed? f.name = some (namedItem K f.name)

/-- Grouping items stand for the same as long as keys have their names. -/
theorem Grouped.sameGroupItem (h : Grouped schema p l a ks gs rest) {n : Node} (hn : NamesKeys p ks n)
    {g : Node} (hg : g ∈ gs) : SameGroupItem schema a n g := by
  obtain ⟨j, hj⟩ := List.mem_iff_getElem?.mp hg
  have hlt : j < p.keys.length := h.lengths.2 ▸ (List.getElem?_eq_some_iff.mp hj).1
  obtain ⟨K, g', f, hK, hg', hf, hfj, hkey, -⟩ := h.cell j _ (List.getElem?_eq_getElem hlt)
  obtain rfl : g' = g := by simpa [hg'] using hj
  refine ⟨by cases hkey <;> rfl, fun hqualifier hname => ?_⟩
  obtain ⟨hgf, halias, hcomputed, hnull⟩ :=
    computed_of_key (List.getElem?_eq_getElem hlt) hf hkey hqualifier hname
  rw [hgf]
  exact ⟨_, h.itemNamed? hfj hK, hn j f K hcomputed hfj hK halias hnull⟩

/-- A projection that is not wrapped drops no name that GROUP BY uses. -/
theorem groupsByDropped_eq_false (halias : env.dialect.capabilities.groupByAlias = true) {input : Rel}
    {projects : List Expr} {names : List String} {distinct : Bool} {ids : List String}
    (hclauses : .groupBy ∈ r.clauses)
    (hwrap : r.mustWrap env (.project input projects names distinct ids) = false) :
    (wrapCheck env r (.project input projects names distinct ids)).groupsByDropped = false := by
  have hqualify : qualifyOverWindow (wrapCheck env r (.project input projects names distinct ids))
      ≠ some false := by
    simp [qualifyOverWindow, wrapCheck]
  have hmiddle : groupByNameDropped ∈ middleRules := by simp [middleRules]
  have hrule := middleRule_ne_true (List.ne_nil_of_mem hclauses) hqualify hwrap hmiddle
  have hcontains : r.clauses.contains .groupBy = true := List.contains_iff_mem.mpr hclauses
  by_contra hdropped
  rw [Bool.not_eq_false] at hdropped
  refine hrule ?_
  change wrapIf (r.clauses.contains .groupBy && env.dialect.capabilities.groupByAlias
    && (wrapCheck env r (.project input projects names distinct ids)).groupsByDropped) = some true
  simp only [hcontains, halias, hdropped, wrapIf, Bool.and_self, if_true]

/-- A name of an item that GROUP BY uses is kept by what drops no such name. -/
theorem mem_names_of_grouped {c : WrapCheck} {items gs : List Node} {name : String}
    (hselect : c.node.kind = .select) (hgroup : c.node.groupBy? = some gs)
    (hlist : c.node.selectList? = some items) (hdropped : c.groupsByDropped = false)
    (hg : Node.column name ∈ gs) (hname : name ∈ WrapCheck.aliasNames items) :
    name ∈ c.rel.fields.names := by
  have hkind : c.node.is .select = true := (is_eq_true_iff _ _).mpr hselect
  have hiscolumn : (Node.column name).is .column = true := rfl
  unfold WrapCheck.groupsByDropped WrapCheck.groupBy? WrapCheck.items? WrapCheck.itemsOf at hdropped
  simp only [hkind, if_true, hgroup, hlist, Option.getD_some] at hdropped
  have hkept := List.any_eq_false.mp hdropped _ hg
  simpa [table_column, name_column, hiscolumn, hname] using hkept

/-- What stands under the name of a key in the projection is the key. -/
theorem Grouped.namesKeys_withList (halias : env.dialect.capabilities.groupByAlias = true) (hp : p.Plain) (hnames : p.KeepsNames)
    (h : Grouped schema p l r.node ks gs rest) (hclauses : .groupBy ∈ r.clauses)
    (hwrap : (r.expecting [.select]).mustWrap env p.output = false) {ns : List Node}
    (hns : (p.outputs.mapM (projectedNode env sub
      ((r.expecting [.select]).contextOver env p.output r.node))).Gives s ns s') :
    NamesKeys p ks (withList r.node (namedItems ns p.output.fields)) := by
  intro j f K hcomputed hf hK hunnamed hnull
  have hj : j < ks.length := (List.getElem?_eq_some_iff.mp hK).1
  have hitem : (namedItems (ks ++ rest) p.groups.fields)[j]? = some (Node.aliased K f.name) := by
    simp [namedItems, List.getElem?_zipWith, List.getElem?_append_left hj, hK, hf, namedItem, hunnamed]
  have hlisted : f.name ∈ WrapCheck.aliasNames (namedItems (ks ++ rest) p.groups.fields) :=
    List.mem_map.mpr ⟨_, List.mem_filter.mpr ⟨List.mem_of_getElem? hitem, rfl⟩,
      by simp [Node.aliased, aliasName, nameUnder]⟩
  -- GROUP BY names the key, so the projection keeps the name
  have hgrouped : Node.column f.name ∈ gs := by
    obtain ⟨k, e, hk, -⟩ := hcomputed
    obtain ⟨K', g, f', hK', hg, -, hf', hkey, -⟩ := h.cell j k hk
    obtain rfl : K' = K := by simpa [hK'] using hK
    obtain rfl : f' = f := by simpa [hf'] using hf
    cases hkey with
    | column _ => simp at hunnamed
    | qualified _ _ => simp at hunnamed
    | computed _ _ _ _ => exact List.mem_of_getElem? hg
  have hgroupBy : r.node.groupBy? = some gs := by
    simp [groupBy?, h.group, listNode, Node.list, list?]
  have hkept : f.name ∈ p.output.fields.names :=
    mem_names_of_grouped (c := wrapCheck env (r.expecting [.select]) p.output) h.plain.2 hgroupBy h.list
      (groupsByDropped_eq_false halias hclauses hwrap) hgrouped hlisted
  rw [p.names_output hp] at hkept
  obtain ⟨i, hi⟩ := List.mem_iff_getElem?.mp hkept
  have hout := hnames.kept j f hcomputed i hi
  -- the projection refers to the key, and is given what the key is written as
  have hcontext : (r.expecting [.select]).contextOver env p.output r.node
      = .selectList (namedItems (ks ++ rest) p.groups.fields) false false := by
    simp [Result.contextOver, h.list, Result.itemContext, Result.expecting, GroupPlan.output]
  have hfield : ((r.expecting [.select]).contextOver env p.output r.node).field env (j : Nat) = .ok K := by
    rw [hcontext]
    simp only [Context.field, nth?_whole, hitem]
    exact itemField_eq_ok_iff.mpr rfl
  have hwritten : ∀ e ∈ p.outputs, ∀ s n s', (projectedNode env sub
      ((r.expecting [.select]).contextOver env p.output r.node) e).Gives s n s' →
        (e = .inputRef (j : Nat) f.type → n = K) := by
    rintro e - s n s' hn rfl
    simp only [projectedNode, scalarNode, ConvertM.gives_bind, ConvertM.gives_lift, hfield,
      ConvertM.gives_pure] at hn
    obtain ⟨n', s₁, ⟨hn', rfl⟩, rfl, rfl⟩ := hn
    obtain rfl : K = n' := by simpa using hn'
    split
    · rename_i hisnull
      obtain ⟨rfl, htype⟩ := hnull hisnull
      simp [typedNull, htype, Scalar.type]
    · rfl
  have hforall := ConvertM.forall₂_of_gives_mapM hwritten hns
  have hilt : i < p.outputs.length := (List.getElem?_eq_some_iff.mp hout).1
  have hnslength : ns.length = p.outputs.length := ConvertM.length_of_gives_mapM hns
  have hnsi : ns[i]? = some K := by
    have hilt' : i < ns.length := hnslength ▸ hilt
    have := (List.forall₂_iff_get.mp hforall).2 i hilt hilt' (by
      simpa using (List.getElem?_eq_some_iff.mp hout).2)
    rw [List.getElem?_eq_getElem hilt']
    simpa using this
  have houtput : p.output.fields[i]? = some ⟨f.name, f.type⟩ := by
    simp [GroupPlan.output, Rel.fields, List.getElem?_zipWith, hi, hout, Scalar.type]
  have hlength : ns.length = p.output.fields.length := by
    simp [hnslength, GroupPlan.output, Rel.fields, hp.outputNamed]
  refine itemNamed?_of_items (f := ⟨f.name, f.type⟩) ?_ hlength hnsi houtput ?_
  · simp [withList, selectList?, list?]
  · rw [p.names_output hp]
    exact hnames.once j f hcomputed

/-- **A projection over groups** reads the query for the groups, or puts its select list in the place
of the list of that query, where the names of keys still stand for the keys. -/
theorem grouping_of_gives (henv : env.NeverQualifies)
    (halias : env.dialect.capabilities.groupByAlias = true) (hp : p.Plain) (hnames : p.KeepsNames)
    (h : Grouped schema p l r.node ks gs rest) (hclauses : .groupBy ∈ r.clauses) {name : String}
    (hsingle : r.Single name) (hneeded : r.neededAlias = some name) {t : Result}
    (ht : (projectResult env sub p.groups p.outputs false p.outputIds p.output r).Gives s t s') :
    t.node.kind = .select ∧ (t.node.grouping = r.node ∨ ∃ items, t.node.grouping = t.node
      ∧ t.node = withList r.node items ∧ NamesKeys p ks t.node) := by
  obtain ⟨y, m, s₁, s₂, n, rfl, hm, hlist, hrecords⟩ := hsingle.project_step henv ht
  have hnode : t.node = n := by simpa using hrecords.node_eq
  have hopened : if (r.expecting [.select]).mustWrap env p.output then
      m = Node.selectFrom (derived r.node (some name)) else m = r.node :=
    Opening.of_select (x := r.expecting [.select]) henv h.plain.1 h.plain.2 hneeded hm
  have hgroup : (r.node.child? "group").isSome = true := by simp [h.group]
  rw [hnode]
  split at hopened
  · -- the groups are read in parentheses
    subst hopened
    have hread : ∀ q : Node, q.child? "group" = none →
        q.child? "from" = some (Node.wrap .from (derived r.node (some name))) →
          q.grouping = r.node := by
      intro q hq hfrom
      have hitem : (Node.wrap .from (derived r.node (some name))).this? = some (derived r.node (some name)) := by
        simp [Node.wrap, this?, child?]
      have hquery : (derived r.node (some name)).this? = some r.node := by simp [derived, this?, child?]
      simp only [Node.grouping, hq, fromItem?, hfrom, Option.isSome_none, Bool.false_eq_true, if_false,
        Option.bind_some, hitem, hquery, Option.getD_some]
    rcases hlist with ⟨-, rfl⟩ | ⟨-, ns, s₃, -, -, rfl⟩
    · exact ⟨rfl, .inl (hread _ (by simp [Node.selectFrom, child?]) (by simp [Node.selectFrom, child?]))⟩
    · refine ⟨rfl, .inl (hread _ ?_ ?_)⟩
      · rw [withList, child?_set_of_ne _ _ (by decide)]
        simp [Node.selectFrom, child?]
      · rw [withList, child?_set_of_ne _ _ (by decide)]
        simp [Node.selectFrom, child?]
  · rename_i hwrap
    subst hopened
    rcases hlist with ⟨-, rfl⟩ | ⟨-, ns, s₃, hns, -, rfl⟩
    · exact ⟨h.plain.2, .inl (by simp [Node.grouping, hgroup])⟩
    · refine ⟨by simp [withList, h.plain.2], .inr ⟨_, ?_, rfl, ?_⟩⟩
      · have hgroup' : ((withList r.node (namedItems ns p.output.fields)).child? "group").isSome
            = true := by
          rw [withList, child?_set_of_ne _ _ (by decide), hgroup]
        exact if_pos hgroup'
      · exact h.namesKeys_withList halias hp hnames hclauses (by simpa using hwrap) hns

/-! ## Statements -/

/-- Each name in GROUP BY of a query that no column of FROM has stands in the select list for what the
key that it is written for is in the select list of another query. -/
def NamesDenoteKeys (schema : Schema) (keys : List Ordinal) (l q : Node) : Prop :=
  ∃ gs, q.groupBy? = some gs ∧ gs.length = keys.length
    ∧ ∀ (j : Nat) k g, keys[j]? = some k → gs[j]? = some g → g.qualifier? = none →
      g.name ∉ (q.frame schema).columns → ∃ e, l.itemAt? k = some e ∧ q.named? g.name = some e

/-- Names denote keys in a query whose keys have their names. -/
theorem Grouped.namesDenoteKeys (h : Grouped schema p l a ks gs rest) {q : Node}
    (hgroup : q.groupBy? = some gs) (hframe : q.frame schema = a.frame schema)
    (hq : NamesKeys p ks q) : NamesDenoteKeys schema p.keys l q := by
  refine ⟨gs, hgroup, h.lengths.2, fun j k g hk hg hqualifier hname => ?_⟩
  rw [hframe] at hname
  obtain ⟨K, g', f, hK, hg', hf, hfj, hkey, hitem⟩ := h.cell j k hk
  obtain rfl : g' = g := by simpa [hg'] using hg
  obtain ⟨hgf, halias, hcomputed, hnull⟩ := computed_of_key hk hf hkey hqualifier hname
  have hcolumn : g' = Node.column g'.name := by
    cases hkey with
    | column h => rfl
    | qualified _ _ => simp [qualifier?, Node.column, Node.kept, child?] at hqualifier
    | computed _ _ _ _ => simp [hgf]
  refine ⟨K, hitem _ hcolumn hname, ?_⟩
  rw [named?, hgf, hq j f K hcomputed hfj hK halias hnull]
  simp [namedItem, halias, Node.aliased, expression?, this?, child?]

/-- A plan whose result is a SELECT has it as its statement. -/
theorem planStatement_of_select {rel : Rel} {depth : Nat} {n : Node} (hdepth : rel.queryDepth ≤ depth)
    (hr : (relationResult env (queryAt env depth false) true rel).Gives s r s')
    (hkind : r.node.kind = .select) (hn : n = r.node) : (planStatement env rel).Gives s n s' := by
  have hplain : r.node.isSetOperation = false := by simp [isSetOperation, hkind, Kind.isSetOperation]
  rw [planStatement, planResult_eq env hdepth, ConvertM.gives_bind]
  refine ⟨r, s', hr, ?_⟩
  unfold Result.asStatement
  rw [hplain, if_neg (by simp), ConvertM.gives_asSelect_of_select hkind]
  exact ⟨hn, rfl⟩

/-- **Names in GROUP BY keep their meaning**, and the groups stay the same, if the names of keys differ
and the projection over the groups gives them to nothing but the keys. -/
theorem statement_groupNames {d : Dialect} (hd : d ∈ Dialect.all)
    (halias : d.capabilities.groupByAlias = true) (hp : p.Plain) (hnames : p.KeepsNames)
    (hcolumns : tableColumns schema p.table = p.fields.names) {n : Node}
    (hn : statement d p.output = .ok n) :
    ∃ l a, statement d p.input = .ok l ∧ statement d p.groups = .ok a
      ∧ NamesDenoteKeys schema p.keys l n.grouping
      ∧ ∀ E db, db.schema = schema → n.grouping.groups E db = a.groups E db := by
  have henv := Env.neverQualifies_plain hd
  rw [statement_eq, ConvertM.value_eq_ok_iff] at hn
  obtain ⟨s, hn⟩ := hn
  let depth := max p.input.queryDepth (max p.groups.queryDepth p.output.queryDepth)
  have hinput : p.input.queryDepth ≤ depth := by omega
  have hgroups : p.groups.queryDepth ≤ depth := by omega
  have houtput : p.output.queryDepth ≤ depth := by omega
  rw [planStatement, planResult_eq _ houtput, ConvertM.gives_bind] at hn
  obtain ⟨t, s₁, ht, hn⟩ := hn
  rw [GroupPlan.output, relationResult, ConvertM.gives_bind] at ht
  obtain ⟨r, s₂, hr, ht⟩ := ht
  obtain ⟨x, s₃, ks, gs, rest, hx, hxkind, hgrouped, hclauses, name, hsingle, hneeded⟩ :=
    grouped_of_gives henv rfl halias hp hnames.distinct hcolumns hr
  obtain ⟨hkind, hgrouping⟩ :=
    grouping_of_gives henv halias hp hnames hgrouped hclauses hsingle hneeded ht
  obtain rfl : n = t.node := by
    have hplain : t.node.isSetOperation = false := by simp [isSetOperation, hkind, Kind.isSetOperation]
    unfold Result.asStatement at hn
    rw [hplain, if_neg (by simp), ConvertM.gives_asSelect_of_select hkind] at hn
    exact hn.1
  have hgroupBy : r.node.groupBy? = some gs := by simp [groupBy?, hgrouped.group, listNode, Node.list, list?]
  refine ⟨x.node, r.node, ?_, ?_, ?_⟩
  · rw [statement_eq, ConvertM.value_eq_ok_iff]
    refine ⟨s₃, planStatement_of_select (r := x) hinput ?_ hxkind rfl⟩
    rw [GroupPlan.input, relationResult] at hx ⊢
    exact hx
  · rw [statement_eq, ConvertM.value_eq_ok_iff]
    refine ⟨s₂, planStatement_of_select (r := r) hgroups ?_ hgrouped.plain.2 rfl⟩
    rw [GroupPlan.groups, relationResult] at hr ⊢
    exact hr
  · rcases hgrouping with hsame | ⟨items, hown, hlist, hkeys⟩
    · rw [hsame]
      exact ⟨hgrouped.namesDenoteKeys hgroupBy rfl fun _ _ _ _ hf hK _ _ => hgrouped.itemNamed? hf hK,
        fun _ _ _ => rfl⟩
    · rw [hown]
      refine ⟨hgrouped.namesDenoteKeys ?_ ?_ hkeys, ?_⟩
      · rw [hlist, groupBy?, withList, child?_set_of_ne _ _ (by decide)]
        exact hgroupBy
      · rw [hlist, withList, frame_set hgrouped.plain.2 (by decide)]
      · rintro E db rfl
        rw [hlist] at hkeys ⊢
        exact groups_set_list hgrouped.plain.2 hgrouped.group fun g hg => hgrouped.sameGroupItem hkeys hg

/-- The sums of one column of a table by the successors of the other one. -/
def sumsBySuccessor : GroupPlan where
  table := ["t"]
  fields := [⟨"a", DataType.integer⟩, ⟨"b", DataType.integer⟩]
  projects := [.call Operator.plus [.inputRef (.whole 0) DataType.integer,
    .literal ⟨.exact "1", DataType.integer⟩] DataType.integer, .inputRef (.whole 1) DataType.integer]
  names := ["x", "y"]
  distinct := false
  ids := []
  keys := [.whole 0]
  sets := [[.whole 0]]
  calls := [{ op := Operator.sum, args := [.whole 1], name := some "s" }]
  outputs := [.inputRef (.whole 1) DataType.integer, .inputRef (.whole 0) DataType.integer]
  outputNames := ["total", "x"]
  outputIds := []

/-- The columns of the table. -/
def successorSchema : Schema := fun _ => ["a", "b"]

/-- The sums alone, under the name of the key. -/
def sumsAsKey : GroupPlan :=
  { sumsBySuccessor with
    outputs := [.inputRef (.whole 1) DataType.integer]
    outputNames := ["x"] }

theorem plain_sumsBySuccessor : sumsBySuccessor.Plain :=
  ⟨rfl, rfl, by decide, by decide +kernel, by decide +kernel⟩

theorem keepsNames_sumsBySuccessor : sumsBySuccessor.KeepsNames := by
  have hkey : ∀ j f, sumsBySuccessor.Computed j f → j = 0 ∧ f = ⟨"x", DataType.integer⟩ := by
    rintro j f ⟨k, e, hk, -, -, hf⟩
    obtain rfl : j = 0 := by
      by_contra hj
      rw [List.getElem?_eq_none (Nat.one_le_iff_ne_zero.mpr hj)] at hk
      cases hk
    obtain rfl : Ordinal.whole 0 = k := by simpa [sumsBySuccessor] using hk
    have hfield : nth? sumsBySuccessor.input.fields (.whole 0) = some ⟨"x", DataType.integer⟩ := rfl
    exact ⟨rfl, by simpa [hfield] using hf.symm⟩
  refine ⟨by decide +kernel, ?_, ?_⟩
  · intro j f hf i hi
    obtain ⟨rfl, rfl⟩ := hkey j f hf
    rcases i with _ | _ | i
    · simp [sumsBySuccessor] at hi
    · rfl
    · simp [sumsBySuccessor] at hi
  · intro j f hf
    obtain ⟨rfl, rfl⟩ := hkey j f hf
    decide

/-- The sums by successors keep the name of their key, so it denotes the successor. -/
theorem statement_groupNames_sums : ∃ l a n, statement Dialect.snowflake sumsBySuccessor.input = .ok l
    ∧ statement Dialect.snowflake sumsBySuccessor.groups = .ok a
    ∧ statement Dialect.snowflake sumsBySuccessor.output = .ok n
    ∧ NamesDenoteKeys successorSchema sumsBySuccessor.keys l n.grouping
    ∧ ∀ E db, db.schema = successorSchema → n.grouping.groups E db = a.groups E db := by
  have hok : (statement Dialect.snowflake sumsBySuccessor.output).toOption.isSome = true := by
    decide +kernel
  cases hn : statement Dialect.snowflake sumsBySuccessor.output with
  | error e => simp [hn, Except.toOption] at hok
  | ok n =>
    have hcolumns : tableColumns successorSchema sumsBySuccessor.table = sumsBySuccessor.fields.names := by
      decide +kernel
    obtain ⟨l, a, hl, ha, hnames⟩ := statement_groupNames (by simp [Dialect.all]) (by decide)
      plain_sumsBySuccessor keepsNames_sumsBySuccessor hcolumns hn
    exact ⟨l, a, n, hl, ha, rfl, hnames⟩

/-- Given to the sums, the name of the key denotes the sum. -/
theorem sumsAsKey_not_namesDenoteKeys : ∃ l n, statement Dialect.snowflake sumsAsKey.input = .ok l
    ∧ statement Dialect.snowflake sumsAsKey.output = .ok n
    ∧ ¬NamesDenoteKeys successorSchema sumsAsKey.keys l n.grouping := by
  have hl : (statement Dialect.snowflake sumsAsKey.input).toOption.map
      (fun l => (l.itemAt? (.whole 0)).map kind) = some (some .add) := by decide +kernel
  have hn : (statement Dialect.snowflake sumsAsKey.output).toOption.map (fun n =>
      ((n.grouping.groupBy?.getD []).map fun g => (g.name, g.qualifier?),
        (n.grouping.frame successorSchema).columns, (n.grouping.named? "x").map kind))
      = some ([("x", none)], ["a", "b"], some .aggregate) := by decide +kernel
  cases hl' : statement Dialect.snowflake sumsAsKey.input with
  | error e => simp [hl', Except.toOption] at hl
  | ok l =>
    cases hn' : statement Dialect.snowflake sumsAsKey.output with
    | error e => simp [hn', Except.toOption] at hn
    | ok n =>
      rw [hl'] at hl
      rw [hn'] at hn
      simp only [Except.toOption, Option.map_some, Option.some.injEq, Prod.mk.injEq] at hl hn
      obtain ⟨hgroups, hframe, hsum⟩ := hn
      refine ⟨l, n, rfl, rfl, ?_⟩
      rintro ⟨gs, hgs, -, hdenote⟩
      rw [hgs, Option.getD_some] at hgroups
      obtain ⟨g, rfl, hg⟩ := List.map_eq_singleton_iff.mp hgroups
      simp only [Prod.mk.injEq] at hg
      obtain ⟨e, hsuccessor, hnamed⟩ := hdenote 0 (.whole 0) g rfl rfl hg.2 (by rw [hg.1, hframe]; decide)
      -- a sum is no successor
      rw [hsuccessor] at hl
      rw [hg.1] at hnamed
      rw [hnamed] at hsum
      simp only [Option.map_some, Option.some.injEq] at hl hsum
      rw [hl] at hsum
      cases hsum

end AlgebraSql.Convert
