import AlgebraSql.Proofs.Selects

/-!
# Sound results — what a result promises to a parent about references.

`SoundResult` is the invariant of the conversion of a relation.  The query of a result resolves by
itself and exposes the columns of the relation, and the named inputs of the result are the items of
its FROM clause.  Reading a sound result, wrapping it and opening it for new clauses give sound
queries over whose frame all fields resolve.
-/

namespace AlgebraSql.Convert

open Sql Node

variable {schema : Schema}

/-! ## Names of a result -/

/-- A name that was free before a relation was converted and is in use after it. -/
structure NewName (used used' : UsedNames) (name : String) : Prop where
  nonempty : name ≠ ""
  free : used.has name = false
  taken : used'.has name = true

theorem NewName.grow {used : UsedNames} {s s' : State} {name : String}
    (h : NewName used s.usedNames name) (hs : Grows s s') : NewName used s'.usedNames name :=
  ⟨h.nonempty, h.free, hs name h.taken⟩

/-- A frame and named inputs belong together: a single input has all columns of the frame, and
several inputs are the items of the frame, under names of their own. -/
inductive Fits (used used' : UsedNames) : Sql.Frame → Aliases → Prop
  | single {F : Sql.Frame} {fields : RowType} (name : String) (h : F.columns = fields.names) :
      Fits used used' F [(name, fields)]
  | several {inputs : Aliases} (hlength : 2 ≤ inputs.length) (hnames : (inputs.map (·.1)).Nodup)
      (hnew : ∀ input ∈ inputs, NewName used used' input.1) :
      Fits used used' (inputs.map fun input => (input.1, input.2.names)) inputs

theorem Fits.grow {used : UsedNames} {s s' : State} {F : Sql.Frame} {inputs : Aliases}
    (h : Fits used s.usedNames F inputs) (hs : Grows s s') : Fits used s'.usedNames F inputs := by
  cases h with
  | single name h => exact .single name h
  | several hlength hnames hnew => exact .several hlength hnames fun i hi => (hnew i hi).grow hs

theorem Fits.inUse {used used' : UsedNames} {F : Sql.Frame} {inputs : Aliases}
    (h : Fits used used' F inputs) (hlength : 2 ≤ inputs.length) : InUse used' F := by
  cases h with
  | single name h => simp at hlength
  | several _ _ hnew =>
    intro item hitem _
    obtain ⟨input, hinput, rfl⟩ := List.mem_map.mp hitem
    exact (hnew input hinput).taken

theorem Fits.newNames {used used' : UsedNames} {F : Sql.Frame} {inputs : Aliases}
    (h : Fits used used' F inputs) (hlength : 2 ≤ inputs.length) :
    ∀ input ∈ inputs, NewName used used' input.1 := by
  cases h with
  | single name h => simp at hlength
  | several _ _ hnew => exact hnew

/-- New names do not occur in a frame around the relation. -/
theorem NewName.filter_outer {used used' : UsedNames} {name : String}
    (h : NewName used used' name) {outer : Sql.Frame} (huse : InUse used outer) :
    outer.filter (·.1 == name) = [] := by
  rw [List.filter_eq_nil_iff]
  intro item hitem heq
  obtain rfl : item.1 = name := by simpa using heq
  have := huse item hitem h.nonempty
  rw [h.free] at this
  cases this

/-- The items of a frame under names of their own are found by their names. -/
theorem filter_items {inputs : Aliases} (hnames : (inputs.map (·.1)).Nodup)
    {input : String × RowType} (hmem : input ∈ inputs) :
    (inputs.map fun i => (i.1, i.2.names)).filter (·.1 == input.1)
      = [(input.1, RowType.names input.2)] := by
  induction inputs with
  | nil => cases hmem
  | cons first rest ih =>
    simp only [List.map_cons, List.nodup_cons] at hnames
    rcases List.mem_cons.mp hmem with rfl | hrest
    · have hnone : (rest.map fun i => (i.1, RowType.names i.2)).filter (·.1 == input.1) = [] := by
        rw [List.filter_eq_nil_iff]
        rintro item hitem heq
        obtain ⟨j, hj, rfl⟩ := List.mem_map.mp hitem
        exact hnames.1 (List.mem_map.mpr ⟨j, hj, by simpa using heq⟩)
      simp [hnone]
    · have hne : (first.1 == input.1) = false := by
        refine beq_false_of_ne fun heq => hnames.1 ?_
        rw [heq]
        exact List.mem_map_of_mem hrest
      simpa [hne] using ih hnames.2 hrest

/-- Several inputs that fit a frame are visible over it. -/
theorem Fits.visible {used used' : UsedNames} {F : Sql.Frame} {inputs : Aliases}
    (h : Fits used used' F inputs) (hlength : inputs.length ≠ 1)
    (hnodup : ∀ input ∈ inputs, input.2.names.Nodup) {outer : Sql.Frame} (huse : InUse used outer)
    (items : List String) : Visible inputs ⟨F, outer, items⟩ := by
  cases h with
  | single name h => exact absurd rfl hlength
  | several _ hnames hnew =>
    intro input hinput
    refine ⟨?_, hnodup input hinput⟩
    rw [Scope.visible, List.filter_append, (hnew input hinput).filter_outer huse,
      filter_items hnames hinput, List.append_nil]

/-! ## Sound results -/

/-- A result that reads a table or constant rows. -/
structure SoundItem (schema : Schema) (used used' : UsedNames) (rel : Rel) (r : Result) : Prop where
  closed : ∀ sc, r.node.resolves schema sc = true
  readable : isReadable r.node = true
  frame : ∃ own, r.node.frame schema = [(own, rel.fields.names)] ∧ used'.has own = true
  input : ∃ name, NewName used used' name ∧ r.aliases = [(name, r.fields)]
    ∧ (r.neededAlias = none ∨ r.neededAlias = some name)
    ∧ ∃ item, r.asFrom = .ok item ∧ isReadable item = true
      ∧ item.frame schema = [(name, rel.fields.names)] ∧ ∀ sc, item.resolves schema sc = true

/-- A result that is a join, which nothing can read under a name. -/
structure SoundJoin (schema : Schema) (used used' : UsedNames) (rel : Rel) (r : Result) : Prop where
  kind : r.node.kind = .join
  closed : Closed schema used r.node
  fits : Fits used used' (r.node.frame schema) r.aliases
  length : 2 ≤ r.aliases.length
  columns : (r.node.frame schema).columns = rel.fields.names
  needed : ∃ name, r.neededAlias = some name

/-- A result that is a SELECT or a set operation. -/
structure SoundQuery (schema : Schema) (used used' : UsedNames) (rel : Rel) (r : Result) : Prop where
  plain : isPlainQuery r.node = true
  closed : Closed schema used r.node
  columns : r.node.columns schema = rel.fields.names
  needed : ∃ name, NewName used used' name ∧ r.neededAlias = some name
    ∧ (r.aliases = [(name, r.fields)] ∨ 2 ≤ r.aliases.length ∧ r.aliases.has name = false)
  inputs : ∀ input ∈ r.aliases, NewName used used' input.1
  setOperation : r.node.kind ≠ .select → r.aliases.length = 1
  select : r.node.kind = .select → ∃ F, SoundSelect schema used F r.node ∧ InUse used' F
    ∧ (r.node.selectList? = none → Fits used used' F r.aliases)

/-- A sort, whose query may have an ORDER BY. -/
def isSort : Rel → Bool
  | .sort .. => true
  | _ => false

/-- **`SoundResult`** — the invariant of the result for a relation that is converted while the names
`used` are in use, and after which the names `used'` are. -/
structure SoundResult (schema : Schema) (used used' : UsedNames) (rel : Rel) (r : Result) : Prop where
  fields : r.fields = rel.fields
  shape : SoundItem schema used used' rel r ∨ SoundJoin schema used used' rel r
    ∨ SoundQuery schema used used' rel r
  nodup : ∀ input ∈ r.aliases, input.2.names.Nodup
  unordered : isSort rel = false → Unordered r.node
  sorted : isSort rel = true → Clause.offset ∈ r.clauses

/-! ## Reading sound results -/

/-- A query that reads a result of a relation: it is sound over a frame whose names are in use, and
exposes the columns of the relation. -/
structure SoundReader (schema : Schema) (used used' : UsedNames) (rel : Rel) (F : Sql.Frame)
    (n : Node) : Prop where
  sound : SoundSelect schema used F n
  inUse : InUse used' F
  columns : n.columns schema = rel.fields.names

theorem resolves_derived (n : Node) (name : Option String) {sc : Scope} :
    (derived n name).resolves schema sc = true ↔ n.resolves schema sc = true := by
  cases name <;> simp (disch := decide) [derived]

/-- A query in parentheses exposes its columns under the name that it has, if it has one. -/
theorem frame_derived (n : Node) (name : Option String) (hname : name ≠ some "") :
    (derived n name).frame schema = [(name.getD "", n.columns schema)] := by
  cases name with
  | none =>
    rw [frame_subquery (q := n) rfl (by simp [derived, subquery, wrap, child?])]
    simp [derived, subquery, wrap, outputName, aliasOf?, isFromItem, aliasName, nameUnder]
  | some name =>
    have hne : name ≠ "" := fun h => hname (by rw [h])
    rw [frame_subquery (q := n) rfl (by simp [derived, child?])]
    simp [derived, outputName, aliasOf?, isFromItem, aliasName, nameUnder, hne]

variable {env : Env} {used : UsedNames} {rel : Rel} {r : Result} {s t : State}

theorem afterItem_grows (env : Env) (s : State) : Grows s (ConvertM.afterItem env s) := by
  intro name h
  unfold ConvertM.afterItem
  split
  · exact UsedNames.has_record_of_has _ h
  · exact h

theorem ConvertM.itemName_ne_empty (env : Env) (s : State) :
    (if env.dialect.capabilities.fromAliasRequired then some (s.usedNames.unique "t") else none)
      ≠ some "" := by
  split
  · simpa using UsedNames.unique_ne_empty_of_ne (by decide)
  · simp

/-- The item that a plain query becomes has a name in use, or none. -/
theorem inUse_itemOf (env : Env) (s : State) (n : Node) :
    InUse (ConvertM.afterItem env s).usedNames ((ConvertM.itemOf env s n).frame schema) := by
  intro item hitem hname
  rw [ConvertM.itemOf, frame_derived _ _ (ConvertM.itemName_ne_empty env s)] at hitem
  unfold ConvertM.afterItem
  by_cases halias : env.dialect.capabilities.fromAliasRequired = true
  · rw [if_pos halias] at hitem ⊢
    obtain rfl : item = _ := by simpa using hitem
    exact UsedNames.has_record_self _ _
  · rw [if_neg halias] at hitem
    obtain rfl : item = _ := by simpa using hitem
    exact absurd rfl hname

/-- **`asSelect`** — a sound result as a query with a select list is sound, and its named inputs fit
the frame if it shows all columns. -/
theorem SoundResult.asSelect (henv : env.NeverQualifies)
    (hr : SoundResult schema used t.usedNames rel r) (hs : Grows t s) {m : Node} {s' : State}
    (h : (r.asSelect env).Gives s m s') :
    Grows s s' ∧ ∃ F, SoundReader schema used s'.usedNames rel F m
      ∧ (m.selectList? = none → Fits used s'.usedNames F r.aliases)
      ∧ (Unordered r.node → Unordered m) := by
  rcases hr.shape with hitem | hjoin | hquery
  · -- a table or constant rows behind FROM
    obtain ⟨own, hframe, hown⟩ := hitem.frame
    obtain ⟨name, -, haliases, -, -⟩ := hitem.input
    have hkind : r.node.kind ≠ .select := fun hk => by simpa [isReadable, hk] using hitem.readable
    rw [ConvertM.gives_asSelect_of_ne_select henv hkind,
      ConvertM.gives_wrapSelect_of_readable henv hitem.readable] at h
    obtain ⟨rfl, rfl⟩ := h
    refine ⟨.refl s', r.node.frame schema, ⟨.selectFrom fun sc _ => hitem.closed sc, ?_, ?_⟩, ?_,
      fun _ => SoundSelect.unordered_selectFrom _⟩
    · intro item hmem _
      obtain rfl : item = (own, rel.fields.names) := by simpa [hframe] using hmem
      exact hs _ hown
    · rw [columns_selectFrom, hframe, Frame.columns_single]
    · intro _
      rw [haliases, hframe]
      exact .single name (by simp [hr.fields])
  · -- a join behind FROM
    have hkind : r.node.kind ≠ .select := by simp [hjoin.kind]
    have hreadable : isReadable r.node = true := by simp [isReadable_iff, hjoin.kind]
    rw [ConvertM.gives_asSelect_of_ne_select henv hkind,
      ConvertM.gives_wrapSelect_of_readable henv hreadable] at h
    obtain ⟨rfl, rfl⟩ := h
    have hfits := hjoin.fits.grow hs
    refine ⟨.refl s', r.node.frame schema, ⟨.selectFrom hjoin.closed, hfits.inUse hjoin.length, ?_⟩,
      fun _ => hfits, fun _ => SoundSelect.unordered_selectFrom _⟩
    rw [columns_selectFrom, hjoin.columns]
  · by_cases hkind : r.node.kind = .select
    · -- the query itself
      rw [ConvertM.gives_asSelect_of_select hkind] at h
      obtain ⟨rfl, rfl⟩ := h
      obtain ⟨F, hsound, huse, hfits⟩ := hquery.select hkind
      exact ⟨.refl s', F, ⟨hsound, huse.grow hs, hquery.columns⟩, fun hlist => (hfits hlist).grow hs, id⟩
    · -- a set operation in parentheses
      rw [ConvertM.gives_asSelect_of_ne_select henv hkind,
        ConvertM.gives_wrapSelect_of_plainQuery hquery.plain] at h
      obtain ⟨rfl, rfl⟩ := h
      obtain ⟨name, -, -, hsingle | ⟨hmany, -⟩⟩ := hquery.needed
      · have hcolumns : ((ConvertM.itemOf env s r.node).frame schema).columns = rel.fields.names := by
          rw [ConvertM.itemOf, frame_derived _ _ (ConvertM.itemName_ne_empty env s),
            Frame.columns_single, hquery.columns]
        refine ⟨afterItem_grows env s, (ConvertM.itemOf env s r.node).frame schema,
          ⟨.selectFrom fun sc huse => (resolves_derived _ _).mpr (hquery.closed sc huse),
            inUse_itemOf env s r.node, ?_⟩, ?_, fun _ => SoundSelect.unordered_selectFrom _⟩
        · rw [columns_selectFrom, hcolumns]
        · intro _
          rw [hsingle]
          exact .single name (by rw [hcolumns, hr.fields])
      · have := hquery.setOperation hkind
        omega

/-- A FROM item that a result became: it resolves by itself and exposes the columns of the relation
under a name of its own. -/
structure FromItem (schema : Schema) (used used' : UsedNames) (rel : Rel) (name : String)
    (item : Node) : Prop where
  new : NewName used used' name
  readable : isReadable item = true
  frame : item.frame schema = [(name, rel.fields.names)]
  closed : Closed schema used item

/-- The name by which a result is read: that of its only input, or one that it needs beside several
inputs. -/
def ReadAs (r : Result) (name : String) : Prop :=
  (r.aliases = [(name, r.fields)] ∧ (r.neededAlias = none ∨ r.neededAlias = some name))
    ∨ (r.neededAlias = some name ∧ 2 ≤ r.aliases.length ∧ r.aliases.has name = false)

/-- **`asFrom`** — a sound result as a FROM item has the name by which the result is read. -/
theorem SoundResult.asFrom (hr : SoundResult schema used t.usedNames rel r) {item : Node}
    (h : r.asFrom = .ok item) :
    ∃ name, FromItem schema used t.usedNames rel name item ∧ ReadAs r name := by
  rcases hr.shape with hitem | hjoin | hquery
  · obtain ⟨name, hnew, haliases, hneeded, other, hother, hreadable, hframe, hclosed⟩ := hitem.input
    obtain rfl : other = item := by simpa [hother] using h
    exact ⟨name, ⟨hnew, hreadable, hframe, fun sc _ => hclosed sc⟩, .inl ⟨haliases, hneeded⟩⟩
  · obtain ⟨name, hneeded⟩ := hjoin.needed
    simp [Result.asFrom, hneeded, asFromItem_join hjoin.kind] at h
  · obtain ⟨name, hnew, hneeded, hinputs⟩ := hquery.needed
    have hderived := asFromItem_of_plainQuery hquery.plain name
    obtain rfl : derived r.node (some name) = item := by
      simpa [Result.asFrom, hneeded, hderived] using h
    refine ⟨name, ⟨hnew, isReadable_derived _ _, ?_,
      fun sc huse => (resolves_derived _ _).mpr (hquery.closed sc huse)⟩,
      hinputs.imp (fun h => ⟨h, .inr hneeded⟩) (fun h => ⟨hneeded, h⟩)⟩
    rw [frame_derived _ _ (by simpa using hnew.nonempty), hquery.columns]
    rfl

/-- **`subSelect`** — a sound result below a new query. -/
theorem SoundResult.subSelect (henv : env.NeverQualifies)
    (hr : SoundResult schema used t.usedNames rel r) (hs : Grows t s) {m : Node} {s' : State}
    (h : (r.subSelect env).Gives s m s') :
    s' = s ∧ ∃ name, NewName used s.usedNames name
      ∧ SoundReader schema used s.usedNames rel [(name, rel.fields.names)] m
      ∧ m.selectList? = none ∧ Unordered m ∧ ReadAs r name := by
  obtain ⟨item, hitem⟩ : ∃ item, r.asFrom = .ok item := by
    unfold Result.subSelect at h
    obtain ⟨item, t', hitem, -⟩ := (ConvertM.gives_bind _ _ _ _ _).mp h
    exact ⟨item, ((ConvertM.gives_lift _ _ _ _).mp hitem).1⟩
  obtain ⟨name, hfrom, hneeded⟩ := hr.asFrom hitem
  rw [ConvertM.gives_subSelect hitem,
    ConvertM.gives_wrapSelect_of_readable henv hfrom.readable] at h
  obtain ⟨rfl, rfl⟩ := h
  have hnew := hfrom.new.grow hs
  have hsound := SoundSelect.selectFrom hfrom.closed
  rw [hfrom.frame] at hsound
  refine ⟨rfl, name, hnew, ⟨hsound, ?_, ?_⟩, by simp [selectFrom, selectList?, list?],
    SoundSelect.unordered_selectFrom _, hneeded⟩
  · intro i hi _
    obtain rfl : i = (name, rel.fields.names) := by simpa using hi
    exact hnew.taken
  · rw [columns_selectFrom, hfrom.frame, Frame.columns_single]

/-! ## Opening sound results -/

/-- The environment of a dialect that names constant rows, groups and filters by expressions and has
no QUALIFY, and in which fields stand for their names. -/
structure Env.Standard (env : Env) : Prop extends env.NeverQualifies where
  fieldMap : env.fieldMap = []
  aliasedValues : env.dialect.capabilities.aliasedValues = true
  qualify : env.dialect.capabilities.qualify = false
  groupByAlias : env.dialect.capabilities.groupByAlias = false
  havingAlias : env.dialect.capabilities.havingAlias = false

/-- What a parent adds to a result does not matter for its invariant. -/
theorem SoundResult.expecting (hr : SoundResult schema used t.usedNames rel r)
    (expected : List Clause) (ignoreClauses : Bool) :
    SoundResult schema used t.usedNames rel (r.expecting expected ignoreClauses) where
  fields := hr.fields
  shape := hr.shape.imp
    (fun h => ⟨h.closed, h.readable, h.frame, h.input⟩)
    (Or.imp (fun h => ⟨h.kind, h.closed, h.fits, h.length, h.columns, h.needed⟩)
      (fun h => ⟨h.plain, h.closed, h.columns, h.needed, h.inputs, h.setOperation, h.select⟩))
  nodup := hr.nodup
  unordered := hr.unordered
  sorted := hr.sorted

/-- Inputs that fit a frame give a context whose fields resolve over it. -/
theorem Fits.readsAt {used' : UsedNames} {F : Sql.Frame} {inputs : Aliases}
    (h : Fits used used' F inputs) (hmap : env.fieldMap = [])
    (hnodup : ∀ input ∈ inputs, input.2.names.Nodup) {outer : Sql.Frame} (huse : InUse used outer)
    (items : List String) :
    (Context.aliases inputs (decide (inputs.length > 1))).ReadsAt env schema ⟨F, outer, items⟩ := by
  by_cases hlength : inputs.length = 1
  · cases h with
    | single name h => exact readsAt_single hmap h (hnodup (name, _) (by simp))
    | several htwo => omega
  · have hvisible := h.visible hlength hnodup huse items
    have htwo : inputs.length > 1 := by
      cases h with
      | single name h => simp at hlength
      | several htwo => omega
    rw [decide_eq_true htwo]
    exact readsAt_qualified hmap hvisible

/-- An item of a select list, as it is or by what it computes, resolves over the frame. -/
theorem resolves_itemField {items : List Node} {aliasRef : Bool} {sc : Scope}
    (hitems : ∀ item ∈ items, item.resolves schema sc = true)
    (hnames : aliasRef = true → ∀ item ∈ items, (sc.items.count (outputName item) == 1) = true)
    {i : Ordinal} {item n : Node} (hitem : item ∈ items)
    (hn : Context.itemField aliasRef i item = .ok n) : n.resolves schema sc = true := by
  unfold Context.itemField at hn
  split at hn
  · rename_i haliased
    have hkind : item.kind = .aliased := (is_eq_true_iff _ _).mp haliased
    split at hn
    · rename_i href
      cases hn
      have hname : outputName item = item.aliasName := by simp [outputName, aliasOf?, hkind]
      rw [resolves_column_plain, findsPlain, ← hname, hnames href item hitem, Bool.or_true]
    · split at hn
      · rename_i inner hinner
        cases hn
        have hall := (resolves_iff_children (by rw [hkind]; rfl)).mp (hitems item hitem)
        have hmem := mem_args_of_child? hinner
        exact hall _ (List.mem_flatMap.mpr ⟨_, hmem, by simp⟩)
      · cases hn
  · cases hn
    exact hitems item hitem

/-- **`SoundBuilder`** — the invariant of a builder over the result for `input`: its query is sound,
all fields of its context resolve over the frame, and its inputs fit the frame if the query shows all
columns. -/
structure SoundBuilder (schema : Schema) (env : Env) (used used' : UsedNames) (input : Rel)
    (F : Sql.Frame) (b : Builder) : Prop where
  reader : SoundReader schema used used' input F b.select
  unordered : Unordered b.select
  reads : isSort b.rel = false ∨ b.select.selectList? = none → ∀ outer items, InUse used outer →
    b.context.ReadsAt env schema ⟨F, outer, items⟩
  readsInOrder : ∀ outer, InUse used outer →
    b.context.ReadsAt env schema ⟨F, outer, listedNames b.select⟩
  groups : ∀ i, b.context.groupField env i = b.context.field env i
  inputs : ∃ inputs, b.aliases = some inputs ∧ inputs ≠ []
    ∧ (∀ i ∈ inputs, i.2.names.Nodup ∧ NewName used used' i.1)
    ∧ (b.select.selectList? = none → Fits used used' F inputs)

theorem SoundBuilder.grow {input : Rel} {F : Sql.Frame} {b : Builder} {s' : State}
    (h : SoundBuilder schema env used s.usedNames input F b) (hs : Grows s s') :
    SoundBuilder schema env used s'.usedNames input F b where
  reader := ⟨h.reader.sound, h.reader.inUse.grow hs, h.reader.columns⟩
  unordered := h.unordered
  reads := h.reads
  readsInOrder := h.readsInOrder
  groups := h.groups
  inputs := by
    obtain ⟨inputs, hinputs, hne, hnew, hfits⟩ := h.inputs
    exact ⟨inputs, hinputs, hne, fun i hi => ⟨(hnew i hi).1, (hnew i hi).2.grow hs⟩,
      fun hlist => (hfits hlist).grow hs⟩

/-- The context of a query with a select list reads its items. -/
theorem readsAt_itemContext (henv : env.Standard) {used' : UsedNames} {input : Rel} {F : Sql.Frame}
    {m : Node} {items : List Node} (hm : SoundReader schema used used' input F m)
    (hlist : m.selectList? = some items) (hnodup : input.fields.names.Nodup) {outer : Sql.Frame}
    (huse : InUse used outer) {names : List String}
    (hsort : isSort rel = true → names = listedNames m) :
    (r.itemContext env rel items).ReadsAt env schema ⟨F, outer, names⟩ := by
  intro i n hn
  unfold Result.itemContext Context.field at hn
  simp only [henv.havingAlias, Bool.and_false, Bool.false_or] at hn
  cases hitem : nth? items i with
  | none => simp [hitem] at hn
  | some item =>
    simp only [hitem] at hn
    have hmem : item ∈ items := by
      unfold nth? at hitem
      split at hitem
      · exact List.mem_of_getElem? hitem
      · cases hitem
    refine resolves_itemField (fun c hc => ?_) (fun hsorts c hc => ?_) hmem hn
    · exact hm.sound.clauses _ (mem_args_of_list? hlist) (by simp) (by simp) c (by simpa using hc)
        outer names huse
    · have hrel : isSort rel = true := by
        split at hsorts
        · rfl
        · cases hsorts
      have hlisted : listedNames m = input.fields.names := by
        have hcolumns := hm.columns
        rw [hm.sound.columns_eq, hlist] at hcolumns
        obtain ⟨first, rest, rfl⟩ := List.exists_cons_of_ne_nil (List.ne_nil_of_mem hmem)
        rw [← hcolumns, listedNames, hlist]
        rfl
      rw [hsort hrel, hlisted]
      refine count_eq_one hnodup ?_
      rw [← hlisted, listedNames, hlist]
      exact List.mem_map_of_mem hc

/-- The inputs of a result that a builder keeps. -/
theorem SoundResult.newInputs (hr : SoundResult schema used t.usedNames rel r) (hs : Grows t s) :
    r.aliases ≠ [] ∧ ∀ i ∈ r.aliases, i.2.names.Nodup ∧ NewName used s.usedNames i.1 := by
  have hnew : r.aliases ≠ [] ∧ ∀ i ∈ r.aliases, NewName used t.usedNames i.1 := by
    rcases hr.shape with hitem | hjoin | hquery
    · obtain ⟨name, hnew, haliases, -⟩ := hitem.input
      rw [haliases]
      refine ⟨by simp, fun i hi => ?_⟩
      obtain rfl : i = (name, r.fields) := by simpa using hi
      exact hnew
    · have htwo := hjoin.length
      exact ⟨fun h => by simp [h] at htwo, hjoin.fits.newNames htwo⟩
    · obtain ⟨name, hnew, -, hsingle | ⟨hmany, -⟩⟩ := hquery.needed
      · exact ⟨by simp [hsingle], hquery.inputs⟩
      · exact ⟨fun h => by simp [h] at hmany, hquery.inputs⟩
  exact ⟨hnew.1, fun i hi => ⟨hr.nodup i hi, (hnew.2 i hi).grow hs⟩⟩

/-- **`builder`** — a sound result opened for the clauses of a parent is a sound builder.  A result
that has an ORDER BY must be wrapped. -/
theorem SoundResult.builder (henv : env.Standard) {input : Rel}
    (hr : SoundResult schema used t.usedNames input r) (hs : Grows t s)
    (hinput : rel.inputs.head? = some input) (hnodup : input.fields.names.Nodup)
    (hwrap : isSort input = true → r.mustWrap env rel = true) {b : Builder} {s' : State}
    (h : (r.builder env rel).Gives s b s') :
    Grows s s' ∧ b.rel = rel ∧ (∀ c ∈ r.expected, c ∈ b.clauses)
      ∧ ∃ F, SoundBuilder schema env used s'.usedNames input F b := by
  obtain ⟨m, hselect, hopened⟩ := (ConvertM.gives_builder henv.toNeverQualifies r rel b s s').mp h
  -- whichever way the query is made, it reads the result, and its inputs fit unless they are replaced
  obtain ⟨hgrows, F, hreader, hunordered, hfits⟩ : Grows s s' ∧ ∃ F,
      SoundReader schema used s'.usedNames input F m ∧ Unordered m
      ∧ (m.selectList? = none →
        (r.newAlias? (r.mustWrap env rel) = none ∧ Fits used s'.usedNames F r.aliases)
        ∨ ∃ name, r.newAlias? (r.mustWrap env rel) = some name ∧ F = [(name, input.fields.names)]
          ∧ NewName used s'.usedNames name ∧ r.aliases.has name = false) := by
    by_cases hw : r.mustWrap env rel = true
    · rw [if_pos hw] at hselect
      obtain ⟨rfl, name, hnew, hreader, -, hunordered, hneeded⟩ :=
        hr.subSelect henv.toNeverQualifies hs hselect
      refine ⟨.refl _, _, hreader, hunordered, fun _ => ?_⟩
      rcases hneeded with ⟨haliases, hneeded⟩ | ⟨hneeded, htwo, hnone⟩
      · refine .inl ⟨?_, ?_⟩
        · rcases hneeded with hneeded | hneeded <;>
            simp [Result.newAlias?, hneeded, haliases, OrderedMap.has]
        · rw [haliases]
          exact .single name (by simp [hr.fields])
      · refine .inr ⟨name, ?_, rfl, hnew, hnone⟩
        have hlength : r.aliases.length ≠ 1 := by omega
        simp [Result.newAlias?, hneeded, hw, hlength]
    · rw [if_neg hw] at hselect
      obtain ⟨hgrows, F, hreader, hfits, hunordered⟩ :=
        hr.asSelect henv.toNeverQualifies hs hselect
      have hsort : isSort input = false := by
        cases hsort : isSort input with
        | false => rfl
        | true => exact absurd (hwrap hsort) hw
      refine ⟨hgrows, F, hreader, hunordered (hr.unordered hsort), fun hlist => .inl ⟨?_, hfits hlist⟩⟩
      simp only [Result.newAlias?, hw, Bool.false_and]
      split <;> rfl
  have hinputs := hr.newInputs (hs.trans hgrows)
  have hfirst : Result.firstInputFields rel = .ok input.fields := by
    unfold Result.firstInputFields
    cases hin : rel.inputs with
    | nil => simp [hin] at hinput
    | cons first rest =>
      obtain rfl : first = input := by simpa [hin] using hinput
      rfl
  have hexpected : ∀ c ∈ r.expected,
      c ∈ (if r.mustWrap env rel then r.expected else r.clauses ++ r.expected) := by
    intro c hc
    split
    · exact hc
    · exact List.mem_append_right _ hc
  refine ⟨hgrows, ?_⟩
  unfold Result.opened at hopened
  cases hlist : m.selectList? with
  | some items =>
    simp only [hlist, Except.ok.injEq] at hopened
    subst hopened
    refine ⟨rfl, hexpected, F, hreader, hunordered, ?_, ?_, ?_, r.aliases, rfl, hinputs.1, hinputs.2, ?_⟩
    · intro hsort outer names huse
      refine readsAt_itemContext henv hreader hlist hnodup huse fun hrel => ?_
      simp [hrel, hlist] at hsort
    · exact fun outer huse => readsAt_itemContext henv hreader hlist hnodup huse fun _ => rfl
    · intro i
      simp [Result.itemContext, henv.groupByAlias, Context.groupField]
    · simp [hlist]
  | none =>
    rcases hfits hlist with ⟨hnew, hfits⟩ | ⟨name, hnew, rfl, hname, hnone⟩
    · -- the named inputs of the result are those of the query
      simp only [hlist, hnew, Except.ok.injEq] at hopened
      subst hopened
      have hreads : ∀ outer names, InUse used outer → (Context.aliases r.aliases
          (decide (r.aliases.length > 1))).ReadsAt env schema ⟨F, outer, names⟩ := fun outer names huse =>
        hfits.readsAt henv.fieldMap (fun i hi => (hinputs.2 i hi).1) huse names
      exact ⟨rfl, hexpected, F, hreader, hunordered, fun _ => hreads, fun outer huse => hreads _ _ huse,
        fun _ => rfl, r.aliases, rfl, hinputs.1, hinputs.2, fun _ => hfits⟩
    · -- the query has one input under the name that the result needs
      simp only [hlist, hnew, hfirst, bind_eq_ok_iff, pure_eq_ok_iff, Except.ok.injEq, hnone,
        Bool.false_eq_true, if_false] at hopened
      obtain ⟨fields, rfl, rfl⟩ := hopened
      have hfits : Fits used s'.usedNames [(name, input.fields.names)] [(name, input.fields)] :=
        .single name (by simp)
      have hreads : ∀ outer names, InUse used outer → (Context.aliases [(name, input.fields)]
          (decide (r.aliases.length > 1))).ReadsAt env schema
            ⟨[(name, input.fields.names)], outer, names⟩ := by
        intro outer names huse
        cases decide (r.aliases.length > 1)
        · exact readsAt_single henv.fieldMap (by simp) hnodup
        · refine readsAt_qualified henv.fieldMap fun i hi => ?_
          obtain rfl : i = (name, input.fields) := by simpa using hi
          refine ⟨?_, hnodup⟩
          rw [Scope.visible, List.filter_append, hname.filter_outer huse]
          simp
      refine ⟨rfl, hexpected, [(name, input.fields.names)], hreader, hunordered, fun _ => hreads,
        fun outer huse => hreads _ _ huse, fun _ => rfl, [(name, input.fields)], rfl, by simp,
        fun i hi => ?_, fun _ => hfits⟩
      obtain rfl : i = (name, input.fields) := by simpa using hi
      exact ⟨hnodup, hname⟩

/-! ## Recording sound queries -/

theorem afterRecording_grows (s : State) (n : Node) (rel : Rel) : Grows s (afterRecording s n rel) :=
  fun _ h => UsedNames.has_record_of_has _ h

/-- The name that a recorded query gets is new. -/
theorem newName_givenName {s₀ : State} (hs : Grows s₀ s) (n : Node)
    (hown : ∀ own, n.aliasOf? = some own → own ≠ "") :
    NewName s₀.usedNames (afterRecording s n rel).usedNames (givenName s.usedNames n) where
  nonempty := by
    refine UsedNames.unique_ne_empty_of_ne ?_
    cases h : n.aliasOf? with
    | none => simp
    | some own => exact hown own h
  free := by
    by_contra hhas
    have := hs _ (by simpa using hhas)
    rw [givenName, UsedNames.has_unique] at this
    cases this
  taken := UsedNames.has_record_self _ _

/-- The columns of a relation are named, under different names. -/
def NamesColumns (rel : Rel) : Prop :=
  rel.fields.names.Nodup ∧ ∀ name ∈ rel.fields.names, name ≠ ""

/-- A plain query has no name of its own. -/
theorem aliasOf?_of_plainQuery {n : Node} (h : isPlainQuery n = true) : n.aliasOf? = none := by
  rw [isPlainQuery_iff] at h
  unfold aliasOf? isFromItem
  rcases h.1 with hk | hk
  · simp [hk]
  · cases hkind : n.kind <;> simp_all [Kind.isSetOperation]

/-- A query with a select list declares the columns that it exposes. -/
theorem SoundSelect.declaredNames {F : Sql.Frame} {m : Node} (hm : SoundSelect schema used F m)
    (hcolumns : m.columns schema = rel.fields.names) (hnames : NamesColumns rel) :
    declaredNames rel.fields m = [] ∨ declaredNames rel.fields m = rel.fields.names.map some := by
  have hnone : m.aliasColumns = [] := by
    have := hm.noAlias
    unfold hasAlias at this
    unfold aliasColumns
    cases h : m.child? "alias" with
    | none => rfl
    | some c => simp [h] at this
  have hselect : m.is .select = true := (is_eq_true_iff _ _).mpr hm.kind
  rw [hm.columns_eq] at hcolumns
  unfold Convert.declaredNames
  rw [hselect]
  cases hlist : m.selectList? with
  | none => exact .inl (by simp [hnone])
  | some items =>
    cases items with
    | nil => exact .inl rfl
    | cons first rest =>
      right
      simp only [hlist, selectColumns] at hcolumns
      have hitem : ∀ item ∈ first :: rest, item.aliasOf? = some (outputName item) := by
        intro item hmem
        have hne := hnames.2 (outputName item) (by rw [← hcolumns]; exact List.mem_map_of_mem hmem)
        unfold outputName at hne ⊢
        cases h : item.aliasOf? with
        | none => simp [h] at hne
        | some name => rfl
      rw [← hcolumns, List.map_map, ← List.zipIdx_map_fst 0 (first :: rest), List.map_map,
        List.zipIdx_map_fst]
      refine List.map_congr_left fun p hp => ?_
      obtain ⟨item, i⟩ := p
      simp [hitem item (List.fst_mem_of_mem_zipIdx hp)]

/-- A plain query that is recorded as its own input is sound. -/
theorem soundQuery_single {s₀ : State} (hs : Grows s₀ s) {n : Node} {r : Result}
    (hplain : isPlainQuery n = true) (hclosed : Closed schema s₀.usedNames n)
    (hcolumns : n.columns schema = rel.fields.names) (hdeclared : declaredFields rel n = rel.fields)
    (hselect : n.kind = .select → ∃ F, SoundSelect schema s₀.usedNames F n
      ∧ InUse (afterRecording s n rel).usedNames F)
    (hnode : r.node = n) (hfields : r.fields = rel.fields)
    (hneeded : r.neededAlias = some (givenName s.usedNames n))
    (haliases : r.aliases = [(givenName s.usedNames n, r.fields)]) :
    SoundQuery schema s₀.usedNames (afterRecording s n rel).usedNames rel r := by
  have hnew : NewName s₀.usedNames (afterRecording s n rel).usedNames (givenName s.usedNames n) :=
    newName_givenName hs n (by simp [aliasOf?_of_plainQuery hplain])
  subst hnode
  refine ⟨hplain, hclosed, hcolumns, ⟨_, hnew, hneeded, .inl haliases⟩, ?_, ?_, ?_⟩
  · intro input hinput
    rw [haliases] at hinput
    obtain rfl : input = _ := by simpa using hinput
    exact hnew
  · intro _
    rw [haliases]
    rfl
  · intro hkind
    obtain ⟨F, hsound, huse⟩ := hselect hkind
    refine ⟨F, hsound, huse, fun hlist => ?_⟩
    rw [haliases, hfields]
    refine .single _ ?_
    rw [← hcolumns, hsound.columns_eq, hlist]
    rfl

/-- What a record of a query with a select list needs. -/
structure Recordable (schema : Schema) (used used' : UsedNames) (rel : Rel) (F : Sql.Frame) (n : Node)
    (clauses : List Clause) : Prop where
  reader : SoundReader schema used used' rel F n
  unordered : isSort rel = false → Unordered n
  sorted : isSort rel = true → Clause.offset ∈ clauses

/-- **`makeResult`** — recording a sound query with a select list gives a sound result. -/
theorem Recordable.soundResult (henv : env.NeverQualifies) {s₀ : State} (hs : Grows s₀ s)
    {F : Sql.Frame} {n : Node} {clauses : List Clause}
    (hn : Recordable schema s₀.usedNames (afterRecording s n rel).usedNames rel F n clauses)
    (hnames : NamesColumns rel)
    {aliases : Option Aliases} (haliases : ∀ inputs, aliases = some inputs → inputs ≠ []
      ∧ (∀ i ∈ inputs, i.2.names.Nodup ∧ NewName s₀.usedNames s.usedNames i.1)
      ∧ (n.selectList? = none → Fits s₀.usedNames s.usedNames F inputs))
    {s' : State} (h : (makeResult env n clauses rel aliases).Gives s r s') :
    Grows s s' ∧ SoundResult schema s₀.usedNames s'.usedNames rel r := by
  rw [ConvertM.gives_makeResult henv] at h
  obtain ⟨rfl, rfl⟩ := h
  have hgrows := afterRecording_grows s n rel
  have hplain := hn.reader.sound.isPlainQuery
  have hleft : leftmost n = some n := leftmost_eq (by simp [isSetOperation, hn.reader.sound.kind, Kind.isSetOperation])
  have hdeclared : declaredFields rel n = rel.fields := by
    refine declaredFields_eq fun m hm => ?_
    obtain rfl : n = m := by simpa [hleft] using hm
    exact hn.reader.sound.declaredNames hn.reader.columns hnames
  have hown : n.aliasOf? = none := aliasOf?_of_plainQuery hplain
  refine ⟨hgrows, ?_⟩
  by_cases hseveral : ∃ a b rest, aliases = some (a :: b :: rest)
  · -- several inputs are kept, and the query gets a name beside theirs
    obtain ⟨a, b, rest, rfl⟩ := hseveral
    obtain ⟨-, hinputs, hfits⟩ := haliases _ rfl
    have hnew : NewName s₀.usedNames (afterRecording s n rel).usedNames (givenName s.usedNames n) :=
      newName_givenName hs n (by simp [hown])
    have hnone : OrderedMap.has (a :: b :: rest) (givenName s.usedNames n) = false := by
      refine OrderedMap.has_eq_false fun i hi heq => ?_
      have htaken := (hinputs i hi).2.taken
      rw [heq, givenName, UsedNames.has_unique] at htaken
      cases htaken
    refine ⟨?_, .inr (.inr ⟨hplain, hn.reader.sound.isClosed, hn.reader.columns,
      ⟨_, hnew, rfl, .inr ⟨by simp [recorded], hnone⟩⟩, ?_, ?_, ?_⟩), ?_, hn.unordered, hn.sorted⟩
    · simpa using hdeclared
    · exact fun i hi => (hinputs i hi).2.grow hgrows
    · exact fun hkind => absurd hn.reader.sound.kind hkind
    · intro _
      exact ⟨F, hn.reader.sound, hn.reader.inUse, fun hlist => (hfits hlist).grow hgrows⟩
    · exact fun i hi => (hinputs i hi).1
  · -- otherwise the query is its own input
    have hrecorded : recorded n clauses rel aliases (givenName s.usedNames n)
        = recorded n clauses rel none (givenName s.usedNames n) := by
      rcases aliases with _ | (_ | ⟨a, _ | ⟨b, rest⟩⟩)
      · rfl
      · rfl
      · rfl
      · exact absurd ⟨a, b, rest, rfl⟩ hseveral
    rw [hrecorded]
    have haliases' : (recorded n clauses rel none (givenName s.usedNames n)).aliases
        = [(givenName s.usedNames n, rel.fields)] := by simp [hdeclared]
    refine ⟨by simpa using hdeclared, .inr (.inr ?_), ?_, by simpa using hn.unordered,
      by simpa using hn.sorted⟩
    · refine soundQuery_single hs hplain hn.reader.sound.isClosed hn.reader.columns hdeclared
        (fun _ => ⟨F, hn.reader.sound, hn.reader.inUse⟩) (by simp) (by simpa using hdeclared) ?_
        (by simp)
      simp [recorded, hown]
    · intro i hi
      rw [haliases'] at hi
      obtain rfl : i = _ := by simpa using hi
      exact hnames.1

/-- **`result`** — a builder whose query was extended over the same frame gives a sound result. -/
theorem SoundBuilder.result (henv : env.NeverQualifies) {s₀ : State} (hs : Grows s₀ s) {input : Rel}
    {F : Sql.Frame} {b b' : Builder}
    (hb : SoundBuilder schema env s₀.usedNames s.usedNames input F b) {s' : State}
    (h : (b'.result env).Gives s r s') (hrel : b'.rel = rel) (haliases : b'.aliases = b.aliases)
    (hsound : SoundSelect schema s₀.usedNames F b'.select)
    (hcolumns : b'.select.columns schema = rel.fields.names)
    (hlist : b'.select.selectList? = none → b.select.selectList? = none)
    (hunordered : isSort rel = false → Unordered b'.select)
    (hsorted : isSort rel = true → Clause.offset ∈ b'.clauses) (hnames : NamesColumns rel) :
    Grows s s' ∧ SoundResult schema s₀.usedNames s'.usedNames rel r := by
  unfold Builder.result at h
  rw [hrel, haliases] at h
  obtain ⟨inputs, hinputs, hne, hnew, hfits⟩ := hb.inputs
  refine Recordable.soundResult henv hs
    ⟨⟨hsound, hb.reader.inUse.grow (afterRecording_grows s _ rel), hcolumns⟩, hunordered, hsorted⟩
    hnames (fun other hother => ?_) h
  obtain rfl : inputs = other := by simpa [hinputs] using hother
  exact ⟨hne, hnew, fun h => hfits (hlist h)⟩

end AlgebraSql.Convert
