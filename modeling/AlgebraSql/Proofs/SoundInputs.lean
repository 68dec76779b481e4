import AlgebraSql.Proofs.SoundOperators

/-!
# Leaves and joins, reference by reference — operators on no input or on several keep the invariant.

A table and constant rows are read under a new name.  A join reads both of its inputs under the names
that they need, which differ, so its condition finds every field.  A semi join tests the right input
in a query of its own, inside the query for the left one.
-/

namespace AlgebraSql.Convert

open Sql Node

variable {schema : Schema} {env : Env} {k : PlanCheck} {sub : Rel → ConvertM Node}
  {s₀ s s' : State}

/-! ## Items -/

/-- A FROM item that is recorded is sound, if it can be renamed where its own name is taken. -/
theorem soundResult_item {n : Node} {own : String} {rel : Rel} {clauses : List Clause}
    (hown : n.aliasOf? = some own) (hne : own ≠ "") (hclosed : ∀ sc, n.resolves schema sc = true)
    (hreadable : isReadable n = true) (hframe : n.frame schema = [(own, rel.fields.names)])
    (hdeclared : declaredFields rel n = rel.fields) (hnodup : rel.fields.names.Nodup)
    (hunordered : Unordered n) (hsort : isSort rel = false)
    (hrenamed : givenName s.usedNames n ≠ own → ∃ item,
      n.asFromItem (givenName s.usedNames n) = .ok item ∧ isReadable item = true
        ∧ item.frame schema = [(givenName s.usedNames n, rel.fields.names)]
        ∧ ∀ sc, item.resolves schema sc = true) :
    SoundResult schema s.usedNames (afterRecording s n rel).usedNames rel
      (recorded n clauses rel none (givenName s.usedNames n)) := by
  have hnew : NewName s.usedNames (afterRecording s n rel).usedNames (givenName s.usedNames n) :=
    newName_givenName (.refl s) n fun other hother => by
      obtain rfl : own = other := by simpa [hown] using hother
      exact hne
  have hname : givenName s.usedNames n = s.usedNames.unique own := by
    simp only [givenName, hown, Option.getD_some]
  have htaken : (afterRecording s n rel).usedNames.has own = true := by
    rcases UsedNames.unique_eq s.usedNames own with ⟨-, hsame⟩ | ⟨hused, -⟩
    · have := hnew.taken
      rwa [hname, hsame] at this
    · exact UsedNames.has_record_of_has _ hused
  generalize givenName s.usedNames n = name at hnew hrenamed
  refine ⟨by simpa using hdeclared, .inl ?_, ?_, fun _ => by simpa using hunordered, ?_⟩
  · refine ⟨by simpa using hclosed, by simpa using hreadable, ⟨own, by simpa using hframe, htaken⟩,
      name, hnew, by simp, ?_⟩
    by_cases hsame : name = own
    · -- the item keeps its own name
      have hneeded : (recorded n clauses rel none name).neededAlias = none := by
        simp [recorded, hown, hsame]
      refine ⟨.inl hneeded, n, ?_, hreadable, by rw [hframe, hsame], hclosed⟩
      simp only [Result.asFrom, hneeded, recorded_node]
    · -- the name is taken, so the item gets another one
      have hneeded : (recorded n clauses rel none name).neededAlias = some name := by
        simp [recorded, hown, Ne.symm hsame]
      obtain ⟨item, hitem, hrest⟩ := hrenamed hsame
      refine ⟨.inr hneeded, item, ?_, hrest⟩
      simpa only [Result.asFrom, hneeded, recorded_node] using hitem
  · intro input hinput
    obtain rfl : input = (name, declaredFields rel n) := by simpa using hinput
    simpa [hdeclared] using hnodup
  · intro h
    rw [hsort] at h
    cases h

/-! ## Tables -/

/-- **`tableName`** — the name under which SQL looks for the table of a path: up to three parts stand as they are, of
more parts those in front of the last two are joined by dots.  Empty parts are left out. -/
def tableName (path : List String) : List String :=
  let outer := path.length - 2
  (if path.length ≤ 3 then path else ".".intercalate (path.take outer) :: path.drop outer).filter (· != "")

theorem parts_tableIn (name : String) (db catalog : Option String) :
    (Node.table?.tableIn name db catalog).parts = [catalog.getD "", db.getD "", name].filter (· != "") := by
  unfold parts
  cases db <;> cases catalog <;> simp [text, Node.table?.tableIn, Node.table?.identifier, kept, innerText, arg?, args]

/-- The table that is written for a path has the name of its table. -/
theorem parts_table? {path : List String} {t : Node} (h : Node.table? path = .ok t) : t.parts = tableName path := by
  unfold Node.table? at h
  have hpath : path = path.reverse.reverse := path.reverse_reverse.symm
  generalize path.reverse = names at h hpath
  subst hpath
  match names, h with
  | [name], h | [name, db], h | [name, db, catalog], h =>
    cases h
    rw [parts_tableIn]
    simp [tableName]
  | name :: db :: inner :: outer :: rest, h =>
    cases h
    have hsplit : (name :: db :: inner :: outer :: rest).reverse = (inner :: outer :: rest).reverse ++ [db, name] := by simp
    have hlong : ¬ (name :: db :: inner :: outer :: rest).reverse.length ≤ 3 := by simp
    have hlength : (name :: db :: inner :: outer :: rest).reverse.length - 2 = (inner :: outer :: rest).reverse.length := by
      simp
    rw [parts_tableIn, tableName]
    rw [if_neg hlong, hlength, hsplit, List.take_left, List.drop_left]
    rfl

/-- The columns that a database gives to the table of a path. -/
def tableColumns (schema : Schema) (path : List String) : List String := schema (tableName path)

/-- Nothing in a table looks anything up or is sorted. -/
theorem table?_closed {path : List String} {table : Node} (h : Node.table? path = .ok table) :
    (∀ sc, table.resolves schema sc = true) ∧ Unordered table := by
  have hidentifier : ∀ name sc, (Node.table?.identifier name).resolves schema sc = true :=
    fun name sc => by simp (disch := decide) [Node.table?.identifier]
  have htable : ∀ name db catalog, (∀ sc, (Node.table?.tableIn name db catalog).resolves schema sc = true)
      ∧ Unordered (Node.table?.tableIn name db catalog) := by
    intro name db catalog
    refine ⟨fun sc => ?_, fun p hp => ?_⟩
    · cases db <;> cases catalog <;>
        simp (disch := decide) [Node.table?.tableIn, hidentifier]
    · cases db <;> cases catalog <;>
        simp only [Node.table?.tableIn, args_mk, Option.map_some, Option.map_none, kept, List.mem_cons,
          List.not_mem_nil, or_false] at hp <;>
        rcases hp with rfl | rfl | rfl <;> simp
  unfold Node.table? at h
  split at h <;> cases h
  all_goals exact htable _ _ _

theorem parts_set_alias (n : Node) (a : Arg) : (n.set "alias" (some a)).parts = n.parts := by
  unfold parts
  congr 1
  refine List.map_congr_left fun key hkey => ?_
  have hne : "alias" ≠ key := by
    rintro rfl
    simp at hkey
  unfold text
  rw [arg?_set_of_ne n a hne]

/-- A table under another name exposes the columns of the table. -/
theorem frame_renamed {n : Node} (hn : n.kind = .table) {name : String} (hne : name ≠ "") :
    (n.set "alias" (some (.node (tableAlias name)))).frame schema = [(name, schema n.parts)] := by
  have halias := aliasOf?_set (n := n) (by simp [isFromItem, hn]) hne []
  rw [frame_table (by simpa using hn), parts_set_alias, outputName, halias]
  rfl

/-- **A table** is a sound result. -/
theorem soundScan (henv : env.NeverQualifies) {path : List String} {fields : RowType} {r : Result}
    (hpath : path ≠ []) (hparts : ∀ part ∈ path, part ≠ "")
    (hcolumns : tableColumns schema path = fields.names) (hnodup : fields.names.Nodup)
    (h : (scanResult env path (.scan path fields)).Gives s r s') :
    Grows s s' ∧ SoundResult schema s.usedNames s'.usedNames (.scan path fields) r := by
  obtain ⟨table, own, htable, hkind, hown, haliases, hmem⟩ := table?_traits hpath
  have hne := hparts own hmem
  simp only [scanResult, ConvertM.gives_bind, ConvertM.gives_lift] at h
  obtain ⟨n, t, ⟨hn, rfl⟩, h⟩ := h
  obtain rfl : table = n := by simpa [htable] using hn
  rw [ConvertM.gives_makeResult henv] at h
  obtain ⟨rfl, rfl⟩ := h
  obtain ⟨hclosed, hunordered⟩ : (∀ sc, table.resolves schema sc = true) ∧ Unordered table :=
    table?_closed htable
  have hschema : schema table.parts = fields.names := by
    rw [← hcolumns, tableColumns, parts_table? htable]
  have hframe : table.frame schema = [(own, fields.names)] := by
    rw [frame_table hkind, outputName, hown, hschema]
    rfl
  refine ⟨afterRecording_grows s table _, soundResult_item hown hne hclosed
    (by simp [isReadable_iff, hkind]) hframe (declaredFields_table hkind haliases) hnodup hunordered rfl
    fun hsame => ?_⟩
  have hname : givenName s.usedNames table ≠ "" := by
    simp only [givenName, hown, Option.getD_some] at hsame ⊢
    exact UsedNames.unique_ne_empty hsame
  have hitem : table.asFromItem (givenName s.usedNames table)
      = .ok (table.set "alias" (some (.node (tableAlias (givenName s.usedNames table))))) := by
    simp [asFromItem, isFromItem, hkind, haliases]
  refine ⟨_, hitem, by simp [isReadable_iff, hkind], ?_, ?_⟩
  · rw [frame_renamed hkind hname, hschema]
    rfl
  · intro sc
    refine resolves_set (by rw [hkind]; rfl) (hclosed sc) ?_
    simp

/-! ## Constant rows -/

/-- `VALUES rows AS name (columns)` -/
def valuesItem (name : String) (columns : List String) (rows : List Node) : Node :=
  .mk .values [("expressions", .nodes rows), ("alias", .node (tableAlias name columns))]

theorem aliasColumns_valuesItem (name : String) (columns : List String) (rows : List Node) :
    (valuesItem name columns rows).aliasColumns = columns := by
  cases columns with
  | nil => simp [valuesItem, aliasColumns, child?, tableAlias, list, list?]
  | cons first rest =>
    have hnames : (Node.name ∘ fun s => identifier s) = id := by
      funext s
      simp
    simp [valuesItem, aliasColumns, child?, tableAlias, list, list?, hnames]

theorem aliasOf?_valuesItem {name : String} (hne : name ≠ "") (columns : List String)
    (rows : List Node) : (valuesItem name columns rows).aliasOf? = some name := by
  simp [valuesItem, aliasOf?, isFromItem, aliasName, nameUnder, hne]

/-- Constant rows under a name expose the columns that they are given. -/
theorem frame_valuesItem {name : String} (hne : name ≠ "") (columns : List String)
    (rows : List Node) : (valuesItem name columns rows).frame schema = [(name, columns)] := by
  rw [frame_values rfl, outputName, aliasOf?_valuesItem hne, aliasColumns_valuesItem]
  rfl

theorem resolves_valuesItem (name : String) (columns : List String) {rows : List Node} {sc : Scope}
    (h : AllResolve schema sc rows) : (valuesItem name columns rows).resolves schema sc = true := by
  simp (disch := decide) [valuesItem, h]

/-- The columns of constant rows are those that they are given. -/
theorem declaredFields_valuesItem {rel : Rel} (name : String) (rows : List Node) :
    declaredFields rel (valuesItem name rel.fields.names rows) = rel.fields := by
  refine declaredFields_eq fun m hm => .inr ?_
  rw [leftmost_eq (by simp [isSetOperation, valuesItem, Kind.isSetOperation])] at hm
  obtain rfl : valuesItem name rel.fields.names rows = m := by simpa using hm
  have hselect : (valuesItem name rel.fields.names rows).is .select = false := rfl
  simp [declaredNames, hselect, aliasColumns_valuesItem]

theorem selectWhere_eq (item condition : Node) : Node.selectWhere item condition
    = (selectFrom item).set "where" (some (.node (wrap .where condition))) := by
  simp [Node.selectWhere, selectFrom, Node.set, OrderedMap.put]

/-- **Constant rows** are a sound result. -/
theorem soundValues (henv : env.Standard) {fields : RowType} {tuples : List (List Literal)}
    {r : Result} (hnames : NamesColumns (.values fields tuples))
    (h : (valuesResult env fields tuples (.values fields tuples)).Gives s r s') :
    Grows s s' ∧ SoundResult schema s.usedNames s'.usedNames (.values fields tuples) r := by
  simp only [valuesResult, ConvertM.gives_bind, ConvertM.gives_nextName, ConvertM.gives_lift,
    henv.aliasedValues, if_true] at h
  obtain ⟨name, s₁, ⟨hname, rfl⟩, n, s₂, ⟨hn, rfl⟩, h⟩ := h
  have hne : name ≠ "" := by
    rw [← hname]
    exact UsedNames.unique_ne_empty_of_ne (by decide)
  unfold aliasedValues at hn
  split at hn
  · -- no rows are one row of nulls that is filtered out
    simp only [pure_eq_ok_iff] at hn
    subst hn
    let nulls := fields.map fun f => typedNull env.dialect f.type
    let item := valuesItem name fields.names [Node.tuple nulls]
    have hnulls : ∀ sc, AllResolve schema sc nulls := by
      intro sc m hm
      obtain ⟨f, -, rfl⟩ := List.mem_map.mp hm
      exact resolves_typedNull _ _
    have hitem : Closed schema s.usedNames item := fun sc _ =>
      resolves_valuesItem _ _ (by simpa using hnulls sc)
    have hfrom := SoundSelect.selectFrom hitem
    rw [frame_valuesItem hne] at hfrom
    have hcondition : Open schema s.usedNames [(name, fields.names)] Node.alwaysFalse :=
      fun outer items _ => by simp (disch := decide) [Node.alwaysFalse, binary]
    have hkey : "where" ∈ clauseKeys := by simp [clauseKeys]
    have hwhere : Open schema s.usedNames [(name, fields.names)] (wrap .where Node.alwaysFalse) :=
      hcondition.wrap rfl
    have hselect := hfrom.put hkey hwhere rfl
    have hcolumns := columns_put hfrom hkey hwhere rfl
    rw [← selectWhere_eq] at hselect hcolumns
    refine Recordable.soundResult henv.toNeverQualifies (.refl s) ⟨⟨hselect, ?_, ?_⟩, fun _ => ?_,
      fun hsort => by cases hsort⟩ hnames (fun inputs hinputs => by cases hinputs) h
    · intro i hi _
      obtain rfl : i = (name, fields.names) := by simpa using hi
      have hgiven : givenName s.usedNames (Node.selectWhere item Node.alwaysFalse) = name := by
        rw [givenName, aliasOf?_of_plainQuery hselect.isPlainQuery]
        exact hname
      rw [afterRecording]
      simpa only [item, nulls, hgiven] using UsedNames.has_record_self s.usedNames name
    · rw [hcolumns, columns_selectFrom, frame_valuesItem hne, Frame.columns_single]
      rfl
    · rw [selectWhere_eq]
      exact (SoundSelect.unordered_selectFrom _).set (by decide) _
  · simp only [bind_eq_ok_iff, pure_eq_ok_iff] at hn
    obtain ⟨rows, hrows, rfl⟩ := hn
    rw [ConvertM.gives_makeResult henv.toNeverQualifies] at h
    obtain ⟨rfl, rfl⟩ := h
    have hall : ∀ sc, AllResolve schema sc rows := fun sc => forall_of_mapM hrows fun t _ row hrow => by
      simp only [bind_eq_ok_iff, pure_eq_ok_iff] at hrow
      obtain ⟨ns, hns, rfl⟩ := hrow
      simpa using allResolve_literalNodes _ _ hns
    refine ⟨afterRecording_grows s _ _, soundResult_item (n := valuesItem name fields.names rows)
      (aliasOf?_valuesItem hne _ _) hne (fun sc => resolves_valuesItem _ _ (hall sc)) ?_
      (frame_valuesItem hne _ _) (declaredFields_valuesItem name rows)
      hnames.1 ?_ rfl fun hsame => absurd ?_ hsame⟩
    · simp [isReadable_iff, valuesItem, hasAlias, child?]
    · intro p hp
      simp only [valuesItem, args_mk, List.mem_cons, List.not_mem_nil, or_false] at hp
      rcases hp with rfl | rfl <;> simp
    · -- the name was free, so it stays
      rw [givenName, aliasOf?_valuesItem hne, Option.getD_some]
      refine UsedNames.unique_of_free ?_
      rw [← hname]
      exact UsedNames.has_unique _ _

/-! ## Inputs of a join -/

theorem NewName.ungrow {used' : UsedNames} {name : String} (h : NewName s.usedNames used' name)
    (hs : Grows s₀ s) : NewName s₀.usedNames used' name where
  nonempty := h.nonempty
  free := by
    by_contra hhas
    have := hs name (by simpa using hhas)
    rw [h.free] at this
    cases this
  taken := h.taken

/-- An input of a join is read under the name that it needs, which is the only one of its inputs. -/
theorem SoundResult.resetAlias_asFrom {used : UsedNames} {rel : Rel} {r : Result}
    {t : State} (hr : SoundResult schema used t.usedNames rel r) {item : Node}
    (h : r.resetAlias.asFrom = .ok item) :
    ∃ name, FromItem schema used t.usedNames rel name item
      ∧ r.resetAlias.aliases = [(name, rel.fields)] ∧ r.resetAlias.joinAliases = [(name, rel.fields)] := by
  have hsame : r.resetAlias.asFrom = r.asFrom := by
    unfold Result.resetAlias Result.asFrom
    cases hneeded : r.neededAlias <;> simp [hneeded]
  rw [hsame] at h
  obtain ⟨name, hfrom, hread⟩ := hr.asFrom h
  refine ⟨name, hfrom, ?_⟩
  rw [← hr.fields]
  unfold Result.resetAlias Result.joinAliases
  rcases hread with ⟨haliases, hneeded | hneeded⟩ | ⟨hneeded, -⟩ <;> simp [*]

/-- The two inputs of a join, read under names of their own. -/
structure Sides (schema : Schema) (s₀ s₁ s₂ : State) (left right : Rel) (a b : String)
    (l r : Node) : Prop where
  left : FromItem schema s₀.usedNames s₁.usedNames left a l
  right : FromItem schema s₁.usedNames s₂.usedNames right b r
  growsLeft : Grows s₀ s₁
  growsRight : Grows s₁ s₂

namespace Sides

variable {s₁ s₂ : State} {left right : Rel} {a b : String} {l r : Node}

theorem ne (h : Sides schema s₀ s₁ s₂ left right a b l r) : a ≠ b := by
  rintro rfl
  have := h.left.new.taken
  rw [h.right.new.free] at this
  cases this

/-- The fields of a join resolve wherever both sides are visible, whichever stands first. -/
theorem readsAt (h : Sides schema s₀ s₁ s₂ left right a b l r) (hmap : env.fieldMap = [])
    (hleft : left.fields.names.Nodup) (hright : right.fields.names.Nodup) {sc : Scope}
    {outer : Sql.Frame} (huse : InUse s₀.usedNames outer)
    (hvisible : sc.visible.Perm ((a, left.fields.names) :: (b, right.fields.names) :: outer)) :
    (Context.join (.aliases [(a, left.fields)] true) (.aliases [(b, right.fields)] true)).ReadsAt env
      schema sc := by
  have houtera := h.left.new.filter_outer huse
  have houterb := (h.right.new.ungrow h.growsLeft).filter_outer huse
  refine readsAt_join hmap (fun input hinput => ?_) (fun input hinput => ?_)
  · obtain rfl : input = (a, left.fields) := by simpa using hinput
    refine ⟨List.perm_singleton.mp ((hvisible.filter _).trans ?_), hleft⟩
    simp [houtera, h.ne.symm]
  · obtain rfl : input = (b, right.fields) := by simpa using hinput
    refine ⟨List.perm_singleton.mp ((hvisible.filter _).trans ?_), hright⟩
    simp [houterb, h.ne]

/-- Both names are in use after the inputs have been converted. -/
theorem inUse (h : Sides schema s₀ s₁ s₂ left right a b l r) :
    s₂.usedNames.has a = true ∧ s₂.usedNames.has b = true :=
  ⟨h.growsRight a h.left.new.taken, h.right.new.taken⟩

/-- What the conversion of a condition over both sides gives resolves where they are visible. -/
theorem condition_resolves (h : Sides schema s₀ s₁ s₂ left right a b l r) (hmap : env.fieldMap = [])
    (hsetting : Setting k schema sub) (hleft : left.fields.names.Nodup)
    (hright : right.fields.names.Nodup) {condition : Expr} (hcondition : condition.satisfies k true = true)
    {on : Node} (hs : Grows s₂ s)
    (hon : (conditionNode env sub (.aliases [(a, left.fields)] true) (.aliases [(b, right.fields)] true)
      condition).Gives s on s') {sc : Scope} {outer : Sql.Frame} (huse : InUse s₀.usedNames outer)
    (hvisible : sc.visible.Perm ((a, left.fields.names) :: (b, right.fields.names) :: outer)) :
    on.resolves schema sc = true := by
  refine ((keeps_conditionNode hsetting _ _ condition hcondition) s on s' hon).2 sc
    (fun _ => h.readsAt hmap hleft hright huse hvisible) fun item hitem hne => ?_
  refine hs _ ?_
  rcases List.mem_cons.mp (hvisible.mem_iff.mp hitem) with rfl | hitem
  · exact h.inUse.1
  · rcases List.mem_cons.mp hitem with rfl | hitem
    · exact h.inUse.2
    · exact h.growsRight _ (h.growsLeft _ (huse item hitem hne))

end Sides

/-! ## Joins -/

/-- A join of two items resolves by itself if its condition resolves over both. -/
theorem Sides.join_closed {s₁ s₂ : State} {left right : Rel} {a b : String} {l r : Node}
    (h : Sides schema s₀ s₁ s₂ left right a b l r) (kind : String) {on : Option Node}
    (hon : ∀ n, on = some n → ∀ outer, InUse s₀.usedNames outer →
      n.resolves schema ⟨[(a, left.fields.names), (b, right.fields.names)], outer, []⟩ = true) :
    (joinNode l r kind on).frame schema = [(a, left.fields.names), (b, right.fields.names)]
      ∧ Closed schema s₀.usedNames (joinNode l r kind on) := by
  have hframe : (joinNode l r kind on).frame schema
      = [(a, left.fields.names), (b, right.fields.names)] := by
    rw [frame_join (l := l) (r := r) rfl (by simp [joinNode, child?])
      (by simp [joinNode, child?]), h.left.frame, h.right.frame]
    rfl
  refine ⟨hframe, fun sc huse => ?_⟩
  rw [resolves_iff]
  refine ⟨fun hcolumn => by simp [joinNode] at hcolumn, fun p hp c hc => ?_⟩
  have hscope : (joinNode l r kind on).innerScope schema sc p.1
      = joinScope [(a, left.fields.names), (b, right.fields.names)] sc p.1 := by
    rw [← hframe]
    rfl
  rw [hscope]
  simp only [joinNode, args_mk, List.mem_append, List.mem_cons, List.not_mem_nil, or_false] at hp
  rcases hp with (rfl | rfl | rfl) | hp
  · obtain rfl : c = l := by simpa using hc
    exact h.left.closed sc huse
  · obtain rfl : c = r := by simpa using hc
    exact h.right.closed sc (huse.grow h.growsLeft)
  · simp at hc
  · cases on with
    | none => simp [Node.optional] at hp
    | some n =>
      obtain rfl : p = ("on", .node n) := by simpa [Node.optional] using hp
      obtain rfl : c = n := by simpa using hc
      exact hon c rfl sc.outer fun item hitem => huse item (List.mem_append_right _ hitem)

/-- **A join** of sound results is a sound result. -/
theorem soundJoin (henv : env.Standard) (hsetting : Setting k schema sub) {s₁ s₂ : State}
    (hs₁ : Grows s₀ s₁) (hs₂ : Grows s₁ s₂) {left right : Rel} {condition : Expr} {type : JoinType}
    {correlations : List String} {x y r : Result}
    (hx : SoundResult schema s₀.usedNames s₁.usedNames left x)
    (hy : SoundResult schema s₁.usedNames s₂.usedNames right y) (hleft : left.fields.names.Nodup)
    (hright : right.fields.names.Nodup) (htype : type.keepsLeftOnly = false)
    (hdisjoint : ((RowType.names (left.fields ++ right.fields)).map Text.lower).Nodup)
    (hcondition : condition.satisfies k true = true)
    (h : (joinResult env sub condition type correlations
      (.join left right condition type correlations) x.resetAlias y.resetAlias).Gives s₂ r s') :
    Grows s₂ s' ∧ SoundResult schema s₀.usedNames s'.usedNames
      (.join left right condition type correlations) r := by
  let rel := Rel.join left right condition type correlations
  unfold joinResult at h
  simp only [ConvertM.gives_bind, ConvertM.gives_lift] at h
  obtain ⟨u, s₃, hregister, l, s₄, ⟨hl, rfl⟩, ritem, s₅, ⟨hr, rfl⟩, h⟩ := h
  have hregistered := registerCorrelations_grows hregister
  obtain ⟨a, hfroma, haliasesa, hjoina⟩ := hx.resetAlias_asFrom hl
  obtain ⟨b, hfromb, haliasesb, hjoinb⟩ := hy.resetAlias_asFrom hr
  have hsides : Sides schema s₀ s₁ s₂ left right a b l ritem := ⟨hfroma, hfromb, hs₁, hs₂⟩
  have hfields : rel.fields = left.fields ++ right.fields := by
    simp only [rel, Rel.fields, htype, Bool.false_eq_true, if_false]
    exact RowType.unique_of_nodup hdisjoint
  -- whichever way the condition is written, it resolves over both sides
  obtain ⟨kind, on, s₄, hgrows, hon, hmake⟩ : ∃ kind on s₄, Grows s₂ s₄
      ∧ (∀ n, on = some n → ∀ outer, InUse s₀.usedNames outer →
        n.resolves schema ⟨[(a, left.fields.names), (b, right.fields.names)], outer, []⟩ = true)
      ∧ (makeJoinResult env (joinNode l ritem kind on) x.resetAlias y.resetAlias rel).Gives s₄ r s' := by
    split at h
    · simp only [ConvertM.gives_bind, ConvertM.gives_pure] at h
      obtain ⟨join, s₄, ⟨rfl, rfl⟩, hmake⟩ := h
      exact ⟨_, _, _, hregistered, (fun n hn => by cases hn), hmake⟩
    · simp only [ConvertM.gives_bind, ConvertM.gives_pure, Result.qualifiedContext, haliasesa,
        haliasesb] at h
      obtain ⟨on, s₄, hon, join, s₅, ⟨rfl, rfl⟩, hmake⟩ := h
      have hgrows := ((keeps_conditionNode hsetting _ _ condition hcondition) _ _ _ hon).1
      refine ⟨_, _, _, hregistered.trans hgrows, fun n hn outer huse => ?_, hmake⟩
      obtain rfl : on = n := by simpa using hn
      exact hsides.condition_resolves henv.fieldMap hsetting hleft hright hcondition hregistered hon huse
        (.refl _)
  have hinputs : (OrderedMap.putAll [] x.resetAlias.joinAliases).putAll y.resetAlias.joinAliases
      = [(a, left.fields), (b, right.fields)] := by
    simp [hjoina, hjoinb, OrderedMap.putAll, OrderedMap.put, hsides.ne]
  unfold makeJoinResult at hmake
  rw [hinputs, ConvertM.gives_makeResult henv.toNeverQualifies] at hmake
  obtain ⟨rfl, rfl⟩ := hmake
  obtain ⟨hframe, hclosed⟩ := hsides.join_closed kind hon
  have hrecorded := hgrows.trans (afterRecording_grows s₄ (joinNode l ritem kind on) rel)
  have hdeclared : declaredFields rel (joinNode l ritem kind on) = rel.fields := by
    refine declaredFields_eq fun m hm => .inl ?_
    rw [leftmost_eq rfl] at hm
    obtain rfl : joinNode l ritem kind on = m := by simpa using hm
    cases on <;> simp [declaredNames, joinNode, aliasColumns, child?, Node.optional]
  have hnew : ∀ i ∈ [(a, left.fields), (b, right.fields)], i.2.names.Nodup
      ∧ NewName s₀.usedNames (afterRecording s₄ (joinNode l ritem kind on) rel).usedNames i.1 := by
    intro i hi
    rcases List.mem_pair.mp hi with rfl | rfl
    · exact ⟨hleft, (hfroma.new.grow hs₂).grow hrecorded⟩
    · exact ⟨hright, (hfromb.new.ungrow hs₁).grow hrecorded⟩
  refine ⟨hrecorded, by simpa using hdeclared, .inr (.inl ⟨by simp [joinNode], by simpa using hclosed, ?_,
    by simp [recorded], ?_, _, rfl⟩), fun i hi => (hnew i hi).1, fun _ => ?_, fun hsort => by cases hsort⟩
  · simp only [recorded_node, hframe]
    have hnodup : ([(a, left.fields), (b, right.fields)].map (·.1)).Nodup := by
      simpa using hsides.ne
    exact Fits.several (by simp) hnodup fun i hi => (hnew i hi).2
  · rw [recorded_node, hframe, hfields]
    simp [Frame.columns, RowType.names]
  · intro p hp
    cases on <;>
      simp only [recorded_node, joinNode, args_mk, Node.optional, List.append_nil, List.cons_append,
        List.nil_append, List.mem_cons, List.not_mem_nil, or_false] at hp
    · rcases hp with rfl | rfl | rfl <;> simp
    · rcases hp with rfl | rfl | rfl | rfl <;> simp

/-! ## Semi joins -/

/-- The test of a semi join resolves over the left side if its condition resolves over both. -/
theorem Sides.existence_resolves {s₁ s₂ : State} {left right : Rel} {a b : String} {l r on : Node}
    (h : Sides schema s₀ s₁ s₂ left right a b l r)
    (hon : ∀ outer, InUse s₀.usedNames outer → on.resolves schema
      ⟨[(b, right.fields.names)], (a, left.fields.names) :: outer, []⟩ = true) :
    Open schema s₀.usedNames [(a, left.fields.names)] (wrap .exists (existenceQuery r on)) := by
  intro outer items huse
  have hvisible : InUse s₁.usedNames ((a, left.fields.names) :: outer) := by
    intro item hitem hne
    rcases List.mem_cons.mp hitem with rfl | hitem
    · exact h.left.new.taken
    · exact h.growsLeft _ (huse item hitem hne)
  have hframe : (existenceQuery r on).frame schema = [(b, right.fields.names)] := by
    rw [frame_select (i := r) rfl (by simp [existenceQuery, child?]), h.right.frame]
  refine (resolves_wrap (by decide) _).mpr ((resolves_iff _ _).mpr ⟨fun hcolumn => ?_, fun p hp c hc => ?_⟩)
  · simp [existenceQuery] at hcolumn
  have hscope : (existenceQuery r on).innerScope schema ⟨[(a, left.fields.names)], outer, items⟩ p.1
      = selectScope [(b, right.fields.names)] (existenceQuery r on).selectList?
        ⟨[(a, left.fields.names)], outer, items⟩ p.1 := by
    rw [← hframe]
    rfl
  rw [hscope]
  simp only [existenceQuery, args_mk, List.mem_cons, List.not_mem_nil, or_false] at hp
  rcases hp with rfl | rfl | rfl
  · obtain rfl : c = Node.number "1" := by simpa using hc
    exact resolves_number _
  · obtain rfl : c = wrap .from r := by simpa using hc
    exact (resolves_wrap (by decide) _).mpr (h.right.closed _ hvisible)
  · obtain rfl : c = wrap .where on := by simpa using hc
    exact (resolves_wrap (by decide) _).mpr (hon outer huse)

/-- The query for the left input of a semi join. -/
def leftQuery (env : Env) (left : Result) : ConvertM Node :=
  if left.neededAlias.isNone then left.asSelect env else left.subSelect env

/-- The test of a semi join, together with the condition that the query has. -/
def partnerTest (type : JoinType) (select test : Node) : Node :=
  let test := if type == .anti then Node.not test else test
  match select.condition? "where" with
  | some existing => Node.and [existing, test]
  | none => test

/-- A semi join filters the query for its left input. -/
theorem semiJoinResult_eq (env : Env) (sub : Rel → ConvertM Node) (condition : Expr) (type : JoinType)
    (correlations : List String) (rel : Rel) (left right : Result) :
    semiJoinResult env sub condition type correlations rel left right = (do
      registerCorrelations correlations left.aliases
      let on ← conditionNode env sub left.qualifiedContext right.qualifiedContext condition
      let select ← leftQuery env left
      let item ← (right.asFrom : Except Error Node)
      let test := partnerTest type select (wrap .exists (existenceQuery item on))
      makeResult env (select.set "where" (some (.node (wrap .where test)))) [.from, .where] rel none) := by
  unfold semiJoinResult leftQuery
  refine bind_congr fun _ => bind_congr fun on => ?_
  cases left.neededAlias <;> rfl

/-- A semi join reads its left input as a FROM item. -/
theorem gives_leftQuery (henv : env.NeverQualifies) {left : Result} {m : Node}
    (h : (leftQuery env left).Gives s m s') : ∃ item, left.asFrom = .ok item
      ∧ (isReadable item = true → m = selectFrom item ∧ s' = s) := by
  unfold leftQuery at h
  split at h
  · rename_i hneeded
    have hnone : left.neededAlias = none := by simpa using hneeded
    refine ⟨left.node, by simp [Result.asFrom, hnone], fun hreadable => ?_⟩
    have hkind : left.node.kind ≠ .select := by
      intro hk
      simp [isReadable, hk] at hreadable
    rwa [ConvertM.gives_asSelect_of_ne_select henv hkind,
      ConvertM.gives_wrapSelect_of_readable henv hreadable] at h
  · have hfrom : ∃ item, left.asFrom = .ok item := by
      unfold Result.subSelect at h
      obtain ⟨item, t, hitem, -⟩ := (ConvertM.gives_bind _ _ _ _ _).mp h
      exact ⟨item, ((ConvertM.gives_lift _ _ _ _).mp hitem).1⟩
    obtain ⟨item, hitem⟩ := hfrom
    refine ⟨item, hitem, fun hreadable => ?_⟩
    rwa [ConvertM.gives_subSelect hitem, ConvertM.gives_wrapSelect_of_readable henv hreadable] at h

/-- **A semi join** of sound results is a sound result. -/
theorem soundSemiJoin (henv : env.Standard) (hsetting : Setting k schema sub) {s₁ s₂ : State}
    (hs₁ : Grows s₀ s₁) (hs₂ : Grows s₁ s₂) {left right : Rel} {condition : Expr} {type : JoinType}
    {correlations : List String} {x y r : Result}
    (hx : SoundResult schema s₀.usedNames s₁.usedNames left x)
    (hy : SoundResult schema s₁.usedNames s₂.usedNames right y) (hleft : NamesColumns left)
    (hright : right.fields.names.Nodup) (htype : type.keepsLeftOnly = true)
    (hcondition : condition.satisfies k true = true)
    (h : (semiJoinResult env sub condition type correlations
      (.join left right condition type correlations) x.resetAlias y.resetAlias).Gives s₂ r s') :
    Grows s₂ s' ∧ SoundResult schema s₀.usedNames s'.usedNames
      (.join left right condition type correlations) r := by
  let rel := Rel.join left right condition type correlations
  have hfields : rel.fields = left.fields := by simp [rel, Rel.fields, htype]
  rw [semiJoinResult_eq] at h
  simp only [ConvertM.gives_bind, ConvertM.gives_lift] at h
  obtain ⟨u, s₃, hregister, on, s₄, hon, m, s₅, hm, ritem, s₆, ⟨hr, rfl⟩, hmake⟩ := h
  have hregistered := registerCorrelations_grows hregister
  obtain ⟨l, hl, hm⟩ := gives_leftQuery henv.toNeverQualifies hm
  obtain ⟨a, hfroma, haliasesa, -⟩ := hx.resetAlias_asFrom hl
  obtain ⟨b, hfromb, haliasesb, -⟩ := hy.resetAlias_asFrom hr
  obtain ⟨rfl, rfl⟩ := hm hfroma.readable
  have hsides : Sides schema s₀ s₁ s₂ left right a b l ritem := ⟨hfroma, hfromb, hs₁, hs₂⟩
  simp only [Result.qualifiedContext, haliasesa, haliasesb] at hon
  have hconverted := ((keeps_conditionNode hsetting _ _ condition hcondition) _ _ _ hon).1
  have hgrows := hregistered.trans hconverted
  have hexists := hsides.existence_resolves fun outer huse =>
    hsides.condition_resolves henv.fieldMap hsetting hleft.1 hright hcondition hregistered hon huse
      (List.Perm.swap _ _ _)
  -- the query for the left input has no condition yet, so the test is its whole condition
  have htest : Open schema s₀.usedNames [(a, left.fields.names)]
      (partnerTest type (selectFrom l) (wrap .exists (existenceQuery ritem on))) := by
    have hnone : (selectFrom l).condition? "where" = none := by
      simp [condition?, selectFrom, child?]
    unfold partnerTest
    rw [hnone]
    split
    · intro outer items huse
      simpa (disch := decide) [Node.not] using hexists outer items huse
    · exact hexists
  have hfrom := SoundSelect.selectFrom hfroma.closed
  rw [hfroma.frame] at hfrom
  have hkey : "where" ∈ clauseKeys := by simp [clauseKeys]
  have hwhere : Open schema s₀.usedNames [(a, left.fields.names)] (wrap .where
      (partnerTest type (selectFrom l) (wrap .exists (existenceQuery ritem on)))) := htest.wrap rfl
  refine (And.imp_left fun hrecorded => hgrows.trans hrecorded)
    (Recordable.soundResult henv.toNeverQualifies ((hs₁.trans hs₂).trans hgrows)
      ⟨⟨hfrom.put hkey hwhere rfl, ?_, ?_⟩, fun _ => (SoundSelect.unordered_selectFrom _).set (by decide) _,
        fun hsort => by cases hsort⟩ ⟨?_, ?_⟩ (fun inputs hinputs => by cases hinputs) hmake)
  · intro i hi _
    obtain rfl : i = (a, left.fields.names) := by simpa using hi
    exact afterRecording_grows _ _ _ _ (hgrows _ hsides.inUse.1)
  · rw [columns_put hfrom hkey hwhere rfl, columns_selectFrom, hfroma.frame, Frame.columns_single, hfields]
  · rw [hfields]
    exact hleft.1
  · rw [hfields]
    exact hleft.2

/-! ## Set operations -/

/-- Queries for several relations: all resolve by themselves, and the first one has the columns of
its relation. -/
structure SoundSelects (schema : Schema) (used : UsedNames) (inputs : List Rel) (ns : List Node) :
    Prop where
  length : ns.length = inputs.length
  closed : ∀ n ∈ ns, Closed schema used n
  first : ∀ n rest, ns = n :: rest → ∃ rel rels F, inputs = rel :: rels
    ∧ SoundSelect schema used F n ∧ n.columns schema = rel.fields.names

theorem Closed.ungrow {n : Node} (h : Closed schema s.usedNames n) (hs : Grows s₀ s) :
    Closed schema s₀.usedNames n := fun sc huse => h sc (huse.grow hs)

theorem soundSelects_cons (henv : env.NeverQualifies) {s₁ s₂ : State} {rel : Rel} {rels : List Rel}
    {x : Result} {n : Node} {ns : List Node} (hs : Grows s₀ s₁)
    (hx : SoundResult schema s₀.usedNames s₁.usedNames rel x) (h : (x.asSelect env).Gives s₁ n s₂)
    (hns : SoundSelects schema s₂.usedNames rels ns) :
    SoundSelects schema s₀.usedNames (rel :: rels) (n :: ns) := by
  obtain ⟨hgrows, F, hreader, -, -⟩ := hx.asSelect henv (.refl s₁) h
  refine ⟨by simp [hns.length], fun m hm => ?_, fun m rest hlist => ?_⟩
  · rcases List.mem_cons.mp hm with rfl | hm
    · exact hreader.sound.isClosed
    · exact (hns.closed m hm).ungrow (hs.trans hgrows)
  · obtain ⟨rfl, -⟩ := List.cons_eq_cons.mp hlist
    exact ⟨rel, rels, F, rfl, hreader.sound, hreader.columns⟩

theorem setKind_traits (op : SetOperator) : (setKind op).isSetOperation = true
    ∧ isNeutral (setKind op) = true ∧ setKind op ∈ [Kind.union, .intersect, .except]
    ∧ setKind op ≠ .select := by
  cases op <;> decide

/-- Set operations from left to right resolve by themselves and have the columns of the first
query. -/
theorem setOperations_traits (op : SetOperator) (distinct : Bool) {used : UsedNames} {ns : List Node}
    (hne : ns ≠ []) {n : Node} (hn : Closed schema used n) (hns : ∀ m ∈ ns, Closed schema used m) :
    let folded := ns.foldl (fun u m => Node.setOperation (setKind op) u m distinct) n
    isPlainQuery folded = true ∧ folded.kind ≠ .select ∧ Unordered folded
      ∧ Closed schema used folded ∧ folded.columns schema = n.columns schema := by
  obtain ⟨hset, hneutral, hmem, hselect⟩ := setKind_traits op
  have hstep : ∀ {u m : Node}, Closed schema used u → Closed schema used m →
      Closed schema used (Node.setOperation (setKind op) u m distinct) := fun hu hm sc huse => by
    simp [Node.setOperation, hneutral, hu sc huse, hm sc huse]
  have hcolumns : ∀ u m : Node, (Node.setOperation (setKind op) u m distinct).columns schema
      = u.columns schema := fun u m =>
    columns_setOperation hmem (by simp [Node.setOperation, child?])
  induction ns generalizing n with
  | nil => exact absurd rfl hne
  | cons m ns ih =>
    have hfirst := hstep hn (hns m (by simp))
    simp only [List.foldl_cons]
    cases ns with
    | nil =>
      refine ⟨?_, hselect, ?_, hfirst, hcolumns n m⟩
      · simp [isPlainQuery_iff, Node.setOperation, hset, hasAlias, child?]
      · intro p hp
        simp only [List.foldl_nil, Node.setOperation, args_mk, List.mem_cons, List.not_mem_nil,
          or_false] at hp
        rcases hp with rfl | rfl | rfl <;> simp
    | cons m' ns =>
      obtain ⟨hplain, hkind, hunordered, hclosed, hsame⟩ :=
        ih (by simp) hfirst fun m hm => hns m (by simp [List.mem_cons.mp hm])
      exact ⟨hplain, hkind, hunordered, hclosed, hsame.trans (hcolumns n m)⟩

/-- **A set operation** on sound queries is a sound result. -/
theorem soundSetOp (henv : env.Standard) {op : SetOperator} {all : Bool} {inputs : List Rel}
    {ns : List Node} {r : Result} (hs : Grows s₀ s) (hns : SoundSelects schema s₀.usedNames inputs ns)
    (hlength : 2 ≤ inputs.length) (hnames : NamesColumns (.setOp op all inputs))
    (h : (setOpResult env op all (.setOp op all inputs) ns).Gives s r s') :
    Grows s s' ∧ SoundResult schema s₀.usedNames s'.usedNames (.setOp op all inputs) r := by
  unfold setOpResult at h
  split at h
  · exact absurd h (ConvertM.gives_throw _ _ _ _)
  rename_i n rest
  simp only [ConvertM.gives_makeResult henv.toNeverQualifies] at h
  obtain ⟨rfl, rfl⟩ := h
  let rel := Rel.setOp op all inputs
  let folded := rest.foldl (fun u m => Node.setOperation (setKind op) u m !all) n
  have hrest : rest ≠ [] := by
    rintro rfl
    have := hns.length
    simp at this
    omega
  obtain ⟨first, others, F, rfl, hsound, hcolumns⟩ := hns.first n rest rfl
  obtain ⟨hplain, hkind, hunordered, hclosed, hsame⟩ := setOperations_traits op (!all) hrest
    (hns.closed n (by simp)) fun m hm => hns.closed m (by simp [hm])
  have hdeclared : declaredFields rel folded = rel.fields := by
    refine declaredFields_eq fun m hm => ?_
    have hleft : leftmost n = some n :=
      leftmost_eq (by simp [isSetOperation, hsound.kind, Kind.isSetOperation])
    simp only [folded, leftmost_foldl (setKind_traits op).1, hleft, Option.some.injEq] at hm
    subst hm
    exact hsound.declaredNames hcolumns hnames
  refine ⟨afterRecording_grows _ _ _, by simpa using hdeclared, .inr (.inr ?_), ?_, fun _ => ?_,
    fun hsort => by cases hsort⟩
  · exact soundQuery_single hs hplain hclosed (hsame.trans hcolumns) hdeclared
      (fun hselect => absurd hselect hkind) (by simp) (by simpa using hdeclared)
      (by simp [recorded, aliasOf?_of_plainQuery hplain]) (by simp [recorded])
  · intro i hi
    obtain rfl : i = (_, declaredFields rel folded) := by simpa using hi
    rw [hdeclared]
    exact hnames.1
  · simpa using hunordered

end AlgebraSql.Convert
