import AlgebraSql.Proofs.Stages

/-!
# Names of select items — what they stand for in GROUP BY.

A dialect may let GROUP BY name a select item.  Columns of FROM go first, so the select list decides
only about names that no column has.  A query under another select list has the same groups as long
as these names stand for the same items.
-/

namespace AlgebraSql.Sql.Node

/-! ## Names of select items -/

/-- The expression of a select item. -/
def expression? (item : Node) : Option Node := if item.is .aliased then item.this? else some item

/-- The expression of the select item at a position. -/
def itemAt? (q : Node) (k : Ordinal) : Option Node := (q.selectList?.bind (nth? · k)).bind expression?

/-- The item of a name in a select list, if one item only has the name. -/
def itemNamed? (q : Node) (name : String) : Option Node :=
  (Names.itemPlace? q.itemNames none name).bind fun i => (q.list "expressions")[i]?

/-- The expression under a name in a select list, if one item only has the name. -/
def named? (q : Node) (name : String) : Option Node := (q.itemNamed? name).bind expression?

/-- The SELECT that groups: the query itself or the one that it reads from. -/
def grouping (q : Node) : Node :=
  if (q.child? "group").isSome then q else (q.fromItem?.bind (·.this?)).getD q

/-- The place of the only element that passes a test. -/
theorem zipIdx_filter_of_countP {α : Type} {p : α → Bool} {as : List α} {i : Nat} {a : α}
    (hi : as[i]? = some a) (ha : p a = true) (hcount : as.countP p ≤ 1) (start : Nat) :
    ((as.zipIdx start).filter fun q => p q.1).map (·.2) = [start + i] := by
  induction as generalizing start i with
  | nil => cases hi
  | cons b as ih =>
    by_cases hb : p b = true
    · have hrest : as.countP p = 0 := by
        rw [List.countP_cons_of_pos hb] at hcount
        omega
      have hnone : ((as.zipIdx (start + 1)).filter fun q => p q.1) = [] := by
        rw [List.filter_eq_nil_iff]
        rintro ⟨c, j⟩ hmem
        exact List.countP_eq_zero.mp hrest c (List.fst_mem_of_mem_zipIdx hmem)
      have hzero : i = 0 := by
        cases i with
        | zero => rfl
        | succ i => exact absurd ha (List.countP_eq_zero.mp hrest a (List.mem_of_getElem? (by simpa using hi)))
      simp [List.zipIdx_cons, hnone, hzero, hb]
    · cases i with
      | zero =>
        obtain rfl : b = a := by simpa using hi
        exact absurd ha hb
      | succ i =>
        have hrest := ih (by simpa using hi) (by rwa [List.countP_cons_of_neg hb] at hcount) (start + 1)
        rw [List.zipIdx_cons, List.filter_cons_of_neg (p := fun q => p q.1) (a := (b, start)) hb, hrest, Nat.add_assoc, Nat.add_comm 1 i]

/-- The place of a name that only one item has. -/
theorem itemPlace?_of_count {items : List String} {name : String} {i : Nat} (h : items[i]? = some name)
    (hcount : items.count name ≤ 1) : Names.itemPlace? items none name = some i := by
  unfold Names.itemPlace?
  rw [zipIdx_filter_of_countP (p := (· == name)) h (by simp) hcount 0]
  simp

/-! ## Names in GROUP BY -/

variable {E : Engine} {db : Database} {F : Frame} {names : Names} {items : List String}
  {values : Nat → Option (Focus → Datum)}

/-- A name that a column of the frame has finds places. -/
theorem places_ne_nil {name : String} (h : name ∈ F.columns) : F.places none name ≠ [] := by
  have hcells : F.cells.map (·.2) = F.columns := by
    simp [Frame.cells, Frame.columns, List.map_flatMap, Function.comp_def]
  rw [← hcells] at h
  obtain ⟨cell, hcell, rfl⟩ := List.mem_map.mp h
  obtain ⟨i, hi⟩ := List.mem_iff_getElem?.mp hcell
  refine List.ne_nil_of_mem (a := i) (List.mem_map.mpr ⟨(cell, i), ?_, rfl⟩)
  exact List.mem_filter.mpr ⟨List.mk_mem_zipIdx_iff_getElem?.mpr hi, by simp⟩

/-- A name that no column of the frame has finds no place. -/
theorem places_eq_nil {name : String} (h : name ∉ F.columns) : F.places none name = [] := by
  have hcells : F.cells.map (·.2) = F.columns := by
    simp [Frame.cells, Frame.columns, List.map_flatMap, Function.comp_def]
  rw [Frame.places, List.map_eq_nil_iff, List.filter_eq_nil_iff]
  rintro ⟨cell, i⟩ hmem hname
  have hcell := List.fst_mem_of_mem_zipIdx hmem
  refine h ?_
  rw [← hcells]
  refine List.mem_map.mpr ⟨cell, hcell, ?_⟩
  simpa using hname

/-- Behind the columns of FROM, select items do not change what a column stands for. -/
theorem itemsBehind_of_mem {name : String} (h : name ∈ F.columns) :
    Names.itemsBehind F items values names none name = names none name := by
  simp [Names.itemsBehind, places_ne_nil h]

/-- A qualified name is none of a select item. -/
theorem itemsBehind_of_qualified (table name : String) :
    Names.itemsBehind F items values names (some table) name = names (some table) name := by
  unfold Names.itemsBehind
  split
  · rfl
  · rfl

/-- A name that no column of FROM has stands for the item of the name. -/
theorem itemsBehind_of_item {q item : Node} {name : String} (h : name ∉ F.columns)
    (hitem : q.itemNamed? name = some item) :
    Names.itemsBehind F q.itemNames (q.itemAt E db names) names none name
      = (item.scalar E db names).map fun v f => single (v f) := by
  obtain ⟨i, hplace, hi⟩ := Option.bind_eq_some_iff.mp hitem
  simp only [Names.itemsBehind, places_eq_nil h, if_true, Names.itemsFirst, hplace, itemAt, hi,
    Option.bind_some]

/-- A grouping item is a column that stands for the same in two queries over the same FROM clause. -/
def SameGroupItem (schema : Schema) (a n g : Node) : Prop :=
  g.kind = .column ∧ (g.qualifier? = none → g.name ∉ (a.frame schema).columns →
    ∃ item, a.itemNamed? g.name = some item ∧ n.itemNamed? g.name = some item)

/-- **The groups** of a query stay the same under another select list if the grouping items stand for
the same. -/
theorem groups_set_list {a : Node} {items gs : List Node} (hkind : a.kind = .select)
    (hgroup : a.child? "group" = some (Node.mk .group [("expressions", .nodes gs)]))
    (h : ∀ g ∈ gs, SameGroupItem db.schema a (a.set "expressions" (some (.nodes items))) g) :
    (a.set "expressions" (some (.nodes items))).groups E db = a.groups E db := by
  have hframe : (a.set "expressions" (some (.nodes items))).frame db.schema = a.frame db.schema :=
    frame_set hkind (by decide) _
  have hgroup' : (a.set "expressions" (some (.nodes items))).child? "group"
      = some (Node.mk .group [("expressions", .nodes gs)]) := by
    rw [child?_set_of_ne _ _ (by decide), hgroup]
  have hnames : fromNames db (a.set "expressions" (some (.nodes items))) Names.none
      = fromNames db a Names.none := by simp only [fromNames, hframe]
  have hcolumn : ∀ g ∈ gs, (g.scalar E db (groupNames E db (a.set "expressions" (some (.nodes items)))
      Names.none)) = g.scalar E db (groupNames E db a Names.none) := by
    intro g hg
    obtain ⟨hg, hsame⟩ := h g hg
    rw [scalar_of_column hg, scalar_of_column hg]
    congr 1
    unfold groupNames
    rw [hnames, hframe]
    split
    · cases hqualifier : g.qualifier? with
      | some table => rw [itemsBehind_of_qualified, itemsBehind_of_qualified]
      | none =>
        by_cases hmem : g.name ∈ (a.frame db.schema).columns
        · rw [itemsBehind_of_mem hmem, itemsBehind_of_mem hmem]
        · obtain ⟨item, ha, hn⟩ := hsame hqualifier hmem
          rw [itemsBehind_of_item hmem ha, itemsBehind_of_item hmem hn]
    · rfl
  have hkeys : (Node.mk .group [("expressions", .nodes gs)]).scalar E db
        (groupNames E db (a.set "expressions" (some (.nodes items))) Names.none)
      = (Node.mk .group [("expressions", .nodes gs)]).scalar E db (groupNames E db a Names.none) := by
    have hmanner : (Node.mk .group [("expressions", .nodes gs)]).manner = .operation := rfl
    have hchildren : (Node.mk .group [("expressions", .nodes gs)]).children = gs := by
      simp [children, Arg.children]
    rw [scalar_of_operation hmanner, scalar_of_operation hmanner, hchildren,
      List.map_congr_left hcolumn]
  rw [groups_eq, groups_eq]
  unfold groupingIn clause levelsOf
  rw [child?_set_of_ne _ _ (by decide), child?_set_of_ne _ _ (by decide), hnames, hgroup', hgroup]
  simp only [Option.bind_some, hkeys]

end AlgebraSql.Sql.Node
