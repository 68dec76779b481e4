import AlgebraSql.Proofs.ItemNames

/-!
# Rows of a SELECT — what its columns stand for, and what it returns.

A SELECT over one FROM item finds a column at its place in the row.  Without a select list it returns
all columns, so a star over a query changes nothing, and a condition in WHERE only leaves rows out.
-/

namespace AlgebraSql

/-! ## Rows of a width -/

/-- A row of a width. -/
def Row.pad (width : Nat) (row : Row) : Row := (List.range width).map fun i => row.getD i .null

@[simp]
theorem Row.length_pad (width : Nat) (row : Row) : (row.pad width).length = width := by simp [Row.pad]

theorem Row.getD_pad {width i : Nat} (row : Row) (hi : i < width) :
    (row.pad width).getD i .null = row.getD i .null := by
  simp [Row.pad, List.getD_eq_getElem?_getD, hi]

/-- A row of the right width stays as it is. -/
theorem Row.pad_of_length {width : Nat} {row : Row} (h : row.length = width) : row.pad width = row := by
  refine List.ext_getElem (by simp [h]) fun i hi hi' => ?_
  simp [Row.pad, List.getD_eq_getElem?_getD, hi']

namespace Sql

open Node

/-! ## Columns -/

/-- A name that one column of a FROM item has stands for the value at its place. -/
theorem within_single {own name : String} {columns : List String} {i : Nat} (outer : Names)
    (hi : columns[i]? = some name) (hcount : columns.count name ≤ 1) :
    Names.within [(own, columns)] outer Option.none name = some fun f => f.row.getD i .null := by
  have hplaces : Frame.places [(own, columns)] none name = [i] := by
    have hcells : Frame.cells [(own, columns)] = columns.map fun c => (own, c) := by simp [Frame.cells]
    unfold Frame.places
    rw [hcells]
    have hat : (columns.map fun c => (own, c))[i]? = some (own, name) := by simp [hi]
    have := zipIdx_filter_of_countP (p := fun c : String × String => c.2 == name && true) hat (by simp)
      (by simpa [List.countP_map, Function.comp_def, List.count_eq_countP] using hcount) 0
    simpa using this
  unfold Names.within
  rw [hplaces]

namespace Node

variable {E : Engine} {db : Database}

/-- A column without qualifier over one FROM item. -/
theorem scalar_column_single {own name : String} {columns : List String} {i : Nat} (outer : Names)
    (hi : columns[i]? = some name) (hcount : columns.count name ≤ 1) :
    (Node.column name).scalar E db (Names.within [(own, columns)] outer)
      = some fun f => [f.row.getD i .null] := by
  have hqualifier : (Node.column name).qualifier? = none := by simp [qualifier?, child?_column]
  rw [scalar_of_column rfl, name_column, hqualifier, within_single outer hi hcount]
  rfl

/-! ## Stages without some of the clauses -/

namespace Stages

/-- Nothing is done to the output of the groups. -/
structure Direct (st : Stages) : Prop where
  distinct : st.distinct = false
  order : st.order = none
  limit : st.limit = fun _ => none
  offset : st.offset = fun _ => none

variable {st : Stages} {outer : Focus}

/-- The rows of a query without ORDER BY and limits are the output of its groups. -/
theorem Direct.run_eq (h : st.Direct) :
    st.run E outer = (st.shown outer).map (·.2) := by
  simp [Stages.run, h.distinct, Stages.arranged, h.order, h.limit, h.offset, limited]

theorem mem_of_mem_firsts {α β : Type} [DecidableEq β] {key : α → β} {as : List α} {a : α}
    (h : a ∈ firsts key as) : a ∈ as := by
  induction as with
  | nil => exact h
  | cons b as ih =>
    rcases List.mem_cons.mp h with rfl | h
    · exact List.mem_cons_self
    · exact List.mem_cons_of_mem _ (ih (List.mem_of_mem_filter h))

/-- Every row of a query is the output of a group. -/
theorem mem_run {row : Row} (h : row ∈ st.run E outer) : ∃ s, row = st.output s := by
  have hlimited : ∀ {α : Type} {l o : Option Datum} {as : List α} {a : α}, a ∈ limited l o as → a ∈ as := by
    intro α l o as a ha
    unfold limited at ha
    rcases ho : o.bind count? with _ | start <;> rcases hl : l.bind count? with _ | size <;>
      simp only [ho, hl] at ha
    · exact ha
    · exact List.mem_of_mem_take ha
    · exact List.mem_of_mem_drop ha
    · exact List.mem_of_mem_drop (List.mem_of_mem_take ha)
  have harranged : ∀ {out : List (Focus × Row)} {p : Focus × Row}, p ∈ st.arranged E out → p ∈ out := by
    intro out p hp
    unfold Stages.arranged at hp
    split at hp
    · simp only [arrange, List.mem_map, List.mem_mergeSort] at hp
      obtain ⟨-, ⟨q, hq, rfl⟩, rfl⟩ := hp
      exact List.fst_mem_of_mem_zipIdx hq
    · exact hp
  unfold Stages.run at h
  obtain ⟨p, hp, rfl⟩ := List.mem_map.mp h
  have hp' := harranged (hlimited hp)
  have hshown : p ∈ st.shown outer := by
    split at hp'
    · exact mem_of_mem_firsts hp'
    · exact hp'
  obtain ⟨s, -, rfl⟩ := List.mem_map.mp hshown
  exact ⟨s, rfl⟩

end Stages

/-! ## Widths -/

theorem length_together {α β : Type} {os : List (Option (α → β))} {v : α → List β}
    (h : together os = some v) (a : α) : (v a).length = os.length := by
  induction os generalizing v with
  | nil =>
    cases h
    rfl
  | cons o os ih =>
    cases o with
    | none => cases h
    | some u =>
      simp only [together, Option.map_eq_some_iff] at h
      obtain ⟨w, hw, rfl⟩ := h
      simp [ih hw]

theorem length_cells (F : Frame) : F.cells.length = F.columns.length := by
  simp [Frame.cells, Frame.columns, List.length_flatMap]

/-- The output of a SELECT has its columns. -/
theorem length_output {n : Node} (hn : n.kind = .select) {names : Names} {v : Spot → Row}
    (h : n.output E db names = some v) (s : Spot) : (v s).length = (n.columns db.schema).length := by
  have hcolumns : (n.columns db.schema).length = if n.list "expressions" = [] then (n.frame db.schema).cells.length
      else (n.list "expressions").length := by
    rw [columns_select hn, length_cells]
    unfold list
    rw [show n.list? "expressions" = n.selectList? from rfl]
    rcases n.selectList? with _ | items
    · simp [selectColumns]
    · cases items <;> simp [selectColumns]
  rw [hcolumns]
  unfold output at h
  cases hlist : n.list "expressions" with
  | nil =>
    simp only [hlist] at h ⊢
    cases h
    simp
  | cons item items =>
    simp only [hlist, Option.map_eq_some_iff] at h ⊢
    obtain ⟨vs, hvs, rfl⟩ := h
    simp [length_together hvs]

/-- **The rows of a SELECT** have its columns. -/
theorem length_rows_select {n : Node} (hn : n.kind = .select) {names : Names} {v : Focus → List Row}
    (h : n.rows E db names = some v) (f : Focus) : ∀ row ∈ v f, row.length = (n.columns db.schema).length := by
  rw [rows_select hn] at h
  simp only [Option.map_eq_some_iff] at h
  obtain ⟨st, hst, rfl⟩ := h
  intro row hrow
  obtain ⟨s, rfl⟩ := Stages.mem_run hrow
  unfold stagesIn at hst
  simp only [Option.bind_eq_bind, Option.bind_eq_some_iff, Option.pure_def, Option.some.injEq] at hst
  obtain ⟨-, -, -, -, -, -, output, houtput, -, -, -, -, -, -, rfl⟩ := hst
  exact length_output hn houtput s

/-! ## Stars -/

/-- A SELECT with nothing but FROM and WHERE. -/
structure IsStar (n item : Node) : Prop where
  kind : n.kind = .select
  source : n.child? "from" = some (wrap .from item)
  others : ∀ key, key ≠ "from" → key ≠ "where" → n.arg? key = none

theorem isStar_selectFrom (item : Node) : IsStar (selectFrom item) item where
  kind := rfl
  source := by simp [selectFrom, child?]
  others key hfrom _ := by simp [selectFrom, hfrom.symm]

/-- A WHERE leaves a star. -/
theorem IsStar.set_where {n item : Node} (h : IsStar n item) (condition : Node) :
    IsStar (n.set "where" (some (.node condition))) item where
  kind := by simp [h.kind]
  source := by rw [child?_set_of_ne _ _ (by decide), h.source]
  others key hfrom hwhere := by rw [arg?_set_of_ne _ _ hwhere.symm, h.others key hfrom hwhere]

variable {n item : Node}

theorem IsStar.child?_eq (h : IsStar n item) {key : String} (hfrom : key ≠ "from") (hwhere : key ≠ "where") :
    n.child? key = none := by
  simp [child?, h.others key hfrom hwhere]

theorem IsStar.list_eq (h : IsStar n item) : n.list "expressions" = [] := by
  simp [list, list?, h.others "expressions" (by decide) (by decide)]

theorem IsStar.frame_eq (h : IsStar n item) (schema : Schema) : n.frame schema = item.frame schema :=
  frame_select h.kind h.source

theorem tuples_from (item : Node) (names : Names) :
    (wrap .from item).tuples E db names = item.tuples E db names := by
  have hthis : (wrap .from item).child? "this" = some item := by simp [wrap, child?]
  rw [tuples_eq, tuplesStep, show (wrap .from item).kind = .from from rfl]
  simp only [only_partsOf hthis]
  rfl

/-- **The rows of a star** are those of its FROM item on which WHERE holds. -/
theorem IsStar.rows_eq (h : IsStar n item) (outer : Names) :
    n.rows E db outer = (do
      let source ← item.tuples E db outer
      let condition ← n.clause "where" always (scalar E db (n.fromNames db outer))
      return fun f => ((source f).filter fun row => holds (condition (⟨row, [row]⟩ :: f))).map
        (Row.pad (item.frame db.schema).cells.length)) := by
  have hgrouped : n.isGrouped = false := by
    simp [isGrouped, h.list_eq, h.child?_eq]
  have hdistinct : n.flag "distinct" = false := by
    simp [flag, h.others "distinct" (by decide) (by decide)]
  have hfrom : n.clause "from" (fun _ => [[]]) (tuples E db outer) = item.tuples E db outer := by
    simp only [clause, h.source, tuples_from]
  have hlevels : levelsOf E n ((n.child? "group").bind (scalar E db (n.groupNames E db outer)))
      = some fun _ rows => rows.map fun row => ⟨row, [row]⟩ := by
    simp [levelsOf, h.child?_eq, hgrouped]
  have hcells : n.frame db.schema = item.frame db.schema := h.frame_eq db.schema
  rw [rows_select h.kind]
  unfold stagesIn groupingIn
  simp only [hfrom, hlevels, output, h.list_eq, hdistinct, hcells]
  have habsent : ∀ {α : Type} (key : String) (absent : α) (value : Node → Option α), key ≠ "from" →
      key ≠ "where" → n.clause key absent value = some absent := fun key absent value hf hw => by
    simp [clause, h.child?_eq hf hw]
  rw [habsent "having" _ _ (by decide) (by decide), habsent "qualify" _ _ (by decide) (by decide),
    habsent "order" _ _ (by decide) (by decide), habsent "limit" _ _ (by decide) (by decide),
    habsent "offset" _ _ (by decide) (by decide)]
  cases item.tuples E db outer with
  | none => rfl
  | some source =>
    cases n.clause "where" always (scalar E db (n.fromNames db outer)) with
    | none => rfl
    | some condition =>
      simp only [Option.bind_eq_bind, Option.bind_some, Option.pure_def, Option.map_some,
        Option.some.injEq]
      funext f
      rw [Stages.Direct.run_eq ⟨rfl, rfl, rfl, rfl⟩]
      simp only [Stages.shown, Stages.groups, Grouping.run, Grouping.tuples, holds_always,
        List.filter_true, List.map_map]
      have hspots : ∀ all : List Focus, (Spot.each all).map (fun s => Row.pad
          (item.frame db.schema).cells.length s.focus.row) = all.map fun f => Row.pad
            (item.frame db.schema).cells.length f.row := by
        intro all
        conv_rhs => rw [← Spot.map_focus_each all, List.map_map]
        rfl
      exact (hspots _).trans (by rw [List.map_map]; rfl)

end Node

end Sql

end AlgebraSql
