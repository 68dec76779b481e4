import AlgebraSql.Proofs.Agreement
import AlgebraSql.Proofs.FlatPlans

/-!
# Spelled-out stars — listing the columns of a FROM clause changes nothing.

Below the top of a plan a sort writes the columns of a star out.  Each clause finds the same values
under these names as it finds without them; only ORDER BY looks at another place, where the same value
stands again.  So a plan has the same rows at the top and below another operator.
-/

namespace AlgebraSql.Sql

/-- A name that is not among items has no place there. -/
theorem itemPlace?_of_not_mem {items : List String} {name : String} (h : name ∉ items) :
    Names.itemPlace? items none name = none := by
  have hnone : items.zipIdx.filter (·.1 == name) = [] := by
    rw [List.filter_eq_nil_iff]
    rintro ⟨item, i⟩ hmem hname
    have hitem := List.fst_mem_of_mem_zipIdx hmem
    obtain rfl : item = name := by simpa using hname
    exact h hitem
  unfold Names.itemPlace?
  rw [hnone]
  rfl

namespace Node

variable {E : Engine} {db : Database} {schema : Schema} {names : List String} {m n : Node}

/-- Values that are known place by place. -/
theorem together_of_forall {α β : Type} {vs : List (Option (α → β))} {v : Nat → α → β}
    (h : ∀ i, (hi : i < vs.length) → vs[i] = some (v i)) :
    together vs = some fun a => (List.range vs.length).map fun i => v i a := by
  induction vs generalizing v with
  | nil => rfl
  | cons o vs ih =>
    have hrest := ih (v := fun i => v (i + 1)) fun i hi => h (i + 1) (Nat.succ_lt_succ hi)
    obtain rfl : o = some (v 0) := h 0 (Nat.zero_lt_succ _)
    simp [together, hrest, List.range_succ_eq_map, Function.comp_def]

theorem aggregates_column (name : String) : (Node.column name).aggregates = false := by
  rw [aggregates, Node.column, fold_mk]
  rfl

/-- Sort keys count only at rows of the output. -/
theorem Stages.run_of_order (st : Stages) (houtput : st.output = fun s => Row.pad st.width s.focus.row)
    {v w : Spot → List Datum} (h : ∀ s : Spot, (∀ i < st.width,
      s.focus.row.getD (st.width + i) .null = s.focus.row.getD i .null) → v s = w s) :
    Stages.run E { st with order := some v } = Stages.run E { st with order := some w } := by
  funext outer
  have hshown : ∀ p ∈ st.shown outer, p.2 = Row.pad st.width p.1.row := by
    intro p hp
    obtain ⟨s, -, rfl⟩ := List.mem_map.mp hp
    rw [houtput]
  have harranged : ∀ out : List (Focus × Row), (∀ p ∈ out, p.2 = Row.pad st.width p.1.row) →
      Stages.arranged E { st with order := some v } out = Stages.arranged E { st with order := some w } out := by
    intro out hout
    simp only [Stages.arranged]
    refine congrArg (arrange E) (List.map_congr_left fun p hp => ?_)
    have hp' : out[p.2]? = some p.1 := List.mk_mem_zipIdx_iff_getElem?.mp hp
    rw [h ⟨_, p.2⟩ fun i hi => ?_]
    have hrow : (Spot.focus ⟨out.map fun p => p.1.extend st.width p.2, p.2⟩).row
        = Row.pad st.width p.1.1.row ++ Row.pad st.width p.1.1.row := by
      have hwide := hout p.1 (List.mem_of_getElem? hp')
      simp only [Spot.focus, List.getD_eq_getElem?_getD, List.getElem?_map, hp', Option.map_some,
        Option.getD_some, Focus.extend, Focus.row_cons, hwide]
      rfl
    have hlength := Row.length_pad st.width p.1.1.row
    rw [hrow, List.getD_eq_getElem?_getD, List.getD_eq_getElem?_getD,
      List.getElem?_append_right (by omega), List.getElem?_append_left (by omega), hlength,
      Nat.add_sub_cancel_left]
  have hfirsts : ∀ p ∈ (if st.distinct then firsts (·.2) (st.shown outer) else st.shown outer),
      p.2 = Row.pad st.width p.1.row := by
    intro p hp
    split at hp
    · exact hshown p (Stages.mem_of_mem_firsts hp)
    · exact hshown p hp
  unfold Stages.run
  exact congrArg (fun out => (limited (st.limit outer) (st.offset outer) out).map (·.2)) (harranged _ hfirsts)

/-- A column of the only FROM item stands for the value at its place. -/
theorem fromNames_column {own name : String} {i : Nat} (hframe : m.frame db.schema = [(own, names)])
    (hnodup : names.Nodup) (hi : names[i]? = some name) (outer : Names) :
    m.fromNames db outer none name = some fun f => f.row.getD i .null := by
  rw [fromNames, hframe]
  exact within_single outer hi (List.nodup_iff_count_le_one.mp hnodup name)

theorem scalar_fromNames_column {own name : String} {i : Nat}
    (hframe : m.frame db.schema = [(own, names)]) (hnodup : names.Nodup) (hi : names[i]? = some name)
    (outer : Names) :
    (Node.column name).scalar E db (m.fromNames db outer) = some fun f => [f.row.getD i .null] := by
  rw [fromNames, hframe]
  exact scalar_column_single outer hi (List.nodup_iff_count_le_one.mp hnodup name)

/-- A query lists the columns of its FROM clause where another one has a star. -/
structure SpellsOut (schema : Schema) (names : List String) (m n : Node) : Prop where
  kinds : m.kind = .select ∧ n.kind = .select
  star : m.list "expressions" = []
  list : n.list "expressions" = names.map fun name => Node.column name
  others : ∀ key, key ≠ "expressions" → n.arg? key = m.arg? key
  frame : n.frame schema = m.frame schema
  found : names = [] ∨ ∃ own, m.frame schema = [(own, names)]

/-- Both queries may get a clause. -/
theorem SpellsOut.set (h : SpellsOut schema names m n) {key : String} (a : Arg)
    (hkey : key ∉ ["from", "expressions"]) :
    SpellsOut schema names (m.set key (some a)) (n.set key (some a)) := by
  simp only [List.mem_cons, List.not_mem_nil, or_false, not_or] at hkey
  refine ⟨by simp [h.kinds.1, h.kinds.2], ?_, ?_, fun other hother => ?_, ?_, ?_⟩
  · rw [Node.list, list?_set_of_ne _ _ hkey.2]
    exact h.star
  · rw [Node.list, list?_set_of_ne _ _ hkey.2]
    exact h.list
  · by_cases hsame : other = key
    · subst hsame
      simp
    · rw [arg?_set_of_ne _ _ (Ne.symm hsame), arg?_set_of_ne _ _ (Ne.symm hsame), h.others other hother]
  · rw [frame_set h.kinds.1 hkey.1, frame_set h.kinds.2 hkey.1, h.frame]
  · rw [frame_set h.kinds.1 hkey.1]
    exact h.found

/-- The sort keys of an order are computed from columns of these names. -/
def SortsBy (names : List String) (c : Node) : Prop :=
  ∃ keys, c = Node.order keys ∧ ∀ key ∈ keys, position? key = none
    ∧ ∀ R, Congruent R → (∀ name ∈ names, R (Node.column name) (Node.column name)) → R key key

/-- The keys of an order that names no positions have their own values. -/
theorem keys_order {keys : List Node} (h : ∀ key ∈ keys, position? key = none) (width : Nat)
    (scope : Names) : ((Node.order keys).meaning E db).keys width scope
      = (together (keys.map (analytic E db scope))).map fun vs s => (vs s).flatten := by
  have hlist : (Node.order keys).list? "expressions" = some keys := by simp [Node.order, list?]
  have hkeys : List.zipWith (Node.sortKeyOf E width scope) keys (keys.map (meaning E db))
      = keys.map (analytic E db scope) := by
    rw [List.zipWith_map_right, List.zipWith_self]
    refine List.map_congr_left fun key hkey => ?_
    simp only [Node.sortKeyOf, h key hkey]
    rfl
  rw [meaning_eq]
  change sortKeysOf E width scope ((Node.order keys).list "expressions")
    (((Node.order keys).partsOf E db).several "expressions") = _
  rw [several_partsOf hlist, Node.list, hlist, sortKeysOf]
  simp only [Option.getD_some, hkeys]

/-- Two stars with the same other clauses have the same rows. -/
theorem rows_of_stars (hkinds : m.kind = .select ∧ n.kind = .select) (hm : m.list "expressions" = [])
    (hn : n.list "expressions" = []) (hothers : ∀ key, key ≠ "expressions" → n.arg? key = m.arg? key)
    (hframe : n.frame db.schema = m.frame db.schema) (outer : Names) :
    n.rows E db outer = m.rows E db outer := by
  rw [rows_select hkinds.1, rows_select hkinds.2]
  unfold stagesIn groupingIn clause levelsOf isGrouped output groupNames havingNames orderNames
  unfold itemAt itemNames child? flag fromNames
  simp only [hm, hn, hframe, hothers "from" (by decide), hothers "where" (by decide),
    hothers "group" (by decide), hothers "having" (by decide), hothers "qualify" (by decide),
    hothers "order" (by decide), hothers "limit" (by decide), hothers "offset" (by decide),
    hothers "distinct" (by decide)]

namespace SpellsOut

variable {own : String} (h : SpellsOut db.schema names m n) (outer : Names)

include h

theorem child?_eq {key : String} (hkey : key ≠ "expressions") : n.child? key = m.child? key := by
  simp only [child?, h.others key hkey]

theorem clause_eq {α : Type} {key : String} (hkey : key ≠ "expressions") (absent : α)
    (value : Node → Option α) : n.clause key absent value = m.clause key absent value := by
  simp only [clause, h.child?_eq hkey]

theorem itemNames_eq : n.itemNames = names := by
  simp [itemNames, h.list, Function.comp_def, outputName]

theorem fromNames_eq : n.fromNames db outer = m.fromNames db outer := by simp only [fromNames, h.frame]

theorem isGrouped_eq : n.isGrouped = m.isGrouped := by
  have hitems : (n.list "expressions").any aggregates = false := by
    simp [h.list, aggregates_column]
  simp only [isGrouped, hitems, h.star, List.any_nil, h.child?_eq (show "group" ≠ "expressions" by decide),
    h.child?_eq (show "having" ≠ "expressions" by decide), h.child?_eq (show "qualify" ≠ "expressions" by decide),
    h.child?_eq (show "order" ≠ "expressions" by decide)]

variable (hframe : m.frame db.schema = [(own, names)])

include hframe

/-- GROUP BY finds the same values. -/
theorem groupNames_eq : n.groupNames E db outer = m.groupNames E db outer := by
  unfold groupNames
  rw [h.fromNames_eq, h.itemNames_eq, itemNames_eq_nil h.star, itemsBehind_nil]
  split
  · funext qualifier name
    cases qualifier with
    | some table => exact itemsBehind_of_qualified _ _
    | none =>
      by_cases hname : name ∈ names
      · rw [itemsBehind_of_mem (by rw [h.frame, hframe, Frame.columns_single]; exact hname)]
      · simp only [Names.itemsBehind, Names.itemsFirst, itemPlace?_of_not_mem hname, ite_self]
  · rfl

/-- HAVING finds the same values. -/
theorem havingNames_eq (hnodup : names.Nodup) : n.havingNames E db outer = m.havingNames E db outer := by
  unfold havingNames
  rw [h.fromNames_eq, h.itemNames_eq, itemNames_eq_nil h.star, itemsFirst_nil]
  split
  · funext qualifier name
    cases qualifier with
    | some table => rfl
    | none =>
      by_cases hname : name ∈ names
      · obtain ⟨i, hi⟩ := List.mem_iff_getElem?.mp hname
        have hitem : (n.list "expressions")[i]? = some (Node.column name) := by simp [h.list, hi]
        simp only [Names.itemsFirst, itemPlace?_of_count hi (List.nodup_iff_count_le_one.mp hnodup name),
          itemAt, hitem, Option.bind_some, scalar_fromNames_column hframe hnodup hi outer, Option.map_some,
          fromNames_column hframe hnodup hi outer]
        rfl
      · simp only [Names.itemsFirst, itemPlace?_of_not_mem hname]
  · rfl

theorem groupingIn_eq : n.groupingIn E db outer = m.groupingIn E db outer := by
  unfold groupingIn
  rw [h.clause_eq (by decide), h.clause_eq (by decide), h.fromNames_eq, h.groupNames_eq outer hframe]
  unfold levelsOf
  rw [h.isGrouped_eq, h.child?_eq (by decide)]

/-- The output is that of the star. -/
theorem output_eq (hnodup : names.Nodup) :
    n.output E db (m.fromNames db outer) = some fun s => Row.pad names.length s.focus.row := by
  have hwidth : (n.frame db.schema).cells.length = names.length := by
    rw [h.frame, hframe, length_cells, Frame.columns_single]
  have hall : together ((n.list "expressions").map (analytic E db (m.fromNames db outer)))
      = some fun s => (List.range names.length).map fun i => [s.focus.row.getD i .null] := by
    have hplaces : together ((n.list "expressions").map (analytic E db (m.fromNames db outer))) = some fun s =>
        (List.range ((n.list "expressions").map (analytic E db (m.fromNames db outer))).length).map
          fun i => [s.focus.row.getD i .null] :=
      together_of_forall fun i hi => by
        have hi' : i < names.length := by simpa [h.list] using hi
        simp only [h.list, List.map_map, List.getElem_map, Function.comp_apply]
        exact analytic_of_scalar (scalar_fromNames_column hframe hnodup (List.getElem?_eq_getElem hi') outer)
    rw [hplaces]
    simp [h.list]
  unfold output
  split
  · rw [hwidth]
    rfl
  · rw [hall]
    simp [Row.pad, single, Function.comp_def]

theorem output_star : m.output E db (m.fromNames db outer)
    = some fun s => Row.pad names.length s.focus.row := by
  have hwidth : (m.frame db.schema).cells.length = names.length := by
    rw [hframe, length_cells, Frame.columns_single]
  simp only [output, h.star, hwidth]
  rfl

/-- ORDER BY finds the same values at rows of the output, where the columns stand twice. -/
theorem orders (hnodup : names.Nodup) {c : Node} (hc : SortsBy names c) :
    ∃ v w, orderIn E db names.length (m.orderNames db outer) c = some (some v)
      ∧ orderIn E db names.length (n.orderNames db outer) c = some (some w)
      ∧ ∀ s : Spot, (∀ i < names.length, s.focus.row.getD (names.length + i) .null
        = s.focus.row.getD i .null) → v s = w s := by
  obtain ⟨keys, rfl, hkeys⟩ := hc
  let Same : Spot → Spot → Prop := fun s t => s = t ∧ ∀ i < names.length,
    s.focus.row.getD (names.length + i) .null = s.focus.row.getD i .null
  let V := Reading.analytic E db (m.orderNames db outer)
  let W := Reading.analytic E db (n.orderNames db outer)
  have hcolumn : ∀ name ∈ names, Agrees V W Same (Node.column name) (Node.column name) := by
    intro name hname
    obtain ⟨i, hi⟩ := List.mem_iff_getElem?.mp hname
    have hlt := (List.getElem?_eq_some_iff.mp hi).1
    have hbare : (Node.column name).name = name ∧ (Node.column name).qualifier? = none := by
      simp [name_column, qualifier?, child?_column]
    have hstar : (Node.column name).scalar E db (m.orderNames db outer)
        = some fun f => [f.row.getD i .null] := by
      rw [orderNames, itemNames_eq_nil h.star, itemsFirst_nil]
      exact scalar_fromNames_column hframe hnodup hi outer
    have hlisted : (Node.column name).scalar E db (n.orderNames db outer)
        = some fun f => [f.row.getD (names.length + i) .null] := by
      rw [scalar_of_column rfl, hbare.1, hbare.2, orderNames, h.itemNames_eq]
      simp only [Names.itemsFirst, itemPlace?_of_count hi (List.nodup_iff_count_le_one.mp hnodup name),
        h.frame, hframe, length_cells, Frame.columns_single, Option.map_some]
    refine ⟨_, _, analytic_of_scalar hstar, analytic_of_scalar hlisted, ?_⟩
    rintro s t ⟨rfl, hsame⟩
    rw [hsame i hlt]
  obtain ⟨v, w, hv, hw, hvw⟩ := together_agree (V := V) (W := W) (P := Same)
    (List.forall₂_same.mpr fun key hkey => (hkeys key hkey).2 _ (congruent_agrees V W Same) hcolumn)
  have hnone : ∀ key ∈ keys, position? key = none := fun key hkey => (hkeys key hkey).1
  refine ⟨fun s => (v s).flatten, fun s => (w s).flatten, ?_, ?_, fun s hs => congrArg List.flatten (hvw s s ⟨rfl, hs⟩)⟩
  · rw [orderIn, keys_order hnone]
    exact congrArg (Option.map some) (congrArg (Option.map _) hv)
  · rw [orderIn, keys_order hnone]
    exact congrArg (Option.map some) (congrArg (Option.map _) hw)

/-- The columns of one FROM item are spelled out. -/
theorem rows_of_single (hnodup : names.Nodup) (horder : ∀ c, m.child? "order" = some c → SortsBy names c) :
    n.rows E db outer = m.rows E db outer := by
  have hwidth : (m.frame db.schema).cells.length = names.length := by
    rw [hframe, length_cells, Frame.columns_single]
  have hdistinct : n.flag "distinct" = m.flag "distinct" := by
    simp only [flag, h.others "distinct" (by decide)]
  rw [rows_select h.kinds.1, rows_select h.kinds.2]
  unfold stagesIn
  rw [h.groupingIn_eq outer hframe, h.havingNames_eq outer hframe hnodup, h.fromNames_eq,
    h.output_eq outer hframe hnodup, h.output_star outer hframe, h.frame, hdistinct, hwidth]
  simp only [h.clause_eq (show "having" ≠ "expressions" by decide),
    h.clause_eq (show "qualify" ≠ "expressions" by decide),
    h.clause_eq (show "order" ≠ "expressions" by decide),
    h.clause_eq (show "limit" ≠ "expressions" by decide),
    h.clause_eq (show "offset" ≠ "expressions" by decide)]
  rcases hgrouping : m.groupingIn E db outer with _ | grouping
  · rfl
  rcases hhaving : m.clause "having" always (scalar E db (m.havingNames E db outer)) with _ | having
  · rfl
  rcases hqualify : m.clause "qualify" always (analytic E db (m.fromNames db outer)) with _ | qualify
  · rfl
  generalize m.clause "limit" (fun _ => none) (limitIn E db outer) = limit
  generalize m.clause "offset" (fun _ => none) (limitIn E db outer) = offset
  unfold clause
  cases hc : m.child? "order" with
  | none => rfl
  | some c =>
    obtain ⟨v, w, hv, hw, hvw⟩ := h.orders (E := E) outer hframe hnodup (horder c hc)
    simp only [hv, hw]
    cases limit with
    | none => rfl
    | some limit =>
      cases offset with
      | none => rfl
      | some offset =>
        exact congrArg some (Stages.run_of_order ⟨grouping, having, qualify,
          fun s => Row.pad names.length s.focus.row, m.flag "distinct", none, limit, offset,
            names.length⟩ rfl hvw).symm

omit hframe in
/-- **The rows** of a query stay the same if its star is spelled out. -/
theorem rows_eq (hnodup : names.Nodup) (horder : ∀ c, m.child? "order" = some c → SortsBy names c) :
    n.rows E db outer = m.rows E db outer := by
  rcases h.found with hempty | ⟨own, hframe⟩
  · exact rows_of_stars h.kinds h.star (by simp [h.list, hempty]) h.others h.frame outer
  · exact h.rows_of_single outer hframe hnodup horder

end SpellsOut

end Node

end AlgebraSql.Sql

namespace AlgebraSql.Convert

open Sql Node

variable {env : Env} {sub : Rel → ConvertM Node} {s s' : State} {schema : Schema} {fields : RowType}

/-! ## Sort keys -/

/-- Every sort key is written for one of the keys over input fields. -/
theorem mem_collationsNodes {ctx : Context} {cs : List Collation} {keys : List Node}
    (h : collationsNodes env ctx cs = .ok keys) {key : Node} (hkey : key ∈ keys) :
    ∃ c ∈ cs, ∃ tested n, ctx.field env c.key = .ok tested ∧ ctx.orderField env c.key = .ok n
      ∧ key ∈ sortKeys env.dialect tested n c.direction c.nulls := by
  simp only [collationsNodes, bind_eq_ok_iff, pure_eq_ok_iff] at h
  obtain ⟨groups, hgroups, rfl⟩ := h
  obtain ⟨group, hgroup, hkey⟩ := List.mem_flatten.mp hkey
  refine forall_of_mapM (p := fun group => ∀ key ∈ group, ∃ c ∈ cs, ∃ tested n, ctx.field env c.key = .ok tested
    ∧ ctx.orderField env c.key = .ok n ∧ key ∈ sortKeys env.dialect tested n c.direction c.nulls) hgroups
      (fun c hc group hnodes => ?_) group hgroup key hkey
  simp only [collationNodes, bind_eq_ok_iff, pure_eq_ok_iff] at hnodes
  obtain ⟨tested, htested, n, hn, rfl⟩ := hnodes
  exact fun key hkey => ⟨c, hc, tested, n, htested, hn, hkey⟩

/-- A sort key is a node with a direction, or a test for a missing value with or without a direction. -/
theorem sortKeys_cases {d : Dialect} {tested n key : Node} {direction : Direction} {nulls : NullPlacement}
    (h : key ∈ sortKeys d tested n direction nulls) :
    (∃ descending first, key = orderedNode n descending first) ∨ key = Node.isNull tested
      ∨ key = .mk .ordered [("this", .node (Node.isNull tested)), ("desc", .flag true)] := by
  unfold sortKeys at h
  split at h
  · exact .inl ⟨_, _, List.mem_singleton.mp h⟩
  · simp only at h
    split at h
    · rename_i test htest
      simp only [List.mem_cons, List.not_mem_nil, or_false] at h
      rcases h with rfl | rfl
      · unfold Dialect.emulatePlacement at htest
        split at htest
        · cases htest
        split at htest <;> cases htest
        · exact .inr (.inr rfl)
        · exact .inr (.inl rfl)
      · exact .inl ⟨_, _, rfl⟩
    · exact .inl ⟨_, _, List.mem_singleton.mp h⟩

/-- What operations keep holds for a sort key if it holds for the nodes that it is made from. -/
theorem related_sortKeys {R : Node → Node → Prop} (hR : Congruent R) {d : Dialect} {tested n key : Node}
    {direction : Direction} {nulls : NullPlacement} (htested : R tested tested) (hn : R n n)
    (h : key ∈ sortKeys d tested n direction nulls) : R key key := by
  rcases sortKeys_cases h with ⟨descending, first, rfl⟩ | rfl | rfl
  · refine hR.args rfl (List.rel_append (.cons ⟨rfl, .node hn⟩ (.cons ⟨rfl, .same _ rfl⟩ .nil)) ?_)
    cases first with
    | none => exact .nil
    | some b => exact .cons ⟨rfl, .same _ rfl⟩ .nil
  · exact hR.isNull htested
  · exact hR.args rfl (.cons ⟨rfl, .node (hR.isNull htested)⟩ (.cons ⟨rfl, .same _ rfl⟩ .nil))

/-- The sort keys over a star sort by its columns. -/
theorem sortsBy_collations (hmap : env.fieldMap = []) {own : String} {cs : List Collation}
    {keys : List Node}
    (h : collationsNodes env (.aliases [(own, fields)] false) cs = .ok keys) :
    SortsBy fields.names (Node.order keys) := by
  refine ⟨keys, rfl, fun key hkey => ?_⟩
  obtain ⟨c, -, tested, n, htested, hn, hkey⟩ := mem_collationsNodes h hkey
  obtain ⟨f, hf, rfl⟩ := (field_aliases_iff hmap).mp htested
  obtain ⟨f', hf', rfl⟩ := (field_aliases_iff hmap).mp hn
  obtain rfl : f = f' := by simpa [hf] using hf'
  have hmem : f.name ∈ fields.names := by
    obtain ⟨i, -, hi⟩ := (nth?_isSome_iff _ c.key).mp (by rw [hf]; rfl)
    rw [hi, nth?_whole] at hf
    exact List.mem_map_of_mem (List.mem_of_getElem? hf)
  refine ⟨?_, fun R hR hfields => related_sortKeys hR (hfields _ hmem) (hfields _ hmem) hkey⟩
  rcases sortKeys_cases hkey with ⟨descending, first, rfl⟩ | rfl | rfl
  · simp [orderedNode, position?, this?, child?, Node.column, Node.is]
  · simp [position?, this?, child?, Node.isNull, Node.column, Node.is]
  · simp [position?, this?, child?, Node.isNull, Node.is]

/-! ## Sorts -/

/-- What a sort spells out is a star. -/
theorem spellsOut_spelled (hmap : env.fieldMap = []) {own : String} {m l : Node}
    (hm : Shaped schema fields m) (hstar : m.selectList? = none)
    (hl : Spelled env (.aliases [(own, fields)] false) false fields m l) :
    SpellsOut schema fields.names m l := by
  unfold Spelled at hl
  rw [if_pos ⟨rfl, hstar⟩] at hl
  obtain ⟨columns, hcolumns, -, rfl⟩ := hl
  have hitems : namedItems columns fields = fields.names.map fun name => Node.column name := by
    have hlength := length_of_mapM hcolumns
    rw [List.length_range] at hlength
    refine List.ext_getElem (by simp [namedItems, RowType.names, hlength]) fun i hi hi' => ?_
    have hlt : i < fields.length := by simpa [RowType.names] using hi'
    obtain ⟨c, hc, hfield⟩ := getElem?_of_mapM hcolumns (List.getElem?_range hlt)
    obtain ⟨f, hf, rfl⟩ := (field_aliases_iff hmap).mp hfield
    have hf' : fields[i]? = some f := by simpa using hf
    obtain ⟨hi₁, hc⟩ := List.getElem?_eq_some_iff.mp hc
    obtain ⟨hi₂, hf'⟩ := List.getElem?_eq_some_iff.mp hf'
    simp [namedItems, namedItem, RowType.names, hc, hf']
  refine ⟨⟨hm.kind, by simp [withList, hm.kind]⟩, ?_, by simp [withList, list, list?, hitems],
    fun key hkey => arg?_set_of_ne _ _ hkey.symm, frame_set hm.kind (by decide) _, ?_⟩
  · rw [list, show m.list? "expressions" = none from hstar]
    rfl
  · obtain ⟨own', columns', hframe, rfl | hempty⟩ := hm.frame_of_star hstar
    · exact .inr ⟨own', hframe⟩
    · exact .inl (by simp [hempty, RowType.names])

/-- The clauses of a sort leave what is spelled out. -/
theorem spellsOut_sorted {names : List String} {m l : Node} (h : SpellsOut schema names m l)
    (keys : List Node) (limit skip : Option Node) :
    SpellsOut schema names (sorted m keys limit skip) (sorted l keys limit skip) := by
  have hlimit : ∀ {m l : Node} {key : String} (kind : Kind) (limit : Option Node),
      key ∉ ["from", "expressions"] → SpellsOut schema names m l →
        SpellsOut schema names (withLimit m key kind limit) (withLimit l key kind limit) := by
    intro m l key kind limit hkey hml
    unfold withLimit
    split
    · exact hml.set _ hkey
    · exact hml
  unfold sorted
  refine hlimit _ _ (by decide) (hlimit _ _ (by decide) ?_)
  split
  · exact h
  · exact h.set _ (by decide)

/-- The order of a sort consists of its keys, if there was none. -/
theorem child?_order_sorted {m c : Node} (hm : m.child? "order" = none) {keys : List Node}
    {limit skip : Option Node} (h : (sorted m keys limit skip).child? "order" = some c) :
    c = Node.order keys := by
  have hlimit : ∀ {m : Node} {key : String} (kind : Kind) (limit : Option Node), key ≠ "order" →
      (withLimit m key kind limit).child? "order" = m.child? "order" := by
    intro m key kind limit hkey
    unfold withLimit
    split
    · exact child?_set_of_ne _ _ hkey
    · rfl
  unfold sorted at h
  rw [hlimit _ _ (by decide), hlimit _ _ (by decide)] at h
  split at h
  · rw [hm] at h
    cases h
  · simpa [eq_comm] using h

/-- A sort has the same rows at the top and below another operator. -/
theorem rows_sort_atTop (henv : env.NeverQualifies) (hmap : env.fieldMap = []) {input : Rel}
    {collation : List Collation} {offset fetch : Option Expr} {z x y : Result} {s₁ s₂ : State}
    (hz : Flat schema input z) (hnodup : input.fields.names.Nodup)
    (hx : (sortResult env sub true collation offset fetch (.sort input collation offset fetch) z).Gives s x s₁)
    (hy : (sortResult env sub false collation offset fetch (.sort input collation offset fetch) z).Gives s y s₂)
    {E : Engine} {db : Database} (hdb : db.schema = schema) (names : Names) :
    y.query.rows E db names = x.query.rows E db names := by
  obtain ⟨name, hsingle, -⟩ := hz.single
  obtain ⟨w, m, t₁, l, keys, limit, t₂, skip, t₃, rfl, hm, hl, hkeys, hlimit, hskip, hrecords⟩ :=
    hsingle.sort_step henv hx
  obtain ⟨w', m', t₁', l', keys', limit', t₂', skip', t₃', rfl, hm', hl', hkeys', hlimit', hskip',
    hrecords'⟩ := hsingle.sort_step henv hy
  -- both conversions open the same query and find the same keys and limits
  obtain ⟨rfl, rfl⟩ := ConvertM.Gives.unique hm hm'
  obtain ⟨rfl, rfl⟩ := hlimit.unique hlimit'
  obtain ⟨rfl, rfl⟩ := hskip.unique hskip'
  obtain rfl : keys = keys' := by simpa [hkeys] using hkeys'
  obtain rfl : l = m := hl
  have hshaped : Shaped schema input.fields l := hz.shaped_opened henv hm
  have hspelled : Shaped schema input.fields l' :=
    hshaped.spelled (fun i n hn => hz.item_of_field henv hmap hm hn) hl'
  rw [Result.query_of_plain (x := x) (by rw [hrecords.node_eq]; exact (hshaped.sorted keys limit skip).plain),
    Result.query_of_plain (x := y) (by rw [hrecords'.node_eq]; exact (hspelled.sorted keys limit skip).plain),
    hrecords.node_eq, hrecords'.node_eq]
  by_cases hstar : l.selectList? = none
  · have hctx : (z.expecting [.orderBy, .fetch, .offset]).contextOver env
        (.sort input collation offset fetch) l = .aliases [(name, input.fields)] false := by
      simp only [Result.contextOver, hstar, (hsingle.expecting _ _).aliases]
      rw [show (z.expecting [.orderBy, .fetch, .offset]).fields = z.fields from rfl, hz.fields]
    have hunordered : l.child? "order" = none := by
      rcases hz.opened henv hm with ⟨rfl, hkind, hwrap⟩ | ⟨item, rfl, -⟩
      · have hsort := hz.tracked.isSort_eq_false (by simp) rfl (by simp) hwrap
        simp [child?, hz.tracked.unfinished hsort hkind "order" (by simp [finishingKeys])]
      · simp [selectFrom, child?]
    rw [hctx] at hkeys hl'
    subst hdb
    refine (spellsOut_sorted (spellsOut_spelled hmap hshaped hstar hl') keys limit skip).rows_eq names
      hnodup fun c hc => ?_
    rw [child?_order_sorted hunordered hc]
    exact sortsBy_collations hmap hkeys
  · obtain rfl : l' = l := by
      unfold Spelled at hl'
      rwa [if_neg (by simp [hstar])] at hl'
    rfl

/-- **A plan has the same rows** at the top and below another operator. -/
theorem rows_atTop (henv : env.NeverQualifies) (hmap : env.fieldMap = []) (rel : Rel)
    (hrel : rel.every (joinFree schema) = true) (hnodup : rel.fields.names.Nodup) {s₁ s₂ : State}
    {x y : Result} (hx : (relationResult env sub true rel).Gives s x s₁)
    (hy : (relationResult env sub false rel).Gives s y s₂) {E : Engine} {db : Database}
    (hdb : db.schema = schema) (names : Names) :
    y.query.rows E db names = x.query.rows E db names := by
  cases rel with
  | sort input collation offset fetch =>
    simp only [Rel.every, Bool.and_eq_true] at hrel
    rw [relationResult, ConvertM.gives_bind] at hx hy
    obtain ⟨z, t, hz, hx⟩ := hx
    obtain ⟨z', t', hz', hy⟩ := hy
    obtain ⟨rfl, rfl⟩ := hz.unique hz'
    exact rows_sort_atTop henv hmap (flat_relationResult henv hmap input hrel.2 hz) hnodup hx hy hdb names
  | _ =>
    rw [relationResult] at hx hy
    rw [(hx.unique hy).1]

end AlgebraSql.Convert
