import AlgebraSql.Proofs.ProjectedGroups
import Mathlib.Data.Multiset.UnionInter

/-!
# SELECTs of rows — queries that compute each of their rows from one row of FROM.

A SELECT without groups, conditions on groups or windowed calls, and limits keeps the rows of FROM on which
WHERE holds, and puts out one row for each of them.  DISTINCT leaves out repetitions and ORDER BY only
changes the order, so the rows are known as a bag.
-/

namespace AlgebraSql

/-- A bag of rows without repetitions, if they have to be distinct. -/
def distinctBag (distinct : Bool) (bag : Multiset Row) : Multiset Row := if distinct then bag.dedup else bag

open Sql Node

namespace Sql.Node

variable {E : Engine} {db : Database} {n : Node} {outer : Names}

/-! ## Bags of output -/

theorem nodup_firsts {α β : Type} [DecidableEq β] (key : α → β) (as : List α) : ((firsts key as).map key).Nodup := by
  induction as with
  | nil => exact List.nodup_nil
  | cons a as ih =>
    rw [firsts, List.map_cons, List.nodup_cons]
    refine ⟨fun hmem => ?_, ih.sublist (List.filter_sublist.map _)⟩
    obtain ⟨b, hb, hkey⟩ := List.mem_map.mp hmem
    simp [hkey] at hb

theorem mem_map_firsts {α β : Type} [DecidableEq β] {key : α → β} {as : List α} {b : β} :
    b ∈ (firsts key as).map key ↔ b ∈ as.map key := by
  induction as with
  | nil => rfl
  | cons a as ih =>
    rw [firsts, List.map_cons, List.map_cons, List.mem_cons, List.mem_cons, ← ih]
    refine or_congr_right' fun hne => ?_
    simp only [List.mem_map, List.mem_filter, ne_eq, decide_not, Bool.not_eq_true', decide_eq_false_iff_not]
    constructor
    · rintro ⟨c, ⟨hc, -⟩, rfl⟩
      exact ⟨c, hc, rfl⟩
    · rintro ⟨c, hc, rfl⟩
      exact ⟨c, ⟨hc, hne⟩, rfl⟩

/-- The keys of first elements are the keys without repetitions. -/
theorem bag_firsts {α β : Type} [DecidableEq β] (key : α → β) (as : List α) :
    (((firsts key as).map key : List β) : Multiset β) = ((as.map key : List β) : Multiset β).dedup := by
  rw [Multiset.coe_dedup, Multiset.coe_eq_coe]
  refine (List.perm_ext_iff_of_nodup (nodup_firsts key as) (List.nodup_dedup _)).mpr fun b => ?_
  rw [mem_map_firsts, List.mem_dedup]

/-- Elements in the order of their keys are the same elements. -/
theorem perm_arrange {α : Type} (keyed : List (List Datum × α)) : (arrange E keyed).Perm (keyed.map (·.2)) :=
  (List.mergeSort_perm _ _).map _

/-- Sort keys change the order of the output only. -/
theorem Stages.perm_arranged (st : Stages) (out : List (Focus × Row)) : (st.arranged E out).Perm out := by
  unfold Stages.arranged
  split
  · refine (perm_arrange _).trans (List.Perm.of_eq ?_)
    rw [List.map_map]
    exact List.zipIdx_map_fst _ _
  · exact .refl _

/-- **The bag of a query** without limits, conditions on its groups and windowed calls, in which each row of the
source is a group. -/
theorem Stages.bag_run {st : Stages} (hhaving : st.having = always) (hqualify : st.qualify = always)
    (hlimit : st.limit = fun _ => none) (hoffset : st.offset = fun _ => none)
    (hlevels : st.levels = fun _ rows => rows.map fun row => ⟨row, [row]⟩) {out : Focus → Row}
    (hout : ∀ s, st.output s = out s.focus) (f : Focus) :
    ((st.run E f : List Row) : Multiset Row)
      = distinctBag st.distinct ((st.tuples f).map fun row => out (⟨row, [row]⟩ :: f) : List Row) := by
  have hshown : (st.shown f).map (·.2) = (st.tuples f).map fun row => out (⟨row, [row]⟩ :: f) := by
    have hspots : ∀ all : List Focus, (Spot.each all).map (fun s => out s.focus) = all.map out := fun all => by
      conv_rhs => rw [← Spot.map_focus_each all, List.map_map]
      rfl
    simp only [Stages.shown, Stages.groups, Grouping.run, hhaving, hqualify, hlevels, holds_always, List.filter_true,
      List.map_map]
    refine Eq.trans (List.map_congr_left fun s _ => hout s) ((hspots _).trans ?_)
    rw [List.map_map]
    rfl
  have hlimited : ∀ rows : List (Focus × Row), limited (st.limit f) (st.offset f) rows = rows := fun rows => by
    simp [limited, hlimit, hoffset]
  rw [Stages.run, hlimited, Multiset.coe_eq_coe.mpr ((st.perm_arranged _).map _)]
  cases st.distinct with
  | false => rw [if_neg (by simp), hshown, distinctBag, if_neg (by simp)]
  | true => rw [if_pos rfl, bag_firsts, hshown, distinctBag, if_pos rfl]

/-! ## Queries of rows -/

/-- **`RowSelect`** — a SELECT that computes each row from one row of FROM: nothing groups, and there are no
conditions on what is put out and no limits. -/
structure RowSelect (n : Node) : Prop where
  kind : n.kind = .select
  absent : ∀ key ∈ ["group", "having", "qualify", "limit", "offset"], n.child? key = none
  items : ∀ item ∈ n.list "expressions", item.aggregates = false
  order : ∀ c, n.child? "order" = some c → c.aggregates = false

variable (E db) in
/-- The rows of FROM on which WHERE holds. -/
def selected (n : Node) (outer : Names) : Option (Focus → List Row) := do
  let source ← n.clause "from" (fun _ => [[]]) (tuples E db outer)
  let condition ← n.clause "where" always (scalar E db (n.fromNames db outer))
  return fun f => (source f).filter fun row => holds (condition (⟨row, [row]⟩ :: f))

namespace RowSelect

theorem isGrouped_eq (h : RowSelect n) : n.isGrouped = false := by
  have hitems : (n.list "expressions").any aggregates = false := by
    rw [List.any_eq_false]
    intro item hitem
    rw [h.items item hitem]
    exact Bool.false_ne_true
  have horder : (n.child? "order").any aggregates = false := by
    cases hc : n.child? "order" with
    | none => rfl
    | some c => exact h.order c hc
  simp [isGrouped, h.absent "group" (by simp), h.absent "having" (by simp), h.absent "qualify" (by simp), hitems, horder]

/-- A clause that says nothing about groups and limits leaves such a query. -/
theorem set (h : RowSelect n) {key : String} (hkey : key ∈ ["where", "distinct"]) (a : Arg) :
    RowSelect (n.set key (some a)) where
  kind := by rw [kind_set, h.kind]
  absent other hother := by
    have hne : key ≠ other := fun heq => by
      subst heq
      simp only [List.mem_cons, List.not_mem_nil, or_false] at hkey hother
      rcases hkey with rfl | rfl <;> simp at hother
    rw [child?_set_of_ne _ _ hne, h.absent other hother]
  items := by
    have hne : key ≠ "expressions" := by rintro rfl; simp at hkey
    rw [list, list?_set_of_ne _ _ hne]
    exact h.items
  order c hc := by
    have hne : key ≠ "order" := by rintro rfl; simp at hkey
    rw [child?_set_of_ne _ _ hne] at hc
    exact h.order c hc

/-- A list without calls of aggregate functions leaves such a query. -/
theorem withList (h : RowSelect n) {items : List Node} (hitems : ∀ item ∈ items, item.aggregates = false) :
    RowSelect (Convert.withList n items) where
  kind := by rw [Convert.withList, kind_set, h.kind]
  absent other hother := by
    have hne : "expressions" ≠ other := by rintro rfl; simp at hother
    rw [Convert.withList, child?_set_of_ne _ _ hne, h.absent other hother]
  items := by simpa [Convert.withList, list, list?] using hitems
  order c hc := by
    rw [Convert.withList, child?_set_of_ne _ _ (by decide)] at hc
    exact h.order c hc

/-- An order without calls of aggregate functions leaves such a query. -/
theorem setOrder (h : RowSelect n) {c : Node} (hc : c.aggregates = false) :
    RowSelect (n.set "order" (some (.node c))) where
  kind := by rw [kind_set, h.kind]
  absent other hother := by
    have hne : "order" ≠ other := by rintro rfl; simp at hother
    rw [child?_set_of_ne _ _ hne, h.absent other hother]
  items := by
    rw [list, list?_set_of_ne _ _ (by decide)]
    exact h.items
  order c' hc' := by
    rw [child?_set_self] at hc'
    rwa [← Option.some.inj hc']

/-- The stages of such a query: those of its rows, its output, and its order. -/
theorem stagesIn_eq (h : RowSelect n) : n.stagesIn E db outer = (do
    let source ← n.clause "from" (fun _ => [[]]) (tuples E db outer)
    let condition ← n.clause "where" always (scalar E db (n.fromNames db outer))
    let output ← n.output E db (n.fromNames db outer)
    let order ← n.clause "order" none (orderIn E db (n.frame db.schema).cells.length (n.orderNames db outer))
    return ⟨⟨source, condition, fun _ rows => rows.map fun row => ⟨row, [row]⟩⟩, always, always, output,
      n.flag "distinct", order, fun _ => none, fun _ => none, (n.frame db.schema).cells.length⟩) := by
  have hlevels : ∀ keys, levelsOf E n keys = some fun _ rows => rows.map fun row => ⟨row, [row]⟩ := fun keys => by
    simp [levelsOf, h.absent "group" (by simp), h.isGrouped_eq]
  have habsent : ∀ {α : Type} (key : String) (absent : α) (value : Node → Option α),
      key ∈ ["group", "having", "qualify", "limit", "offset"] → n.clause key absent value = some absent :=
    fun key absent value hkey => by rw [clause, h.absent _ hkey]
  unfold stagesIn groupingIn
  rw [habsent "having" _ _ (by simp), habsent "qualify" _ _ (by simp), habsent "limit" _ _ (by simp),
    habsent "offset" _ _ (by simp), hlevels]
  cases n.clause "from" (fun _ => [[]]) (tuples E db outer) with
  | none => rfl
  | some source =>
    cases n.clause "where" always (scalar E db (n.fromNames db outer)) with
    | none => rfl
    | some condition => rfl

/-- A query that has rows selects rows of FROM and has an output. -/
theorem selected_of_rows (h : RowSelect n) {v : Focus → List Row} (hv : n.rows E db outer = some v) :
    ∃ t o, n.selected E db outer = some t ∧ n.output E db (n.fromNames db outer) = some o := by
  rw [rows_select h.kind, h.stagesIn_eq] at hv
  simp only [Option.bind_eq_bind, Option.pure_def, Option.map_eq_some_iff, Option.bind_eq_some_iff,
    Option.some.injEq] at hv
  obtain ⟨-, ⟨source, hsource, condition, hcondition, output, houtput, -⟩, -⟩ := hv
  have hselected : n.selected E db outer
      = some fun f => (source f).filter fun row => holds (condition (⟨row, [row]⟩ :: f)) := by
    rw [selected, hsource, Option.bind_eq_bind, Option.bind_some, hcondition]
    rfl
  exact ⟨_, output, hselected, houtput⟩

/-- **The bag of a query of rows**: its output for each row of FROM on which WHERE holds. -/
theorem exists_rows (h : RowSelect n) {t : Focus → List Row} (ht : n.selected E db outer = some t) {out : Focus → Row}
    (hout : n.output E db (n.fromNames db outer) = some fun s => out s.focus)
    (horder : ∀ c, n.child? "order" = some c →
      (orderIn E db (n.frame db.schema).cells.length (n.orderNames db outer) c).isSome = true) :
    ∃ v, n.rows E db outer = some v ∧ ∀ f, ((v f : List Row) : Multiset Row)
      = distinctBag (n.flag "distinct") ((t f).map fun row => out (⟨row, [row]⟩ :: f) : List Row) := by
  obtain ⟨order, horder⟩ : ∃ order, n.clause "order" none
      (orderIn E db (n.frame db.schema).cells.length (n.orderNames db outer)) = some order := by
    unfold clause
    cases hc : n.child? "order" with
    | none => exact ⟨none, rfl⟩
    | some c => exact Option.isSome_iff_exists.mp (horder c hc)
  simp only [selected, Option.bind_eq_bind, Option.bind_eq_some_iff, Option.pure_def, Option.some.injEq] at ht
  obtain ⟨source, hsource, condition, hcondition, rfl⟩ := ht
  rw [rows_select h.kind, h.stagesIn_eq, hsource, hcondition, hout, horder]
  exact ⟨_, rfl, fun f => Stages.bag_run rfl rfl rfl rfl rfl (fun _ => rfl) f⟩

/-- Where no rows are left out, the bag of a query of rows is its output for each row that it selects. -/
theorem bag_of_rows (h : RowSelect n) (horder : n.child? "order" = none) (hdistinct : n.flag "distinct" = false)
    {t : Focus → List Row} (ht : n.selected E db outer = some t) {out : Focus → Row}
    (hout : n.output E db (n.fromNames db outer) = some fun s => out s.focus) {v : Focus → List Row}
    (hv : n.rows E db outer = some v) (f : Focus) :
    ((v f : List Row) : Multiset Row) = ((t f).map fun row => out (⟨row, [row]⟩ :: f) : List Row) := by
  obtain ⟨w, hw, hbag⟩ := h.exists_rows ht hout fun c hc => by rw [horder] at hc; cases hc
  obtain rfl : w = v := Option.some.inj (hw.symm.trans hv)
  rw [hbag, hdistinct, distinctBag, if_neg (by simp)]

/-- Clauses behind WHERE leave the selected rows. -/
theorem selected_set (h : RowSelect n) {key : String} (hkey : key ∉ ["from", "where"]) (a : Arg) :
    (n.set key (some a)).selected E db outer = n.selected E db outer := by
  have hclause : ∀ {α : Type} {other : String} (absent : α) (value : Node → Option α), other ∈ ["from", "where"] →
      (n.set key (some a)).clause other absent value = n.clause other absent value := fun absent value hother => by
    rw [clause, clause, child?_set_of_ne _ _ (ne_of_mem_of_not_mem hother hkey).symm]
  have hframe : (n.set key (some a)).fromNames db outer = n.fromNames db outer := by
    rw [fromNames, fromNames, frame_set h.kind fun heq => hkey (by simp [heq])]
  rw [selected, selected, hclause _ _ (by simp), hclause _ _ (by simp), hframe]

/-- Clauses other than FROM and the select list leave the output. -/
theorem output_set (h : RowSelect n) {key : String} (hkey : key ∉ ["from", "expressions"]) (a : Arg) :
    (n.set key (some a)).output E db ((n.set key (some a)).fromNames db outer) = n.output E db (n.fromNames db outer) := by
  simp only [List.mem_cons, List.not_mem_nil, or_false, not_or] at hkey
  rw [output, output, list, list, list?_set_of_ne _ _ hkey.2, fromNames, fromNames, frame_set h.kind hkey.1]

end RowSelect

/-! ## Sort keys -/

/-- What has a value under some names has one under further names. -/
theorem analytic_isSome_mono {names names' : Names}
    (hnames : ∀ qualifier name, (names qualifier name).isSome = true → (names' qualifier name).isSome = true) (m : Node)
    (h : (m.analytic E db names).isSome = true) : (m.analytic E db names').isSome = true := by
  -- no two foci correspond, so only that there is a value is carried over
  have hbelow : Names.Below (OnTop fun _ _ => False) names names' := fun qualifier name v hv => by
    obtain ⟨v', hv'⟩ := Option.isSome_iff_exists.mp (hnames qualifier name (by rw [hv]; rfl))
    exact ⟨v', hv', fun f g hfg => absurd hfg (by rintro ⟨-, -, -, -, -, hfalse⟩; exact hfalse)⟩
  obtain ⟨v, hv⟩ := Option.isSome_iff_exists.mp h
  obtain ⟨v', hv', -⟩ := (steady_meaning E db m).analytic _ _ _ hbelow v hv
  exact Option.isSome_iff_exists.mpr ⟨v', hv'⟩

/-- In ORDER BY every name has a value that has one elsewhere, and so have the names of items. -/
theorem orderNames_isSome (qualifier : Option String) (name : String)
    (h : (n.fromNames db outer qualifier name).isSome = true ∨ (Names.itemPlace? n.itemNames qualifier name).isSome = true) :
    (n.orderNames db outer qualifier name).isSome = true := by
  unfold orderNames Names.itemsFirst
  cases hplace : Names.itemPlace? n.itemNames qualifier name with
  | some place => rfl
  | none =>
    rw [hplace] at h
    exact h.resolve_right (by simp)

/-- Operations on expressions with values have values. -/
theorem congruent_valued (names : Names) : Congruent fun m _ => (m.analytic E db names).isSome = true where
  args {k as bs} hk h := by
    rw [analytic_isSome_of_operation hk]
    intro c hc
    obtain ⟨i, hi, rfl⟩ := List.mem_iff_getElem.mp hc
    have hchildren := children_rel (k := k) h
    exact (List.forall₂_iff_get.mp hchildren).2 i hi (hchildren.length_eq ▸ hi)

/-- An order has values if its keys have; positions of items always have one. -/
theorem orderIn_isSome {keys : List Node} {names : Names} (h : ∀ key ∈ keys, (key.analytic E db names).isSome = true)
    (width : Nat) : (orderIn E db width names (Node.order keys)).isSome = true := by
  have hlist : (Node.order keys).list? "expressions" = some keys := by simp [Node.order, list?]
  have hkeys : (((Node.order keys).meaning E db).keys width names).isSome = true := by
    rw [meaning_eq]
    show (sortKeysOf E width names ((Node.order keys).list "expressions")
      (((Node.order keys).partsOf E db).several "expressions")).isSome = true
    rw [several_partsOf hlist, Node.list, hlist, sortKeysOf, Option.isSome_map, Option.getD_some, List.zipWith_map_right,
      List.zipWith_self, together_isSome_iff]
    intro key hkey
    unfold Node.sortKeyOf
    split
    · rfl
    · exact h key hkey
  rw [orderIn, Option.isSome_map]
  exact hkeys

end Sql.Node

end AlgebraSql
