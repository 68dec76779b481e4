import AlgebraSql.Proofs.OneValue
import AlgebraSql.Proofs.SelectRows
import AlgebraSql.Proofs.Steps

/-!
# Shapes — what the query for a plan without joins looks like.

The result of such a plan is a table, constant rows under a name, or a query.  A SELECT among them is
a star, or lists one item of one value for each column of the plan; whatever it is, the query exposes
the columns of the plan, and its rows have that width.  When an operator opens a result, it gets the
SELECT as it is, or a star over a FROM item that has the rows of the statement for the plan.
-/

namespace AlgebraSql.Convert

open Sql Node

variable {env : Env} {sub : Rel → ConvertM Node} {s s' : State} {schema : Schema}

/-! ## Select items -/

/-- An expression of a select list: it has one value, and no name of its own unless it is a column. -/
structure Item (n : Node) : Prop where
  oneValued : n.OneValued
  unnamed : n.aliasOf? = none ∨ ∃ name table, n = Node.column name table

theorem item_column (name : String) (table : Option String) : Item (Node.column name table) :=
  ⟨oneValued_column name table, .inr ⟨name, table, rfl⟩⟩

/-- **Expressions** are items if their fields are. -/
theorem produced_item : Produced Item where
  of_kind {n} h := ⟨produced_oneValued.of_kind h, by
    have hwritten : Written [] n := (produced_written []).of_kind h
    cases hwritten with
    | field hname => cases hname
    | qualified name table => exact .inr ⟨name, _, rfl⟩
    | built _ halias => exact .inl halias⟩
  subquery q := ⟨produced_oneValued.subquery q, .inl (by
    simp [Node.subquery, Node.wrap, aliasOf?, isFromItem, aliasName, nameUnder])⟩
  qualified name table := item_column name (some table)

theorem kind_typedNull (d : Dialect) (type : DataType) : (typedNull d type).kind ∉ partKinds := by
  have hkind : (typedNull d type).kind = .null ∨ (typedNull d type).kind = .cast := by
    unfold typedNull
    split
    · exact .inl rfl
    · exact .inr rfl
  rcases hkind with hk | hk <;> simp [hk]

theorem item_aggregateNode {ctx : Context} {call : AggregateCall} {n : Node}
    (h : aggregateNode env ctx call = .ok n) : Item n := by
  refine ⟨oneValued_aggregateNode h, .inl ?_⟩
  rcases isAggregate_aggregateNode h with haggregate | ⟨m, -, rfl⟩
  · cases haggregate <;> rfl
  · rfl

/-- A projected expression is as good as what the expression is written as. -/
theorem made_projectedNode {Good : Node → Prop} (hG : Made Good) {ctx : Context} {e : Expr}
    (he : Yields Good (scalarNode env sub ctx e)) {n : Node}
    (h : (projectedNode env sub ctx e).Gives s n s') : Good n := by
  simp only [projectedNode, ConvertM.gives_bind, ConvertM.gives_pure] at h
  obtain ⟨m, t, hm, rfl, -⟩ := h
  split
  · exact hG.of_kind (kind_typedNull _ _)
  · exact he s m t hm

theorem item_projectedNode {ctx : Context} (hfield : ∀ i n, ctx.field env i = .ok n → Item n) {e : Expr}
    (he : readsOuter e = false) {n : Node} (h : (projectedNode env sub ctx e).Gives s n s') : Item n :=
  made_projectedNode produced_item.toMade (produced_scalarNode produced_item hfield e he) h

/-- Windowed calls are no parts of queries. -/
theorem kind_windowGroupNodes {ctx : Context} {constants : List Literal} {width : Ordinal}
    {group : WindowGroup Expr} {ns : List Node}
    (h : (windowGroupNodes env sub ctx constants width group).Gives s ns s') :
    ∀ n ∈ ns, n.kind ∉ partKinds := by
  simp only [windowGroupNodes, ConvertM.gives_bind, ConvertM.gives_lift] at h
  obtain ⟨partition, t, -, order, t', -, hcalls⟩ := h
  have hwindowed : ∀ op args distinct parts, (windowedNode op args distinct parts).kind ∉ partKinds := by
    intro op args distinct parts
    unfold windowedNode
    split <;> simp [orZero, overNode, Node.call]
  have hyields : ∀ call, Yields (fun n => n.kind ∉ partKinds)
      (windowCallNode env sub ctx group.frame constants width partition order call) := by
    intro call
    unfold windowCallNode
    refine .bind_any fun written => .bind_any fun args => ?_
    split <;> exact .bind_any fun frame => .pure (hwindowed _ _ _ _)
  exact Yields.mapM (fun call _ => hyields call) _ _ _ hcalls

theorem item_windowGroupNodes {ctx : Context} {constants : List Literal} {width : Ordinal}
    {group : WindowGroup Expr} {ns : List Node}
    (h : (windowGroupNodes env sub ctx constants width group).Gives s ns s') : ∀ n ∈ ns, Item n :=
  fun n hn => produced_item.of_kind (kind_windowGroupNodes h n hn)

/-- A select list has one item for each column. -/
structure Listed (fields : RowType) (n : Node) (ns : List Node) : Prop where
  list : n.selectList? = some (namedItems ns fields)
  full : ns.length = fields.length
  items : ∀ m ∈ ns, Item m

/-- An item under the name of its column stands for itself. -/
theorem itemField_namedItem {n : Node} (hn : Item n) (name : String) (k : Ordinal) :
    Context.itemField false k (namedItem n name) = .ok n := by
  have hthis : (Node.aliased n name).this? = some n := by simp [Node.aliased, this?, child?]
  have haliased : (Node.aliased n name).is .aliased = true := rfl
  unfold namedItem
  split
  · rename_i hname
    rcases hn.unnamed with hnone | ⟨column, table, rfl⟩
    · simp [hnone] at hname
    · simp [Context.itemField, Node.column]
  · simp [Context.itemField, haliased, hthis]

/-- An item under the name of its column is known by it, or is a column of that name. -/
theorem itemField_namedItem_byName {n : Node} (hn : Item n) (name : String) (k : Ordinal) :
    Context.itemField true k (namedItem n name) = .ok (Node.column name)
      ∨ (∃ table, n = Node.column name table) ∧ Context.itemField true k (namedItem n name) = .ok n := by
  have haliased : (Node.aliased n name).is .aliased = true := rfl
  have hname : (Node.aliased n name).aliasName = name := by simp [Node.aliased, aliasName, nameUnder]
  unfold namedItem
  split
  · rename_i hsame
    right
    rcases hn.unnamed with hnone | ⟨column, table, rfl⟩
    · simp [hnone] at hsame
    · obtain rfl : column = name := by
        simpa [Node.column, aliasOf?, Node.name, text, innerText, identifier] using hsame
      exact ⟨⟨table, rfl⟩, by simp [Context.itemField, Node.column]⟩
  · left
    simp [Context.itemField, haliased, hname]

theorem Listed.getElem? {fields : RowType} {n : Node} {ns : List Node} (h : Listed fields n ns) {i : Nat}
    {f : Field} (hf : fields[i]? = some f) : ∃ m ∈ ns, ns[i]? = some m
      ∧ (namedItems ns fields)[i]? = some (namedItem m f.name) := by
  have hi : i < ns.length := h.full ▸ (List.getElem?_eq_some_iff.mp hf).1
  exact ⟨ns[i], List.getElem_mem hi, by simp, by simp [namedItems, List.getElem?_zipWith, hi, hf]⟩

/-! ## Queries -/

/-- The clauses of a SELECT that hold a condition on its groups, and their kinds. -/
def groupConditions : List (String × Kind) := [("having", .having), ("qualify", .qualify)]

/-- A SELECT for a plan: a star over one FROM item or a full list of items, which exposes the columns of
the plan.  A plan without columns has nothing that it could expose. -/
structure Shaped (schema : Schema) (fields : RowType) (n : Node) : Prop where
  kind : n.kind = .select
  plain : isPlainQuery n = true
  items : n.selectList? = none ∨ ∃ ns, Listed fields n ns
  frame : n.selectList? = none → ∃ own columns, n.frame schema = [(own, columns)]
  columns : n.columns schema = fields.names ∨ fields = []
  conditions : ∀ p ∈ groupConditions, ∀ c, n.child? p.1 = some c → ∃ e, c = Node.wrap p.2 e

/-- A full list of items has the columns that it names. -/
theorem selectColumns_namedItems {fields : RowType} {ns : List Node} (h : ns.length = fields.length)
    (F : Sql.Frame) : selectColumns (some (namedItems ns fields)) F = fields.names ∨ fields = [] := by
  have hnames := outputNames_namedItems h
  cases hitems : namedItems ns fields with
  | nil =>
    rw [hitems] at hnames
    exact .inr (by simpa [RowType.names] using hnames.symm)
  | cons item items =>
    left
    simp only [selectColumns]
    rw [← hitems, hnames]

/-- Items have the names of columns, whatever their types. -/
theorem namedItems_congr {fields other : RowType} (h : fields.names = other.names) (ns : List Node) :
    namedItems ns fields = namedItems ns other := by
  have hmap : ∀ fields : RowType, namedItems ns fields = List.zipWith namedItem ns fields.names := by
    intro fields
    simp [namedItems, RowType.names, List.zipWith_map_right]
  rw [hmap, hmap, h]

namespace Shaped

variable {fields : RowType} {n : Node}

/-- A clause leaves the shape. -/
theorem set (h : Shaped schema fields n) {key : String} (a : Arg) (hkey : key ∉ ["from", "expressions", "alias"])
    (hcondition : ∀ p ∈ groupConditions, p.1 = key → ∃ e, a = .node (Node.wrap p.2 e)) :
    Shaped schema fields (n.set key (some a)) := by
  simp only [List.mem_cons, List.not_mem_nil, or_false, not_or] at hkey
  have hlist : (n.set key (some a)).selectList? = n.selectList? := list?_set_of_ne n a hkey.2.1
  refine ⟨by simp [h.kind], isPlainQuery_set h.plain hkey.2.2 a, ?_, ?_, ?_, fun p hp c hc => ?_⟩
  · rw [hlist]
    exact h.items.imp_right fun hlisted => hlisted.imp fun ns hns => ⟨by rw [hlist]; exact hns.list, hns.full, hns.items⟩
  · rw [hlist, frame_set h.kind hkey.1]
    exact h.frame
  · rw [columns_select (by simp [h.kind]), frame_set h.kind hkey.1, hlist, ← columns_select h.kind]
    exact h.columns
  · by_cases hsame : p.1 = key
    · obtain ⟨e, rfl⟩ := hcondition p hp hsame
      subst hsame
      exact ⟨e, by simpa [child?, eq_comm] using hc⟩
    · rw [child?_set_of_ne n a (Ne.symm hsame)] at hc
      exact h.conditions p hp c hc

/-- A clause that holds no condition on groups leaves the shape. -/
theorem set_of_ne (h : Shaped schema fields n) {key : String} (a : Arg)
    (hkey : key ∉ ["from", "expressions", "alias", "having", "qualify"]) :
    Shaped schema fields (n.set key (some a)) := by
  simp only [List.mem_cons, List.not_mem_nil, or_false, not_or] at hkey
  refine h.set a (by simp [hkey.1, hkey.2.1, hkey.2.2.1]) fun p hp hsame => ?_
  simp only [groupConditions, List.mem_cons, List.not_mem_nil, or_false] at hp
  rcases hp with rfl | rfl
  · exact absurd hsame.symm hkey.2.2.2.1
  · exact absurd hsame.symm hkey.2.2.2.2

/-- A full list of items has the shape of the columns that it names. -/
theorem withList {other : RowType} (h : Shaped schema other n) {ns : List Node}
    (hfull : ns.length = fields.length) (hitems : ∀ m ∈ ns, Item m) :
    Shaped schema fields (withList n (namedItems ns fields)) := by
  have hlist : (Convert.withList n (namedItems ns fields)).selectList? = some (namedItems ns fields) := by
    simp [Convert.withList, selectList?, list?]
  have hkind : (Convert.withList n (namedItems ns fields)).kind = .select := by
    simp [Convert.withList, h.kind]
  refine ⟨hkind, isPlainQuery_set h.plain (by decide) _, .inr ⟨ns, hlist, hfull, hitems⟩, ?_, ?_,
    fun p hp c hc => h.conditions p hp c ?_⟩
  · simp [hlist]
  · rw [columns_select hkind, hlist]
    exact selectColumns_namedItems hfull _
  · have hne : "expressions" ≠ p.1 := by
      simp only [groupConditions, List.mem_cons, List.not_mem_nil, or_false] at hp
      rcases hp with rfl | rfl <;> decide
    rwa [Convert.withList, child?_set_of_ne n _ hne] at hc

/-- Columns of the same names have the same shape. -/
theorem congr {other : RowType} (h : Shaped schema other n) (hnames : fields.names = other.names) :
    Shaped schema fields n := by
  have hlength : fields.length = other.length := by
    have := congrArg List.length hnames
    simpa [RowType.names] using this
  refine ⟨h.kind, h.plain, ?_, h.frame, ?_, h.conditions⟩
  · exact h.items.imp_right fun hlisted => hlisted.imp fun ns hns =>
      ⟨by rw [namedItems_congr hnames]; exact hns.list, by rw [hlength]; exact hns.full, hns.items⟩
  · rw [hnames]
    refine h.columns.imp_right fun hempty => ?_
    rw [← List.length_eq_zero_iff, hlength, hempty]
    rfl

/-- A star reads from one item, which has the columns of the plan. -/
theorem frame_of_star (h : Shaped schema fields n) (hstar : n.selectList? = none) :
    ∃ own columns, n.frame schema = [(own, columns)] ∧ (columns = fields.names ∨ fields = []) := by
  obtain ⟨own, columns, hframe⟩ := h.frame hstar
  have hcolumns := h.columns
  rw [columns_select h.kind, hstar, hframe] at hcolumns
  exact ⟨own, columns, hframe, by simpa [selectColumns] using hcolumns⟩

/-- A SELECT declares the columns of its plan or none. -/
theorem declaredNames_eq (h : Shaped schema fields n) :
    declaredNames fields n = [] ∨ declaredNames fields n = fields.names.map some :=
  declaredNames_select h.plain h.kind (h.items.imp_right fun hlisted => hlisted.imp fun _ hns => ⟨hns.list, hns.full⟩)

/-- The columns that a SELECT declares are those of its plan. -/
theorem declaredFields_eq {rel : Rel} (h : Shaped schema rel.fields n) : declaredFields rel n = rel.fields :=
  declaredFields_select h.plain h.kind
    (h.items.imp_right fun hlisted => hlisted.imp fun _ hns => ⟨hns.list, hns.full⟩)

end Shaped

/-- The rows of a query have its columns. -/
def Wide (schema : Schema) (n : Node) : Prop :=
  ∀ {E : Engine} {db : Database} {names : Names} {v : Focus → List Row}, db.schema = schema →
    n.rows E db names = some v → ∀ f, ∀ row ∈ v f, row.length = (n.columns schema).length

theorem wide_select {n : Node} (hn : n.kind = .select) : Wide schema n := by
  rintro E db names v rfl hv f
  exact length_rows_select hn hv f

/-- A set operation makes no rows. -/
theorem Row.mem_combine {op : SetOperator} {distinct : Bool} {l r : List Row} {row : Row}
    (h : row ∈ Row.combine op distinct l r) : row ∈ l ∨ row ∈ r := by
  cases op with
  | union =>
    refine List.mem_append.mp ?_
    cases distinct with
    | false => exact h
    | true => exact List.mem_dedup.mp h
  | intersect =>
    left
    cases distinct with
    | false =>
      have hsame : (List.instBEq : BEq Row) = instBEqOfDecidableEq := lawful_beq_subsingleton _ _
      change row ∈ @List.bagInter Row List.instBEq l r at h
      rw [hsame] at h
      exact List.bagInter_sublist_left.subset h
    | true => exact List.mem_of_mem_filter (List.mem_dedup.mp h)
  | except =>
    left
    cases distinct with
    | false => exact List.diff_subset _ _ h
    | true => exact List.mem_of_mem_filter (List.mem_dedup.mp h)

/-- A set operation on queries puts rows of one width together. -/
theorem wide_setOperation {op : SetOperator} {distinct : Bool} {l r : Node} (hl : Wide schema l)
    (hr : Wide schema r) : Wide schema (Node.setOperation (setKind op) l r distinct) := by
  rintro E db names v rfl hv f row hrow
  set n := Node.setOperation (setKind op) l r distinct with hn
  have hleft : n.child? "this" = some l := by simp [hn, Node.setOperation, child?]
  have hright : n.child? "expression" = some r := by simp [hn, Node.setOperation, child?]
  have hkind : n.kind = setKind op := rfl
  rw [rows_eq, rowsStep, hkind] at hv
  have hstep : (do
      let op ← setOperator? (setKind op)
      let left ← ((n.partsOf E db).only "this").rows names
      let right ← ((n.partsOf E db).only "expression").rows names
      if n.isLevel db then some fun f => Row.combine op (n.flag "distinct") (left f) (right f)
        else none) = some v := by
    cases op <;> exact hv
  simp only [only_partsOf hleft, only_partsOf hright, Option.bind_eq_bind, Option.bind_eq_some_iff] at hstep
  obtain ⟨op', -, left, hlv, right, hrv, hlevel⟩ := hstep
  split at hlevel
  · rename_i hsame
    cases hlevel
    simp only [isLevel, hleft, hright, beq_iff_eq] at hsame
    rw [columns_setOperation (n := n) (setKind_traits op).2.2.1 hleft]
    rcases Row.mem_combine hrow with hmem | hmem
    · exact hl rfl hlv f row hmem
    · rw [hsame]
      exact hr rfl hrv f row hmem
  · cases hlevel

end AlgebraSql.Convert
