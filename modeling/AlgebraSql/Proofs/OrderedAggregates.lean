import AlgebraSql.Proofs.BareExpressions
import AlgebraSql.Proofs.OpenedOperators
import AlgebraSql.Proofs.ProjectedGroups

/-!
# Ordered aggregates — the sort keys inside WITHIN GROUP.

An aggregate may take its rows in an order.  Its sort keys are written like those of a query, where a position means
a select item; inside an aggregate a position is a mere constant.  A key is the expression that stands for its field,
with a text in place of a number.  Only if another column of the input has the name of the column that stands for the
field, its position takes its place.
-/

namespace AlgebraSql

/-- **`hides`** — another column of the row type is known by the name. -/
def RowType.hides (fields : RowType) (i : Ordinal) (name : String) : Bool :=
  fields.names.zipIdx.any fun (other, j) => i != .whole j && Text.lower other == Text.lower name

namespace Convert

open Sql Node

variable {env : Env} {sub : Rel → ConvertM Node} {ctx : Context} {fields : RowType} {n : Node}

/-! ## Sort keys -/

/-- An expression as a sort key: a text in place of a number, which would be read as a position. -/
def asSortKey (n : Node) : Node := if isNumber n then Node.string (n.text "this") else n

/-- The expression is a column without a qualifier under whose name another column of the row type is known. -/
def isHidden (fields : RowType) (i : Ordinal) (n : Node) : Bool :=
  n.is .column && n.table == "" && fields.hides i n.name

/-- The sort key for a field: the field itself or, if another column hides it, its position. -/
def IsKeyFor (fields : RowType) (i : Ordinal) (n key : Node) : Prop :=
  key = asSortKey n ∨ isHidden fields i n = true ∧ ∃ k : Nat, i = .whole k ∧ key = Node.number (toString (k + 1))

/-- **`OrdersBy`** — the sort keys for a key order by what stands for its field. -/
def OrdersBy (env : Env) (ctx : Context) (fields : RowType) (c : Collation) (keys : List Node) : Prop :=
  ∃ n key, ctx.field env c.key = .ok n ∧ IsKeyFor fields c.key n key
    ∧ keys = sortKeys env.dialect n key c.direction c.nulls

/-- The items of a select list are known by the names of the columns. -/
def ListsNames (fields : RowType) (items : List Node) : Prop :=
  ∀ (i : Nat) item, items[i]? = some item → ∃ name, fields.names[i]? = some name ∧ item.aliasOf? = some name

/-- The fields of an input, as a query over it knows them: columns of FROM, or items under the names of the columns. -/
inductive KnownAs (fields : RowType) : Context → Prop
  | columns (inputs : Aliases) (qualified : Bool) : KnownAs fields (.aliases inputs qualified)
  | items {items : List Node} (h : ListsNames fields items) (byName grouped : Bool) :
    KnownAs fields (.selectList items byName grouped)

/-- What another item is known by is the name of another column. -/
theorem hides_of_isShadowed {items : List Node} (h : ListsNames fields items) {i : Nat} {name : String}
    (hshadowed : Context.isShadowed items i (Text.lower name) = true) : fields.hides i name = true := by
  obtain ⟨⟨item, j⟩, hmem, hitem⟩ := List.any_eq_true.mp hshadowed
  have hj : items[j]? = some item := List.mk_mem_zipIdx_iff_getElem?.mp hmem
  obtain ⟨other, hother, halias⟩ := h j item hj
  simp only [halias, Option.map_some, Bool.and_eq_true, bne_iff_ne, ne_eq, beq_iff_eq, Option.some.injEq] at hitem
  refine List.any_eq_true.mpr ⟨(other, j), List.mk_mem_zipIdx_iff_getElem?.mpr hother, ?_⟩
  simp only [Bool.and_eq_true, bne_iff_ne, ne_eq, beq_iff_eq, hitem.2, and_true]
  rintro heq
  exact hitem.1 (by simpa [eq_comm] using heq)

/-- **`orderField`** — a field is ordered by as itself, or by its position if another column hides it. -/
theorem isKeyFor_orderField (henv : env.fieldMap = []) (hctx : KnownAs fields ctx) {i : Ordinal}
    (hn : ctx.field env i = .ok n) {key : Node} (hkey : ctx.orderField env i = .ok key) : IsKeyFor fields i n key := by
  cases hctx with
  | columns inputs qualified =>
    obtain rfl : n = key := Except.ok.inj (hn.symm.trans hkey)
    have hcolumn : n.is .literal = false :=
      (column_of_aliases henv hn).elim fun _ h => h.elim fun _ h => by rw [h]; rfl
    exact .inl (by simp [asSortKey, isNumber, hcolumn])
  | @items items h byName grouped =>
    simp only [Context.orderField, hn, bind_eq_ok_iff, pure_eq_ok_iff, Except.ok.injEq, exists_eq_left'] at hkey
    obtain ⟨k, rfl⟩ : ∃ k : Nat, i = .whole k := by
      rw [Context.field] at hn
      split at hn
      · rename_i hitem
        exact ((nth?_isSome_iff _ i).mp (by rw [hitem]; rfl)).imp fun _ h => h.2
      · cases hn
    obtain rfl : Context.sortKeyOf items k n = key := by simpa using hkey
    unfold Context.sortKeyOf
    split
    · rename_i hnumber
      exact .inl (by rw [asSortKey, isNumber, if_pos hnumber])
    · rename_i hnumber
      split
      · rename_i hshadowed
        rw [Bool.and_eq_true] at hshadowed
        exact .inr ⟨by simp [isHidden, hshadowed.1, hides_of_isShadowed h hshadowed.2], k, rfl, rfl⟩
      · exact .inl (by rw [asSortKey, isNumber, if_neg hnumber])

/-! ## Aggregate calls -/

/-- **`IsOrdered`** — an aggregate that takes its rows in the order of its fields. -/
def IsOrdered (env : Env) (ctx : Context) (fields : RowType) (call : AggregateCall) (n : Node) : Prop :=
  ∃ inner keys, (n = withinGroup inner keys.flatten ∨ n = orZero (withinGroup inner keys.flatten))
    ∧ List.Forall₂ (OrdersBy env ctx fields) call.collation keys

theorem ordersBy_collationNodes (henv : env.fieldMap = []) (hctx : KnownAs fields ctx) {c : Collation}
    {keys : List Node} (h : collationNodes env ctx c = .ok keys) : OrdersBy env ctx fields c keys := by
  simp only [collationNodes, bind_eq_ok_iff, pure_eq_ok_iff] at h
  obtain ⟨n, hn, key, hkey, rfl⟩ := h
  exact ⟨n, key, hn, isKeyFor_orderField henv hctx hn hkey, rfl⟩

theorem forall₂_collationsNodes (henv : env.fieldMap = []) (hctx : KnownAs fields ctx) {cs : List Collation}
    {items : List Node} (h : collationsNodes env ctx cs = .ok items) :
    ∃ keys, items = keys.flatten ∧ List.Forall₂ (OrdersBy env ctx fields) cs keys := by
  simp only [collationsNodes, bind_eq_ok_iff, pure_eq_ok_iff, mapM_eq_ok_iff] at h
  obtain ⟨keys, hkeys, rfl⟩ := h
  exact ⟨keys, rfl, hkeys.imp fun _ _ => ordersBy_collationNodes henv hctx⟩

/-- An aggregate of nodes with an order ends in the sort keys for it. -/
theorem withinGroup_of_plainAggregate {op : Operator} {distinct : Bool} {args : List Node} {filter : Option Ordinal}
    {cs : List Collation} (hcs : cs ≠ []) (h : plainAggregate env ctx op distinct args filter cs = .ok n) :
    ∃ inner items, collationsNodes env ctx cs = .ok items ∧ n = withinGroup inner items := by
  have hcollated : ∀ {c : Node}, (if cs.isEmpty then .ok c
      else do return withinGroup c (← collationsNodes env ctx cs) : Except Error Node) = .ok n →
      ∃ inner items, collationsNodes env ctx cs = .ok items ∧ n = withinGroup inner items := by
    intro c hc
    simp only [List.isEmpty_iff, hcs, if_false, bind_eq_ok_iff, pure_eq_ok_iff] at hc
    obtain ⟨items, hitems, rfl⟩ := hc
    exact ⟨c, items, hitems, rfl⟩
  unfold plainAggregate at h
  cases filter with
  | none =>
    simp only [pure_bind, bind_eq_ok_iff] at h
    obtain ⟨name, -, h⟩ := h
    exact hcollated h
  | some i =>
    by_cases hplace : env.dialect.capabilities.aggregateFilter = true
    · simp only [hplace, if_true, pure_bind, bind_eq_ok_iff] at h
      obtain ⟨name, -, condition, -, h⟩ := h
      exact hcollated h
    · simp only [hplace, Bool.false_eq_true, if_false, pure_bind, bind_eq_ok_iff] at h
      obtain ⟨condition, -, name, -, h⟩ := h
      exact hcollated h

/-- An aggregate with an order is ordered by its fields. -/
theorem isOrdered_aggregateNode (henv : env.fieldMap = []) (hctx : KnownAs fields ctx) {call : AggregateCall}
    (hcall : call.collation ≠ []) (h : aggregateNode env ctx call = .ok n) : IsOrdered env ctx fields call n := by
  simp only [aggregateNode, bind_eq_ok_iff] at h
  obtain ⟨args, -, h⟩ := h
  split at h
  · simp only [bind_eq_ok_iff, pure_eq_ok_iff] at h
    obtain ⟨m, hm, rfl⟩ := h
    obtain ⟨inner, items, hitems, rfl⟩ := withinGroup_of_plainAggregate hcall hm
    obtain ⟨keys, rfl, hkeys⟩ := forall₂_collationsNodes henv hctx hitems
    exact ⟨inner, keys, .inr rfl, hkeys⟩
  · obtain ⟨inner, items, hitems, rfl⟩ := withinGroup_of_plainAggregate hcall h
    obtain ⟨keys, rfl, hkeys⟩ := forall₂_collationsNodes henv hctx hitems
    exact ⟨inner, keys, .inl rfl, hkeys⟩

/-! ## Named select lists -/

/-- The select list, if there is one, shows the columns under their names. -/
def ListsColumns (fields : RowType) (n : Node) : Prop := ∀ items, n.selectList? = some items → ListsNames fields items

section Queries

variable {x r : Result} {rel input : Rel} {b : Builder} {expected : List Clause} {ignores : Bool}

theorem listsNames_namedItems (ns : List Node) (fields : RowType) : ListsNames fields (namedItems ns fields) := by
  intro i item hitem
  obtain ⟨n, f, -, hf, rfl⟩ := List.getElem?_zipWith_eq_some.mp hitem
  exact ⟨f.name, by simp [RowType.names, hf], aliasOf?_namedItem _ _⟩

/-- The fields of an opened query are known as those of the query. -/
theorem OpenedAs.knownAs (hb : OpenedAs env (x.expecting expected ignores) rel b)
    (hx : ListsColumns fields x.node) : ListsColumns fields b.select ∧ KnownAs fields b.context := by
  rcases hb.context with ⟨items, byName, grouped, -, -, hsame, hlist, hctx⟩ | ⟨hnone, inputs, qualified, hctx⟩
  · exact ⟨by rw [hsame]; exact hx, hctx ▸ .items (hx items hlist) byName grouped⟩
  · exact ⟨fun items hlist => by simp [hnone] at hlist, hctx ▸ .columns inputs qualified⟩

/-- A filter keeps the select list. -/
theorem listsColumns_filterResult {condition : Expr} {ids : List String} (hx : ListsColumns fields x.node) :
    Yields (fun r => ListsColumns fields r.node) (filterResult env sub input condition ids rel x) := by
  intro s r s' h
  obtain ⟨b, s₁, c, s₂, hb, -, hr⟩ := opened_filterResult h
  rw [hr.node_eq, ListsColumns, selectList?_withCondition]
  exact (hb.openedAs.knownAs hx).1

/-- A projection lists its expressions, or the columns of its input under the same names. -/
theorem listsColumns_projectResult {projects : List Expr} {distinct : Bool} {ids : List String}
    (hx : ListsColumns input.fields x.node) :
    Yields (fun r => ListsColumns rel.fields r.node) (projectResult env sub input projects distinct ids rel x) := by
  intro s r s' h
  obtain ⟨b, s₁, n, s₂, hb, hn, hr⟩ := opened_projectResult h
  have hlist : ListsColumns rel.fields n := by
    rcases hn with ⟨hidentity, rfl, -⟩ | ⟨-, ns, -, -, rfl⟩
    · have hnames : rel.fields.names = input.fields.names := by simp_all [isIdentity]
      simpa only [ListsColumns, ListsNames, hnames] using (hb.openedAs.knownAs hx).1
    · rw [ListsColumns, selectList?_withList]
      rintro _ ⟨⟩
      exact listsNames_namedItems ns rel.fields
  rw [hr.node_eq]
  split
  · rw [ListsColumns, selectList?_set (by decide)]
    exact hlist
  · exact hlist

/-- A table has no select list. -/
theorem listsColumns_scanResult {table : List String} :
    Yields (fun r => ListsColumns fields r.node) (scanResult env table rel) := by
  have htable : Yields (fun n => n.selectList? = none) (liftM (Node.table? table) : ConvertM Node) :=
    .lift fun n hn => selectList?_table hn
  refine htable.bind fun n hn s r s' h => ?_
  rw [(makeResult_traits h).1]
  exact fun items hlist => by simp [hn] at hlist

/-- **The query** for a tree of tables, filters and projections lists the columns of the tree, if it lists any. -/
theorem listsColumns_relationResult (root : Bool) (rel : Rel) (htree : rel.every readsRows = true) :
    Yields (fun r => ListsColumns rel.fields r.node) (relationResult env sub root rel) := by
  cases rel with
  | scan table fields => exact listsColumns_scanResult
  | filter input condition ids =>
    simp only [Rel.every, Bool.and_eq_true] at htree
    exact .bind (listsColumns_relationResult false input htree.2) fun x hx => listsColumns_filterResult hx
  | project input projects names distinct ids =>
    simp only [Rel.every, Bool.and_eq_true] at htree
    exact .bind (listsColumns_relationResult false input htree.2) fun x hx => listsColumns_projectResult hx
  | _ => simp [Rel.every, readsRows] at htree

end Queries

/-! ## Aggregations -/

/-- **`OrdersRows`** — in a context, the keys and the calls of an aggregation become the items of a query, and each call
with an order takes the rows in the order of the fields.  A constant is the only item if there is no other. -/
structure OrdersRows (env : Env) (ctx : Context) (input : Rel) (keys : List Ordinal) (calls : List AggregateCall)
    (fields : RowType) (n : Node) : Prop where
  known : KnownAs input.fields ctx
  listed : ∃ ks ns, keys.mapM (ctx.field env) = .ok ks
    ∧ List.Forall₂ (fun call n => aggregateNode env ctx call = .ok n
        ∧ (call.collation ≠ [] → IsOrdered env ctx input.fields call n)) calls ns
    ∧ n.selectList? = some (if (namedItems (ks ++ ns) fields).isEmpty then [Node.number "1"]
      else namedItems (ks ++ ns) fields)

/-- An aggregation orders the rows of its calls by the fields of its input. -/
theorem ordersRows_aggregateResult (henv : env.fieldMap = []) {x : Result} {rel input : Rel} {keys : List Ordinal}
    {sets : List (List Ordinal)} {calls : List AggregateCall} (hx : ListsColumns input.fields x.node) {r : Result}
    {s s' : State} (h : (aggregateResult env keys sets calls rel x).Gives s r s') :
    ∃ b s₁, ((x.expecting [.groupBy] (ignoresClauses rel)).builder env rel).Gives s b s₁
      ∧ OrdersRows env b.context input keys calls rel.fields r.node := by
  obtain ⟨b, s₁, ks, gs, ns, hb, hks, -, hns, -, hr⟩ := opened_aggregateResult h
  have hknown : KnownAs input.fields b.context := ((openedAs_builder hb).knownAs hx).2
  refine ⟨b, s₁, hb, hknown, ks, ns, hks, ?_, by rw [hr.node_eq, selectList?_aggregated]⟩
  exact ((mapM_eq_ok_iff _ _ _).mp hns).imp fun _ _ hn =>
    ⟨hn, fun hcall => isOrdered_aggregateNode henv hknown hcall hn⟩

/-- **Ordered aggregates** — an aggregation over a tree of tables, filters and projections orders the rows of each call
by the fields of its input, unless another column hides a field. -/
theorem ordersRows_relationResult (henv : env.fieldMap = []) {root : Bool} {input : Rel} {keys : List Ordinal}
    {sets : List (List Ordinal)} {calls : List AggregateCall} (htree : input.every readsRows = true) {r : Result}
    {s s' : State} (h : (relationResult env sub root (.aggregate input keys sets calls)).Gives s r s') :
    ∃ x s₁ b s₂, (relationResult env sub false input).Gives s x s₁
      ∧ ((x.expecting [.groupBy] (ignoresClauses (.aggregate input keys sets calls))).builder env
          (.aggregate input keys sets calls)).Gives s₁ b s₂
      ∧ OrdersRows env b.context input keys calls (Rel.aggregate input keys sets calls).fields r.node := by
  obtain ⟨x, s₁, hinput, h⟩ := (ConvertM.gives_bind _ _ _ _ _).mp h
  obtain ⟨b, s₂, hb, hordered⟩ :=
    ordersRows_aggregateResult henv (listsColumns_relationResult false input htree _ _ _ hinput) h
  exact ⟨x, s₁, b, s₂, hinput, hb, hordered⟩

/-- Customers and what they pay, with fees. -/
def payments : Rel :=
  .project (.scan ["orders"] [⟨"customer", .integer⟩, ⟨"price", .integer⟩])
    [.inputRef (.whole 0) .integer,
      .call Operator.plus [.inputRef (.whole 1) .integer, .literal ⟨.exact "1", .integer⟩] .integer]
    ["customer", "paid"] false []

/-- The customers, by what they pay. -/
def listCustomers : AggregateCall where
  op := Operator.listAgg
  args := [.whole 0]
  collation := [⟨.whole 1, .descending, .last⟩]
  name := some "names"

/-- All payments in one row. -/
def customersByPayment : Rel := .aggregate payments [] [[]] [listCustomers]

/-- The customers are in the order of the sums. -/
theorem ordersRows_relationResult_customersByPayment :
    let env : Env := ⟨.postgres, []⟩
    let sub : Rel → ConvertM Node := fun _ => pure Node.null
    ∃ r s', (relationResult env sub true customersByPayment).Gives {} r s'
      ∧ (∃ x s₁ b s₂, (relationResult env sub false payments).Gives {} x s₁
        ∧ ((x.expecting [.groupBy] (ignoresClauses customersByPayment)).builder env customersByPayment).Gives s₁ b s₂
        ∧ OrdersRows env b.context payments [] [listCustomers] customersByPayment.fields r.node)
      ∧ r.node.selectList? = some [Node.aliased (withinGroup (Node.aggregate "LISTAGG" [Node.column "customer"] false)
          [orderedNode (Node.binary .add (Node.column "price") (Node.number "1")) true (some false)]) "names"] := by
  have hlist : ∃ r s', (relationResult ⟨.postgres, []⟩ (fun _ => pure Node.null) true customersByPayment).Gives {} r s'
      ∧ r.node.selectList? = some [Node.aliased (withinGroup (Node.aggregate "LISTAGG" [Node.column "customer"] false)
          [orderedNode (Node.binary .add (Node.column "price") (Node.number "1")) true (some false)]) "names"] :=
    ConvertM.exists_gives (by decide +kernel)
  obtain ⟨r, s', hr, hlist⟩ := hlist
  exact ⟨r, s', hr, ordersRows_relationResult rfl (by decide) hr, hlist⟩

/-- Two columns that exchange a name. -/
def renamedColumns : Rel :=
  .project (.scan ["t"] [⟨"a", .integer⟩, ⟨"b", .integer⟩])
    [.inputRef (.whole 1) .integer, .inputRef (.whole 0) .integer] ["a", "c"] false []

/-- The values of one of them, by the other. -/
def valuesByHidden : Rel :=
  .aggregate renamedColumns [] [[]]
    [{ op := Operator.listAgg, args := [.whole 0], collation := [⟨.whole 1, .ascending, .unspecified⟩]
       name := some "s" }]

/-- The values are ordered by a position, which is a mere constant in an aggregate, and not by the column. -/
theorem valuesByHidden_orderedByPosition :
    let env : Env := ⟨.ansi, []⟩
    let sub : Rel → ConvertM Node := fun _ => pure Node.null
    ∃ x s₁ b s₂ r s₃, (relationResult env sub false renamedColumns).Gives {} x s₁
      ∧ ((x.expecting [.groupBy] (ignoresClauses valuesByHidden)).builder env valuesByHidden).Gives s₁ b s₂
      ∧ (relationResult env sub true valuesByHidden).Gives {} r s₃
      ∧ b.context.field env (.whole 1) = .ok (Node.column "a")
      ∧ r.node.selectList? = some [Node.aliased (withinGroup (Node.aggregate "LISTAGG" [Node.column "b"] false)
          [orderedNode (Node.number "2") false none]) "s"] := by
  intro env sub
  have hopened : (relationResult env sub false renamedColumns >>= fun x =>
        (x.expecting [.groupBy] (ignoresClauses valuesByHidden)).builder env valuesByHidden).value.toOption.bind
      (fun b => (b.context.field env (.whole 1)).toOption) = some (Node.column "a") := by decide +kernel
  have hlisted : (relationResult env sub true valuesByHidden).value.toOption.bind (·.node.selectList?)
      = some [Node.aliased (withinGroup (Node.aggregate "LISTAGG" [Node.column "b"] false)
          [orderedNode (Node.number "2") false none]) "s"] := by decide +kernel
  obtain ⟨b, s₂, hb, hfield⟩ := ConvertM.exists_gives hopened
  obtain ⟨x, s₁, hx, hb⟩ := (ConvertM.gives_bind _ _ _ _ _).mp hb
  obtain ⟨r, s₃, hr, hlist⟩ := ConvertM.exists_gives hlisted
  exact ⟨x, s₁, b, s₂, r, s₃, hx, hb, hr, (toOption_eq_some_iff _ _).mp hfield, hlist⟩

end Convert

end AlgebraSql
