import AlgebraSql.Proofs.AggregateArguments
import AlgebraSql.Proofs.BareExpressions
import AlgebraSql.Proofs.GroupValues
import AlgebraSql.Proofs.GroupClauses

/-!
# Group numerals — no position stands in GROUP BY.

A number in GROUP BY is read as a position of the select list.  Keys over a projection are written as what its items
hold, so that a column of numbers would become one.  Dialects that group by the names of items are safe from that; in
the others no aggregation may group by a column that comes down to a number constant.
-/

namespace AlgebraSql

/-! ## Columns of numbers -/

/-- A constant that is written as a number. -/
def Literal.isNumber (l : Literal) : Bool :=
  match l.value with
  | .exact _ | .approximate _ => true
  | _ => false

/-- An expression comes down to a number, given which columns of its input do. -/
def Scalar.comesToNumber {ρ : Type} (columns : Ordinal → Bool) (e : Scalar ρ) : Bool :=
  match e.core with
  | .inputRef i _ => columns i
  | .literal l => l.isNumber
  | _ => false

/-- **`comesToNumber`** — a column of a plan comes down to a number constant, unless there is no such column. -/
def Rel.comesToNumber : Rel → Ordinal → Bool
  | .filter input _ _, i => input.comesToNumber i
  | .project input projects _ _ _, i => (nth? projects i).all (·.comesToNumber input.comesToNumber)
  | .aggregate input keys _ calls, i =>
    match nth? keys i with
    | some key => input.comesToNumber key
    | none => calls.isEmpty
  | _, _ => false

/-- An aggregation groups by columns of its input, and by no numbers unless the dialect groups by names. -/
def groupsByColumns (d : Dialect) : Rel → Bool
  | .scan .. | .filter .. | .project .. => true
  | .aggregate input keys sets _ => (keys ++ sets.flatten).all fun key =>
    (nth? input.fields key).isSome && (d.capabilities.groupByAlias || !input.comesToNumber key)
  | _ => false

/-- **The plans in question**: tables, filters, projections and aggregations that group by columns. -/
def columnsGrouped (d : Dialect) : PlanCheck where
  relation := groupsByColumns d
  expression _ _ := true

namespace Convert

open Sql Node

variable {env : Env} {sub : Rel → ConvertM Node} {ctx : Context} {n : Node}

/-! ## Items of GROUP BY -/

/-- **`InGroupBy`** — an item of GROUP BY, or of a list in it. -/
inductive InGroupBy (group : Node) : Node → Prop
  | item {e : Node} (h : e ∈ group.list "expressions") : InGroupBy group e
  | nested {list e : Node} (hlist : InGroupBy group list) (hkind : isGroupList list.kind = true)
    (h : e ∈ list.list "expressions") : InGroupBy group e

/-- **`Positionless`** — no number stands in a GROUP BY clause, nor in the lists in it. -/
def Positionless (n : Node) : Prop := GroupsHave (fun group => ∀ e, InGroupBy group e → isNumber e = false) n

/-- A key of GROUP BY that is no number, or a list of such. -/
inductive NumberFree : Node → Prop
  | key {n : Node} (hkind : isGroupList n.kind = false) (hnumber : isNumber n = false) : NumberFree n
  | list {kind : Kind} {ns : List Node} (hkind : isGroupList kind = true) (h : ∀ n ∈ ns, NumberFree n) :
    NumberFree (listNode kind ns)

theorem NumberFree.isNumber (h : NumberFree n) : isNumber n = false := by
  cases h with
  | key _ hnumber => exact hnumber
  | @list kind ns hkind _ =>
    cases kind <;> first | rfl | cases hkind

theorem NumberFree.tuple {ns : List Node} (h : ∀ n ∈ ns, NumberFree n) : NumberFree (Node.tuple ns) := .list rfl h

theorem numberFree_of_inGroupBy {gs : List Node} (hgs : ∀ g ∈ gs, NumberFree g) {e : Node}
    (h : InGroupBy (listNode .group gs) e) : NumberFree e := by
  induction h with
  | item h => exact hgs _ h
  | nested _ hkind h ih =>
    cases ih with
    | key hkey _ => simp [hkey] at hkind
    | list _ hns => exact hns _ h

/-- **`groupByNodes`** — no number is written if none is written for a key. -/
theorem numberFree_groupByNodes {keys : List Ordinal} {sets : List (List Ordinal)}
    (hkeys : ∀ key ∈ keys ++ sets.flatten, ∀ n, ctx.groupField env key = .ok n → NumberFree n) {gs : List Node}
    (h : groupByNodes env ctx keys sets = .ok gs) : ∀ g ∈ gs, NumberFree g := by
  have hlist : ∀ {ks : List Ordinal} {ns : List Node}, (∀ key ∈ ks, key ∈ keys ++ sets.flatten) →
      keyNodes env ctx ks = .ok ns → ∀ n ∈ ns, NumberFree n :=
    fun hks hns => forall_of_mapM hns fun key hkey n hn => hkeys key (hks key hkey) n hn
  have hset : ∀ set ∈ sets, ∀ key ∈ set, key ∈ keys ++ sets.flatten := fun set hset key hkey =>
    List.mem_append_right _ (List.mem_flatten_of_mem hset hkey)
  simp only [groupByNodes] at h
  split at h
  · cases h
  · split at h
    · exact hlist (fun _ hkey => List.mem_append_left _ hkey) h
    · simp only [bind_eq_ok_iff, pure_eq_ok_iff] at h
      obtain ⟨ns, hns, rfl⟩ := h
      refine List.forall_mem_singleton.mpr (.list rfl (hlist (fun key hkey => ?_) hns))
      cases hrollup : rollupKeys keys sets with
      | none => exact List.mem_append_left _ (by simpa [hrollup] using hkey)
      | some dropped =>
        obtain ⟨set, hmem, hkey⟩ := mem_of_mem_rollupKeys hrollup (by simpa [hrollup] using hkey)
        exact hset set hmem key hkey
    · simp only [bind_eq_ok_iff, pure_eq_ok_iff] at h
      obtain ⟨ns, hns, rfl⟩ := h
      exact List.forall_mem_singleton.mpr (.list rfl (hlist (fun _ hkey => List.mem_append_left _ hkey) hns))
    · simp only [bind_eq_ok_iff, pure_eq_ok_iff] at h
      obtain ⟨ns, hns, rfl⟩ := h
      refine List.forall_mem_singleton.mpr (.list rfl (forall_of_mapM hns fun set hmem n hn => ?_))
      unfold groupingSetNode at hn
      split at hn
      · exact hkeys _ (hset _ hmem _ (List.mem_singleton_self _)) n hn
      · simp only [bind_eq_ok_iff, pure_eq_ok_iff] at hn
        obtain ⟨parts, hparts, rfl⟩ := hn
        exact .tuple (hlist (hset _ hmem) hparts)

/-! ## Items of select lists -/

/-- **`Plain`** — a node that can be a key: no item and no list, and a number only where one may be. -/
structure Plain (number : Bool) (n : Node) : Prop where
  unnamed : n.kind ≠ .aliased
  unlisted : isGroupList n.kind = false
  number : isNumber n = true → number = true

/-- An item of a select list: a plain node under a name, or without one. -/
inductive PlainItem (number : Bool) (nameless : Prop) : Node → Prop
  | bare {n : Node} (h : Plain number n) (hnumber : isNumber n = true → nameless) : PlainItem number nameless n
  | named {n : Node} (h : Plain number n) (name : String) : PlainItem number nameless (Node.aliased n name)

/-- The items of a select list are plain, and only where there is no column a number has no name. -/
def ListsPlain (rel : Rel) (n : Node) : Prop :=
  ∀ items, n.selectList? = some items → ∀ (i : Nat) item, items[i]? = some item →
    PlainItem (rel.comesToNumber (i : Nat)) (rel.fields.length ≤ i) item

theorem isNumber_eq_false (h : n.kind ≠ .literal) : isNumber n = false := by simp [isNumber, Node.is, h]

theorem plain_column (name : String) (table : Option String) (number : Bool) : Plain number (Node.column name table) :=
  ⟨by simp [Node.column], rfl, fun h => by cases h⟩

theorem Plain.of_isOperation (h : isOperation n.kind = true) (number : Bool) : Plain number n := by
  simp only [isOperation, Bool.and_eq_true, bne_iff_ne, ne_eq, Bool.not_eq_true'] at h
  exact ⟨h.1.1.2, h.2, fun hnumber => by simp [isNumber_eq_false h.1.2] at hnumber⟩

theorem Plain.namedItem {number : Bool} (h : Plain number n) (nameless : Prop) (name : String) :
    PlainItem number nameless (namedItem n name) := by
  unfold Convert.namedItem
  split
  · rename_i hname
    refine .bare h fun hnumber => ?_
    have hkind : n.kind = .literal := by
      simp only [isNumber, Bool.and_eq_true, is_eq_true_iff] at hnumber
      exact hnumber.1
    simp [aliasOf?_of_kind (n := n) (by simp [hkind])] at hname
  · exact .named h name

theorem PlainItem.mono {number number' : Bool} {nameless nameless' : Prop} (h : PlainItem number nameless n)
    (hnumber : number = true → number' = true) (hnameless : nameless → nameless') : PlainItem number' nameless' n := by
  cases h with
  | bare h hn => exact .bare ⟨h.unnamed, h.unlisted, hnumber ∘ h.number⟩ (hnameless ∘ hn)
  | named h name => exact .named ⟨h.unnamed, h.unlisted, hnumber ∘ h.number⟩ name

/-- An item is read as a plain node. -/
theorem PlainItem.field {number : Bool} {nameless : Prop} {item : Node} (h : PlainItem number nameless item)
    {byName : Bool} {i : Ordinal} (hn : Context.itemField byName i item = .ok n) : Plain number n := by
  unfold Context.itemField at hn
  cases h with
  | bare h _ =>
    rw [if_neg (by simpa [Node.is] using h.unnamed)] at hn
    cases hn
    exact h
  | @named m h name =>
    simp only [Node.aliased, Node.is, kind_mk, BEq.rfl, if_true] at hn
    split at hn
    · cases hn
      exact plain_column _ _ _
    · cases hn
      exact h

/-! ## Fields -/

section Fields

variable {x : Result} {rel input : Rel} {b : Builder} {s s' : State}

/-- The fields of an opened query are plain. -/
theorem OpenedAs.plain (henv : env.fieldMap = []) (hb : OpenedAs env x rel b) (hx : ListsPlain input x.node)
    {i : Ordinal} (hn : b.context.field env i = .ok n) : Plain (input.comesToNumber i) n := by
  rcases hb.context with ⟨items, byName, grouped, -, -, -, hlist, hctx⟩ | ⟨-, inputs, qualified, hctx⟩
  · rw [hctx, Context.field] at hn
    split at hn
    · rename_i item hitem
      obtain ⟨k, -, rfl⟩ := (nth?_isSome_iff _ i).mp (by rw [hitem]; rfl)
      exact (hx items hlist k item hitem).field hn
    · cases hn
  · rw [hctx] at hn
    obtain ⟨name, table, rfl⟩ := column_of_aliases henv hn
    exact plain_column _ _ _

/-- An aggregation opens a query with its select list, whose items may be grouped by name if the dialect does so. -/
theorem context_aggregate {keys : List Ordinal} {sets : List (List Ordinal)} {calls : List AggregateCall}
    {ignores : Bool}
    (hb : ((x.expecting [.groupBy] ignores).builder env (.aggregate input keys sets calls)).Gives s b s') :
    (∃ items, x.node.selectList? = some items
        ∧ b.context = .selectList items false env.dialect.capabilities.groupByAlias)
      ∨ ∃ inputs qualified, b.context = .aliases inputs qualified := by
  rcases (openedAs_builder hb).context with ⟨items, byName, grouped, -, -, hsame, hlist, hctx⟩ | ⟨-, hctx⟩
  · refine .inl ⟨items, hlist, ?_⟩
    rcases context_builder hb with ⟨items', hlist', hctx'⟩ | ⟨hnone, -⟩
    · obtain rfl : items = items' := Option.some.inj (by rw [← hlist, ← hlist', hsame])
      rw [hctx']
      simp [Result.itemContext, Result.expecting]
    · rw [hsame, hlist] at hnone
      cases hnone
  · exact .inr hctx

/-- A select item that may be grouped by its name is grouped by no number. -/
theorem numberFree_item {number : Bool} {item : Node} (h : PlainItem number False item) {i : Ordinal}
    (hcomputed : Context.isComputed item = false) (hn : Context.itemField false i item = .ok n) : NumberFree n := by
  have hplain : Plain number n := h.field hn
  refine .key hplain.unlisted ?_
  cases h with
  | bare h hnumber =>
    rw [Context.itemField, if_neg (by simpa [Node.is] using h.unnamed)] at hn
    cases hn
    exact Bool.eq_false_iff.mpr hnumber
  | @named m h name =>
    -- the name stands for a column
    have hcolumn : m.kind = .column := by
      simpa [Context.isComputed, Node.aliased, Node.is, this?, child?, arg?] using hcomputed
    obtain rfl : m = n := by simpa [Context.itemField, Node.aliased, Node.is, this?, child?, arg?] using hn
    exact isNumber_eq_false (by simp [hcolumn])

/-- **A key** of GROUP BY is no number if its column is none, or if the dialect groups by the names of items. -/
theorem numberFree_groupField (henv : env.fieldMap = []) {keys : List Ordinal} {sets : List (List Ordinal)}
    {calls : List AggregateCall} {ignores : Bool}
    (hb : ((x.expecting [.groupBy] ignores).builder env (.aggregate input keys sets calls)).Gives s b s')
    (hx : ListsPlain input x.node) {key : Ordinal} (hcolumn : (nth? input.fields key).isSome = true)
    (hnumber : env.dialect.capabilities.groupByAlias = true ∨ input.comesToNumber key = false)
    (hn : b.context.groupField env key = .ok n) : NumberFree n := by
  have hfield : ∀ {m : Node}, b.context.field env key = .ok m → (isNumber m = true → input.comesToNumber key = false) →
      NumberFree m := by
    intro m hm hfree
    have hplain : Plain (input.comesToNumber key) m := (openedAs_builder hb).plain henv hx hm
    refine .key hplain.unlisted (Bool.eq_false_iff.mpr fun htrue => ?_)
    rw [hplain.number htrue] at hfree
    cases hfree htrue
  rcases context_aggregate hb with ⟨items, hlist, hctx⟩ | ⟨inputs, qualified, hctx⟩
  · by_cases hnames : env.dialect.capabilities.groupByAlias = true
    · rw [hctx, hnames, Context.groupField] at hn
      obtain ⟨k, hk, rfl⟩ := (nth?_isSome_iff _ key).mp hcolumn
      simp only [nth?_whole] at hn
      split at hn
      · rename_i item hitem
        split at hn
        · cases hn
          exact .key rfl rfl
        · rename_i hcomputed
          simp only [Context.field, nth?_whole, hitem] at hn
          exact numberFree_item ((hx items hlist k item hitem).mono id fun hle => absurd hk (by omega))
            (by simpa using hcomputed) hn
      · rename_i hnone
        simp [Context.field, hnone] at hn
    · have hgroup : b.context.groupField env key = b.context.field env key := by
        rw [hctx, Bool.eq_false_iff.mpr hnames]
        rfl
      exact hfield (hgroup ▸ hn) fun _ => hnumber.resolve_left hnames
  · rw [hctx] at hn
    obtain ⟨name, table, rfl⟩ := column_of_aliases henv hn
    exact .key rfl rfl

end Fields

/-! ## Operators -/

/-- **`Unpositioned`** — no number stands in a GROUP BY clause of the query, and the items of its list are plain. -/
structure Unpositioned (rel : Rel) (r : Result) : Prop where
  positionless : Positionless r.node
  plain : ListsPlain rel r.node

section Operators

variable {x : Result} {rel input : Rel}

/-- An opened query lists what the query of the input lists. -/
theorem OpenedAs.listsPlain {b : Builder} (hb : OpenedAs env x rel b) (hx : ListsPlain input x.node) :
    ListsPlain input b.select := by
  rcases hb.context with ⟨-, -, -, -, -, hsame, -, -⟩ | ⟨hnone, -⟩
  · rw [hsame]
    exact hx
  · exact fun items hlist => by simp [hnone] at hlist

/-- Nodes that are plain are plain under the names of columns. -/
theorem plainItem_namedItems (number : Ordinal → Bool) {nameless : Nat → Prop} {ns : List Node} {fields : RowType}
    (h : ∀ (i : Nat) n, ns[i]? = some n → Plain (number i) n) {i : Nat} {item : Node}
    (hitem : (namedItems ns fields)[i]? = some item) : PlainItem (number i) (nameless i) item := by
  obtain ⟨n, f, hn, -, rfl⟩ := List.getElem?_zipWith_eq_some.mp hitem
  exact (h i n hn).namedItem _ _

/-- A constant is plain, and a number only if it is one. -/
theorem plain_literalIn {l : Literal} (h : literalIn env ctx l = .ok n) : Plain l.isNumber n := by
  have hleaf : ∀ {m : Node}, isOperation m.kind = true → Plain l.isNumber m := fun h => .of_isOperation h _
  have hnumber : ∀ {digits : String}, l.isNumber = true → Plain l.isNumber (Node.number digits) := fun hl =>
    ⟨by simp [Node.number], rfl, fun _ => hl⟩
  unfold literalIn at h
  split at h
  · cases h
    exact hleaf rfl
  · obtain ⟨value, type⟩ := l
    cases value with
    | exact _ | approximate _ =>
      simp only [literalNode, Except.ok.injEq] at h
      exact h ▸ hnumber rfl
    | character text =>
      simp only [literalNode, Except.ok.injEq] at h
      exact h ▸ ⟨by simp [Node.string], rfl, fun hstring => by cases hstring⟩
    | row values =>
      simp only [literalNode, bind_eq_ok_iff, pure_eq_ok_iff] at h
      obtain ⟨ns, -, rfl⟩ := h
      exact hleaf rfl
    | sarg _ => simp [literalNode] at h
    | timestamp text =>
      simp only [literalNode] at h
      split at h <;> cases h <;> exact hleaf rfl
    | _ =>
      simp only [literalNode, Except.ok.injEq] at h
      exact h ▸ hleaf rfl

/-- What stands for an expression is plain, given that the fields are. -/
theorem plain_of_standsFor {e : Expr} {columns : Ordinal → Bool}
    (hfield : ∀ i n, ctx.field env i = .ok n → Plain (columns i) n)
    (h : StandsFor (fun n => isOperation n.kind = true) env ctx e.core n) : Plain (e.comesToNumber columns) n := by
  have hother : isOperation n.kind = true ∨ (∃ name table, n = Node.column name (some table)) →
      Plain (e.comesToNumber columns) n := by
    rintro (h | ⟨name, table, rfl⟩)
    · exact .of_isOperation h _
    · exact plain_column _ _ _
  unfold Scalar.comesToNumber at hother ⊢
  generalize e.core = core at h hother ⊢
  cases core with
  | inputRef i t => exact hfield i n h
  | literal l => exact plain_literalIn h
  | fieldAccess | patternField => exact hother h
  | _ => exact hother (.inl h)

/-- A projection that changes nothing lists what its input lists. -/
theorem ListsPlain.of_isIdentity {projects : List Expr} {names : List String} {distinct : Bool} {ids : List String}
    (h : ListsPlain input n)
    (hidentity : isIdentity input projects (Rel.project input projects names distinct ids).fields = true) :
    ListsPlain (.project input projects names distinct ids) n := by
  intro items hlist i item hitem
  refine (h items hlist i item hitem).mono (fun hnumber => ?_) fun hle => ?_
  · rw [Rel.comesToNumber, nth?_whole]
    cases he : projects[i]? with
    | none => rfl
    | some e =>
      obtain ⟨t, rfl⟩ := inputRef_of_isIdentity hidentity he
      exact hnumber
  · have hwidth : projects.length = input.fields.length := by simp_all [isIdentity]
    refine le_trans ?_ (hwidth.trans_le hle)
    simp [Rel.fields]

/-- The keys and the calls of an aggregation are plain, and so is the constant that stands for none of them. -/
theorem listsPlain_aggregated {keys : List Ordinal} {sets : List (List Ordinal)} {calls : List AggregateCall}
    (hfield : ∀ i n, ctx.field env i = .ok n → Plain (input.comesToNumber i) n) {ks ns : List Node}
    (hks : keys.mapM (ctx.field env) = .ok ks) (hns : calls.mapM (aggregateNode env ctx) = .ok ns)
    (hlength : ks.length + ns.length ≤ (Rel.aggregate input keys sets calls).fields.length)
    (m : Node) (groups : List Node) (hasCalls : Bool) :
    ListsPlain (.aggregate input keys sets calls)
      (aggregated m (namedItems (ks ++ ns) (Rel.aggregate input keys sets calls).fields) groups hasCalls) := by
  rw [ListsPlain, selectList?_aggregated]
  have hlengths : ks.length = keys.length ∧ ns.length = calls.length := ⟨length_of_mapM hks, length_of_mapM hns⟩
  rintro _ ⟨⟩ i item hitem
  split at hitem
  · -- a constant stands in the list if there is nothing to show
    rename_i hempty
    obtain ⟨rfl, rfl⟩ : i = 0 ∧ Node.number "1" = item := by simpa [List.getElem?_singleton] using hitem
    have hnone : (namedItems (ks ++ ns) (Rel.aggregate input keys sets calls).fields).length = 0 := by
      simpa using hempty
    rw [length_namedItems (by simpa using hlength), List.length_append] at hnone
    obtain ⟨hk, hc⟩ : keys = [] ∧ calls = [] :=
      ⟨List.eq_nil_of_length_eq_zero (by omega), List.eq_nil_of_length_eq_zero (by omega)⟩
    subst hk hc
    exact .bare ⟨by simp [Node.number], rfl, fun _ => rfl⟩ fun _ => length_aggregateFields input [] sets []
  · refine plainItem_namedItems (Rel.aggregate input keys sets calls).comesToNumber (fun i n hn => ?_) hitem
    rw [Rel.comesToNumber, nth?_whole]
    by_cases hkey : i < ks.length
    · rw [List.getElem?_append_left hkey] at hn
      obtain ⟨key, hkey, hkeyed⟩ := exists_left_of_forall₂ ((mapM_eq_ok_iff _ _ _).mp hks) hn
      rw [hkey]
      exact hfield _ _ hkeyed
    · rw [List.getElem?_append_right (by omega)] at hn
      obtain ⟨call, hcall, hcalled⟩ := exists_left_of_forall₂ ((mapM_eq_ok_iff _ _ _).mp hns) hn
      rw [List.getElem?_eq_none (by omega)]
      rcases isAggregate_aggregateNode hcalled with haggregate | ⟨m, -, rfl⟩
      · exact .of_isOperation (by cases haggregate <;> rfl) _
      · exact .of_isOperation rfl _

variable (henv : env.fieldMap = []) (hd : env.dialect.targetFunctions.all (!Scalar.isConnective ·.operator) = true)
  {k : PlanCheck} (hsub : ∀ rel, rel.satisfies k = true → Maintains OnlyColumns Positionless (sub rel))

include henv hsub

theorem unpositioned_filterResult {condition : Expr} {ids : List String} (hrel : rel = .filter input condition ids)
    (hx : Unpositioned input x) (hcondition : condition.satisfies k true = true) :
    Maintains OnlyColumns (Unpositioned rel) (filterResult env sub input condition ids rel x) := by
  intro s r s' hs h
  obtain ⟨b, s₁, c, s₂, hb, hc, hr⟩ := opened_filterResult h
  obtain ⟨hselect, hfields⟩ := hb.openedAs.groupsHave henv hx.positionless
  obtain ⟨hs₂, hgood⟩ := inherited_scalarNode (admits_groupsHave henv hsub hfields) condition hcondition s₁ c s₂
    (hb.onlyColumns hs) hc
  refine ⟨hr.onlyColumns hs₂, ?_, ?_⟩
  · rw [hr.node_eq]
    exact GroupsHave.withCondition hselect hgood _
  · rw [hr.node_eq, ListsPlain, selectList?_withCondition, hrel]
    exact hb.openedAs.listsPlain hx.plain

include hd in
/-- An expression of a projection is plain if the fields are, and a number only if it comes down to one. -/
theorem plain_projectedNode (hgroups : FieldsHave Positionless env ctx) {columns : Ordinal → Bool}
    (hfield : ∀ i n, ctx.field env i = .ok n → Plain (columns i) n) {e : Expr} (he : e.satisfies k true = true) :
    Maintains OnlyColumns (fun n => Positionless n ∧ Plain (e.comesToNumber columns) n)
      (projectedNode env sub ctx e) := by
  intro s n s' hs hn
  have hscalar := inherited_scalarNode (admits_groupsHave henv hsub hgroups) e he
  obtain ⟨hs', hgood⟩ := Maintains.projectedNode inherited_groupsHave hscalar s n s' hs hn
  refine ⟨hs', hgood, ?_⟩
  rcases stands_projectedNode operates_operation (fun _ => rfl) henv hd hs hn with h | h
  · exact plain_of_standsFor hfield h
  · exact .of_isOperation h _

include hd in
/-- **A projection** lists plain nodes, numbers only where its expressions come down to numbers. -/
theorem unpositioned_projectResult {projects : List Expr} {names : List String} {distinct : Bool} {ids : List String}
    (hrel : rel = .project input projects names distinct ids) (hx : Unpositioned input x)
    (hprojects : ∀ e ∈ projects, e.satisfies k true = true) :
    Maintains OnlyColumns (Unpositioned rel) (projectResult env sub input projects distinct ids rel x) := by
  intro s r s' hs h
  obtain ⟨b, s₁, n, s₂, hb, hn, hr⟩ := opened_projectResult h
  obtain ⟨hselect, hfields⟩ := hb.openedAs.groupsHave henv hx.positionless
  have hs₁ : OnlyColumns s₁ := hb.onlyColumns hs
  have hitem := fun e he => plain_projectedNode henv hd hsub hfields
    (fun i n hn => hb.openedAs.plain henv hx.plain hn) (hprojects e he)
  have hnode : OnlyColumns s₂ ∧ Positionless n ∧ ListsPlain rel n := by
    rcases hn with ⟨hidentity, rfl, rfl⟩ | ⟨-, ns, hns, -, rfl⟩
    · subst hrel
      exact ⟨hs₁, hselect, (hb.openedAs.listsPlain hx.plain).of_isIdentity hidentity⟩
    · obtain ⟨hs₂, hall⟩ := Maintains.forall₂_mapM hitem s₁ ns s₂ hs₁ hns
      refine ⟨hs₂, GroupsHave.withList hselect fun item hmem => ?_, ?_⟩
      · exact inherited_groupsHave.isNamed (isNamed_namedItems (forall_right_of_forall₂ hall) _ item hmem)
      · rw [ListsPlain, selectList?_withList]
        rintro _ ⟨⟩ i item hmem
        refine plainItem_namedItems rel.comesToNumber (fun i n hn => ?_) hmem
        obtain ⟨e, he, -, hplain⟩ := exists_left_of_forall₂ hall hn
        rw [hrel, Rel.comesToNumber, nth?_whole, he]
        exact hplain
  refine ⟨hr.onlyColumns hnode.1, ?_, ?_⟩
  · rw [hr.node_eq]
    split
    · exact hnode.2.1.set (by decide) (by simp)
    · exact hnode.2.1
  · rw [hr.node_eq]
    split
    · rw [ListsPlain, selectList?_set (by decide)]
      exact hnode.2.2
    · exact hnode.2.2

omit hsub in
/-- **An aggregation** groups by no numbers, and lists its keys and its calls. -/
theorem unpositioned_aggregateResult {keys : List Ordinal} {sets : List (List Ordinal)} {calls : List AggregateCall}
    (hrel : rel = .aggregate input keys sets calls) (hgrouped : groupsByColumns env.dialect rel = true)
    (hx : Unpositioned input x) :
    Maintains OnlyColumns (Unpositioned rel) (aggregateResult env keys sets calls rel x) := by
  intro s r s' hs h
  obtain ⟨b, s₁, ks, gs, ns, hb, hks, hgs, hns, hlength, hr⟩ := opened_aggregateResult h
  have hopened := openedAs_builder hb
  obtain ⟨hselect, hfields⟩ := hopened.groupsHave henv hx.positionless
  subst hrel
  have hkeys : ∀ key ∈ keys ++ sets.flatten, ∀ n, b.context.groupField env key = .ok n → NumberFree n := by
    intro key hkey n hn
    simp only [groupsByColumns, List.all_eq_true, Bool.and_eq_true, Bool.or_eq_true, Bool.not_eq_true'] at hgrouped
    exact numberFree_groupField henv hb hx.plain (hgrouped key hkey).1 (hgrouped key hkey).2 hn
  have hitems : ∀ n ∈ ks ++ ns, Positionless n := by
    intro n hn
    rcases List.mem_append.mp hn with hn | hn
    · exact forall_of_mapM hks (fun key _ n hn => hfields key n hn) n hn
    · exact forall_of_mapM hns (fun call _ n hn => groupsHave_aggregateNode hfields hn) n hn
  refine ⟨hr.onlyColumns (maintains_builder _ _ s b s₁ hs hb).1, ?_, ?_⟩
  · rw [hr.node_eq]
    refine GroupsHave.aggregated hselect _ (fun item hmem => ?_) ?_ fun e he => (numberFree_of_inGroupBy ?_ he).isNumber
    · exact inherited_groupsHave.isNamed (isNamed_namedItems hitems _ item hmem)
    · exact inherited_groupByNodes inherited_groupsHave hfields hgs
    · exact numberFree_groupByNodes hkeys hgs
  · rw [hr.node_eq]
    exact listsPlain_aggregated (fun i n hn => hopened.plain henv hx.plain hn) hks hns hlength _ _ _

end Operators

/-! ## Plans -/

section Plans

variable (henv : env.fieldMap = []) (hd : env.dialect.targetFunctions.all (!Scalar.isConnective ·.operator) = true)

include henv hd

/-- **`relationResult`** — no number stands in a GROUP BY clause of the query for a plan that groups by columns. -/
theorem unpositioned_relationResult
    (hsub : ∀ rel, rel.satisfies (columnsGrouped env.dialect) = true → Maintains OnlyColumns Positionless (sub rel))
    (root : Bool) : ∀ rel : Rel, rel.satisfies (columnsGrouped env.dialect) = true →
    Maintains OnlyColumns (Unpositioned rel) (relationResult env sub root rel)
  | .scan table fields, _ => by
    rw [relationResult]
    refine .lift_bind fun n hn => (maintains_makeResult n _ _ _).mono fun r hr => ⟨?_, fun items hlist => ?_⟩
    · rw [hr.1]
      exact GroupsHave.table hn
    · rw [hr.1, selectList?_table hn] at hlist
      cases hlist
  | .filter input condition ids, hrel => by
    simp only [Rel.satisfies, Bool.and_eq_true] at hrel
    obtain ⟨⟨-, hinput⟩, hcondition⟩ := hrel
    rw [relationResult]
    refine .bind (unpositioned_relationResult hsub false input hinput) fun x hx => ?_
    exact unpositioned_filterResult henv hsub rfl hx hcondition
  | .project input projects names distinct ids, hrel => by
    simp only [Rel.satisfies, Bool.and_eq_true, Scalar.allSatisfy_iff] at hrel
    obtain ⟨⟨-, hinput⟩, hprojects⟩ := hrel
    rw [relationResult]
    refine .bind (unpositioned_relationResult hsub false input hinput) fun x hx => ?_
    exact unpositioned_projectResult henv hd hsub rfl hx hprojects
  | .aggregate input keys sets calls, hrel => by
    simp only [Rel.satisfies, Bool.and_eq_true] at hrel
    rw [relationResult]
    refine .bind (unpositioned_relationResult hsub false input hrel.2) fun x hx => ?_
    exact unpositioned_aggregateResult henv rfl hrel.1 hx
  | .join .., hrel => by simp [Rel.satisfies, columnsGrouped, groupsByColumns] at hrel
  | .setOp .., hrel => by simp [Rel.satisfies, columnsGrouped, groupsByColumns] at hrel
  | .sort .., hrel => by simp [Rel.satisfies, columnsGrouped, groupsByColumns] at hrel
  | .window .., hrel => by simp [Rel.satisfies, columnsGrouped, groupsByColumns] at hrel
  | .values .., hrel => by simp [Rel.satisfies, columnsGrouped, groupsByColumns] at hrel
  | .tableFunction .., hrel => by simp [Rel.satisfies, columnsGrouped, groupsByColumns] at hrel
  | .rowPattern .., hrel => by simp [Rel.satisfies, columnsGrouped, groupsByColumns] at hrel

/-- **`queryAt`** — nor in its sub-queries, of any depth. -/
theorem positionless_queryAt (depth : Nat) (root : Bool) {rel : Rel}
    (hrel : rel.satisfies (columnsGrouped env.dialect) = true) :
    Maintains OnlyColumns Positionless (queryAt env depth root rel) := by
  have hquery : ∀ {rel : Rel} {r : Result}, Unpositioned rel r → Maintains OnlyColumns Positionless (r.asQuery env) :=
    fun {rel r} hr => .of_spares (fun _ => r.steady_asQuery)
      fun s n s' h => hr.positionless.returned (returned_asQuery h)
  induction depth generalizing root rel with
  | zero =>
    unfold queryAt
    refine .bind (unpositioned_relationResult henv hd (fun _ _ => .pure ?_) root rel hrel) fun r => hquery
    exact inherited_null inherited_groupsHave
  | succ depth ih =>
    unfold queryAt
    exact .bind (unpositioned_relationResult henv hd (fun rel hrel => ih false hrel) root rel hrel) fun r => hquery

end Plans

/-- **`statement`** — no number stands in a GROUP BY clause of a statement, nor in the lists in it, if the dialect
groups by the names of items or no aggregation groups by a column that comes down to a number constant. -/
theorem statement_positionless {d : Dialect} (hd : d ∈ Dialect.all) {rel : Rel}
    (hrel : rel.satisfies (columnsGrouped d) = true) {n : Node} (hn : statement d rel = .ok n) : Positionless n := by
  have htargets := targets_unconnected hd
  rw [statement_eq, ConvertM.value_eq_ok_iff] at hn
  obtain ⟨s, hn⟩ := hn
  rw [planStatement, planResult, ConvertM.gives_bind] at hn
  obtain ⟨r, s₁, hr, hn⟩ := hn
  have hunpositioned : Unpositioned rel r :=
    (unpositioned_relationResult rfl htargets (fun sub hsub => positionless_queryAt rfl htargets _ false hsub)
      true rel hrel {} r s₁ onlyColumns_start hr).2
  exact hunpositioned.positionless.returned (returned_asStatement hn)

/-- Prices by customer, and a year that is the same in all rows. -/
def pricesOfYear : Rel :=
  .project (.scan ["orders"] [⟨"customer", .integer⟩, ⟨"price", .integer⟩])
    [.inputRef (.whole 0) .integer, .literal ⟨.exact "2024", .integer⟩, .inputRef (.whole 1) .integer]
    ["customer", "year", "price"] false []

/-- Sums of prices by customer and year, by customer, and in all. -/
def yearlySums : Rel :=
  .aggregate pricesOfYear [.whole 0, .whole 1] [[.whole 0, .whole 1], [.whole 0], []]
    [{ op := Operator.sum, args := [.whole 2], name := some "total" }]

/-- Where items are grouped by name, the year may be a key. -/
theorem statement_positionless_yearlySums :
    ∃ n, statement Dialect.snowflake yearlySums = .ok n ∧ Positionless n := by
  have hok : (statement Dialect.snowflake yearlySums).toOption.isSome = true := by decide +kernel
  cases hn : statement Dialect.snowflake yearlySums with
  | error e => simp [hn, Except.toOption] at hok
  | ok n => exact ⟨n, rfl, statement_positionless (by simp [Dialect.all]) (by decide +kernel) hn⟩

/-- The number of rows for a column that holds the same number in all of them. -/
def rowsByConstant : Rel :=
  .aggregate
    (.project (.scan ["t"] [⟨"a", .integer⟩, ⟨"b", .integer⟩]) [.literal ⟨.exact "1", .integer⟩] ["one"] false [])
    [.whole 0] [[.whole 0]] [{ op := Operator.count, args := [], name := some "c" }]

/-- Where items are not grouped by name, the number itself is the key. -/
theorem rowsByConstant_not_positionless : ∃ n, statement Dialect.ansi rowsByConstant = .ok n ∧ ¬Positionless n := by
  have hkeys : (statement Dialect.ansi rowsByConstant).toOption.any (fun n =>
      n.is .select && (n.child? "group").any fun group => (group.list "expressions").any isNumber) = true := by
    decide +kernel
  cases hn : statement Dialect.ansi rowsByConstant with
  | error e => simp [hn, Except.toOption] at hkeys
  | ok n =>
    simp only [hn, Except.toOption, Option.any_some, Bool.and_eq_true, is_eq_true_iff] at hkeys
    obtain ⟨hkind, hgroup⟩ := hkeys
    obtain ⟨group, hgroup, hany⟩ := (Option.any_eq_true _ _).mp hgroup
    obtain ⟨key, hkey, hnumber⟩ := List.any_eq_true.mp hany
    refine ⟨n, rfl, fun h => ?_⟩
    have hfree : isNumber key = false := ((groupsHave_iff n).mp h).1 hkind group hgroup key (.item hkey)
    rw [hnumber] at hfree
    cases hfree

end Convert

end AlgebraSql
