import AlgebraSql.Proofs.Assembled
import AlgebraSql.Proofs.ClausesKept

/-!
# Assembled operators — what each operator makes of the query of its input.

For each operator of the algebra there is one lemma about a property that calls alone decide: if the query of
the input and the nodes of the expressions have the property, the query of the operator has it.  The lemma
also says how the query of the input was opened and what select list the new query has, which is what a
parent inlines.
-/

namespace AlgebraSql.Convert

open Sql Node

variable {Good : Node → Prop} {env : Env} {sub : Rel → ConvertM Node} {rel : Rel} {x : Result}

namespace Maintains

variable {α β : Type} {I : State → Prop}

/-- What each conversion of an element gives stands beside that element. -/
theorem forall₂_mapM {post : α → β → Prop} {f : α → ConvertM β} {as : List α}
    (hf : ∀ a ∈ as, Maintains I (post a) (f a)) : Maintains I (List.Forall₂ post as) (as.mapM f) := by
  induction as with
  | nil =>
    rw [List.mapM_nil]
    exact .pure .nil
  | cons a as ih =>
    rw [List.mapM_cons]
    refine .bind (hf a (by simp)) fun b hb => .bind (ih fun c hc => hf c (by simp [hc])) fun bs hbs => .pure ?_
    exact .cons hb hbs

end Maintains

/-- What stands beside some element has the part of the relation that is about it alone. -/
theorem forall_right_of_forall₂ {α β : Type} {p : β → Prop} {q : α → β → Prop} {as : List α} {bs : List β}
    (h : List.Forall₂ (fun a b => p b ∧ q a b) as bs) : ∀ b ∈ bs, p b := by
  induction h with
  | nil => simp
  | cons h _ ih => simpa using ⟨h.1, ih⟩

/-! ## Clauses -/

/-- The parts of a query that are single nodes have certain kinds. -/
def ClauseKinds (p : Kind → Bool) (n : Node) : Prop := ∀ key m, n.child? key = some m → p m.kind = true

/-- The parts of a query that are single nodes are assemblies. -/
abbrev Clausal (n : Node) : Prop := ClauseKinds isAssembly n

theorem ClauseKinds.set {p : Kind → Bool} {n : Node} (h : ClauseKinds p n) (key : String) {a : Arg}
    (ha : ∀ m, a.node? = some m → p m.kind = true) : ClauseKinds p (n.set key (some a)) := by
  intro other m hm
  by_cases hkey : key = other
  · subst hkey
    simp only [child?, arg?_set_self] at hm
    exact ha m (by cases a <;> simp_all)
  · rw [child?, arg?_set_of_ne n a hkey] at hm
    exact h other m hm

theorem clauseKinds_selectFrom {p : Kind → Bool} (hp : p .from = true) (item : Node) :
    ClauseKinds p (Node.selectFrom item) := by
  intro key m hm
  have hmem := mem_args_of_child? hm
  simp only [Node.selectFrom, args_mk, List.mem_singleton, Prod.mk.injEq, Arg.node.injEq] at hmem
  rw [hmem.2]
  exact hp

theorem clausal_selectFrom (item : Node) : Clausal (Node.selectFrom item) := clauseKinds_selectFrom rfl item

/-- **`Assembled`** — the query of a result has the property, a SELECT is referred to by a name, and its parts
are assemblies. -/
structure Assembled (Good : Node → Prop) (r : Result) : Prop where
  good : Good r.node
  named : r.neededAlias = none → r.node.kind ≠ .select
  clausal : r.node.kind = .select → Clausal r.node

/-- A query is recorded with its clauses. -/
theorem assembled_makeResult {n : Node} (clauses : List Clause) (rel : Rel) (aliases : Option Aliases) (hn : Good n)
    (hclausal : n.kind = .select → Clausal n) :
    Maintains OnlyColumns (fun r => Assembled Good r ∧ r.node = n ∧ r.clauses = clauses)
      (makeResult env n clauses rel aliases) := by
  refine (maintains_makeResult n clauses rel aliases).mono ?_
  rintro r ⟨rfl, rfl, hneeded⟩
  refine ⟨⟨hn, fun hnone hkind => hneeded hnone (aliasOf?_select hkind), hclausal⟩, rfl, rfl⟩

/-- A result that is referred to by its name keeps its query. -/
theorem Assembled.resetAlias {Good : Node → Prop} {r : Result} (h : Assembled Good r) : Assembled Good r.resetAlias := by
  unfold Result.resetAlias
  split
  · exact ⟨h.good, h.named, h.clausal⟩
  · exact h

/-! ## Select lists -/

/-- A clause that is put into a query leaves its select list. -/
theorem selectList?_set {n : Node} {key : String} (hkey : key ≠ "expressions") (a : Arg) :
    (n.set key (some a)).selectList? = n.selectList? :=
  list?_set_of_ne n a hkey

theorem selectList?_setSelect (n : Node) (items : List Node) :
    (n.set "expressions" (some (.nodes items))).selectList? = some items := by
  simp [selectList?, list?]

/-- The query of an operator has the select list with which the query of its input was opened. -/
def KeepsList (env : Env) (x : Result) (rel : Rel) (r : Result) : Prop :=
  ∃ b, OpenedAs env x rel b ∧ r.clauses = b.clauses ∧ r.node.selectList? = b.select.selectList?

/-- The query of an operator has a select list of its own, with something to say about its items in the context
in which the query of the input was opened. -/
def HasList (env : Env) (x : Result) (rel : Rel) (Items : Context → List Node → Prop) (r : Result) : Prop :=
  ∃ b items, OpenedAs env x rel b ∧ r.clauses = b.clauses ∧ r.node.selectList? = some items ∧ Items b.context items

/-- The items of the select list, if there is one, have a property. -/
def ListHas (P : Node → Prop) (n : Node) : Prop := ∀ items, n.selectList? = some items → ∀ item ∈ items, P item

section Lists

variable {P : Node → Prop} {expected cs : List Clause} {ignores : Bool} {b : Builder} {r : Result} {c : Clause}

/-- What an opened result lists is what the result lists, behind the clauses of the result. -/
theorem OpenedAs.listHas (hb : OpenedAs env (x.expecting expected ignores) rel b)
    (hx : (∃ c ∈ cs, c ∈ x.clauses) ∨ ListHas P x.node) : (∃ c ∈ cs, c ∈ b.clauses) ∨ ListHas P b.select := by
  rcases hb.context with ⟨items, -, -, hwrap, -, hsame, -, -⟩ | ⟨hnone, -⟩
  · rcases hx with ⟨c, hcs, hc⟩ | hlist
    · rw [hb.clauses, hwrap]
      exact .inl ⟨c, hcs, List.mem_append_left _ hc⟩
    · rw [hsame]
      exact .inr hlist
  · exact .inr fun items hitems => by rw [hnone] at hitems; cases hitems

/-- The fields of an opened result have a property of its items, unless the result goes on with one of some clauses
that it has declared. -/
theorem OpenedAs.fields_or (hP : Inherited P) (hcolumns : HasColumns P)
    (hinner : ∀ {n c : Node}, n.kind = .aliased → P n → n.this? = some c → P c) (henv : env.fieldMap = [])
    (hb : OpenedAs env (x.expecting expected ignores) rel b) (hx : (∃ c ∈ cs, c ∈ x.clauses) ∨ ListHas P x.node) :
    FieldsHave P env b.context
      ∨ ((∃ c ∈ cs, c ∈ x.clauses) ∧ (x.expecting expected ignores).mustWrap env rel = false) := by
  rcases hb.context with ⟨items, byName, grouped, hwrap, -, -, hlist, hctx⟩ | ⟨-, inputs, qualified, hctx⟩
  · rcases hx with hc | hitems
    · exact .inr ⟨hc, hwrap⟩
    · rw [hctx]
      exact .inl (hP.itemField hinner (hitems items hlist) byName grouped)
  · rw [hctx]
    exact .inl (hcolumns.aliasField henv inputs qualified)

/-- A query that keeps the select list keeps what is known of it. -/
theorem KeepsList.listHas (h : KeepsList env (x.expecting expected ignores) rel r)
    (hx : (∃ c ∈ cs, c ∈ x.clauses) ∨ ListHas P x.node) : (∃ c ∈ cs, c ∈ r.clauses) ∨ ListHas P r.node := by
  obtain ⟨b, hb, hclauses, hlist⟩ := h
  rw [hclauses]
  refine (hb.listHas hx).imp_right fun hitems items hr => hitems items ?_
  rw [← hlist, hr]

/-- A query with a select list of its own has items with a property that fields of the input give them, unless the
result has declared one of some clauses, which stays declared. -/
theorem HasList.listHas {Items : Context → List Node → Prop} (hP : Inherited P) (hcolumns : HasColumns P)
    (hinner : ∀ {n c : Node}, n.kind = .aliased → P n → n.this? = some c → P c) (henv : env.fieldMap = [])
    (h : HasList env (x.expecting expected ignores) rel Items r)
    (hx : (∃ c ∈ cs, c ∈ x.clauses) ∨ ListHas P x.node)
    (hItems : ∀ ctx items, FieldsHave P env ctx → Items ctx items → ∀ item ∈ items, P item) :
    (∃ c ∈ cs, c ∈ r.clauses) ∨ ListHas P r.node := by
  obtain ⟨b, items, hb, hclauses, hlist, hitems⟩ := h
  rcases hb.fields_or hP hcolumns hinner henv hx with hfields | ⟨⟨c, hcs, hc⟩, hwrap⟩
  · refine .inr fun items' hitems' => ?_
    obtain rfl : items = items' := Option.some.inj (hlist.symm.trans hitems')
    exact hItems b.context items hfields hitems
  · rw [hclauses, hb.clauses, hwrap]
    exact .inl ⟨c, hcs, List.mem_append_left _ hc⟩

/-- The clauses that were announced are declared in the query of an operator. -/
theorem KeepsList.mem_expected (h : KeepsList env (x.expecting expected ignores) rel r) (hc : c ∈ expected) :
    c ∈ r.clauses := by
  obtain ⟨b, hb, hclauses, -⟩ := h
  rw [hclauses]
  exact hb.mem_expected (by simpa [Result.expecting] using hc)

theorem HasList.mem_expected {Items : Context → List Node → Prop}
    (h : HasList env (x.expecting expected ignores) rel Items r) (hc : c ∈ expected) : c ∈ r.clauses := by
  obtain ⟨b, items, hb, hclauses, -⟩ := h
  rw [hclauses]
  exact hb.mem_expected (by simpa [Result.expecting] using hc)

end Lists

/-- An item is one of some nodes under a name. -/
def IsNamed (P : Node → Prop) (item : Node) : Prop := ∃ n name, P n ∧ item = namedItem n name

theorem isNamed_namedItems {P : Node → Prop} {ns : List Node} (hns : ∀ n ∈ ns, P n) (fields : RowType) :
    ∀ item ∈ namedItems ns fields, IsNamed P item := by
  intro item hitem
  obtain ⟨i, hi, rfl⟩ := List.mem_iff_getElem.mp hitem
  simp only [namedItems, List.length_zipWith] at hi
  exact ⟨ns[i], fields[i].name, hns _ (List.getElem_mem _), by simp [namedItems]⟩

theorem isNamed_addSelects {P : Node → Prop} {fields : RowType} {ns out : List Node} (hns : ∀ n ∈ ns, P n)
    (h : addSelects fields [] ns = .ok out) : ∀ item ∈ out, IsNamed P item := by
  obtain ⟨-, rfl⟩ := addSelects_eq_ok (by simp) h
  exact isNamed_namedItems hns _

/-- Named items have a property that their nodes have. -/
theorem Inherited.isNamed {P : Node → Prop} (hP : Inherited P) {item : Node} (h : IsNamed P item) : P item := by
  obtain ⟨n, name, hn, rfl⟩ := h
  unfold namedItem
  split
  · exact hn
  · exact inherited_aliased hP hn name

/-- Items have a property that the nodes have to which names are given. -/
theorem Inherited.addSelects {P : Node → Prop} (hP : Inherited P) {fields : RowType} {items ns out : List Node}
    (hlen : items.length ≤ fields.length) (h : addSelects fields items ns = .ok out) (hitems : ∀ n ∈ items, P n)
    (hns : ∀ n ∈ ns, P n) : out.length ≤ fields.length ∧ ∀ n ∈ out, P n := by
  obtain ⟨hroom, rfl⟩ := addSelects_eq_ok hlen h
  refine ⟨?_, fun n hn => ?_⟩
  · rw [List.length_append, length_namedItems (by rw [List.length_drop]; omega)]
    exact hroom
  · rcases List.mem_append.mp hn with hn | hn
    · exact hitems n hn
    · exact hP.isNamed (isNamed_namedItems hns _ n hn)

/-- A projected expression has what its node has. -/
theorem Maintains.projectedNode {I : State → Prop} {P : Node → Prop} (hP : Inherited P) {ctx : Context} {e : Expr}
    (h : Maintains I P (scalarNode env sub ctx e)) : Maintains I P (projectedNode env sub ctx e) := by
  refine .bind h fun n hn => .pure ?_
  split
  · exact inherited_typedNull hP _ _
  · exact hn

/-! ## Queries that are extended -/

/-- **`Extensible`** — a SELECT with the property whose parts are assemblies. -/
structure Extensible (Good : Node → Prop) (n : Node) : Prop where
  good : Good n
  kind : n.kind = .select
  clausal : Clausal n

namespace Extensible

variable {n : Node}

theorem isAssembly (h : Extensible Good n) : isAssembly n.kind = true := by
  rw [h.kind]
  rfl

/-- An opened query can be extended. -/
theorem of_openedAs (hG : Structural Good) {b : Builder} (h : OpenedAs env x rel b) (hx : Assembled Good x) :
    Extensible Good b.select := by
  refine ⟨h.good hG hx.good, h.select_kind, ?_⟩
  rcases h.select with ⟨hkind, hsame⟩ | ⟨item, hitem, -⟩
  · rw [hsame]
    exact hx.clausal hkind
  · rw [hitem]
    exact clausal_selectFrom item

theorem put (hG : Structural Good) (h : Extensible Good n) (key : String) {a : Arg} (ha : ∀ c ∈ a.children, Good c)
    (hassembly : ∀ m, a.node? = some m → Convert.isAssembly m.kind = true) :
    Extensible Good (n.set key (some a)) :=
  ⟨hG.set h.isAssembly h.good ha, by simpa using h.kind, h.clausal.set key hassembly⟩

/-- A condition or another wrapped node becomes a clause. -/
theorem putWrapped (hG : Structural Good) (h : Extensible Good n) (key : String) (kind : Kind) {c : Node}
    (hkind : Convert.isAssembly kind = true) (hc : Good c) :
    Extensible Good (n.set key (some (.node (Node.wrap kind c)))) := by
  refine h.put hG key (by simpa using hG.wrap hkind hc) fun m hm => ?_
  obtain rfl : Node.wrap kind c = m := by simpa using hm
  exact hkind

theorem putList (hG : Structural Good) (h : Extensible Good n) (key : String) {ns : List Node} (hns : ∀ c ∈ ns, Good c) :
    Extensible Good (n.set key (some (.nodes ns))) :=
  h.put hG key (by simpa using hns) (by simp)

theorem putFlag (hG : Structural Good) (h : Extensible Good n) (key : String) (b : Bool) :
    Extensible Good (n.set key (some (.flag b))) :=
  h.put hG key (by simp) (by simp)

/-- The condition of a clause has the property. -/
theorem condition (hG : Structural Good) (h : Extensible Good n) {key : String} {c : Node}
    (hc : n.condition? key = some c) : Good c := by
  simp only [condition?, Option.bind_eq_some_iff] at hc
  obtain ⟨m, hm, hc⟩ := hc
  have hgood : Good m := hG.child h.isAssembly h.good (List.mem_flatMap.mpr ⟨_, mem_args_of_child? hm, by simp⟩)
  exact hG.child (h.clausal key m hm) hgood (List.mem_flatMap.mpr ⟨_, mem_args_of_child? hc, by simp⟩)

theorem alongside (hG : Structural Good) {b : Builder} (h : Extensible Good b.select) (key : String) {c : Node}
    (hc : Good c) : Good (b.alongside key c) := by
  unfold Builder.alongside
  split
  · rename_i existing hexisting
    exact inherited_and hG.inherited (by simpa using ⟨h.condition hG hexisting, hc⟩)
  · exact hc

/-- The query of a builder is recorded. -/
theorem result (h : Extensible Good n) {b : Builder} (hb : b.select = n) :
    Maintains OnlyColumns (fun r => Assembled Good r ∧ r.node = n ∧ r.clauses = b.clauses) (b.result env) := by
  subst hb
  exact assembled_makeResult b.clauses b.rel b.aliases h.good fun _ => h.clausal

end Extensible

/-! ## Operators on one input -/

section Operators

variable (hG : Structural Good)

include hG

/-- **A filter** puts a condition into the query. -/
theorem assembled_filterResult {input : Rel} {condition : Expr} (ids : List String) (hx : Assembled Good x)
    (hcondition : ∀ b, OpenedAs env (x.expecting [filterClause env input condition] (ignoresClauses rel)) rel b →
      Maintains OnlyColumns Good (scalarNode env sub b.context condition)) :
    Maintains OnlyColumns (fun r => Assembled Good r
        ∧ KeepsList env (x.expecting [filterClause env input condition] (ignoresClauses rel)) rel r)
      (filterResult env sub input condition ids rel x) := by
  unfold filterResult
  refine .bind (maintains_registerCorrelations _ _) fun _ _ => .bind (maintains_builder _ _) fun b hb => ?_
  have hquery : Extensible Good b.select := .of_openedAs hG hb ⟨hx.good, hx.named, hx.clausal⟩
  refine .bind (hcondition b hb) fun n hn => .lift_bind fun b' hb' => ?_
  obtain ⟨key, kind, c, hkey, hkind, hc, rfl⟩ : ∃ key kind c, key ≠ "expressions" ∧ isAssembly kind = true ∧ Good c
      ∧ b' = { b with select := b.select.set key (some (.node (Node.wrap kind c))) } := by
    split at hb'
    · exact ⟨_, _, _, by decide, rfl, hquery.alongside hG _ hn, put_eq_ok hb'⟩
    · exact ⟨_, _, _, by decide, rfl, hquery.alongside hG _ hn, put_eq_ok hb'⟩
    · exact ⟨_, _, _, by decide, rfl, hn, put_eq_ok hb'⟩
  refine ((hquery.putWrapped hG key kind hkind hc).result rfl).mono ?_
  rintro r ⟨hr, hnode, hclauses⟩
  exact ⟨hr, b, hb, hclauses, by rw [hnode, selectList?_set hkey]⟩

/-- **A projection** sets the select list, unless it passes its input through. -/
theorem assembled_projectResult (Item : Context → Expr → Node → Prop) {input : Rel} {projects : List Expr}
    (distinct : Bool) (ids : List String) (hx : Assembled Good x)
    (hprojects : ∀ b, OpenedAs env (x.expecting [.select]) rel b → ∀ e ∈ projects,
      Maintains OnlyColumns (fun n => Good n ∧ Item b.context e n) (projectedNode env sub b.context e)) :
    Maintains OnlyColumns (fun r => Assembled Good r
        ∧ (isIdentity input projects rel.fields = true ∧ KeepsList env (x.expecting [.select]) rel r
          ∨ HasList env (x.expecting [.select]) rel (fun ctx items => ∃ ns, List.Forall₂ (Item ctx) projects ns
              ∧ ns.length ≤ rel.fields.length ∧ items = namedItems ns rel.fields) r))
      (projectResult env sub input projects distinct ids rel x) := by
  unfold projectResult
  refine .bind (maintains_registerCorrelations _ _) fun _ _ => .bind (maintains_builder _ _) fun b hb => ?_
  have hquery : Extensible Good b.select := .of_openedAs hG hb ⟨hx.good, hx.named, hx.clausal⟩
  have hresult : ∀ {m : Node}, Extensible Good m →
      Maintains OnlyColumns
        (fun r => Assembled Good r ∧ r.node.selectList? = m.selectList? ∧ r.clauses = b.clauses)
        ((if distinct then Builder.setDistinct { b with select := m } else { b with select := m }).result env) := by
    intro m hm
    cases distinct with
    | true =>
      refine ((hm.putFlag hG "distinct" true).result rfl).mono ?_
      rintro r ⟨hr, hnode, hclauses⟩
      exact ⟨hr, by rw [hnode, selectList?_set (by decide)], hclauses⟩
    | false =>
      refine (hm.result rfl).mono ?_
      rintro r ⟨hr, hnode, hclauses⟩
      exact ⟨hr, by rw [hnode], hclauses⟩
  by_cases hidentity : isIdentity input projects rel.fields = true
  · simp only [hidentity, if_true]
    refine .pure_bind ((hresult hquery).mono ?_)
    rintro r ⟨hr, hlist, hclauses⟩
    exact ⟨hr, .inl ⟨trivial, b, hb, hclauses, hlist⟩⟩
  · simp only [hidentity]
    refine .bind (.forall₂_mapM (hprojects b hb)) fun ns hns => .lift_bind fun items hitems => .pure_bind ?_
    obtain ⟨hlen, rfl⟩ := addSelects_eq_ok (by simp) hitems
    have hlisted := hquery.putList hG "expressions" (hG.namedItems (forall_right_of_forall₂ hns) rel.fields)
    refine (hresult hlisted).mono ?_
    rintro r ⟨hr, hlist, hclauses⟩
    refine ⟨hr, .inr ⟨b, _, hb, hclauses, by rw [hlist, selectList?_setSelect], ns, ?_, by simpa using hlen, by simp⟩⟩
    exact hns.imp fun _ _ h => h.2

/-- **An aggregation** lists its keys and its calls, or a constant if it has neither. -/
theorem assembled_aggregateResult (henv : env.fieldMap = []) {keys : List Ordinal} {sets : List (List Ordinal)}
    {calls : List AggregateCall} (hx : Assembled Good x)
    (hcalls : ∀ b, OpenedAs env (x.expecting [.groupBy] (ignoresClauses rel)) rel b → ∀ call ∈ calls, ∀ n,
      aggregateNode env b.context call = .ok n → Good n) :
    Maintains OnlyColumns (fun r => Assembled Good r
        ∧ HasList env (x.expecting [.groupBy] (ignoresClauses rel)) rel (fun ctx items => ∃ ks ns,
          keys.mapM (ctx.field env) = .ok ks ∧ calls.mapM (aggregateNode env ctx) = .ok ns
            ∧ (items = namedItems (ks ++ ns) rel.fields ∨ (ks = [] ∧ items = [Node.number "1"]))) r)
      (aggregateResult env keys sets calls rel x) := by
  unfold aggregateResult
  refine .bind (maintains_builder _ _) fun b hb => ?_
  have hquery : Extensible Good b.select := .of_openedAs hG hb ⟨hx.good, hx.named, hx.clausal⟩
  have hfields : FieldsHave Good env b.context := hb.fields hG henv hx.good
  refine .lift_bind fun ks hks => .lift_bind fun named hnamed => .lift_bind fun groups hgroups => ?_
  refine .lift_bind fun ns hns => .lift_bind fun items hitems => ?_
  -- the keys stand in front of the calls, each under the name of its column
  have hlisted : items = namedItems (ks ++ ns) rel.fields := by
    obtain ⟨hlen, rfl⟩ := addSelects_eq_ok (by simp) hnamed
    obtain ⟨-, rfl⟩ := addSelects_eq_ok (length_namedItems_le _ _) hitems
    simp only [List.length_nil, Nat.zero_add] at hlen
    rw [length_namedItems hlen, namedItems_append hlen]
  have hlist : (if items.isEmpty then [Node.number "1"] else items) = namedItems (ks ++ ns) rel.fields
      ∨ (ks = [] ∧ (if items.isEmpty then [Node.number "1"] else items) = [Node.number "1"]) := by
    split
    · rename_i hempty
      obtain ⟨hlen, rfl⟩ := addSelects_eq_ok (by simp) hnamed
      simp only [List.nil_append, List.length_nil, List.drop_zero, Nat.zero_add] at hitems hlen
      obtain ⟨-, rfl⟩ := addSelects_eq_ok (length_namedItems_le _ _) hitems
      have hnone : namedItems ks rel.fields = [] := (List.append_eq_nil_iff.mp (List.isEmpty_iff.mp hempty)).1
      refine .inr ⟨List.eq_nil_of_length_eq_zero ?_, rfl⟩
      rw [← length_namedItems hlen, hnone, List.length_nil]
    · exact .inl hlisted
  have hgood : ∀ item ∈ (if items.isEmpty then [Node.number "1"] else items), Good item := by
    rcases hlist with heq | ⟨-, heq⟩
    · rw [heq]
      refine hG.namedItems (fun n hn => ?_) rel.fields
      rcases List.mem_append.mp hn with hn | hn
      · exact forall_of_mapM hks (fun k _ n hn => hfields k n hn) n hn
      · exact forall_of_mapM hns (fun call hc n hn => hcalls b hb call hc n hn) n hn
    · rw [heq]
      simpa using inherited_number hG.inherited "1"
  generalize (if items.isEmpty then [Node.number "1"] else items) = list at hlist hgood ⊢
  have hextended := hquery.putList hG "expressions" hgood
  split
  · refine .pure_bind ((hextended.result rfl).mono ?_)
    rintro r ⟨hr, hnode, hclauses⟩
    exact ⟨hr, b, _, hb, hclauses, by rw [hnode, selectList?_setSelect], ks, ns, hks, hns, hlist⟩
  · refine .lift_bind fun b' hb' => ?_
    obtain rfl := put_eq_ok hb'
    have hgroup : Good (Node.mk .group [("expressions", .nodes groups)]) :=
      hG.of_args rfl (by simpa using inherited_groupByNodes hG.inherited hfields hgroups)
    have hgrouped := hextended.put hG "group" (a := .node (.mk .group [("expressions", .nodes groups)]))
      (by simpa using hgroup) (by rintro m ⟨⟩; rfl)
    refine (hgrouped.result rfl).mono ?_
    rintro r ⟨hr, hnode, hclauses⟩
    exact ⟨hr, b, _, hb, hclauses, by rw [hnode, selectList?_set (by decide), selectList?_setSelect], ks, ns, hks, hns,
      hlist⟩

/-- **Windowed calls** stand behind the fields of the input. -/
theorem assembled_windowResult (Windowed : Context → Node → Prop) (henv : env.fieldMap = []) {input : Rel}
    {groups : List (WindowGroup Expr)} {constants : List Literal} (hx : Assembled Good x)
    (hgroups : ∀ b, OpenedAs env (x.expecting [.select]) rel b → ∀ g ∈ groups, ∀ width,
      Maintains OnlyColumns (fun ns => ∀ n ∈ ns, Good n ∧ Windowed b.context n)
        (windowGroupNodes env sub b.context constants width g)) :
    Maintains OnlyColumns (fun r => Assembled Good r
        ∧ HasList env (x.expecting [.select]) rel (fun ctx items => ∀ item ∈ items,
          IsNamed (fun n => (∃ i, ctx.field env i = .ok n) ∨ Windowed ctx n) item) r)
      (windowResult env sub input groups constants rel x) := by
  unfold windowResult
  refine .bind (maintains_builder _ _) fun b hb => .bind (.mapM (hgroups b hb · · _)) fun calls hcalls => ?_
  have hquery : Extensible Good b.select := .of_openedAs hG hb ⟨hx.good, hx.named, hx.clausal⟩
  refine .lift_bind fun columns hcolumns => .lift_bind fun items hitems => ?_
  have hnode : ∀ n ∈ columns ++ calls.flatten, Good n ∧ ((∃ i, b.context.field env i = .ok n) ∨ Windowed b.context n) := by
    intro n hn
    rcases List.mem_append.mp hn with hn | hn
    · obtain ⟨i, hi⟩ := forall_of_mapM (p := fun n => ∃ i, b.context.field env i = .ok n) hcolumns
        (fun i _ n hn => ⟨_, hn⟩) n hn
      exact ⟨hb.fields hG henv hx.good i n hi, .inl ⟨i, hi⟩⟩
    · obtain ⟨ns, hns, hmem⟩ := List.mem_flatten.mp hn
      exact ⟨(hcalls ns hns n hmem).1, .inr (hcalls ns hns n hmem).2⟩
  have hlisted := hquery.putList hG "expressions" (hG.addSelects hitems (by simp) (by simp) fun n hn => (hnode n hn).1)
  refine (hlisted.result rfl).mono ?_
  rintro r ⟨hr, hselect, hclauses⟩
  exact ⟨hr, b, _, hb, hclauses, by rw [hselect, selectList?_setSelect],
    isNamed_addSelects (fun n hn => (hnode n hn).2) hitems⟩

/-- The limits of a sort become clauses. -/
theorem extensible_limited {clause : Clause} {key : String} {kind : Kind} {limit : Option Expr} {b : Builder}
    (hkey : key ≠ "expressions") (hkind : isAssembly kind = true) (hb : Extensible Good b.select)
    (hlimit : ∀ e, limit = some e → Maintains OnlyColumns Good (scalarNode env sub b.context e)) :
    Maintains OnlyColumns (fun b' => Extensible Good b'.select ∧ b'.context = b.context ∧ b'.clauses = b.clauses
        ∧ b'.select.selectList? = b.select.selectList?)
      (limited env sub clause key kind limit b) := by
  cases limit with
  | none => exact .pure ⟨hb, rfl, rfl, rfl⟩
  | some e =>
    refine .bind (hlimit e rfl) fun n hn => .lift fun b' hb' => ?_
    obtain rfl := put_eq_ok hb'
    exact ⟨hb.putWrapped hG key kind hkind hn, rfl, rfl, selectList?_set hkey _⟩

/-- **A sort** leaves the select list, or lists the columns of its input. -/
theorem assembled_sortResult (henv : env.fieldMap = []) {root : Bool} {collation : List Collation}
    {offset fetch : Option Expr} (hx : Assembled Good x)
    (hlimits : ∀ b, OpenedAs env (x.expecting [.orderBy, .fetch, .offset]) rel b → ∀ e,
      offset = some e ∨ fetch = some e → Maintains OnlyColumns Good (scalarNode env sub b.context e)) :
    Maintains OnlyColumns (fun r => Assembled Good r
        ∧ (KeepsList env (x.expecting [.orderBy, .fetch, .offset]) rel r
          ∨ HasList env (x.expecting [.orderBy, .fetch, .offset]) rel (fun ctx items =>
              (∃ inputs qualified, ctx = .aliases inputs qualified)
                ∧ ∀ item ∈ items, IsNamed (fun n => ∃ i, ctx.field env i = .ok n) item) r))
      (sortResult env sub root collation offset fetch rel x) := by
  rw [sortResult_eq]
  refine .bind (maintains_builder _ _) fun b hb => ?_
  have hquery : Extensible Good b.select := .of_openedAs hG hb ⟨hx.good, hx.named, hx.clausal⟩
  have hfields : FieldsHave Good env b.context := hb.fields hG henv hx.good
  have hlisted : Maintains OnlyColumns (fun b₁ => Extensible Good b₁.select ∧ b₁.context = b.context
      ∧ b₁.clauses = b.clauses ∧ (b₁.select.selectList? = b.select.selectList?
        ∨ ∃ items, b.select.selectList? = none ∧ b₁.select.selectList? = some items
          ∧ ∀ item ∈ items, IsNamed (fun n => ∃ i, b.context.field env i = .ok n) item))
      (listed env root rel.fields b) := by
    unfold listed
    split
    · rename_i hbelow
      refine .lift fun b₁ hb₁ => ?_
      simp only [withFields, bind_eq_ok_iff, pure_eq_ok_iff] at hb₁
      obtain ⟨ns, hns, items, hitems, rfl⟩ := hb₁
      have hcolumn : ∀ n ∈ ns, ∃ i, b.context.field env i = .ok n :=
        forall_of_mapM (p := fun n => ∃ i, b.context.field env i = .ok n) hns fun i _ n hn => ⟨_, hn⟩
      have hnone : b.select.selectList? = none := by
        simp only [Bool.and_eq_true, Option.isNone_iff_eq_none] at hbelow
        exact hbelow.2
      refine ⟨hquery.putList hG "expressions" (hG.addSelects hitems (by simp) (by simp) fun n hn => ?_), rfl, rfl,
        .inr ⟨items, hnone, selectList?_setSelect _ _, isNamed_addSelects hcolumn hitems⟩⟩
      obtain ⟨i, hi⟩ := hcolumn n hn
      exact hfields i n hi
    · exact .pure ⟨hquery, rfl, rfl, .inl rfl⟩
  refine .bind hlisted ?_
  rintro b₁ ⟨hquery₁, hctx₁, hclauses₁, hlist₁⟩
  have hordered : Maintains OnlyColumns (fun b₂ => Extensible Good b₂.select ∧ b₂.context = b.context
      ∧ b₂.clauses = b.clauses ∧ b₂.select.selectList? = b₁.select.selectList?) (ordered env collation b₁) := by
    unfold ordered
    refine .lift_bind fun keys hkeys => ?_
    split
    · exact .pure ⟨hquery₁, hctx₁, hclauses₁, rfl⟩
    · refine .lift fun b₂ hb₂ => ?_
      obtain rfl := put_eq_ok hb₂
      have hgood : ∀ n ∈ keys, Good n := inherited_collationsNodes hG.inherited (fun c _ => hctx₁ ▸ hfields c.key) hkeys
      refine ⟨hquery₁.put hG "order" (a := .node (Node.order keys)) ?_ ?_, hctx₁, hclauses₁, selectList?_set (by decide) _⟩
      · simpa using inherited_order hG.inherited hgood
      · rintro m ⟨⟩
        rfl
  refine .bind hordered ?_
  rintro b₂ ⟨hquery₂, hctx₂, hclauses₂, hlist₂⟩
  refine .bind (extensible_limited hG (by decide) rfl hquery₂ fun e he => hctx₂ ▸ hlimits b hb e (.inr he)) ?_
  rintro b₃ ⟨hquery₃, hctx₃, hclauses₃, hlist₃⟩
  refine .bind (extensible_limited hG (by decide) rfl hquery₃ fun e he => ?_) ?_
  · rw [hctx₃, hctx₂]
    exact hlimits b hb e (.inl he)
  rintro b₄ ⟨hquery₄, -, hclauses₄, hlist₄⟩
  refine (hquery₄.result rfl).mono ?_
  rintro r ⟨hr, hnode, hclauses⟩
  have hdeclared : r.clauses = b.clauses := by rw [hclauses, hclauses₄, hclauses₃, hclauses₂]
  have hkept : r.node.selectList? = b₁.select.selectList? := by rw [hnode, hlist₄, hlist₃, hlist₂]
  refine ⟨hr, ?_⟩
  rcases hlist₁ with hsame | ⟨items, hnone, hsome, hitems⟩
  · exact .inl ⟨b, hb, hdeclared, by rw [hkept, hsame]⟩
  · refine .inr ⟨b, items, hb, hdeclared, by rw [hkept, hsome], ?_, hitems⟩
    rcases hb.context with ⟨_, _, _, -, -, hsame, hlist, -⟩ | ⟨-, hctx⟩
    · rw [hsame, hlist] at hnone
      cases hnone
    · exact hctx

/-! ## Operators on several inputs -/

/-- **A join** has no select list. -/
theorem assembled_joinResult {condition : Expr} {type : JoinType} (ids : List String) {left right : Result}
    (hleft : Assembled Good left) (hright : Assembled Good right)
    (hcondition : Maintains OnlyColumns Good
      (conditionNode env sub left.qualifiedContext right.qualifiedContext condition)) :
    Maintains OnlyColumns (fun r => Assembled Good r ∧ r.node.selectList? = none)
      (joinResult env sub condition type ids rel left right) := by
  unfold joinResult
  refine .bind (maintains_registerCorrelations _ _) fun _ _ => .lift_bind fun l hl => .lift_bind fun r hr => ?_
  have hl := hG.embeds hleft.good (embeds_asFrom hl)
  have hr := hG.embeds hright.good (embeds_asFrom hr)
  have hmade : ∀ (kind : String) (on : Option Node), (∀ n, on = some n → Good n) →
      Maintains OnlyColumns (fun r => Assembled Good r ∧ r.node.selectList? = none)
        (makeJoinResult env (joinNode l r kind on) left right rel) := by
    intro kind on hon
    have hgood : Good (joinNode l r kind on) := by
      refine hG.of_args rfl fun c hc => ?_
      simp only [List.flatMap_append, List.flatMap_cons, children_node, children_text, List.flatMap_nil,
        List.append_nil, flatMap_optional, List.mem_append, List.mem_singleton, Option.mem_toList] at hc
      rcases hc with (rfl | rfl) | hc
      · exact hl
      · exact hr
      · exact hon c hc
    refine (assembled_makeResult _ _ _ hgood fun hkind => by cases hkind).mono ?_
    rintro r' ⟨hr', hnode, -⟩
    refine ⟨hr', ?_⟩
    rw [hnode]
    cases on <;> simp [joinNode, selectList?, list?, Node.optional]
  split
  · exact .pure_bind (hmade _ none fun n hn => by cases hn)
  · exact .bind hcondition fun on hon => .pure_bind (hmade _ _ fun n hn => by cases hn; exact hon)

/-- **A join that only tests for partners** reads its left input by `SELECT *`. -/
theorem assembled_semiJoinResult {condition : Expr} {type : JoinType} (ids : List String) {left right : Result}
    (hleft : Assembled Good left) (hright : Assembled Good right)
    (hcondition : Maintains OnlyColumns Good
      (conditionNode env sub left.qualifiedContext right.qualifiedContext condition)) :
    Maintains OnlyColumns (fun r => Assembled Good r ∧ r.node.selectList? = none)
      (semiJoinResult env sub condition type ids rel left right) := by
  rw [semiJoinResult_eq]
  refine .bind (maintains_registerCorrelations _ _) fun _ _ => .bind hcondition fun on hon => ?_
  have hquery : Maintains OnlyColumns (fun m => ∃ item, m = Node.selectFrom item ∧ Embeds left.node item)
      (leftQuery env left) := by
    unfold leftQuery
    split
    · rename_i hnone
      refine .of_spares (fun _ => left.steady_asSelect) fun s m s' hm => ?_
      exact (asSelect_reads hm).resolve_left fun h => hleft.named (by simpa using hnone) h.1
    · exact .of_spares (fun _ => left.steady_subSelect) fun s m s' hm => subSelect_reads hm
  refine .bind hquery ?_
  rintro _ ⟨item, rfl, hitem⟩
  refine .lift_bind fun partner hpartner => ?_
  have hselect : Extensible Good (Node.selectFrom item) :=
    ⟨hG.selectFrom (hG.embeds hleft.good hitem), rfl, clausal_selectFrom item⟩
  have hexists : Good (Node.wrap .exists (existenceQuery partner on)) := by
    refine hG.wrap rfl (hG.of_args rfl fun c hc => ?_)
    simp only [List.flatMap_cons, children_nodes, children_node, List.flatMap_nil, List.append_nil,
      List.mem_append, List.mem_singleton] at hc
    rcases hc with rfl | rfl | rfl
    · exact inherited_number hG.inherited _
    · exact hG.wrap rfl (hG.embeds hright.good (embeds_asFrom hpartner))
    · exact hG.wrap rfl hon
  have htest : Good (partnerTest type (Node.selectFrom item) (Node.wrap .exists (existenceQuery partner on))) := by
    have htested : Good (if type == .anti then Node.not (Node.wrap .exists (existenceQuery partner on))
        else Node.wrap .exists (existenceQuery partner on)) := by
      split
      · exact hG.wrap rfl hexists
      · exact hexists
    unfold partnerTest
    dsimp only
    split
    · rename_i existing hexisting
      refine inherited_and hG.inherited fun c hc => ?_
      rcases List.mem_cons.mp hc with rfl | hc
      · exact hselect.condition hG hexisting
      · rwa [List.mem_singleton.mp hc]
    · exact htested
  have hfiltered := hselect.putWrapped hG "where" .where rfl htest
  refine (assembled_makeResult _ _ _ hfiltered.good fun _ => hfiltered.clausal).mono ?_
  rintro r ⟨hr, hnode, -⟩
  refine ⟨hr, ?_⟩
  rw [hnode, selectList?_set (by decide)]
  simp [Node.selectFrom, selectList?, list?]

/-- A result is read as a query with the property. -/
theorem assembled_asSelect {r : Result} (hr : Assembled Good r) :
    Maintains OnlyColumns (fun n => Good n ∧ (n.kind = .select → Clausal n)) (r.asSelect env) := by
  refine (maintains_asSelect r).mono fun n hn => ⟨hG.returned hr.good hn, fun hkind => ?_⟩
  cases hn with
  | itself => exact hr.clausal hkind
  | read h => exact clausal_selectFrom _

omit hG in
/-- A set operation on at least two queries has two branches. -/
theorem setOperations_cons (kind : Kind) (distinct : Bool) (ns : List Node) (n m : Node) :
    ∃ l r, (m :: ns).foldl (fun u n => Node.setOperation kind u n distinct) n = Node.setOperation kind l r distinct := by
  induction ns generalizing n m with
  | nil => exact ⟨n, m, rfl⟩
  | cons k ns ih => exact ih (Node.setOperation kind n m distinct) k

/-- **A set operation** declares nothing but itself. -/
theorem assembled_setOpResult {op : SetOperator} {all : Bool} {selects : List Node}
    (hselects : ∀ n ∈ selects, Good n ∧ (n.kind = .select → Clausal n)) :
    Maintains OnlyColumns (fun r => Assembled Good r ∧ r.clauses = [.setOp])
      (setOpResult env op all rel selects) := by
  have hassembly : isAssembly (setKind op) = true := by cases op <;> rfl
  unfold setOpResult
  rcases selects with _ | ⟨first, _ | ⟨second, rest⟩⟩
  · exact .throw
  · obtain ⟨hgood, hclausal⟩ := hselects first (by simp)
    refine (assembled_makeResult _ _ _ hgood hclausal).mono ?_
    rintro r ⟨hr, -, hclauses⟩
    exact ⟨hr, hclauses⟩
  · have hgood : Good ((second :: rest).foldl (fun u n => Node.setOperation (setKind op) u n !all) first) :=
      hG.setOperations hassembly (fun n hn => (hselects n (List.mem_cons_of_mem _ hn)).1)
        (hselects first List.mem_cons_self).1 (!all)
    obtain ⟨l, r, heq⟩ := setOperations_cons (setKind op) (!all) rest first second
    refine (assembled_makeResult _ _ _ hgood fun hkind => ?_).mono ?_
    · rw [heq] at hkind
      cases op <;> cases hkind
    · rintro r' ⟨hr', -, hclauses⟩
      exact ⟨hr', hclauses⟩

/-! ## Leaves -/

omit hG in
theorem selectList?_table {path : List String} {n : Node} (h : Node.table? path = .ok n) : n.selectList? = none := by
  unfold Node.table? at h
  split at h <;> cases h <;> simp [table?.tableIn, kept, selectList?, list?]

/-- **A table** has no select list. -/
theorem assembled_scanResult {table : List String} :
    Maintains OnlyColumns (fun r => Assembled Good r ∧ r.node.selectList? = none) (scanResult env table rel) := by
  refine .lift_bind fun n hn => ?_
  have hkind : n.kind = .table := by
    unfold Node.table? at hn
    split at hn <;> cases hn <;> rfl
  have hlist : n.selectList? = none := selectList?_table hn
  refine (assembled_makeResult _ _ _ (hG.table hn) fun hselect => ?_).mono ?_
  · rw [hkind] at hselect
    cases hselect
  · rintro r ⟨hr, rfl, -⟩
    exact ⟨hr, hlist⟩

omit hG in
/-- Named constants have every property that nodes inherit from their children. -/
theorem inherited_namedConstants {P : Node → Prop} (hP : Inherited P) {ns : List Node} (hns : ∀ n ∈ ns, P n)
    (fields : RowType) : ∀ item ∈ List.zipWith (fun (f : Field) n => Node.aliased n f.name) fields ns, P item := by
  intro item hitem
  obtain ⟨i, hi, rfl⟩ := List.mem_iff_getElem.mp hitem
  simp only [List.length_zipWith] at hi
  simpa using inherited_aliased hP (hns ns[i] (List.getElem_mem _)) fields[i].name

/-- The query for constant rows. -/
theorem assembled_values {name : String} {fields : RowType} {tuples : List (List Literal)} {n : Node}
    (hn : (if env.dialect.capabilities.aliasedValues then aliasedValues env name fields tuples
      else unionValues env name fields tuples) = .ok n) :
    Good n ∧ (n.kind = .select → Clausal n)
      ∧ ∀ items, n.selectList? = some items → ∀ P, Inherited P → ∀ item ∈ items, P item := by
  have hselectWhere : ∀ {item condition : Node}, Good item → Good condition →
      Good (Node.selectWhere item condition) ∧ (Node.selectWhere item condition).selectList? = none
        ∧ Clausal (Node.selectWhere item condition) := by
    intro item condition hitem hcondition
    refine ⟨hG.selectWhere hitem hcondition, by simp [Node.selectWhere, selectList?, list?], fun key m hm => ?_⟩
    have hmem := mem_args_of_child? hm
    simp only [Node.selectWhere, args_mk, List.mem_cons, Prod.mk.injEq, Arg.node.injEq, List.not_mem_nil,
      or_false] at hmem
    rcases hmem with ⟨-, rfl⟩ | ⟨-, rfl⟩ <;> rfl
  have hnulls : ∀ P, Inherited P → ∀ n ∈ fields.map fun f => typedNull env.dialect f.type, P n := by
    intro P hP n hn
    obtain ⟨f, -, rfl⟩ := List.mem_map.mp hn
    exact inherited_typedNull hP _ _
  split at hn
  · have hvalues : ∀ {rows : List Node}, (∀ P, Inherited P → ∀ n ∈ rows, P n) →
        Good (.mk .values [("expressions", .nodes rows), ("alias", .node (Node.tableAlias name fields.names))]) := by
      intro rows hrows
      refine hG.of_args rfl fun c hc => ?_
      simp only [List.flatMap_cons, children_nodes, children_node, List.flatMap_nil, List.append_nil,
        List.mem_append, List.mem_singleton] at hc
      rcases hc with hc | rfl
      · exact hrows Good hG.inherited c hc
      · exact hG.tableAlias _ _
    simp only [aliasedValues] at hn
    split at hn
    · cases hn
      obtain ⟨hgood, hlist, hclausal⟩ := hselectWhere (hvalues fun P hP n hn => by
        obtain rfl := List.mem_singleton.mp hn
        exact inherited_tuple hP (hnulls P hP)) hG.alwaysFalse
      exact ⟨hgood, fun _ => hclausal, fun items hitems => by rw [hlist] at hitems; cases hitems⟩
    · simp only [bind_eq_ok_iff, pure_eq_ok_iff] at hn
      obtain ⟨rows, hrows, rfl⟩ := hn
      have hconstant : ∀ P, Inherited P → ∀ n ∈ rows, P n := fun P hP =>
        forall_of_mapM hrows fun tuple _ n hn => by
          simp only [bind_eq_ok_iff, pure_eq_ok_iff] at hn
          obtain ⟨literals, hliterals, rfl⟩ := hn
          exact inherited_tuple hP (inherited_literalNodes hP _ _ hliterals)
      refine ⟨hvalues hconstant, fun hkind => (by cases hkind), fun items hitems P hP => ?_⟩
      obtain rfl : rows = items := by simpa [selectList?, list?] using hitems
      exact hconstant P hP
  · -- each row is a SELECT of its own
    have hrow : ∀ {ns : List Node}, (∀ P, Inherited P → ∀ n ∈ ns, P n) → Good (namedSelect fields ns)
        ∧ Clausal (namedSelect fields ns)
        ∧ ∀ items, (namedSelect fields ns).selectList? = some items → ∀ P, Inherited P → ∀ item ∈ items, P item := by
      intro ns hns
      have hitems : ∀ P, Inherited P → ∀ item ∈ List.zipWith (fun (f : Field) n => Node.aliased n f.name) fields ns, P item :=
        fun P hP => inherited_namedConstants hP (hns P hP) fields
      refine ⟨hG.of_args rfl (by simpa using hitems Good hG.inherited), fun key m hm => ?_, fun items hlist => ?_⟩
      · have hmem := mem_args_of_child? hm
        simp [namedSelect, Node.selectItems] at hmem
      · obtain rfl : _ = items := by simpa [namedSelect, Node.selectItems, selectList?, list?] using hlist
        exact hitems
    simp only [unionValues, bind_eq_ok_iff] at hn
    obtain ⟨ns, hns, hn⟩ := hn
    have hrows : ∀ n ∈ ns, Good n ∧ Clausal n
        ∧ ∀ items, n.selectList? = some items → ∀ P, Inherited P → ∀ item ∈ items, P item :=
      forall_of_mapM hns fun tuple _ n hn => by
        simp only [bind_eq_ok_iff, pure_eq_ok_iff] at hn
        obtain ⟨literals, hliterals, rfl⟩ := hn
        exact hrow fun P hP => inherited_literalNodes hP _ _ hliterals
    split at hn
    · simp only [bind_eq_ok_iff, pure_eq_ok_iff] at hn
      obtain ⟨item, hitem, rfl⟩ := hn
      obtain ⟨hgood, hlist, hclausal⟩ := hselectWhere
        (hG.embeds (hrow hnulls).1 (embeds_asFromItem .itself hitem)) hG.alwaysFalse
      exact ⟨hgood, fun _ => hclausal, fun items hitems => by rw [hlist] at hitems; cases hitems⟩
    · rename_i first rest
      obtain rfl := (pure_eq_ok_iff _ _).mp hn
      obtain ⟨hgood, hclausal, hlist⟩ := hrows first List.mem_cons_self
      rcases rest with _ | ⟨second, rest⟩
      · exact ⟨hgood, fun _ => hclausal, hlist⟩
      · refine ⟨hG.setOperations rfl (fun n hn => (hrows n (List.mem_cons_of_mem _ hn)).1) hgood false, ?_⟩
        obtain ⟨l, r, heq⟩ := setOperations_cons .union false rest first second
        rw [heq]
        refine ⟨fun hkind => (by cases hkind), fun items hitems => ?_⟩
        simp [Node.setOperation, selectList?, list?] at hitems

/-- **Constant rows** list constants only. -/
theorem assembled_valuesResult {fields : RowType} {tuples : List (List Literal)} :
    Maintains OnlyColumns (fun r => Assembled Good r
        ∧ ∀ items, r.node.selectList? = some items → ∀ P, Inherited P → ∀ item ∈ items, P item)
      (valuesResult env fields tuples rel) := by
  unfold valuesResult
  refine .bind (.of_spares (fun _ => steady_nextName) fun _ _ _ _ => trivial) fun name _ => ?_
  refine .lift_bind fun n hn => ?_
  obtain ⟨hgood, hclausal, hlist⟩ := assembled_values hG hn
  refine (assembled_makeResult _ _ _ hgood hclausal).mono ?_
  rintro r ⟨hr, rfl, -⟩
  exact ⟨hr, hlist⟩

/-- **A table function** is read by `SELECT *`. -/
theorem assembled_tableFunctionResult {call : Expr} {selects : List Node}
    (hcall : Maintains OnlyColumns Good (scalarNode env sub (.tableFunction selects) call)) :
    Maintains OnlyColumns (Assembled Good) (tableFunctionResult env sub call rel selects) := by
  refine .bind hcall fun n hn => ?_
  refine (assembled_makeResult _ _ _ (hG.selectFrom (hG.wrap rfl hn)) fun _ => clausal_selectFrom _).mono ?_
  rintro r ⟨hr, -, -⟩
  exact hr

/-- Named expressions have the property. -/
theorem structural_namedNodes {ctx : Context} {entries : List (String × Expr)}
    (h : ∀ p ∈ entries, Maintains OnlyColumns Good (scalarNode env sub ctx p.2)) :
    Maintains OnlyColumns (fun ns => ∀ n ∈ ns, Good n) (namedNodes env sub ctx entries) :=
  .mapM fun p hp => .bind (h p hp) fun _ hn => .pure (inherited_aliased hG.inherited hn _)

/-- **Row pattern recognition** is a FROM item. -/
theorem assembled_rowPatternResult (henv : env.fieldMap = []) {spec : RowPattern Expr} (hx : Assembled Good x)
    (hexprs : ∀ e ∈ spec.pattern :: (spec.measures ++ spec.definitions).map (·.2),
      Maintains OnlyColumns Good (scalarNode env sub (.rowPattern x.resetAlias.aliases false) e)) :
    Maintains OnlyColumns (Assembled Good) (rowPatternResult env sub spec rel x) := by
  have hfields : FieldsHave Good env (.rowPattern x.resetAlias.aliases false) := fun i n hn =>
    hG.hasColumns.aliasField henv x.resetAlias.aliases false i n hn
  unfold rowPatternResult
  refine .lift_bind fun order horder => .lift_bind fun item hitem => .lift_bind fun partition hpartition => ?_
  refine .bind (structural_namedNodes hG fun p hp => hexprs p.2 ?_) fun measures hmeasures => ?_
  · exact List.mem_cons_of_mem _ (List.mem_map_of_mem (List.mem_append_left _ hp))
  refine .bind (hexprs _ List.mem_cons_self) fun pattern hpattern => .lift_bind fun within hwithin => ?_
  refine .bind (structural_namedNodes hG fun p hp => hexprs p.2 ?_) fun define hdefine => ?_
  · exact List.mem_cons_of_mem _ (List.mem_map_of_mem (List.mem_append_right _ hp))
  have hinput : Good item := hG.embeds (by rw [resetAlias_node]; exact hx.good) (embeds_asFrom hitem)
  have hsubset : ∀ p : String × List String, Good (subsetNode p) := fun p =>
    inherited_aliased hG.inherited (inherited_tuple hG.inherited (by simp [inherited_identifier hG.inherited])) _
  have hafter : ∀ n, afterSymbol spec.after = some n → Good n := by
    intro n hn
    unfold afterSymbol at hn
    split at hn <;> cases hn
    exact inherited_identifier hG.inherited _ _
  have hkeys : ∀ n ∈ order, Good n := inherited_collationsNodes hG.inherited (fun c _ => hfields c.key) horder
  have hpartitioned : ∀ n ∈ partition, Good n := forall_of_mapM hpartition fun i _ n hn => hfields i n hn
  have hlimit : ∀ n, within = some n → Good n := by
    rintro n rfl
    cases hspec : spec.within with
    | none => simp [hspec] at hwithin
    | some l =>
      rw [hspec] at hwithin
      cases hl : literalIn env (.rowPattern x.resetAlias.aliases false) l with
      | error e => simp [hl, Functor.map, Except.map] at hwithin
      | ok m =>
        obtain rfl : m = n := by simpa [hl, Functor.map, Except.map] using hwithin
        exact inherited_literalIn hG.inherited hl
  refine (assembled_makeResult _ _ _ (hG.of_args rfl fun c hc => ?_) (fun hkind => ?_)).mono ?_
  · simp only [List.flatMap_append, List.flatMap_cons, List.flatMap_nil, children_node, children_nodes, children_text,
      children_flag, flatMap_optional, List.append_nil, List.mem_append, List.mem_singleton,
      Option.mem_toList, List.mem_map] at hc
    rcases hc with ((((((rfl | hc) | hc) | hc) | hc) | rfl) | hc) | ⟨p, -, rfl⟩ | hc
    · exact hinput
    · exact hpartitioned c hc
    · split at hc
      · cases hc
      · obtain rfl : c = Node.order order := by simpa using hc
        exact inherited_order hG.inherited hkeys
    · exact hmeasures c hc
    · exact hafter c hc
    · exact hpattern
    · exact hlimit c hc
    · exact hsubset p
    · exact hdefine c hc
  · cases hkind
  · rintro r ⟨hr, -, -⟩
    exact hr

end Operators

end AlgebraSql.Convert
