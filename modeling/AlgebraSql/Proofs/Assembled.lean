import AlgebraSql.Proofs.AdmittedExpressions
import AlgebraSql.Proofs.ClauseOrder
import AlgebraSql.Proofs.Correlations

/-!
# Assembled queries — properties that calls alone decide.

Some properties of statements depend on calls, aggregates and windows only: any other node has the
property exactly when its children have it.  A query that is assembled from expressions with such a
property has it too, whatever operators put it together.  For each operator there is one lemma, which also
says how the query of the input was opened and what select list stands in the query it leaves.
-/

namespace AlgebraSql.Convert

open Sql Node

variable {Good : Node → Prop} {env : Env} {sub : Rel → ConvertM Node}

/-! ## Properties -/

/-- Kinds of nodes that put other nodes together, queries and parts of FROM among them. -/
def isAssembly : Kind → Bool
  | .call | .aggregate | .window | .filter | .withinGroup => false
  | _ => true

/-- **`Structural`** — an assembly of nodes has the property exactly when its children have it. -/
structure Structural (Good : Node → Prop) : Prop where
  assembly : ∀ {n : Node}, isAssembly n.kind = true → (Good n ↔ ∀ c ∈ n.children, Good c)
  row : ∀ {ns : List Node}, (∀ n ∈ ns, Good n) → Good (Node.call "ROW" ns)

section Nodes

variable (hG : Structural Good)

include hG

theorem Structural.of_args {kind : Kind} {args : Args} (hkind : isAssembly kind = true)
    (h : ∀ c ∈ args.flatMap (·.2.children), Good c) : Good (.mk kind args) :=
  (hG.assembly (n := .mk kind args) hkind).mpr h

theorem Structural.child {n c : Node} (hkind : isAssembly n.kind = true) (hn : Good n) (hc : c ∈ n.children) :
    Good c := (hG.assembly hkind).mp hn c hc

theorem Structural.set {n : Node} (hkind : isAssembly n.kind = true) (hn : Good n) {key : String} {a : Arg}
    (ha : ∀ c ∈ a.children, Good c) : Good (n.set key (some a)) := by
  refine (hG.assembly (by simpa using hkind)).mpr fun c hc => ?_
  obtain ⟨p, hp, hmem⟩ := List.mem_flatMap.mp hc
  rcases mem_put hp with rfl | hold
  · exact ha c hmem
  · exact hG.child hkind hn (List.mem_flatMap.mpr ⟨p, hold, hmem⟩)

theorem Structural.hasColumns : HasColumns Good :=
  .of_children (fun _ _ => hG.of_args rfl (by simp)) fun hkind h => (hG.assembly (by rw [hkind]; rfl)).mpr h

/-- The nodes of expressions inherit the property. -/
theorem Structural.inherited : Inherited Good where
  node := fun {n} hkind h => (hG.assembly (by revert hkind; cases n.kind <;> decide)).mpr h
  column := fun name => hG.hasColumns name none
  row := hG.row
  flipped := fun {n} hkind hn => hG.set (by revert hkind; cases n.kind <;> decide) hn (by simp)

theorem Structural.wrap {kind : Kind} (hkind : isAssembly kind = true) {n : Node} (h : Good n) :
    Good (Node.wrap kind n) := hG.of_args hkind (by simpa using h)

theorem Structural.tableAlias (name : String) (columns : List String) : Good (Node.tableAlias name columns) := by
  refine hG.of_args rfl fun c hc => ?_
  have hidentifier : ∀ c, (∃ s, c = identifier s) → Good c := by
    rintro c ⟨s, rfl⟩
    exact inherited_identifier hG.inherited s _
  simp only [List.flatMap_cons, children_node, List.flatMap_nil, List.append_nil, List.mem_append,
    List.mem_singleton] at hc
  rcases hc with rfl | hc
  · exact hidentifier _ ⟨_, rfl⟩
  · split at hc
    · cases hc
    · obtain ⟨s, -, rfl⟩ := List.mem_map.mp hc
      exact hidentifier _ ⟨_, rfl⟩

/-! ## Queries -/

theorem Structural.selectFrom {item : Node} (h : Good item) : Good (Node.selectFrom item) :=
  hG.of_args rfl (by simpa using hG.wrap rfl h)

theorem Structural.selectWhere {item condition : Node} (hitem : Good item) (hcondition : Good condition) :
    Good (Node.selectWhere item condition) :=
  hG.of_args rfl (by simpa using ⟨hG.wrap rfl hitem, hG.wrap rfl hcondition⟩)

theorem Structural.setOperation {kind : Kind} (hkind : isAssembly kind = true) {l r : Node} (hl : Good l) (hr : Good r)
    (distinct : Bool) : Good (Node.setOperation kind l r distinct) :=
  hG.of_args hkind (by simpa using ⟨hl, hr⟩)

theorem Structural.setOperations {kind : Kind} (hkind : isAssembly kind = true) {ns : List Node}
    (hns : ∀ n ∈ ns, Good n) {n : Node} (hn : Good n) (distinct : Bool) :
    Good (ns.foldl (fun u n => Node.setOperation kind u n distinct) n) := by
  induction ns generalizing n with
  | nil => exact hn
  | cons m ns ih =>
    exact ih (fun k hk => hns k (by simp [hk])) (hG.setOperation hkind hn (hns m (by simp)) distinct)

theorem Structural.table {path : List String} {n : Node} (h : Node.table? path = .ok n) : Good n := by
  have hidentifier : ∀ s, Good (table?.identifier s) := fun s => hG.of_args rfl (by simp)
  have htable : ∀ name db catalog, Good (table?.tableIn name db catalog) := by
    intro name db catalog
    refine hG.of_args rfl ?_
    cases db <;> cases catalog <;> simp [kept, hidentifier]
  unfold Node.table? at h
  split at h
  · cases h
  all_goals
    cases h
    exact htable _ _ _

theorem Structural.alwaysFalse : Good Node.alwaysFalse :=
  inherited_binary hG.inherited rfl (inherited_number hG.inherited _) (inherited_number hG.inherited _)

/-- A query as it stands behind FROM has the property. -/
theorem Structural.embeds {n item : Node} (hn : Good n) (h : Embeds n item) : Good item := by
  induction h with
  | itself => exact hn
  | parenthesised name h ih =>
    cases name with
    | none => exact hG.wrap rfl ih
    | some name => exact hG.of_args rfl (by simpa using ⟨ih, hG.tableAlias name []⟩)
  | renamed name h hitem ih =>
    refine hG.set ?_ ih (by simpa using hG.tableAlias name _)
    unfold isFromItem at hitem
    revert hitem
    split <;> simp_all [isAssembly]

theorem Structural.returned {n m : Node} (hn : Good n) (h : Returned n m) : Good m := by
  cases h with
  | itself => exact hn
  | read h => exact hG.selectFrom (hG.embeds hn h)

/-- Items under the names of columns have the property if they have it without. -/
theorem Structural.namedItems {ns : List Node} (hns : ∀ n ∈ ns, Good n) (fields : RowType) :
    ∀ item ∈ namedItems ns fields, Good item := by
  intro item hitem
  obtain ⟨n, f, hn, rfl⟩ : ∃ n f, n ∈ ns ∧ namedItem n (f : Field).name = item := by
    obtain ⟨i, hi, rfl⟩ := List.mem_iff_getElem.mp hitem
    simp only [Convert.namedItems, List.length_zipWith] at hi
    exact ⟨ns[i], fields[i], List.getElem_mem _, by simp [Convert.namedItems]⟩
  unfold namedItem
  split
  · exact hns n hn
  · exact inherited_aliased hG.inherited (hns n hn) _

theorem Structural.addSelects {fields : RowType} {items ns out : List Node} (h : addSelects fields items ns = .ok out)
    (hlen : items.length ≤ fields.length) (hitems : ∀ n ∈ items, Good n) (hns : ∀ n ∈ ns, Good n) :
    ∀ n ∈ out, Good n := by
  obtain ⟨-, rfl⟩ := addSelects_eq_ok hlen h
  intro n hn
  rcases List.mem_append.mp hn with hn | hn
  · exact hitems n hn
  · exact hG.namedItems hns _ n hn

/-- The items of a select list have the property. -/
theorem Structural.selectList {n : Node} (hkind : isAssembly n.kind = true) (hn : Good n) {items : List Node}
    (h : n.selectList? = some items) : ∀ item ∈ items, Good item := by
  intro item hitem
  exact hG.child hkind hn (List.mem_flatMap.mpr ⟨_, mem_args_of_list? h, hitem⟩)

end Nodes

/-! ## Fields -/

/-- The fields of a context have the property. -/
def FieldsHave (Good : Node → Prop) (env : Env) (ctx : Context) : Prop := ∀ i n, ctx.field env i = .ok n → Good n

/-- Columns have the property. -/
theorem HasColumns.aliasField (hcolumns : HasColumns Good) (henv : env.fieldMap = []) (inputs : Aliases) (qualified : Bool) :
    FieldsHave Good env (.aliases inputs qualified) := by
  intro i n h
  simp only [Context.field, Context.aliasField] at h
  split at h
  · split at h
    · cases h
      have hnone : ∀ s, env.mapped? s = none := fun s => by rw [Env.mapped?, henv]; rfl
      rw [hnone]
      exact hcolumns _ _
    · cases h
  · cases h

theorem FieldsHave.join {left right : Context} (hleft : FieldsHave Good env left)
    (hright : FieldsHave Good env right) : FieldsHave Good env (.join left right) := by
  intro i n h
  simp only [Context.field] at h
  split at h
  · split at h
    · exact hleft _ n h
    · split at h
      · exact hright _ n h
      · cases h
  · cases h

/-- The items of a select list, and what they stand for, have the property. -/
theorem Inherited.itemField (hG : Inherited Good)
    (hinner : ∀ {n c : Node}, n.kind = .aliased → Good n → n.this? = some c → Good c) {items : List Node}
    (hitems : ∀ item ∈ items, Good item) (byName grouped : Bool) :
    FieldsHave Good env (.selectList items byName grouped) := by
  intro i n h
  simp only [Context.field] at h
  split at h
  · rename_i item hitem
    have hgood := hitems item (mem_of_nth? hitem)
    unfold Context.itemField at h
    split at h
    · rename_i hkind
      split at h
      · cases h
        exact hG.column _
      · split at h
        · rename_i inner hthis
          cases h
          exact hinner ((is_eq_true_iff _ _).mp hkind) hgood hthis
        · cases h
    · cases h
      exact hgood
  · cases h

/-- What an item of a select list stands for has the property. -/
theorem Structural.inner (hG : Structural Good) {n c : Node} (hkind : n.kind = .aliased) (hn : Good n)
    (hc : n.this? = some c) : Good c :=
  hG.child (by rw [hkind]; rfl) hn (List.mem_flatMap.mpr ⟨_, mem_args_of_child? hc, by simp⟩)

/-! ## Memories -/

/-- The rows around are known by columns of named inputs. -/
def OnlyColumns (s : State) : Prop :=
  ∀ id ctx, s.correlations.get? id = some ctx → ∃ inputs, ctx = .aliases inputs true

theorem onlyColumns_start : OnlyColumns {} := fun _ _ h => by cases h

/-- A conversion that declares no variables has only to be asked for what it gives. -/
theorem Maintains.of_spares {α : Type} {post : α → Prop} {c : ConvertM α} (hc : ∀ id, Spares id c)
    (h : ∀ s a s', c.Gives s a s' → post a) : Maintains OnlyColumns post c := by
  intro s a s' hs hgives
  refine ⟨fun id ctx hctx => hs id ctx ?_, h s a s' hgives⟩
  rwa [(hc id).same hgives] at hctx

theorem maintains_registerCorrelations (ids : List String) (inputs : Aliases) :
    Maintains OnlyColumns (fun _ => True) (registerCorrelations ids inputs) := by
  intro s u s' hs hgives
  refine ⟨fun id ctx hctx => ?_, trivial⟩
  rw [← (ConvertM.gives_registerCorrelations _ _ _ _ _).mp hgives] at hctx
  by_cases hid : id ∈ ids
  · rw [OrderedMap.get?_putAll_const hid] at hctx
    cases hctx
    exact ⟨inputs, rfl⟩
  · rw [OrderedMap.get?_putAll_of_not_mem (by simpa [Function.comp_def] using hid)] at hctx
    exact hs id ctx hctx

/-- Fields of rows around are columns. -/
theorem maintains_correlatedField (hcolumns : HasColumns Good) (henv : env.fieldMap = []) (id : String) (i : Nat) :
    Maintains OnlyColumns Good (correlatedField env id i) := by
  intro s n s' hs hgives
  have hkept : Maintains OnlyColumns (fun _ => True) (correlatedField env id i) :=
    .of_spares (fun _ => steady_correlatedField _ _) fun _ _ _ _ => trivial
  refine ⟨(hkept s n s' hs hgives).1, ?_⟩
  simp only [correlatedField, correlated, ConvertM.gives_bind, ConvertM.gives_get, ConvertM.gives_lift] at hgives
  obtain ⟨ctx, s₁, ⟨t, s₂, ⟨rfl, rfl⟩, hctx⟩, hn, -⟩ := hgives
  split at hctx
  · rename_i found hfound
    obtain ⟨rfl, -⟩ := (ConvertM.gives_pure _ _ _ _).mp hctx
    obtain ⟨inputs, rfl⟩ := hs id _ hfound
    exact hcolumns.aliasField henv inputs true _ n hn
  · exact absurd hctx (ConvertM.gives_throw _ _ _ _)

theorem maintains_makeResult (n : Node) (clauses : List Clause) (rel : Rel) (aliases : Option Aliases) :
    Maintains OnlyColumns
      (fun r => r.node = n ∧ r.clauses = clauses ∧ (r.neededAlias = none → n.aliasOf? ≠ none))
      (makeResult env n clauses rel aliases) :=
  .of_spares (fun _ => steady_makeResult _ _ _ _) fun _ _ _ h => makeResult_traits h

theorem maintains_asSelect (r : Result) :
    Maintains OnlyColumns (Returned r.node) (r.asSelect env) :=
  .of_spares (fun _ => r.steady_asSelect) fun _ _ _ h => returned_asSelect h

theorem maintains_asQuery (r : Result) : Maintains OnlyColumns (Returned r.node) (r.asQuery env) :=
  .of_spares (fun _ => r.steady_asQuery) fun _ _ _ h => returned_asQuery h

/-! ## Opened results -/

/-- **`OpenedAs`** — how a result is opened for the clauses of a relation: with its select list, or as a query
that has none. -/
structure OpenedAs (env : Env) (r : Result) (rel : Rel) (b : Builder) : Prop where
  relation : b.rel = rel
  clauses : b.clauses = if r.mustWrap env rel then r.expected else r.clauses ++ r.expected
  select : (r.node.kind = .select ∧ b.select = r.node) ∨ ∃ item, b.select = Node.selectFrom item ∧ Embeds r.node item
  context : (∃ items byName grouped, r.mustWrap env rel = false ∧ r.node.kind = .select ∧ b.select = r.node
      ∧ r.node.selectList? = some items ∧ b.context = .selectList items byName grouped)
    ∨ (b.select.selectList? = none ∧ ∃ inputs qualified, b.context = .aliases inputs qualified)

/-- The context of an opened result: its select list, or its named inputs. -/
theorem context_builder {r : Result} {rel : Rel} {b : Builder} {s s' : State} (h : (r.builder env rel).Gives s b s') :
    (∃ items, b.select.selectList? = some items ∧ b.context = r.itemContext env rel items)
      ∨ (b.select.selectList? = none ∧ ∃ inputs qualified, b.context = .aliases inputs qualified) := by
  unfold Result.builder at h
  dsimp only at h
  split at h
  all_goals
    obtain ⟨select, s₁, -, h⟩ := (ConvertM.gives_bind _ _ _ _ _).mp h
    split at h
    · rename_i items hlist
      obtain ⟨rfl, -⟩ := (ConvertM.gives_pure _ _ _ _).mp h
      exact .inl ⟨items, hlist, rfl⟩
    · rename_i hlist _
      simp only [ConvertM.gives_bind, ConvertM.gives_pure] at h
      obtain ⟨-, -, -, -, -, -, rfl, -⟩ := h
      exact .inr ⟨hlist, _, _, rfl⟩
    · rename_i hlist _
      simp only [ConvertM.gives_bind, ConvertM.gives_pure] at h
      obtain ⟨-, -, -, rfl, -⟩ := h
      exact .inr ⟨hlist, _, _, rfl⟩

theorem openedAs_builder {r : Result} {rel : Rel} {b : Builder} {s s' : State}
    (h : (r.builder env rel).Gives s b s') : OpenedAs env r rel b := by
  obtain ⟨hrel, hclauses, hselect⟩ := builder_traits h
  refine ⟨hrel, hclauses, ?_, ?_⟩
  · rcases hselect with ⟨-, hselect⟩ | hselect
    · exact .inl hselect
    · exact .inr hselect
  · rcases context_builder h with ⟨items, hlist, hctx⟩ | hplain
    · rcases hselect with ⟨hwrap, hkind, hsame⟩ | ⟨item, hitem, -⟩
      · exact .inl ⟨items, _, _, hwrap, hkind, hsame, hsame ▸ hlist, hctx⟩
      · rw [hitem] at hlist
        simp [Node.selectFrom, selectList?, list?] at hlist
    · exact .inr hplain

theorem maintains_builder (r : Result) (rel : Rel) : Maintains OnlyColumns (OpenedAs env r rel) (r.builder env rel) :=
  .of_spares (fun _ => Result.steady_builder _ _) fun _ _ _ h => openedAs_builder h

section OpenedAs

variable {r : Result} {rel : Rel} {b : Builder}

theorem OpenedAs.select_kind (h : OpenedAs env r rel b) : b.select.kind = .select := by
  rcases h.select with ⟨hkind, hsame⟩ | ⟨item, hitem, -⟩
  · rw [hsame, hkind]
  · rw [hitem]
    rfl

/-- The clauses that were announced are declared. -/
theorem OpenedAs.mem_expected (h : OpenedAs env r rel b) {c : Clause} (hc : c ∈ r.expected) : c ∈ b.clauses := by
  rw [h.clauses]
  split
  · exact hc
  · exact List.mem_append_right _ hc

variable (hG : Structural Good)

include hG

theorem OpenedAs.good (h : OpenedAs env r rel b) (hr : Good r.node) : Good b.select := by
  rcases h.select with ⟨-, hsame⟩ | ⟨item, hitem, hembeds⟩
  · rwa [hsame]
  · rw [hitem]
    exact hG.selectFrom (hG.embeds hr hembeds)

/-- The fields of an opened result have the property. -/
theorem OpenedAs.fields (h : OpenedAs env r rel b) (henv : env.fieldMap = []) (hr : Good r.node) :
    FieldsHave Good env b.context := by
  rcases h.context with ⟨items, byName, grouped, -, hkind, -, hlist, hctx⟩ | ⟨-, inputs, qualified, hctx⟩
  · rw [hctx]
    exact hG.inherited.itemField hG.inner (hG.selectList (by rw [hkind]; rfl) hr hlist) _ _
  · rw [hctx]
    exact hG.hasColumns.aliasField henv _ _

end OpenedAs

end AlgebraSql.Convert
