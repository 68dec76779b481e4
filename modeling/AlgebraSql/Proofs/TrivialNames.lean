import AlgebraSql.Proofs.AggregateArguments
import AlgebraSql.Proofs.BareExpressions
import AlgebraSql.Proofs.NamedInputs
import AlgebraSql.Proofs.SourcedPlans
import AlgebraSql.Proofs.StrippedAliases

/-!
# Trivial names — plans whose references survive when trivial names are dropped.

A trivial name may go unless the expression under it has a name of its own that a clause refers to.  Only columns have
names of their own, so no name comes to light as long as no column is given a trivial name that it did not have.
-/

namespace AlgebraSql

open Sql

/-! ## Named columns -/

/-- An expression over columns may be given a trivial name: it is no column, or the column of that name. -/
def Scalar.mayBeCalled {ρ : Type} (fields : RowType) (name : String) (e : Scalar ρ) : Bool :=
  match e.core with
  | .inputRef i _ => (nth? fields i).any (·.name == name)
  | .fieldAccess .. | .patternField .. => false
  | _ => true

/-- **The plans in question**: trees in which no projection or aggregation gives a trivial name to a column of another
name. -/
def renamesPlainly : Rel → Bool
  | .scan .. | .filter .. | .sort .. | .setOp .. => true
  | .project input projects names distinct ids =>
    (projects.zip (Rel.project input projects names distinct ids).fields).all fun (e, f) =>
      !isTrivialAlias f.name || e.mayBeCalled input.fields f.name
  | .aggregate input keys sets calls =>
    (keys.zip (Rel.aggregate input keys sets calls).fields).all fun (key, f) =>
      !isTrivialAlias f.name || (nth? input.fields key).any (·.name == f.name)
  | _ => false

namespace Convert

open Node

variable {env : Env} {sub : Rel → ConvertM Node} {ctx : Context} {n : Node}

/-! ## Items -/

/-- **`HidesNoName`** — what stands under a name has no other name of its own. -/
def HidesNoName (name : String) (n : Node) : Prop :=
  n.aliasOf? = none ∨ (n.kind ≠ .aliased ∧ n.aliasOf? = some name)

/-- Under a trivial name an item has nothing with a name of its own. -/
def Conceals (item : Node) : Prop :=
  item.kind = .aliased → isTrivialAlias item.aliasName = true → ∀ inner, item.this? = some inner → inner.aliasOf? = none

/-- The items of a select list have nothing with a name of its own under trivial names. -/
def ListConceals (n : Node) : Prop := ∀ items, n.selectList? = some items → ∀ item ∈ items, Conceals item

theorem not_exposes_of_listConceals {m : Node} (h : ListConceals m) : ¬m.Exposes := by
  rintro ⟨items, name, i, j, item, inner, hlist, -, -, -, hitem, hdrops, hknown⟩
  have hnone : inner.aliasOf? = none :=
    h items hlist item (List.mem_of_getElem? hitem) hdrops.kind hdrops.named inner hdrops.expression
  simp [KnownBy, hnone] at hknown

theorem hidesNoName_column (name : String) (table : Option String) : HidesNoName name (Node.column name table) :=
  .inr ⟨by simp [Node.column], aliasOf?_column name table⟩

theorem conceals_namedItem {name : String} (h : isTrivialAlias name = true → HidesNoName name n) :
    Conceals (namedItem n name) := by
  unfold namedItem
  split
  · rename_i hown
    intro hkind htrivial inner hinner
    have hname : n.aliasName = name := by simpa [aliasOf?, hkind] using hown
    rcases h (hname ▸ htrivial) with hnone | ⟨hne, -⟩
    · simp [hnone] at hown
    · exact absurd hkind hne
  · rename_i hown
    intro _ htrivial inner hinner
    have hname : (Node.aliased n name).aliasName = name := by
      simpa [aliasOf?, Node.aliased] using aliasOf?_aliased n name
    obtain rfl : n = inner := by simpa [Node.aliased, this?, child?] using hinner
    rcases h (hname ▸ htrivial) with hnone | ⟨-, hsame⟩
    · exact hnone
    · simp [hsame] at hown

/-- Items under the names of columns conceal no names if nothing under a trivial name has another. -/
theorem conceals_namedItems {ns : List Node} {fields : RowType}
    (h : ∀ (i : Nat) n f, ns[i]? = some n → fields[i]? = some f → isTrivialAlias f.name = true → HidesNoName f.name n) :
    ∀ item ∈ namedItems ns fields, Conceals item := by
  intro item hitem
  obtain ⟨i, hi⟩ := List.getElem?_of_mem hitem
  obtain ⟨n, f, hn, hf, rfl⟩ := List.getElem?_zipWith_eq_some.mp hi
  exact conceals_namedItem (h i n f hn hf)

/-! ## Columns of results -/

/-- The query is a SELECT without an alias of its own. -/
def IsSelect (n : Node) : Prop := n.kind = .select ∧ n.child? "alias" = none

theorem isSelect_selectFrom (item : Node) : IsSelect (Node.selectFrom item) :=
  ⟨rfl, by simp [Node.selectFrom, child?, arg?]⟩

namespace IsSelect

theorem set (h : IsSelect n) {key : String} (hkey : key ≠ "alias") (a : Arg) : IsSelect (n.set key (some a)) :=
  ⟨by rw [kind_set, h.1], by rw [child?_set_of_ne n _ hkey, h.2]⟩

theorem leftmost_eq (h : IsSelect n) : leftmost n = some n :=
  Convert.leftmost_eq (by simp [Node.isSetOperation, h.1, Kind.isSetOperation])

theorem withCondition (h : IsSelect n) (clause : Clause) (c : Node) : IsSelect (Convert.withCondition clause n c) := by
  unfold Convert.withCondition
  split <;> exact h.set (by decide) _

theorem withList (h : IsSelect n) (items : List Node) : IsSelect (Convert.withList n items) := h.set (by decide) _

theorem aggregated (h : IsSelect n) (items groups : List Node) (hasCalls : Bool) :
    IsSelect (Convert.aggregated n items groups hasCalls) := by
  unfold Convert.aggregated
  dsimp only
  split
  · exact h.withList _
  · exact (h.withList _).set (by decide) _

theorem sorted (h : IsSelect n) (keys : List Node) (limit offset : Option Node) :
    IsSelect (Convert.sorted n keys limit offset) :=
  sorted_of_set (P := IsSelect) h (fun _ _ _ hkey hq => hq.set (by rintro rfl; exact absurd hkey (by decide)) _) _ _ _

theorem topSelects_eq (h : IsSelect n) : n.topSelects = [n] := by
  obtain ⟨kind, args⟩ := n
  obtain rfl : kind = .select := h.1
  rw [topSelects]
  rfl

end IsSelect

/-- The select list, if there is one, shows the columns under their names. -/
def ListsFields (fields : RowType) (n : Node) : Prop :=
  ∀ items, n.selectList? = some items → ∀ (i : Nat) item f, items[i]? = some item → fields[i]? = some f →
    item.aliasOf? = some f.name

/-- **`ShowsColumns`** — the query of a result shows columns under their names: in its select list, if it has one, and
to a query over it, which finds them under one name in use. -/
structure ShowsColumns (s : State) (fields : RowType) (r : Result) : Prop where
  listed : ∀ m, leftmost r.node = some m → m.child? "alias" = none ∧ ListsFields fields m
  input : ∃ a columns, r.aliases = [(a, columns)] ∧ s.usedNames.has a = true
    ∧ (columns.names = fields.names
      -- a list stands between the columns of the input and those of the query, and a query over it reads the latter
      ∨ (r.node.kind = .select ∧ r.node.selectList? ≠ none ∧ ∃ t, r.neededAlias = some t ∧ t ≠ a))
  needed : ∀ t, r.neededAlias = some t → s.usedNames.has t = true

/-- The declared columns have the names of those of the relation. -/
theorem names_declaredFields {rel : Rel}
    (h : ∀ m, leftmost n = some m → m.child? "alias" = none ∧ ListsFields rel.fields m) :
    (declaredFields rel n).names = rel.fields.names := by
  by_cases hwidth : ∀ m, leftmost n = some m → (declaredNames rel.fields m).length = rel.fields.length
  · refine congrArg RowType.names (declaredFields_eq fun m hm => ?_)
    obtain ⟨halias, hlisted⟩ := h m hm
    have hlength := hwidth m hm
    unfold declaredNames at hlength ⊢
    split at hlength
    · rename_i items _ hlist
      simp only [List.length_map, List.length_zipIdx] at hlength
      right
      refine List.ext_getElem (by simp [hlength, RowType.names]) fun i hi hi' => ?_
      have hitem : i < items.length := by simpa using hi
      have hown : items[i].aliasOf? = some rel.fields[i].name :=
        hlisted items hlist i _ _ (List.getElem?_eq_getElem hitem) (List.getElem?_eq_getElem (by omega))
      simp [hown, RowType.names]
    · left
      simp [aliasColumns, halias]
  · simp only [not_forall] at hwidth
    obtain ⟨m, hm, hne⟩ := hwidth
    simp [declaredFields, hm, hne]

theorem has_mono {used used' : UsedNames} (h : used ⊆ used') {name : String} (hname : used.has name = true) :
    used'.has name = true := by
  simp only [UsedNames.has, List.contains_iff_mem] at hname ⊢
  exact h hname

section Results

variable {x r : Result} {rel : Rel} {b : Builder} {s s' : State} {fields : RowType}

/-- **A record** shows the columns of its relation if the query lists them, and its input, if it keeps one, has them. -/
theorem showsColumns_makeResult {clauses : List Clause} {aliases : Option Aliases}
    (hlisted : ∀ m, leftmost n = some m → m.child? "alias" = none ∧ ListsFields rel.fields m)
    (hkept : ∀ a as, aliases = some (a :: as) → as = [] ∧ s.usedNames.has a.1 = true ∧ n.kind = .select
      ∧ (n.selectList? = none → a.2.names = rel.fields.names))
    (h : (makeResult env n clauses rel aliases).Gives s r s') : ShowsColumns s' rel.fields r := by
  have hnode : r.node = n := (makeResult_traits h).1
  obtain ⟨hfields, hused, hinput⟩ := inputs_makeResult h
  have hname : s'.usedNames.has (givenName s.usedNames n) = true := by rw [hused]; exact UsedNames.has_record_self _ _
  rcases hinput with ⟨⟨a, columns⟩, as, rfl, haliases, hneeded⟩ | hown
  · obtain ⟨rfl, hused', hkind, hcolumns⟩ := hkept _ _ rfl
    refine ⟨by rwa [hnode], ⟨a, columns, haliases, ?_, ?_⟩, fun t ht => ?_⟩
    · rw [hused]
      exact UsedNames.has_record_of_has _ hused'
    · cases hlist : n.selectList? with
      | none => exact .inl (hcolumns hlist)
      | some items =>
        -- the fresh name is not that of the input
        refine .inr ⟨by rw [hnode, hkind], by simp [hnode, hlist], _, hneeded, ?_⟩
        rintro rfl
        simp [givenName, UsedNames.has_unique] at hused'
    · obtain rfl : givenName s.usedNames n = t := by simpa [hneeded] using ht
      exact hname
  · refine ⟨by rwa [hnode], ⟨_, _, hown.aliases, hname, .inl ?_⟩, fun t ht => ?_⟩
    · rw [hfields, names_declaredFields hlisted]
    · rcases hown.needed with hnone | hsome
      · simp [hnone] at ht
      · obtain rfl : givenName s.usedNames n = t := by simpa [hsome] using ht
        exact hname

/-- **`ReadsByName`** — an opened query reads columns under their names, unless it has a select list. -/
def ReadsByName (s : State) (fields : RowType) (b : Builder) : Prop :=
  ∃ a columns, b.aliases = some [(a, columns)] ∧ s.usedNames.has a = true
    ∧ (b.select.selectList? = none → columns.names = fields.names ∧ ∃ q, b.context = .aliases [(a, columns)] q)

theorem ShowsColumns.opened (hx : ShowsColumns s fields x) (hrel : Result.firstInputFields rel = .ok fields)
    {expected : List Clause} {ignores : Bool} {t t' : State}
    (hb : ((x.expecting expected ignores).builder env rel).Gives t b t') :
    ReadsByName s fields b := by
  obtain ⟨a, columns, haliases, hused, hcolumns⟩ := hx.input
  rcases inputs_builder (x := x.expecting expected ignores) haliases hb with
    ⟨items, hlist, hkept⟩ | ⟨hnone, u, columns', hctx, hkept, hinput⟩
  · exact ⟨a, columns, hkept, hused, fun hnone => by simp [hnone] at hlist⟩
  · rcases hinput with hnew | ⟨rfl, rfl, hold⟩
    · obtain rfl : fields = columns' := Except.ok.inj (hrel.symm.trans hnew.fields)
      exact ⟨u, fields, hkept, hx.needed u hnew.needed, fun _ => ⟨rfl, _, hctx⟩⟩
    · refine ⟨u, columns', hkept, hused, fun _ => ⟨hcolumns.resolve_right ?_, _, hctx⟩⟩
      rintro ⟨hkind, hlist, v, hneeded, hne⟩
      by_cases hwrap : (x.expecting expected ignores).mustWrap env rel = true
      · -- a new query would have another name
        exact hne (hold hwrap v hneeded)
      · rw [select_builder (x := x.expecting expected ignores) (by simpa using hwrap) hkind hb] at hnone
        exact hlist hnone

/-! ## Fields -/

/-- The fields of an only input are the columns of it. -/
theorem column_of_alias (henv : env.fieldMap = []) {a : String} {columns : RowType} {qualified : Bool} {i : Ordinal}
    (h : (Context.aliases [(a, columns)] qualified).field env i = .ok n) :
    ∃ f table, nth? columns i = some f ∧ n = Node.column f.name table := by
  simp only [Context.field, Context.aliasField, Env.mapped?, henv, OrderedMap.get?_nil, Option.getD_none,
    Context.owner?] at h
  unfold nth?
  cases hi : i.nat? with
  | none => simp [hi] at h
  | some k =>
    simp only [hi] at h
    cases hk : columns[k]? with
    | none => simp [hk] at h
    | some f =>
      simp only [hk, Except.ok.injEq] at h
      exact ⟨f, _, hk, h.symm⟩

/-- An item that conceals no names is read as something that hides none. -/
theorem hidesNoName_itemField {item : Node} {name : String} (hown : item.aliasOf? = some name)
    (hconceals : Conceals item) (htrivial : isTrivialAlias name = true) {byName : Bool} {i : Ordinal}
    (hn : Context.itemField byName i item = .ok n) : HidesNoName name n := by
  unfold Context.itemField at hn
  split at hn
  · rename_i haliased
    rw [is_eq_true_iff] at haliased
    obtain rfl : item.aliasName = name := by simpa [aliasOf?, haliased] using hown
    split at hn
    · cases hn
      exact hidesNoName_column _ _
    · split at hn
      · rename_i inner hinner
        cases hn
        exact .inl (hconceals haliased htrivial _ hinner)
      · cases hn
  · rename_i hbare
    cases hn
    exact .inr ⟨by simpa [Node.is] using hbare, hown⟩

/-- **`Presents`** — the query of a result shows columns under their names, and conceals no others at its top. -/
structure Presents (s : State) (fields : RowType) (r : Result) : Prop extends ShowsColumns s fields r where
  conceals : ∀ m ∈ r.node.topSelects, ListConceals m

/-- An opened query: a SELECT that lists the columns under their names, if it lists any, and conceals no others. -/
structure OpensColumns (env : Env) (s : State) (fields : RowType) (b : Builder) : Prop where
  select : IsSelect b.select
  listed : ListsFields fields b.select
  conceals : ListConceals b.select
  reads : ReadsByName s fields b
  hides : ∀ i n f, b.context.field env i = .ok n → nth? fields i = some f → isTrivialAlias f.name = true →
    HidesNoName f.name n

/-- **An opened result** presents what the result presents. -/
theorem Presents.opened (henv : env.fieldMap = []) (hx : Presents s fields x)
    (hrel : Result.firstInputFields rel = .ok fields) {expected : List Clause} {ignores : Bool} {t t' : State}
    (hb : ((x.expecting expected ignores).builder env rel).Gives t b t') : OpensColumns env s fields b := by
  have hreads : ReadsByName s fields b := hx.toShowsColumns.opened hrel hb
  have hopened : OpenedAs env (x.expecting expected ignores) rel b := openedAs_builder hb
  rcases hopened.context with ⟨items, byName, grouped, -, hkind, hsame, hlist, hctx⟩ | ⟨hnone, -⟩
  · -- the query is extended
    have hleft : leftmost x.node = some x.node :=
      leftmost_eq (by rw [Node.isSetOperation, show x.node.kind = .select from hkind]; rfl)
    have hselect : IsSelect x.node := ⟨hkind, (hx.listed _ hleft).1⟩
    have hlisted : ListsFields fields x.node := (hx.listed _ hleft).2
    have hconceals : ListConceals x.node := hx.conceals _ (by rw [hselect.topSelects_eq]; exact List.mem_singleton_self _)
    refine ⟨hsame ▸ hselect, hsame ▸ hlisted, hsame ▸ hconceals, hreads, fun i n f hn hf htrivial => ?_⟩
    rw [hctx, Context.field] at hn
    split at hn
    · rename_i item hitem
      obtain ⟨k, -, rfl⟩ := (nth?_isSome_iff _ i).mp (by rw [hitem]; rfl)
      rw [nth?_whole] at hf hitem
      have hown : item.aliasOf? = some f.name := hlisted items hlist k item f hitem hf
      exact hidesNoName_itemField hown (hconceals items hlist item (List.mem_of_getElem? hitem)) htrivial hn
    · cases hn
  · -- a query without a list reads the columns of its input
    have hselect : IsSelect b.select := by
      rcases (builder_traits hb).2.2 with ⟨-, hkind, hsame⟩ | ⟨item, hitem, -⟩
      · rw [hsame]
        have hplain : x.node.isSetOperation = false := by
          rw [Node.isSetOperation, show x.node.kind = .select from hkind]
          rfl
        exact ⟨hkind, (hx.listed _ (leftmost_eq hplain)).1⟩
      · rw [hitem]
        exact isSelect_selectFrom item
    refine ⟨hselect, fun items hlist => by simp [hnone] at hlist, fun items hlist => by simp [hnone] at hlist, hreads,
      fun i n f hn hf _ => ?_⟩
    obtain ⟨a, columns, -, -, hcolumns⟩ := hreads
    obtain ⟨hnames, q, hctx⟩ := hcolumns hnone
    rw [hctx] at hn
    obtain ⟨g, table, hg, rfl⟩ := column_of_alias henv hn
    obtain ⟨k, -, rfl⟩ := (nth?_isSome_iff _ i).mp (by rw [hf]; rfl)
    rw [nth?_whole] at hf hg
    have hsame : g.name = f.name := by
      have hat := congrArg (·[k]?) hnames
      simpa [RowType.names, hf, hg] using hat
    exact hsame ▸ hidesNoName_column _ _

/-- **A record** of what an opened query becomes presents the columns that it lists, or those that it reads. -/
theorem OpensColumns.presents (hb : OpensColumns env s fields b) (hrel : b.rel = rel) {t : State}
    (hused : s.usedNames ⊆ t.usedNames) (hselect : IsSelect n) (hlisted : ListsFields rel.fields n)
    (hconceals : ListConceals n) (hsame : n.selectList? = none → b.select.selectList? = none ∧ rel.fields.names = fields.names)
    (hr : Closes env b n t r s') : Presents s' rel.fields r := by
  subst hrel
  obtain ⟨a, columns, haliases, ha, hcolumns⟩ := hb.reads
  have hleft : ∀ m, leftmost n = some m → m.child? "alias" = none ∧ ListsFields b.rel.fields m := by
    intro m hm
    obtain rfl : n = m := Option.some.inj (hselect.leftmost_eq.symm.trans hm)
    exact ⟨hselect.2, hlisted⟩
  refine ⟨showsColumns_makeResult hleft (fun a' as hgiven => ?_) hr, fun m hm => ?_⟩
  · obtain ⟨rfl, rfl⟩ : (a, columns) = a' ∧ [] = as := by simpa [haliases] using hgiven
    refine ⟨rfl, has_mono hused ha, hselect.1, fun hnone => ?_⟩
    obtain ⟨hopen, hnames⟩ := hsame hnone
    rw [hnames]
    exact (hcolumns hopen).1
  · rw [hr.node_eq, hselect.topSelects_eq, List.mem_singleton] at hm
    exact hm ▸ hconceals

end Results

/-! ## Expressions -/

/-- What is built on nodes has no name of its own. -/
theorem operates_unnamed : Operates fun n => n.aliasOf? = none where
  of_kind hkind := aliasOf?_of_kind fun hpart => hkind (List.mem_cons_of_mem _ hpart)

/-- What stands for an expression hides no other name than it may be called. -/
theorem hidesNoName_of_standsFor {fields : RowType} {name : String} {e : Expr}
    (hname : e.mayBeCalled fields name = true)
    (hfield : ∀ i n f, ctx.field env i = .ok n → nth? fields i = some f → f.name = name → HidesNoName name n)
    (h : StandsFor (fun n => n.aliasOf? = none) env ctx e.core n) : HidesNoName name n := by
  unfold Scalar.mayBeCalled at hname
  generalize e.core = core at h hname
  cases core with
  | inputRef i t =>
    obtain ⟨f, hf, hsame⟩ := (Option.any_eq_true _ _).mp hname
    exact hfield i n f h hf (by simpa using hsame)
  | literal l =>
    refine .inl ?_
    change literalIn env ctx l = .ok n at h
    unfold literalIn at h
    split at h
    · cases h
      rfl
    · exact aliasOf?_of_kind (kind_literalNode h)
  | fieldAccess | patternField => cases hname
  | _ => exact .inl h

/-! ## Operators -/

section Operators

variable {x r : Result} {rel input : Rel} {s s' : State}

theorem listsFields_namedItems {m : Node} {ns : List Node} {fields : RowType}
    (h : m.selectList? = some (namedItems ns fields)) : ListsFields fields m := by
  intro items hlist i item f hitem hf
  obtain rfl : namedItems ns fields = items := by simpa [h] using hlist
  obtain ⟨n, g, -, hg, rfl⟩ := List.getElem?_zipWith_eq_some.mp hitem
  obtain rfl : f = g := by simpa [hf] using hg
  exact aliasOf?_namedItem _ _

theorem ListsFields.of_names {m : Node} {fields fields' : RowType} (h : ListsFields fields' m)
    (hnames : fields.names = fields'.names) : ListsFields fields m := by
  intro items hlist i item f hitem hf
  have hat : fields.names[i]? = fields'.names[i]? := by rw [hnames]
  simp only [RowType.names, List.getElem?_map, hf, Option.map_some] at hat
  obtain ⟨g, hg, hsame⟩ := Option.map_eq_some_iff.mp hat.symm
  exact hsame ▸ h items hlist i item g hitem hg

variable (henv : env.fieldMap = []) (hsub : ∀ rel, Grow (sub rel))

include henv hsub

/-- A filter keeps the select list. -/
theorem presents_filterResult {condition : Expr} {ids : List String} (hx : Presents s input.fields x)
    (h : (filterResult env sub input condition ids (.filter input condition ids) x).Gives s r s') :
    Presents s' input.fields r := by
  obtain ⟨b, s₁, c, s₂, hb, hc, hr⟩ := opened_filterResult h
  have hopens : OpensColumns env s input.fields b := hx.opened henv rfl hb.choose_spec.2
  have hused : s.usedNames ⊆ s₂.usedNames := List.Subset.trans hb.subset ((grow_scalarNode hsub _ _).subset hc)
  show Presents s' (Rel.filter input condition ids).fields r
  refine hopens.presents hb.openedAs.relation hused (hopens.select.withCondition _ _) ?_ ?_ (fun hnone => ⟨?_, rfl⟩) hr
  · rw [ListsFields, selectList?_withCondition]
    exact hopens.listed
  · rw [ListConceals, selectList?_withCondition]
    exact hopens.conceals
  · rwa [selectList?_withCondition] at hnone

/-- A projection that names no column trivially puts nothing with another name under a trivial name. -/
theorem presents_projectResult (hd : env.dialect.targetFunctions.all (!Scalar.isConnective ·.operator) = true)
    {projects : List Expr} {names : List String} {distinct : Bool} {ids : List String}
    (hrel : rel = .project input projects names distinct ids) (hplain : renamesPlainly rel = true)
    (hx : Presents s input.fields x) (hs : OnlyColumns s)
    (h : (projectResult env sub input projects distinct ids rel x).Gives s r s') : Presents s' rel.fields r := by
  obtain ⟨b, s₁, n, s₂, hb, hn, hr⟩ := opened_projectResult h
  have hopens : OpensColumns env s input.fields b := hx.opened henv (by rw [hrel]; rfl) hb.choose_spec.2
  have hgrow : ∀ e, Grow (projectedNode env sub b.context e) := fun e _ =>
    .bind (grow_scalarNode hsub b.context e _) fun _ => .pure
  have hmade : s.usedNames ⊆ s₂.usedNames ∧ IsSelect n ∧ ListsFields rel.fields n ∧ ListConceals n
      ∧ (n.selectList? = none → b.select.selectList? = none ∧ rel.fields.names = input.fields.names) := by
    rcases hn with ⟨hidentity, rfl, rfl⟩ | ⟨-, ns, hns, -, rfl⟩
    · have hnames : rel.fields.names = input.fields.names := by simp_all [isIdentity]
      exact ⟨hb.subset, hopens.select, hopens.listed.of_names hnames, hopens.conceals, fun hnone => ⟨hnone, hnames⟩⟩
    · have hitem : ∀ e ∈ projects, Maintains OnlyColumns
          (fun n => StandsFor (fun n => n.aliasOf? = none) env b.context e.core n ∨ n.aliasOf? = none)
          (projectedNode env sub b.context e) := fun e _ t n t' ht hn =>
        ⟨(hgrow e).onlyColumns hn ht, stands_projectedNode operates_unnamed (fun _ => rfl) henv hd ht hn⟩
      obtain ⟨-, hall⟩ := Maintains.forall₂_mapM hitem s₁ ns s₂ (hb.onlyColumns hs) hns
      refine ⟨List.Subset.trans hb.subset (Grow.subset (fun _ => .mapM _ fun e _ => hgrow e _) hns),
        hopens.select.withList _, listsFields_namedItems (selectList?_withList _ _), ?_, fun hnone => by simp at hnone⟩
      rw [ListConceals, selectList?_withList]
      rintro _ ⟨⟩
      refine conceals_namedItems fun i n f hn hf htrivial => ?_
      obtain ⟨e, he, hstands⟩ := exists_left_of_forall₂ hall hn
      have hmay : e.mayBeCalled input.fields f.name = true := by
        subst hrel
        have hmem : (e, f) ∈ projects.zip (Rel.project input projects names distinct ids).fields :=
          List.mem_of_getElem? (List.getElem?_zip_eq_some.mpr ⟨he, hf⟩)
        simpa [htrivial] using List.all_eq_true.mp hplain _ hmem
      have hfield : ∀ i n g, b.context.field env i = .ok n → nth? input.fields i = some g → g.name = f.name →
          HidesNoName f.name n := by
        intro i n g hn hg hsame
        exact hsame ▸ hopens.hides i n g hn hg (hsame ▸ htrivial)
      rcases hstands with hstands | hnone
      · exact hidesNoName_of_standsFor hmay hfield hstands
      · exact .inl hnone
  obtain ⟨hused, hselect, hlisted, hconceals, hsame⟩ := hmade
  obtain ⟨-, hkept, -⟩ := traits_distinct n distinct
  refine hopens.presents hb.openedAs.relation hused ?_ ?_ ?_ ?_ hr
  · split
    · exact hselect.set (by decide) _
    · exact hselect
  · rwa [ListsFields, hkept]
  · rwa [ListConceals, hkept]
  · rwa [hkept]

omit hsub in
/-- An aggregation that renames no column trivially puts nothing with another name under a trivial name. -/
theorem presents_aggregateResult {keys : List Ordinal} {sets : List (List Ordinal)} {calls : List AggregateCall}
    (hrel : rel = .aggregate input keys sets calls) (hplain : renamesPlainly rel = true) (hx : Presents s input.fields x)
    (h : (aggregateResult env keys sets calls rel x).Gives s r s') : Presents s' rel.fields r := by
  obtain ⟨b, s₁, ks, gs, ns, hb, hks, -, hns, hlength, hr⟩ := opened_aggregateResult h
  have hopens : OpensColumns env s input.fields b := hx.opened henv (by rw [hrel]; rfl) hb
  have hconceals : ∀ item ∈ namedItems (ks ++ ns) rel.fields, Conceals item := by
    refine conceals_namedItems fun i n f hn hf htrivial => ?_
    by_cases hkey : i < ks.length
    · rw [List.getElem?_append_left hkey] at hn
      obtain ⟨key, hkey, hfield⟩ := exists_left_of_forall₂ ((mapM_eq_ok_iff _ _ _).mp hks) hn
      obtain ⟨g, hg, hsame⟩ : ∃ g, nth? input.fields key = some g ∧ g.name = f.name := by
        subst hrel
        have hmem : (key, f) ∈ keys.zip (Rel.aggregate input keys sets calls).fields :=
          List.mem_of_getElem? (List.getElem?_zip_eq_some.mpr ⟨hkey, hf⟩)
        have hany : (nth? input.fields key).any (·.name == f.name) = true := by
          simpa [htrivial] using List.all_eq_true.mp hplain _ hmem
        obtain ⟨g, hg, hsame⟩ := (Option.any_eq_true _ _).mp hany
        exact ⟨g, hg, by simpa using hsame⟩
      exact hsame ▸ hopens.hides key n g hfield hg (hsame ▸ htrivial)
    · rw [List.getElem?_append_right (by omega)] at hn
      obtain ⟨call, -, hcall⟩ := exists_left_of_forall₂ ((mapM_eq_ok_iff _ _ _).mp hns) hn
      have hown : Own [] n := own_aggregateNode hcall
      cases hown with
      | column h => cases h
      | built _ halias => exact .inl halias
  refine hopens.presents (openedAs_builder hb).relation ((grow_builder _ _).subset hb) (hopens.select.aggregated _ _ _)
    ?_ ?_ (fun hnone => by simp at hnone) hr
  · rw [ListsFields, selectList?_aggregated]
    split
    · -- a constant stands in the list if there are no columns
      rename_i hempty
      have hnone : (namedItems (ks ++ ns) rel.fields).length = 0 := by simpa using hempty
      rw [length_namedItems (by simpa using hlength), List.length_append, length_of_mapM hks, length_of_mapM hns] at hnone
      have hfields : rel.fields = [] := by
        rw [hrel, List.eq_nil_of_length_eq_zero (l := keys) (by omega), List.eq_nil_of_length_eq_zero (l := calls) (by omega)]
        rfl
      intro items _ i item f _ hf
      simp [hfields] at hf
    · exact selectList?_withList b.select _ ▸ listsFields_namedItems (selectList?_withList b.select _)
  · rw [ListConceals, selectList?_aggregated]
    rintro _ ⟨⟩
    split
    · intro item hitem hkind
      obtain rfl := List.mem_singleton.mp hitem
      cases hkind
    · exact hconceals

/-- A sort keeps the select list, or lists the columns. -/
theorem presents_sortResult {root : Bool} {collation : List Collation} {offset fetch : Option Expr}
    (hx : Presents s input.fields x)
    (h : (sortResult env sub root collation offset fetch (.sort input collation offset fetch) x).Gives s r s') :
    Presents s' input.fields r := by
  obtain ⟨b, s₁, l, keys, limit, s₂, skip, s₃, hb, hl, -, hlimit, hskip, hr⟩ := opened_sortResult h
  have hopens : OpensColumns env s input.fields b := hx.opened henv rfl hb
  have hgrow : ∀ limit : Option Expr, Grow (limitNode env sub b.context limit) := by
    rintro (_ | e)
    · exact fun _ => .pure
    · exact fun _ => .bind (grow_scalarNode hsub b.context e _) fun _ => .pure
  have hused : s.usedNames ⊆ s₃.usedNames := List.Subset.trans ((grow_builder _ _).subset hb)
    (List.Subset.trans ((hgrow _).subset hlimit) ((hgrow _).subset hskip))
  have hlist : (sorted l keys limit skip).selectList? = l.selectList? :=
    sorted_of_set (P := fun q => q.selectList? = l.selectList?) rfl
      (fun q key a hkey hq => by rw [selectList?_set (by rintro rfl; exact absurd hkey (by decide)), hq]) _ _ _
  have hspelled : IsSelect l ∧ ListsFields input.fields l ∧ ListConceals l
      ∧ (l.selectList? = none → b.select.selectList? = none) := by
    unfold Spelled at hl
    split at hl
    · obtain ⟨columns, hcolumns, -, rfl⟩ := hl
      refine ⟨hopens.select.withList _, listsFields_namedItems (selectList?_withList _ _), ?_, fun hnone => by simp at hnone⟩
      rw [ListConceals, selectList?_withList]
      rintro _ ⟨⟩
      refine conceals_namedItems fun i n f hn hf htrivial => ?_
      obtain ⟨k, hk, hfield⟩ := exists_left_of_forall₂ ((mapM_eq_ok_iff _ _ _).mp hcolumns) hn
      obtain ⟨-, rfl⟩ : i < _ ∧ i = k := by simpa [List.getElem?_range', List.getElem?_eq_some_iff] using hk
      exact hopens.hides _ n f hfield hf htrivial
    · subst hl
      exact ⟨hopens.select, hopens.listed, hopens.conceals, id⟩
  obtain ⟨hselect, hlisted, hconceals, hsame⟩ := hspelled
  show Presents s' (Rel.sort input collation offset fetch).fields r
  refine hopens.presents (openedAs_builder hb).relation hused (hselect.sorted _ _ _) ?_ ?_
    (fun hnone => ⟨hsame (hlist ▸ hnone), rfl⟩) hr
  · rw [ListsFields, hlist]
    exact hlisted
  · rw [ListConceals, hlist]
    exact hconceals

end Operators

/-! ## Plans -/

/-- A SELECT that shows columns under their names and conceals no others. -/
structure PresentsList (fields : RowType) (n : Node) : Prop where
  select : IsSelect n
  listed : ListsFields fields n
  conceals : ListConceals n

section Plans

variable {x r : Result} {s s' : State}

theorem presentsList_selectFrom (fields : RowType) (item : Node) : PresentsList fields (Node.selectFrom item) := by
  have hnone : (Node.selectFrom item).selectList? = none := by simp [Node.selectFrom, selectList?, list?]
  exact ⟨isSelect_selectFrom item, fun _ hlist => by simp [hnone] at hlist, fun _ hlist => by simp [hnone] at hlist⟩

/-- A result as a SELECT. -/
theorem Presents.asSelect {fields : RowType} (hx : Presents s fields x) {t t' : State}
    (h : (x.asSelect env).Gives t n t') : PresentsList fields n := by
  rcases asSelect_reads h with ⟨hkind, rfl⟩ | ⟨item, rfl, -⟩
  · have hleft : leftmost x.node = some x.node := leftmost_eq (by rw [Node.isSetOperation, hkind]; rfl)
    obtain ⟨halias, hlisted⟩ := hx.listed _ hleft
    have hselect : IsSelect x.node := ⟨hkind, halias⟩
    exact ⟨hselect, hlisted, hx.conceals _ (by rw [hselect.topSelects_eq]; exact List.mem_singleton_self _)⟩
  · exact presentsList_selectFrom fields item

/-- The SELECTs at the top of set operations from left to right are those of the operands. -/
theorem mem_topSelects_foldl {kind : Kind} (hkind : kind.isSetOperation = true) (distinct : Bool) {m : Node} :
    ∀ (ns : List Node) (n : Node), m ∈ (ns.foldl (fun u n => Node.setOperation kind u n distinct) n).topSelects ↔
      ∃ q ∈ n :: ns, m ∈ q.topSelects
  | [], n => by simp
  | q :: ns, n => by
    have hpair : (Node.setOperation kind n q distinct).topSelects = n.topSelects ++ q.topSelects := by
      rw [Node.setOperation, topSelects, if_pos hkind]
      simp [selectsOfBranches]
    rw [List.foldl_cons, mem_topSelects_foldl hkind distinct ns]
    simp only [List.mem_cons, exists_eq_or_imp, hpair, List.mem_append, or_assoc]

/-- **A set operation** presents what its operands present. -/
theorem presents_setOpResult {op : SetOperator} {all : Bool} {inputs : List Rel} {ns : List Node}
    (hns : List.Forall₂ (fun rel n => PresentsList rel.fields n) inputs ns)
    (h : (setOpResult env op all (.setOp op all inputs) ns).Gives s r s') :
    Presents s' (Rel.setOp op all inputs).fields r := by
  have hkind : (setKind op).isSetOperation = true := by cases op <;> rfl
  unfold setOpResult at h
  cases hns with
  | nil => exact absurd h (ConvertM.gives_throw _ _ _ _)
  | @cons input n inputs ns hn hns =>
    refine ⟨showsColumns_makeResult (fun m hm => ?_) (fun a as hgiven => by cases hgiven) h, fun m hm => ?_⟩
    · rw [leftmost_foldl hkind, hn.select.leftmost_eq, Option.some.injEq] at hm
      exact hm ▸ ⟨hn.select.2, hn.listed⟩
    · rw [(makeResult_traits h).1, mem_topSelects_foldl hkind] at hm
      obtain ⟨q, hq, hm⟩ := hm
      obtain ⟨rel, hpresents⟩ : ∃ rel : Rel, PresentsList rel.fields q := by
        rcases List.mem_cons.mp hq with rfl | hq
        · exact ⟨input, hn⟩
        · exact forall_right_of_forall₂ (p := fun n => ∃ rel : Rel, PresentsList rel.fields n)
            (hns.imp fun rel n h => ⟨⟨rel, h⟩, h⟩) q hq
      rw [hpresents.select.topSelects_eq, List.mem_singleton] at hm
      exact hm ▸ hpresents.conceals

/-- **A table** has no select list. -/
theorem presents_scanResult {table : List String} {fields : RowType}
    (h : (scanResult env table (.scan table fields)).Gives s r s') : Presents s' fields r := by
  simp only [scanResult, ConvertM.gives_bind, ConvertM.gives_lift] at h
  obtain ⟨n, t, ⟨hn, rfl⟩, h⟩ := h
  have htable : n.kind = .table ∧ n.child? "alias" = none ∧ n.topSelects = [] := by
    unfold Node.table? at hn
    split at hn <;> cases hn <;> simp [table?.tableIn, kept, child?, arg?, topSelects, Kind.isSetOperation]
  obtain ⟨hkind, halias, htop⟩ := htable
  refine ⟨showsColumns_makeResult (fun m hm => ?_) (fun a as hgiven => by cases hgiven) h, fun m hm => ?_⟩
  · rw [leftmost_eq (by rw [Node.isSetOperation, hkind]; rfl), Option.some.injEq] at hm
    exact hm ▸ ⟨halias, fun items hlist => by simp [selectList?_table hn] at hlist⟩
  · rw [(makeResult_traits h).1, htop] at hm
    cases hm

mutual

/-- **`relationResult`** — the query for a plan that renames no column trivially conceals no names at its top. -/
theorem presents_relationResult (henv : env.fieldMap = []) (hsub : ∀ rel, Grow (sub rel))
    (hd : env.dialect.targetFunctions.all (!Scalar.isConnective ·.operator) = true) (root : Bool) :
    ∀ (rel : Rel), rel.every renamesPlainly = true → ∀ {s s' : State} {r : Result}, OnlyColumns s →
    (relationResult env sub root rel).Gives s r s' → Presents s' rel.fields r
  | .scan table fields, _, s, s', r, _, h => by
    rw [relationResult] at h
    rw [Rel.fields]
    exact presents_scanResult h
  | .filter input condition ids, hrel, s, s', r, hs, h => by
    simp only [Rel.every, Bool.and_eq_true] at hrel
    rw [relationResult] at h
    obtain ⟨x, t, hx, ht, h⟩ := OnTheWay.bind hs (grow_relationResult hsub false input) h
    rw [Rel.fields]
    exact presents_filterResult henv hsub (presents_relationResult henv hsub hd false input hrel.2 hs hx) h
  | .project input projects names distinct ids, hrel, s, s', r, hs, h => by
    simp only [Rel.every, Bool.and_eq_true] at hrel
    rw [relationResult] at h
    obtain ⟨x, t, hx, ht, h⟩ := OnTheWay.bind hs (grow_relationResult hsub false input) h
    exact presents_projectResult henv hsub hd rfl hrel.1
      (presents_relationResult henv hsub hd false input hrel.2 hs hx) ht.columns h
  | .aggregate input keys sets calls, hrel, s, s', r, hs, h => by
    simp only [Rel.every, Bool.and_eq_true] at hrel
    rw [relationResult] at h
    obtain ⟨x, t, hx, ht, h⟩ := OnTheWay.bind hs (grow_relationResult hsub false input) h
    exact presents_aggregateResult henv rfl hrel.1 (presents_relationResult henv hsub hd false input hrel.2 hs hx) h
  | .sort input collation offset fetch, hrel, s, s', r, hs, h => by
    simp only [Rel.every, Bool.and_eq_true] at hrel
    rw [relationResult] at h
    obtain ⟨x, t, hx, ht, h⟩ := OnTheWay.bind hs (grow_relationResult hsub false input) h
    rw [Rel.fields]
    exact presents_sortResult henv hsub (presents_relationResult henv hsub hd false input hrel.2 hs hx) h
  | .setOp op all inputs, hrel, s, s', r, hs, h => by
    simp only [Rel.every, Bool.and_eq_true] at hrel
    rw [relationResult] at h
    obtain ⟨ns, t, hns, h⟩ := (ConvertM.gives_bind _ _ _ _ _).mp h
    exact presents_setOpResult (presents_relationSelects henv hsub hd inputs hrel.2 hs hns) h
  | .join .., hrel, _, _, _, _, _ => by simp [Rel.every, renamesPlainly] at hrel
  | .window .., hrel, _, _, _, _, _ => by simp [Rel.every, renamesPlainly] at hrel
  | .values .., hrel, _, _, _, _, _ => by simp [Rel.every, renamesPlainly] at hrel
  | .tableFunction .., hrel, _, _, _, _, _ => by simp [Rel.every, renamesPlainly] at hrel
  | .rowPattern .., hrel, _, _, _, _, _ => by simp [Rel.every, renamesPlainly] at hrel

/-- Neither do the queries for several such plans. -/
theorem presents_relationSelects (henv : env.fieldMap = []) (hsub : ∀ rel, Grow (sub rel))
    (hd : env.dialect.targetFunctions.all (!Scalar.isConnective ·.operator) = true) :
    ∀ (rels : List Rel), Rel.everyOf renamesPlainly rels = true → ∀ {s s' : State} {ns : List Node}, OnlyColumns s →
    (relationSelects env sub rels).Gives s ns s' → List.Forall₂ (fun rel n => PresentsList rel.fields n) rels ns
  | [], _, s, s', ns, _, h => by
    rw [relationSelects] at h
    obtain ⟨rfl, -⟩ := (ConvertM.gives_pure _ _ _ _).mp h
    exact .nil
  | rel :: rels, hrels, s, s', ns, hs, h => by
    simp only [Rel.everyOf, Bool.and_eq_true] at hrels
    rw [relationSelects] at h
    obtain ⟨x, t, hx, ht, h⟩ := OnTheWay.bind hs (grow_relationResult hsub false rel) h
    obtain ⟨m, u, hm, hu, h⟩ := OnTheWay.bind ht.columns (fun _ => x.steady_asSelect) h
    obtain ⟨rest, v, hrest, h⟩ := (ConvertM.gives_bind _ _ _ _ _).mp h
    obtain ⟨rfl, -⟩ := (ConvertM.gives_pure _ _ _ _).mp h
    exact .cons ((presents_relationResult henv hsub hd false rel hrels.1 hs hx).asSelect hm)
      (presents_relationSelects henv hsub hd rels hrels.2 hu.columns hrest)

end

end Plans

/-! ## Statements -/

/-- The statement for a plan that renames no column trivially exposes no names. -/
theorem not_exposes_statement {d : Dialect} (hd : d.targetFunctions.all (!Scalar.isConnective ·.operator) = true)
    {rel : Rel} (hrel : rel.every renamesPlainly = true) (hn : statement d rel = .ok n) :
    ∀ m ∈ n.topSelects, ¬m.Exposes := by
  rw [statement_eq, ConvertM.value_eq_ok_iff] at hn
  obtain ⟨s, hn⟩ := hn
  obtain ⟨r, t, hr, hn⟩ := (ConvertM.gives_bind _ _ _ _ _).mp hn
  have hpresents : Presents t rel.fields r :=
    presents_relationResult rfl (grow_queryAt _) hd true rel hrel onlyColumns_start hr
  intro m hm
  refine not_exposes_of_listConceals ?_
  unfold Result.asStatement at hn
  split at hn
  · obtain ⟨rfl, -⟩ := (ConvertM.gives_pure _ _ _ _).mp hn
    exact hpresents.conceals m hm
  · have hlist : PresentsList rel.fields n := hpresents.asSelect hn
    rw [hlist.select.topSelects_eq, List.mem_singleton] at hm
    exact hm ▸ hlist.conceals

/-- Trivial names are dropped from the statement that has them. -/
theorem statement_strip {d : Dialect} {rel : Rel} {fields : List (String × Node)} (hn : statement d rel fields = .ok n) :
    statement d rel fields true = .ok n.stripTrivialAliases := by
  simp only [statement, bind_eq_ok_iff, pure_eq_ok_iff] at hn ⊢
  obtain ⟨q, hq, rfl⟩ := hn
  exact ⟨q, hq, by simp⟩

/-- **Dropping trivial names** — in a statement and in the branches of a set operation at its top, an item of a select
list stays or becomes the expression under its trivial name, and nothing else changes.  A name to which a clause refers
as that of one item stays the name of that item alone, unless the expression under a dropped name has this name too;
and none has, whatever the capabilities of the dialect, if the plan gives trivial names to no columns of other names. -/
theorem statement_stripped {d : Dialect} {rel : Rel} {fields : List (String × Node)}
    (hn : statement d rel fields = .ok n) :
    statement d rel fields true = .ok n.stripTrivialAliases
      ∧ Strips StripsList n n.stripTrivialAliases
      ∧ (Strips KeepsReferences n n.stripTrivialAliases ↔ ∀ m ∈ n.topSelects, ¬m.Exposes)
      ∧ (∀ base ∈ Dialect.all, d.targetFunctions = base.targetFunctions → fields = [] →
        rel.every renamesPlainly = true → Strips KeepsReferences n n.stripTrivialAliases) := by
  have hreferences : Strips KeepsReferences n n.stripTrivialAliases ↔ ∀ m ∈ n.topSelects, ¬m.Exposes := by
    rw [strips_iff]
    exact forall₂_congr fun m _ => keepsReferences_stripSelect_iff m
  refine ⟨statement_strip hn, (strips_iff n).mpr fun m _ => stripsList_stripSelect m, hreferences, ?_⟩
  rintro base hbase htargets rfl hrel
  exact hreferences.mpr (not_exposes_statement (htargets ▸ targets_unconnected hbase) hrel hn)

/-- A sum that nobody named beside one of its operands, ordered by the operand. -/
def sumsByOperand : Rel :=
  .sort
    (.project (.scan ["t"] [⟨"a", .integer⟩, ⟨"b", .integer⟩])
      [.call Operator.plus [.inputRef (.whole 0) .integer, .inputRef (.whole 1) .integer] .integer,
        .inputRef (.whole 0) .integer]
      ["EXPR$0", "a"] false [])
    [⟨.whole 1, .ascending, .unspecified⟩] none none

/-- The sum loses its name, and the order is still that of the operand. -/
theorem statement_stripped_sumsByOperand :
    ∃ n, statement Dialect.ansi sumsByOperand = .ok n
      ∧ n.stripTrivialAliases.selectList?.map (·.map aliasOf?) = some [none, some "a"]
      ∧ Strips KeepsReferences n n.stripTrivialAliases := by
  have hlist : (statement Dialect.ansi sumsByOperand).toOption.map
      (fun n => n.stripTrivialAliases.selectList?.map (·.map aliasOf?)) = some (some [none, some "a"]) := by
    decide +kernel
  cases hn : statement Dialect.ansi sumsByOperand with
  | error e => simp [hn, Except.toOption] at hlist
  | ok n =>
    obtain ⟨-, -, -, hkeeps⟩ := statement_stripped hn
    exact ⟨n, rfl, by simpa [hn, Except.toOption] using hlist,
      hkeeps Dialect.ansi (by simp [Dialect.all]) rfl rfl (by decide)⟩

/-- Two columns of which one has a trivial name and the other the name of the first, which the order refers to. -/
def columnsByName : Rel :=
  .sort
    (.project (.scan ["t"] [⟨"a", .integer⟩, ⟨"b", .integer⟩])
      [.inputRef (.whole 0) .integer, .inputRef (.whole 1) .integer] ["EXPR$0", "a"] false [])
    [⟨.whole 1, .ascending, .unspecified⟩] none none

/-- Without the trivial name two items have the name to which the order refers. -/
theorem columnsByName_loses_reference :
    ∃ n, statement Dialect.ansi columnsByName = .ok n ∧ ¬Strips KeepsReferences n n.stripTrivialAliases := by
  have hfacts : (statement Dialect.ansi columnsByName).toOption.any (fun n =>
      n.is .select && n.referencedNames == ["a"]
        && n.selectList?.map (·.map aliasOf?) == some [some "EXPR$0", some "a"]
        && n.stripTrivialAliases.selectList?.map (·.map aliasOf?) == some [some "a", some "a"]) = true := by
    decide +kernel
  cases hn : statement Dialect.ansi columnsByName with
  | error e => simp [hn, Except.toOption] at hfacts
  | ok n =>
    refine ⟨n, rfl, fun hkeeps => ?_⟩
    simp only [hn, Except.toOption, Option.any_some, Bool.and_eq_true, is_eq_true_iff, beq_iff_eq] at hfacts
    obtain ⟨⟨⟨hkind, hreferenced⟩, hbefore⟩, hafter⟩ := hfacts
    rw [strips_select_iff hkind] at hkeeps
    obtain ⟨items, hitems, hbefore⟩ := Option.map_eq_some_iff.mp hbefore
    obtain ⟨items', hitems', hafter⟩ := Option.map_eq_some_iff.mp hafter
    obtain ⟨name, hrefers, hname⟩ : ∃ name, n.RefersTo name ∧ Text.lower name = "a" :=
      mem_referencedNames_iff.mp (by rw [hreferenced]; exact List.mem_singleton_self _)
    have hlower : Text.lower "EXPR$0" ≠ "a" ∧ Text.lower "a" = "a" := by decide +kernel
    have honly : NamesOnly items name 1 := by
      obtain ⟨first, rest, rfl, hfirst, hrest⟩ := List.map_eq_cons_iff.mp hbefore
      obtain ⟨second, rest, rfl, hsecond, hrest⟩ := List.map_eq_cons_iff.mp hrest
      obtain rfl := List.map_eq_nil_iff.mp hrest
      rintro (_ | _ | j)
      · simp [KnownBy, hfirst, hname, hlower]
      · simp [KnownBy, hsecond, hname, hlower]
      · simp
    -- the first item is known by the name now
    have hsame : (0 : Nat) = 1 := by
      obtain ⟨first, rest, rfl, hfirst, -⟩ := List.map_eq_cons_iff.mp hafter
      exact (hkeeps _ _ hitems hitems' name hrefers 1 honly 0).mp ⟨first, rfl, by simp [KnownBy, hfirst, hname, hlower]⟩
    cases hsame

end Convert

end AlgebraSql
