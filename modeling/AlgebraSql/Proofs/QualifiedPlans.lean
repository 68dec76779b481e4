import AlgebraSql.Proofs.NamedInputs
import AlgebraSql.Proofs.TableQualifiers

/-!
# Qualified plans — whose tables the columns of a statement name where a table is not its own alias.

Where every field is qualified, each result has to carry the alias with which its FROM item is written.  A query that an
operator extends does: its item is written under the alias through which the fields are found.  A query that is recorded
as it is, a SELECT for a semi join, for a table function or for a set operation of one query, takes a name that is not
written anywhere.  An operator that puts it behind FROM writes the name; one that goes on with it names a table that
does not exist.
-/

namespace AlgebraSql.Convert

open Sql Node

/-! ## Plans -/

/-- The query for a plan is a SELECT under a name of its own, which is not that of what it reads from. -/
def startsAnew : Rel → Bool
  | .join .. | .tableFunction .. => true
  | .setOp _ _ inputs => inputs.length == 1
  | .project input projects names distinct ids =>
    isIdentity input projects (Rel.project input projects names distinct ids).fields && startsAnew input
  | _ => false

/-- A relation is no join but one that tests for partners, no window and no row pattern, and does not refer to fields of
a query under a name of its own: only a filter, which puts it behind FROM, and a projection that changes nothing may go
on with it. -/
def readsWritten : Rel → Bool
  | .project input projects names distinct ids =>
    isIdentity input projects (Rel.project input projects names distinct ids).fields || !startsAnew input
  | .aggregate input _ _ _ | .sort input _ _ _ => !startsAnew input
  | .join _ _ _ type _ => type.keepsLeftOnly
  | .window .. | .rowPattern .. => false
  | _ => true

/-- **The plans in question**: no expression refers to rows around or to a pattern variable, and no relation to the
fields of a query under a name of its own. -/
def aliasesWritten : PlanCheck where
  relation := readsWritten
  expression _ e :=
    match e with
    | .correlation .. | .patternField .. => false
    | _ => true

theorem inward_aliasesWritten : aliasesWritten.Inward := ⟨fun _ _ _ _ => rfl, fun _ _ _ => rfl, fun _ _ _ _ => rfl⟩

variable {env : Env} {sub : Rel → ConvertM Node} {s s' : State} {rel input : Rel} {x r : Result} {b : Builder}
  {m n : Node} {hidden : Bool}

/-! ## Results -/

/-- **`Qualifies`** — the query of a result names tables of its own only.  It has a name, and its fields are found under
one alias: under this name, or under the alias with which the FROM item of the query is written.  If the latter is
hidden, a condition cannot be added. -/
structure Qualifies (hidden : Bool) (x : Result) : Prop where
  closed : x.node.findsTables [] = true
  clausal : x.node.kind = .select → ClauseKinds seesAlike x.node
  input : ∃ name a fields, x.neededAlias = some name ∧ x.aliases = [(a, fields)]
    ∧ (x.node.kind ≠ .select → name = a)
    ∧ (hidden = false → x.node.kind = .select → x.node.selectList? = none → a ∈ x.node.itemAliases)
  late : hidden = true → ∃ c ∈ x.clauses, Clause.where.rank ≤ c.rank

theorem Qualifies.expecting (h : Qualifies hidden x) (expected : List Clause) (ignores : Bool) :
    Qualifies hidden (x.expecting expected ignores) := ⟨h.closed, h.clausal, h.input, h.late⟩

/-- A query that is recorded without named inputs is found under its name. -/
theorem qualifies_makeResult (hq : ∀ s, env.mustQualify s = true) {clauses : List Clause}
    (hn : n.findsTables [] = true) (hclausal : n.kind = .select → ClauseKinds seesAlike n)
    (hwritten : hidden = false → n.kind = .select → n.selectList? = none → givenName s.usedNames n ∈ n.itemAliases)
    (hlate : hidden = true → ∃ c ∈ clauses, Clause.where.rank ≤ c.rank)
    (h : (makeResult env n clauses rel none).Gives s r s') : Qualifies hidden r := by
  obtain ⟨hnode, hclauses, -⟩ := makeResult_traits h
  obtain ⟨-, -, ⟨a, as, hgiven, -⟩ | hown⟩ := inputs_makeResult h
  · cases hgiven
  · refine ⟨hnode ▸ hn, hnode ▸ hclausal, ⟨_, _, _, (hown.qualified hq).1, hown.aliases, fun _ => rfl, ?_⟩,
      hclauses ▸ hlate⟩
    rw [hnode]
    exact hwritten

/-! ## Reading results -/

theorem subSelect_resetAlias (x : Result) : x.resetAlias.subSelect env = x.subSelect env := by
  have hfrom : x.resetAlias.asFrom = x.asFrom := by
    cases hneeded : x.neededAlias <;> simp [Result.resetAlias, Result.asFrom, hneeded]
  rw [Result.subSelect, Result.subSelect, hfrom]

/-- A new query over a result writes the name of the result. -/
theorem Qualifies.subSelect {name : String} (hx : Qualifies hidden x) (hneeded : x.neededAlias = some name)
    (h : (x.subSelect env).Gives s m s') :
    ∃ item, m = Node.selectFrom item ∧ item.findsTables [] = true ∧ name ∈ item.itemAliases := by
  simp only [Result.subSelect, Result.asFrom, hneeded, ConvertM.gives_bind, ConvertM.gives_lift] at h
  obtain ⟨item, s₁, ⟨hitem, rfl⟩, h⟩ := h
  obtain ⟨hclosed, hname, halias, hfrom⟩ := findsTables_asFromItem hx.closed hitem
  have hplain : (item.isQuery && !(item.is .values && item.hasAlias)) = false := by
    rw [halias]
    unfold isFromItem at hfrom
    unfold isQuery Node.is
    split at hfrom <;> simp_all [Kind.isQuery, Kind.isSetOperation]
  have hlacks : ∀ t, lacksAlias env t item = false := by
    intro t
    unfold lacksAlias
    split <;> simp [halias]
  unfold wrapSelect at h
  simp only [ConvertM.gives_bind, ConvertM.gives_get, hplain, hlacks, Bool.false_eq_true, if_false] at h
  obtain ⟨t, s₂, ⟨rfl, rfl⟩, h⟩ := h
  obtain ⟨rfl, -⟩ := (ConvertM.gives_pure _ _ _ _).mp h
  exact ⟨item, rfl, hclosed, hname⟩

/-- Where every field is qualified, a result that is no SELECT is read under its name. -/
theorem Qualifies.asSelect (hq : ∀ s, env.mustQualify s = true) {name : String} (hx : Qualifies hidden x)
    (hneeded : x.neededAlias = some name) (h : (x.asSelect env).Gives s m s') :
    (x.node.kind = .select ∧ m = x.node) ∨ (x.node.kind ≠ .select
      ∧ ∃ item, m = Node.selectFrom item ∧ item.findsTables [] = true ∧ name ∈ item.itemAliases) := by
  by_cases hkind : x.node.kind = .select
  · rw [ConvertM.gives_asSelect_of_select hkind] at h
    exact .inl ⟨hkind, h.1⟩
  · refine .inr ⟨hkind, ?_⟩
    unfold Result.asSelect at h
    rw [if_neg (by simpa [is_eq_true_iff] using hkind)] at h
    simp only [ConvertM.gives_bind, ConvertM.gives_get, hq, if_true] at h
    obtain ⟨t, s₁, ⟨rfl, rfl⟩, h⟩ := h
    exact hx.subSelect hneeded h

/-- **`ClosedSelect`** — a SELECT that names tables of its own only. -/
structure ClosedSelect (n : Node) : Prop where
  select : n.kind = .select
  closed : n.findsTables [] = true
  clausal : ClauseKinds seesAlike n

theorem closedSelect_selectFrom {item : Node} (h : item.findsTables [] = true) : ClosedSelect (Node.selectFrom item) :=
  ⟨rfl, findsTables_selectFrom h, clauseKinds_selectFrom rfl item⟩

theorem Qualifies.closed_asSelect (hq : ∀ s, env.mustQualify s = true) (hx : Qualifies hidden x)
    (h : (x.asSelect env).Gives s m s') : ClosedSelect m := by
  obtain ⟨name, a, fields, hneeded, -⟩ := hx.input
  rcases hx.asSelect hq hneeded h with ⟨hkind, rfl⟩ | ⟨-, item, rfl, hitem, -⟩
  · exact ⟨hkind, hx.closed, hx.clausal hkind⟩
  · exact closedSelect_selectFrom hitem

/-! ## Opened results -/

/-- **`OpensWritten`** — an opened query names tables of its own only, and the fields that the operator refers to name
items of its FROM clause. -/
structure OpensWritten (env : Env) (b : Builder) : Prop where
  closed : ClosedSelect b.select
  input : ∃ a fields, b.aliases = some [(a, fields)] ∧ (b.select.selectList? = none → a ∈ b.select.itemAliases)
  fields : FieldsHave (fun n => n.findsTables b.select.itemAliases = true) env b.context

/-- What is opened is a new query over a result or the result as a SELECT. -/
theorem select_gives_builder (h : (x.builder env rel).Gives s b s') :
    ∃ t, (if x.mustWrap env rel then x.subSelect env else x.asSelect env).Gives s b.select t := by
  unfold Result.builder at h
  dsimp only at h
  split at h
  all_goals
    rename_i hwrap
    obtain ⟨select, s₁, hselect, h⟩ := (ConvertM.gives_bind _ _ _ _ _).mp h
    refine ⟨s₁, ?_⟩
    first | rw [if_pos hwrap] | rw [if_neg hwrap]
    split at h
    · obtain ⟨rfl, -⟩ := (ConvertM.gives_pure _ _ _ _).mp h
      exact hselect
    · simp only [ConvertM.gives_bind, ConvertM.gives_pure] at h
      obtain ⟨-, -, -, -, -, -, rfl, -⟩ := h
      exact hselect
    · simp only [ConvertM.gives_bind, ConvertM.gives_pure] at h
      obtain ⟨-, -, -, rfl, -⟩ := h
      exact hselect

/-- An opened query is a SELECT with one named input. -/
theorem Qualifies.builder (hq : ∀ s, env.mustQualify s = true) (hx : Qualifies hidden x)
    (h : (x.builder env rel).Gives s b s') :
    ClosedSelect b.select ∧ ∃ a fields, b.aliases = some [(a, fields)] := by
  obtain ⟨name, a, fields, hneeded, haliases, -⟩ := hx.input
  obtain ⟨t, hselect⟩ := select_gives_builder h
  have hopened : ClosedSelect b.select := by
    split at hselect
    · obtain ⟨item, hitem, hclosed, -⟩ := hx.subSelect hneeded hselect
      rw [hitem]
      exact closedSelect_selectFrom hclosed
    · exact hx.closed_asSelect hq hselect
  refine ⟨hopened, ?_⟩
  rcases inputs_builder haliases h with ⟨items, -, hinput⟩ | ⟨-, t, columns, -, hinput, -⟩
  · exact ⟨_, _, hinput⟩
  · exact ⟨_, _, hinput⟩

/-- The fields of a select list are found under the aliases of the FROM items. -/
theorem ClosedSelect.fieldsHave (hm : ClosedSelect m) {items : List Node} (hlist : m.selectList? = some items)
    (byName grouped : Bool) :
    FieldsHave (fun n => n.findsTables m.itemAliases = true) env (.selectList items byName grouped) := by
  refine (inherited_findsTables _).itemField (fun {n c} hkind hn hc => ?_) (fun item hitem => ?_) _ _
  · exact findsTables_child hn (by rw [hkind]; rfl) (List.mem_flatMap.mpr ⟨_, mem_args_of_child? hc, by simp⟩)
  · have hclause := findsTables_clause hm.select hm.closed (mem_args_of_list? hlist) (by simp) hitem
    rwa [List.append_nil] at hclause

/-- A query without a select list is opened under an alias that is written, unless that of the result is hidden and
nothing is put behind FROM. -/
theorem Qualifies.mem_itemAliases (hq : ∀ s, env.mustQualify s = true) (hx : Qualifies hidden x)
    (hopen : hidden = false ∨ x.mustWrap env rel = true) (h : (x.builder env rel).Gives s b s')
    (hnone : b.select.selectList? = none) {a : String} {fields : RowType} (hinput : b.aliases = some [(a, fields)]) :
    a ∈ b.select.itemAliases := by
  obtain ⟨name, a', fields', hneeded, haliases, hown, hwritten⟩ := hx.input
  obtain ⟨t, hselect⟩ := select_gives_builder h
  rcases inputs_builder haliases h with ⟨items, hlist, -⟩ | ⟨-, t', columns, -, hinput', hname⟩
  · simp [hlist] at hnone
  · obtain ⟨rfl, rfl⟩ : t' = a ∧ columns = fields := by simpa [hinput'] using hinput
    split at hselect
    · -- a new query writes the name of the result
      obtain ⟨item, hitem, -, hmem⟩ := hx.subSelect hneeded hselect
      rw [hitem, itemAliases_selectFrom]
      rcases hname with hnew | ⟨rfl, -, hsame⟩
      · obtain rfl : name = t' := by simpa [hneeded] using hnew.needed
        exact hmem
      · exact hsame (by assumption) name hneeded ▸ hmem
    · rename_i hwrap
      obtain ⟨rfl, -, -⟩ := hname.resolve_left fun hnew => hwrap hnew.wrapped
      rcases hx.asSelect hq hneeded hselect with ⟨hkind, hsame⟩ | ⟨hkind, item, hitem, -, hmem⟩
      · rw [hsame] at hnone ⊢
        exact hwritten (hopen.resolve_right hwrap) hkind hnone
      · rw [hitem, itemAliases_selectFrom]
        exact hown hkind ▸ hmem

/-- **`builder`** — a result whose alias is written, or that has to be wrapped, is opened under an alias that is
written. -/
theorem Qualifies.opened (hq : ∀ s, env.mustQualify s = true) (henv : env.fieldMap = []) (hx : Qualifies hidden x)
    (hopen : hidden = false ∨ x.mustWrap env rel = true) (h : (x.builder env rel).Gives s b s') :
    OpensWritten env b := by
  obtain ⟨hclosed, a, fields, hinput⟩ := hx.builder hq h
  have hwritten : b.select.selectList? = none → a ∈ b.select.itemAliases := fun hnone =>
    hx.mem_itemAliases hq hopen h hnone hinput
  refine ⟨hclosed, ⟨a, fields, hinput, hwritten⟩, ?_⟩
  obtain ⟨-, a', fields', -, haliases, -⟩ := hx.input
  rcases (openedAs_builder h).context with ⟨items, byName, grouped, -, -, hsame, hlist, hctx⟩ | ⟨hnone, -⟩
  · rw [hctx]
    exact hclosed.fieldsHave (hsame ▸ hlist) byName grouped
  · rcases inputs_builder haliases h with ⟨items, hlist, -⟩ | ⟨-, t, columns, hctx, hinput', -⟩
    · simp [hlist] at hnone
    · obtain ⟨rfl, rfl⟩ : t = a ∧ columns = fields := by simpa [hinput'] using hinput
      rw [hctx]
      exact findsTables_aliasField henv (by simpa using hwritten hnone) _

/-! ## Clauses -/

/-- **`AddsClauses`** — a SELECT with clauses that were put into another one and name tables of its own. -/
structure AddsClauses (m n : Node) : Prop where
  closed : ClosedSelect n
  aliases : n.itemAliases = m.itemAliases
  list : n.selectList? = none → m.selectList? = none

namespace AddsClauses

theorem set (h : AddsClauses m n) {key : String} (hfrom : key ≠ "from") (hlist : key ≠ "expressions") {a : Arg}
    (ha : ∀ c ∈ a.children, c.findsTables m.itemAliases = true)
    (hkind : ∀ c, a.node? = some c → seesAlike c.kind = true) :
    AddsClauses m (n.set key (some a)) where
  closed := ⟨by simpa using h.closed.select,
    findsTables_set h.closed.select h.closed.closed hfrom (by simpa [h.aliases] using ha),
    h.closed.clausal.set key hkind⟩
  aliases := (itemAliases_set h.closed.select hfrom a).trans h.aliases
  list := fun hnone => h.list (by rwa [selectList?_set hlist] at hnone)

theorem withList (h : AddsClauses m n) {items : List Node}
    (hitems : ∀ item ∈ items, item.findsTables m.itemAliases = true) : AddsClauses m (Convert.withList n items) where
  closed := ⟨by simpa [Convert.withList] using h.closed.select,
    findsTables_set h.closed.select h.closed.closed (by decide) (by simpa [h.aliases] using hitems),
    h.closed.clausal.set _ (by simp)⟩
  aliases := (itemAliases_set h.closed.select (by decide) _).trans h.aliases
  list := fun hnone => by simp at hnone

theorem setWrapped (h : AddsClauses m n) {key : String} (hfrom : key ≠ "from") (hlist : key ≠ "expressions")
    {kind : Kind} (hordinary : isOrdinary kind = true) (halike : seesAlike kind = true) {c : Node}
    (hc : c.findsTables m.itemAliases = true) : AddsClauses m (n.set key (some (.node (Node.wrap kind c)))) :=
  h.set hfrom hlist (by simpa using inherited_wrap (inherited_findsTables _) hordinary hc)
    fun _ hnode => by cases hnode; exact halike

theorem withCondition (h : AddsClauses m n) {condition : Node} (hcondition : condition.findsTables m.itemAliases = true)
    (clause : Clause) : AddsClauses m (Convert.withCondition clause n condition) := by
  have hconjoined : ∀ key, key ≠ "from" → (conjoined n key condition).findsTables m.itemAliases = true := by
    intro key hkey
    unfold conjoined
    split
    · rename_i existing hexisting
      obtain ⟨wrapped, hwrapped, hthis⟩ := Option.bind_eq_some_iff.mp hexisting
      have hclause : wrapped.findsTables (n.itemAliases ++ []) = true :=
        findsTables_clause h.closed.select h.closed.closed (mem_args_of_child? hwrapped) hkey (by simp)
      rw [h.aliases, List.append_nil] at hclause
      have hexisting : existing.findsTables m.itemAliases = true :=
        findsTables_child hclause (h.closed.clausal key wrapped hwrapped)
          (List.mem_flatMap.mpr ⟨_, mem_args_of_child? hthis, by simp⟩)
      exact inherited_and (inherited_findsTables _) (by simpa using ⟨hexisting, hcondition⟩)
    · exact hcondition
  unfold Convert.withCondition
  split
  · exact h.setWrapped (by decide) (by decide) rfl rfl (hconjoined "having" (by decide))
  · exact h.setWrapped (by decide) (by decide) rfl rfl (hconjoined "qualify" (by decide))
  · exact h.setWrapped (by decide) (by decide) rfl rfl hcondition

theorem aggregated (h : AddsClauses m n) {items groups : List Node} (hasCalls : Bool)
    (hitems : ∀ item ∈ items, item.findsTables m.itemAliases = true)
    (hgroups : ∀ g ∈ groups, g.findsTables m.itemAliases = true) :
    AddsClauses m (Convert.aggregated n items groups hasCalls) := by
  have hlist : AddsClauses m (Convert.withList n (if items.isEmpty then [Node.number "1"] else items)) := by
    refine h.withList ?_
    split
    · simpa using inherited_number (inherited_findsTables _) "1"
    · exact hitems
  unfold Convert.aggregated
  dsimp only
  split
  · exact hlist
  · refine hlist.set (by decide) (by decide) ?_ fun _ hnode => by cases hnode; rfl
    have hgroup : (listNode .group groups).findsTables m.itemAliases = true :=
      findsTables_of_args (by decide) (by simpa using hgroups)
    simpa using hgroup

theorem sorted (h : AddsClauses m n) {keys : List Node} {limit skip : Option Node}
    (hkeys : ∀ k ∈ keys, k.findsTables m.itemAliases = true)
    (hlimits : ∀ c, limit = some c ∨ skip = some c → c.findsTables m.itemAliases = true) :
    AddsClauses m (Convert.sorted n keys limit skip) := by
  have hlimit : ∀ {q : Node} {key : String} (kind : Kind) (limit : Option Node), AddsClauses m q → key ≠ "from" →
      key ≠ "expressions" → isOrdinary kind = true → seesAlike kind = true →
      (∀ c, limit = some c → c.findsTables m.itemAliases = true) →
      AddsClauses m (withLimit q key kind limit) := by
    intro q key kind limit hq hfrom hlist hordinary halike hlimit
    unfold withLimit
    split
    · rename_i c
      exact hq.setWrapped hfrom hlist hordinary halike (hlimit c rfl)
    · exact hq
  unfold Convert.sorted
  refine hlimit _ _ (hlimit _ _ ?_ (by decide) (by decide) rfl rfl fun c hc => hlimits c (.inl hc))
    (by decide) (by decide) rfl rfl fun c hc => hlimits c (.inr hc)
  split
  · exact h
  · refine h.set (by decide) (by decide) ?_ fun _ hnode => by cases hnode; rfl
    simpa using inherited_order (inherited_findsTables _) hkeys

end AddsClauses

theorem OpensWritten.addsClauses (h : OpensWritten env b) : AddsClauses b.select b.select :=
  ⟨h.closed, rfl, id⟩

theorem addsClauses_selectFrom {item : Node} (h : item.findsTables [] = true) :
    AddsClauses (Node.selectFrom item) (Node.selectFrom item) :=
  ⟨closedSelect_selectFrom h, rfl, id⟩

/-- A query that was made of an opened one is found under the alias under which that one was opened. -/
theorem qualifies_closes (hq : ∀ s, env.mustQualify s = true) {a : String} {fields : RowType}
    (hinput : b.aliases = some [(a, fields)]) (hn : AddsClauses b.select n)
    (hwritten : hidden = false → b.select.selectList? = none → a ∈ b.select.itemAliases)
    (hlate : hidden = true → ∃ c ∈ b.clauses, Clause.where.rank ≤ c.rank) (h : Closes env b n s r s') :
    Qualifies hidden r := by
  obtain ⟨hnode, hclauses, -⟩ := makeResult_traits h
  obtain ⟨-, -, ⟨a', as, hgiven, haliases, hneeded⟩ | hown⟩ := inputs_makeResult h
  · rw [hinput, Option.some.injEq, List.cons.injEq] at hgiven
    obtain ⟨rfl, rfl⟩ := hgiven
    refine ⟨hnode ▸ hn.closed.closed, fun _ => hnode ▸ hn.closed.clausal,
      ⟨_, a, fields, hneeded, haliases, fun hkind => ?_, fun hhidden _ hnone => ?_⟩, ?_⟩
    · rw [hnode] at hkind
      exact absurd hn.closed.select hkind
    · rw [hnode] at hnone ⊢
      rw [hn.aliases]
      exact hwritten hhidden (hn.list hnone)
    · rw [hclauses]
      exact hlate
  · exact absurd hinput ((hown.qualified hq).2 _ _)

theorem OpensWritten.closes (hq : ∀ s, env.mustQualify s = true) (hb : OpensWritten env b) (hn : AddsClauses b.select n)
    (h : Closes env b n s r s') : Qualifies false r := by
  obtain ⟨a, fields, hinput, hwritten⟩ := hb.input
  exact qualifies_closes hq hinput hn (fun _ => hwritten) (fun h => by cases h) h

/-! ## Constant rows -/

/-- **`ClosedRows`** — constant rows name tables of their own only, and a SELECT of no rows reads from an item with the
name of the rows. -/
structure ClosedRows (name : String) (n : Node) : Prop where
  closed : n.findsTables [] = true
  clausal : n.kind = .select → ClauseKinds seesAlike n
  written : n.kind = .select → n.selectList? = none → name ∈ n.itemAliases

theorem closedRows_of_kind {name : String} (hn : n.findsTables [] = true) (hkind : n.kind ≠ .select) :
    ClosedRows name n :=
  ⟨hn, fun hselect => absurd hselect hkind, fun hselect => absurd hselect hkind⟩

theorem findsTables_typedNulls (fields : RowType) :
    ∀ n ∈ fields.map fun f => typedNull env.dialect f.type, n.findsTables [] = true := by
  intro n hn
  obtain ⟨f, -, rfl⟩ := List.mem_map.mp hn
  exact inherited_typedNull (inherited_findsTables []) _ _

theorem findsTables_namedSelect {fields : RowType} {ns : List Node} (hns : ∀ n ∈ ns, n.findsTables [] = true) :
    (namedSelect fields ns).findsTables [] = true :=
  findsTables_of_args (by decide) (by simpa using inherited_namedConstants (inherited_findsTables []) hns fields)

/-- No rows are a row that is filtered out. -/
theorem closedRows_noRows {name : String} {item : Node} (hitem : item.findsTables [] = true)
    (hname : name ∈ item.itemAliases) : ClosedRows name (Node.selectWhere item Node.alwaysFalse) := by
  have hfalse : Node.alwaysFalse.findsTables item.itemAliases = true :=
    inherited_binary (inherited_findsTables _) rfl (inherited_number (inherited_findsTables _) _)
      (inherited_number (inherited_findsTables _) _)
  have hadds : AddsClauses (Node.selectFrom item) (Node.selectWhere item Node.alwaysFalse) := by
    rw [selectWhere_eq]
    refine (addsClauses_selectFrom hitem).setWrapped (by decide) (by decide) rfl rfl ?_
    rwa [itemAliases_selectFrom]
  refine ⟨hadds.closed.closed, fun _ => hadds.closed.clausal, fun _ _ => ?_⟩
  rw [hadds.aliases, itemAliases_selectFrom]
  exact hname

/-- `VALUES` under a name. -/
theorem closedRows_aliasedValues {name : String} {fields : RowType} {tuples : List (List Literal)}
    (h : aliasedValues env name fields tuples = .ok n) : ClosedRows name n := by
  have hvalues : ∀ rows : List Node, (∀ row ∈ rows, row.findsTables [] = true) →
      (Node.mk .values [("expressions", .nodes rows), ("alias", .node (tableAlias name fields.names))]).findsTables []
        = true := by
    intro rows hrows
    refine findsTables_of_args (by decide) fun c hc => ?_
    simp only [List.flatMap_cons, children_nodes, children_node, List.flatMap_nil, List.append_nil,
      List.mem_append, List.mem_singleton] at hc
    rcases hc with hc | rfl
    · exact hrows c hc
    · exact findsTables_tableAlias _ _
  simp only [aliasedValues] at h
  split at h
  · cases h
    refine closedRows_noRows (hvalues _ ?_) ?_
    · simpa using inherited_tuple (inherited_findsTables []) (findsTables_typedNulls fields)
    · rw [itemAliases_eq]
      simp [ownAlias, isFromItem, hasAlias, child?, aliasName, nameUnder]
  · simp only [bind_eq_ok_iff, pure_eq_ok_iff] at h
    obtain ⟨rows, hrows, rfl⟩ := h
    refine closedRows_of_kind (hvalues rows (forall_of_mapM hrows fun tuple _ n hn => ?_)) (by simp)
    simp only [bind_eq_ok_iff, pure_eq_ok_iff] at hn
    obtain ⟨literals, hliterals, rfl⟩ := hn
    exact inherited_tuple (inherited_findsTables []) (inherited_literalNodes (inherited_findsTables []) _ _ hliterals)

/-- A SELECT without a FROM clause. -/
theorem closedRows_namedSelect {name : String} {fields : RowType} {ns : List Node}
    (hns : ∀ n ∈ ns, n.findsTables [] = true) : ClosedRows name (namedSelect fields ns) where
  closed := findsTables_namedSelect hns
  clausal := by
    intro _ key m hm
    have hmem := mem_args_of_child? hm
    simp [namedSelect, Node.selectItems] at hmem
  written := by
    intro _ hnone
    simp [namedSelect, Node.selectItems, selectList?, list?] at hnone

/-- Where there are no named `VALUES`, each row is a SELECT of its own. -/
theorem closedRows_unionValues {name : String} {fields : RowType} {tuples : List (List Literal)}
    (h : unionValues env name fields tuples = .ok n) : ClosedRows name n := by
  simp only [unionValues, bind_eq_ok_iff] at h
  obtain ⟨ns, hns, h⟩ := h
  have hrows : ∀ n ∈ ns, ClosedRows name n := by
    refine forall_of_mapM hns fun tuple _ n hn => ?_
    simp only [bind_eq_ok_iff, pure_eq_ok_iff] at hn
    obtain ⟨literals, hliterals, rfl⟩ := hn
    exact closedRows_namedSelect (inherited_literalNodes (inherited_findsTables []) _ _ hliterals)
  split at h
  · simp only [bind_eq_ok_iff, pure_eq_ok_iff] at h
    obtain ⟨item, hitem, rfl⟩ := h
    obtain ⟨hclosed, hname, -⟩ := findsTables_asFromItem (findsTables_namedSelect (findsTables_typedNulls fields)) hitem
    exact closedRows_noRows hclosed hname
  · rename_i first rest
    obtain rfl := (pure_eq_ok_iff _ _).mp h
    rcases rest with _ | ⟨second, rest⟩
    · exact hrows first List.mem_cons_self
    · refine closedRows_of_kind (findsTables_setOperations (show Kind.union ≠ .column by decide)
        (fun n hn => (hrows n (List.mem_cons_of_mem _ hn)).closed) (hrows first List.mem_cons_self).closed false) ?_
      obtain ⟨l, q, heq⟩ := setOperations_cons .union false rest first second
      rw [heq]
      simp [Node.setOperation]

/-! ## Operators on one input -/

/-- A filter puts a query under a name of its own behind FROM. -/
theorem Qualifies.wraps_filter (hx : Qualifies true x) (hinput : startsAnew input = true) (condition : Expr)
    (ids : List String) :
    (x.expecting [filterClause env input condition] (ignoresClauses (.filter input condition ids))).mustWrap env
      (.filter input condition ids) = true := by
  -- the clause is WHERE, and the query has a clause that WHERE cannot follow
  obtain ⟨c, hc, hlate⟩ := hx.late rfl
  have hclause : filterClause env input condition = .where := by
    cases input with
    | project input projects names distinct ids =>
      simp only [startsAnew, Bool.and_eq_true] at hinput
      have hplain : projects.any (·.containsOver) = false := by
        by_contra hover
        rw [isIdentity_eq_false (by simpa using hover)] at hinput
        exact absurd hinput.1 (by decide)
      simp [filterClause, hplain]
    | aggregate => cases hinput
    | _ => rfl
  have hcounts : ignoresClauses (.filter input condition ids) = false := by
    cases input with
    | aggregate => cases hinput
    | _ => rfl
  rw [hclause, hcounts]
  by_contra hwrap
  rw [Bool.not_eq_true] at hwrap
  have hused : (x.expecting [.where] false).clauses ≠ [] := List.ne_nil_of_mem hc
  rcases unwrapped_cases hused hwrap with ⟨input', condition', ids', hrel, -, hqualify⟩ | ⟨hfit, -⟩
  · cases hrel
    rw [hclause] at hqualify
    cases hqualify
  · rcases rank_of_fit hfit hc (e := .where) (by simp [Result.expecting]) with hlt | ⟨hselect, -⟩
    · omega
    · cases hselect

theorem findsTables_partnerTest (type : JoinType) {item q : Node} (hq : q.findsTables item.itemAliases = true) :
    (partnerTest type (Node.selectFrom item) (Node.wrap .exists q)).findsTables (Node.selectFrom item).itemAliases
      = true := by
  have hexists : (Node.wrap .exists q).findsTables item.itemAliases = true := findsTables_wrap (by decide) hq
  have hnone : (Node.selectFrom item).condition? "where" = none := by simp [Node.selectFrom, condition?, child?]
  rw [itemAliases_selectFrom, partnerTest, hnone]
  dsimp only
  split
  · exact findsTables_wrap (by decide) hexists
  · exact hexists

/-- An expression over fields that name visible tables names visible tables. -/
theorem maintains_scalarNode_findsTables {visible : List String} {ctx : Context} {calls : Bool} {e : Expr}
    (hsub : ∀ rel, rel.satisfies aliasesWritten = true →
      Maintains (fun _ => True) (fun n => n.findsTables [] = true) (sub rel))
    (hfields : FieldsHave (fun n => n.findsTables visible = true) env ctx)
    (he : e.satisfies aliasesWritten calls = true) :
    Maintains (fun _ => True) (fun n => n.findsTables visible = true) (scalarNode env sub ctx e) :=
  inherited_scalarNode (admits_findsTables inward_aliasesWritten hsub hfields) e he

section Operators

variable (hq : ∀ s, env.mustQualify s = true) (henv : env.fieldMap = [])
  (hsub : ∀ rel, rel.satisfies aliasesWritten = true →
    Maintains (fun _ => True) (fun n => n.findsTables [] = true) (sub rel))

include hq henv hsub

/-- **A filter** is found under an alias that is written. -/
theorem qualifies_filterResult {condition : Expr} {ids : List String} (hx : Qualifies (startsAnew input) x)
    (hcondition : condition.satisfies aliasesWritten true = true)
    (h : (filterResult env sub input condition ids (.filter input condition ids) x).Gives s r s') :
    Qualifies false r := by
  obtain ⟨b, s₁, c, s₂, ⟨t, -, hbuilder⟩, hc, hr⟩ := opened_filterResult h
  have hb : OpensWritten env b := by
    refine (hx.expecting _ _).opened hq henv ?_ hbuilder
    cases hinput : startsAnew input with
    | false => exact .inl rfl
    | true => exact .inr (Qualifies.wraps_filter (hinput ▸ hx) hinput condition ids)
  have hgood : c.findsTables b.select.itemAliases = true :=
    (maintains_scalarNode_findsTables hsub hb.fields hcondition s₁ c s₂ trivial hc).2
  exact hb.closes hq (hb.addsClauses.withCondition hgood _) hr

/-- **A projection** is found under an alias that is written, unless it changes nothing and its input is not. -/
theorem qualifies_projectResult {projects : List Expr} {names : List String} {distinct : Bool} {ids : List String}
    (hrel : rel = .project input projects names distinct ids) (hreads : readsWritten rel = true)
    (hx : Qualifies (startsAnew input) x) (hprojects : ∀ e ∈ projects, e.satisfies aliasesWritten true = true)
    (h : (projectResult env sub input projects distinct ids rel x).Gives s r s') : Qualifies (startsAnew rel) r := by
  obtain ⟨b, s₁, n, s₂, hknown, hn, hr⟩ := opened_projectResult h
  obtain ⟨t, -, hbuilder⟩ := hknown
  have hflag : ∀ {n : Node}, AddsClauses b.select n →
      AddsClauses b.select (if distinct then n.set "distinct" (some (.flag true)) else n) := by
    intro n hn
    split
    · exact hn.set (by decide) (by decide) (by simp) (by simp)
    · exact hn
  cases hinput : startsAnew input with
  | false =>
    have hb : OpensWritten env b := (hx.expecting _ _).opened hq henv (.inl hinput) hbuilder
    have hplain : startsAnew rel = false := by simp [hrel, startsAnew, hinput]
    rw [hplain]
    rcases hn with ⟨-, rfl, -⟩ | ⟨-, ns, hns, -, rfl⟩
    · exact hb.closes hq (hflag hb.addsClauses) hr
    · have hitem : ∀ e ∈ projects, Maintains (fun _ => True) (fun n => n.findsTables b.select.itemAliases = true)
          (projectedNode env sub b.context e) := fun e he =>
        Maintains.projectedNode (inherited_findsTables _)
          (maintains_scalarNode_findsTables hsub hb.fields (hprojects e he))
      have hgood := (Maintains.mapM hitem s₁ ns s₂ trivial hns).2
      refine hb.closes hq (hflag (hb.addsClauses.withList fun item hmem => ?_)) hr
      exact (inherited_findsTables _).isNamed (isNamed_namedItems hgood _ item hmem)
  | true =>
    -- only a projection that changes nothing goes on with such a query
    have hidentity : isIdentity input projects rel.fields = true := by
      subst hrel
      simpa [readsWritten, hinput] using hreads
    have hanew : startsAnew rel = true := by
      subst hrel
      simp only [startsAnew, hinput, hidentity, Bool.and_self]
    rw [hanew]
    obtain ⟨hclosed, a, fields, halias⟩ := (hx.expecting _ _).builder hq hbuilder
    obtain ⟨-, rfl, -⟩ := hn.resolve_right fun h => by simp [hidentity] at h
    refine qualifies_closes hq halias (hflag ⟨hclosed, rfl, id⟩) (fun h => by cases h) (fun _ => ?_) hr
    exact ⟨.select, (openedAs_builder hbuilder).mem_expected (by simp [Result.expecting]), by decide⟩

omit hsub in
/-- **An aggregation** is found under an alias that is written. -/
theorem qualifies_aggregateResult {keys : List Ordinal} {sets : List (List Ordinal)} {calls : List AggregateCall}
    (hx : Qualifies false x) (h : (aggregateResult env keys sets calls rel x).Gives s r s') : Qualifies false r := by
  obtain ⟨b, s₁, ks, gs, ns, hbuilder, hks, hgs, hns, -, hr⟩ := opened_aggregateResult h
  have hb : OpensWritten env b := (hx.expecting _ _).opened hq henv (.inl rfl) hbuilder
  have hitems : ∀ n ∈ ks ++ ns, n.findsTables b.select.itemAliases = true := by
    intro n hn
    rcases List.mem_append.mp hn with hn | hn
    · exact forall_of_mapM hks (fun key _ n hn => hb.fields key n hn) n hn
    · exact forall_of_mapM hns (fun call _ n hn => findsTables_aggregateNode hb.fields hn) n hn
  refine hb.closes hq (hb.addsClauses.aggregated _ (fun item hmem => ?_) ?_) hr
  · exact (inherited_findsTables _).isNamed (isNamed_namedItems hitems _ item hmem)
  · exact inherited_groupByNodes (inherited_findsTables _) hb.fields hgs

/-- **A sort** is found under an alias that is written. -/
theorem qualifies_sortResult {root : Bool} {collation : List Collation} {offset fetch : Option Expr}
    (hx : Qualifies false x)
    (hlimits : ∀ e, offset = some e ∨ fetch = some e → e.satisfies aliasesWritten false = true)
    (h : (sortResult env sub root collation offset fetch rel x).Gives s r s') : Qualifies false r := by
  obtain ⟨b, s₁, l, keys, limit, s₂, skip, s₃, hbuilder, hl, hkeys, hlimit, hskip, hr⟩ := opened_sortResult h
  have hb : OpensWritten env b := (hx.expecting _ _).opened hq henv (.inl rfl) hbuilder
  have hlist : AddsClauses b.select l := by
    unfold Spelled at hl
    split at hl
    · obtain ⟨columns, hcolumns, -, rfl⟩ := hl
      refine hb.addsClauses.withList fun item hmem => (inherited_findsTables _).isNamed ?_
      exact isNamed_namedItems (forall_of_mapM hcolumns fun i _ n hn => hb.fields i n hn) _ item hmem
    · exact hl ▸ hb.addsClauses
  have hnode : ∀ {limit : Option Expr} {c : Option Node} {t t' : State},
      (∀ e, limit = some e → e.satisfies aliasesWritten false = true) →
      (limitNode env sub b.context limit).Gives t c t' → ∀ n, c = some n → n.findsTables b.select.itemAliases = true := by
    rintro (_ | e) c t t' he hc n rfl
    · obtain ⟨hnone, -⟩ := (ConvertM.gives_pure _ _ _ _).mp hc
      cases hnone
    · obtain ⟨m, u, hm, hc⟩ := (ConvertM.gives_bind _ _ _ _ _).mp hc
      obtain ⟨hsome, -⟩ := (ConvertM.gives_pure _ _ _ _).mp hc
      obtain rfl : m = n := by simpa using hsome
      exact (maintains_scalarNode_findsTables hsub hb.fields (he e rfl) t m u trivial hm).2
  refine hb.closes hq (hlist.sorted ?_ fun c hc => ?_) hr
  · exact inherited_collationsNodes (inherited_findsTables _) (fun c _ => hb.fields c.key) hkeys
  · rcases hc with hc | hc
    · exact hnode (fun e he => hlimits e (.inr he)) hlimit c hc
    · exact hnode (fun e he => hlimits e (.inl he)) hskip c hc

/-! ## Operators on several inputs -/

/-- **A join that only tests for partners** is a SELECT under a name of its own. -/
theorem qualifies_semiJoinResult {condition : Expr} {type : JoinType} {ids : List String} {left right : Result}
    {hiddenLeft hiddenRight : Bool} (hleft : Qualifies hiddenLeft left) (hright : Qualifies hiddenRight right)
    (hcondition : condition.satisfies aliasesWritten true = true)
    (h : (semiJoinResult env sub condition type ids rel left.resetAlias right.resetAlias).Gives s r s') :
    Qualifies true r := by
  obtain ⟨l, -, -, hl, -⟩ := hleft.input
  obtain ⟨p, -, -, hp, -⟩ := hright.input
  rw [semiJoinResult_eq] at h
  simp only [ConvertM.gives_bind, ConvertM.gives_lift] at h
  obtain ⟨u, s₁, -, on, s₂, hon, select, s₃, hselect, partner, s₄, ⟨hpartner, rfl⟩, h⟩ := h
  obtain ⟨item, rfl, hitem, hname⟩ : ∃ item, select = Node.selectFrom item ∧ item.findsTables [] = true
      ∧ l ∈ item.itemAliases := by
    rw [leftQuery, show left.resetAlias.neededAlias.isNone = false by simp [Result.resetAlias, hl],
      if_neg (by decide), subSelect_resetAlias] at hselect
    exact hleft.subSelect hl hselect
  obtain ⟨hclosed, hnamed, -⟩ : partner.findsTables [] = true ∧ p ∈ partner.itemAliases ∧ _ :=
    findsTables_asFromItem hright.closed (by simpa [Result.resetAlias, Result.asFrom, hp] using hpartner)
  have hgood : on.findsTables (partner.itemAliases ++ item.itemAliases) = true := by
    have hinputs : left.resetAlias.aliases = [(l, left.fields)] ∧ right.resetAlias.aliases = [(p, right.fields)] := by
      simp [Result.resetAlias, hl, hp]
    have hfields : FieldsHave (fun n => n.findsTables (partner.itemAliases ++ item.itemAliases) = true) env
        (.join left.resetAlias.qualifiedContext right.resetAlias.qualifiedContext) := by
      unfold Result.qualifiedContext
      rw [hinputs.1, hinputs.2]
      exact .join (findsTables_aliasField henv (by simp [hname]) _) (findsTables_aliasField henv (by simp [hnamed]) _)
    exact (inherited_conditionNode (admits_findsTables inward_aliasesWritten hsub hfields)
      (turning_inward inward_aliasesWritten env.dialect true) condition hcondition s₁ on s₂ trivial hon).2
  have htest := findsTables_partnerTest type (findsTables_existenceQuery (findsTables_of_nil hclosed _) hgood)
  have hfiltered : ClosedSelect ((Node.selectFrom item).set "where" (some (.node (Node.wrap .where
      (partnerTest type (Node.selectFrom item) (Node.wrap .exists (existenceQuery partner on))))))) :=
    ((addsClauses_selectFrom hitem).setWrapped (by decide) (by decide) rfl rfl htest).closed
  exact qualifies_makeResult hq hfiltered.closed (fun _ => hfiltered.clausal) (fun h => by cases h)
    (fun _ => ⟨.where, by simp, Nat.le_refl _⟩) h

omit henv in
/-- **A table function** is read by a SELECT under a name of its own. -/
theorem qualifies_tableFunctionResult {call : Expr} {ns : List Node} (hns : ∀ n ∈ ns, ClosedSelect n)
    (hcall : call.satisfies aliasesWritten true = true)
    (h : (tableFunctionResult env sub call rel ns).Gives s r s') : Qualifies true r := by
  have hfields : FieldsHave (fun n => n.findsTables [] = true) env (.tableFunction ns) := by
    intro i n hn
    simp only [Context.field] at hn
    split at hn
    · rename_i m hm
      cases hn
      exact (hns _ (mem_of_nth? hm)).closed
    · cases hn
  obtain ⟨n, t, hn, h⟩ := (ConvertM.gives_bind _ _ _ _ _).mp h
  have hgood := (maintains_scalarNode_findsTables hsub hfields hcall s n t trivial hn).2
  have hclosed : ClosedSelect (Node.selectFrom (Node.wrap .tableFunction n)) :=
    closedSelect_selectFrom (findsTables_wrap (by decide) hgood)
  exact qualifies_makeResult hq hclosed.closed (fun _ => hclosed.clausal) (fun h => by cases h)
    (fun _ => ⟨.select, by simp, by decide⟩) h

end Operators

/-! ## Operators without expressions -/

/-- **A set operation** on several queries is no SELECT; on a single query, it is the query under a name of its own. -/
theorem qualifies_setOpResult (hq : ∀ s, env.mustQualify s = true) {op : SetOperator} {all : Bool} {ns : List Node}
    (hns : ∀ n ∈ ns, ClosedSelect n) (h : (setOpResult env op all rel ns).Gives s r s') : Qualifies (ns.length == 1) r := by
  have hcolumn : setKind op ≠ .column := by cases op <;> decide
  unfold setOpResult at h
  rcases ns with _ | ⟨first, _ | ⟨second, rest⟩⟩
  · exact absurd h (ConvertM.gives_throw _ _ _ _)
  · have hfirst := hns first List.mem_cons_self
    exact qualifies_makeResult hq hfirst.closed (fun _ => hfirst.clausal) (fun h => by cases h)
      (fun _ => ⟨.setOp, by simp, by decide⟩) h
  · -- the branches see nothing of each other
    have hgood := findsTables_setOperations hcolumn (fun n hn => (hns n (List.mem_cons_of_mem _ hn)).closed)
      (hns first List.mem_cons_self).closed !all
    obtain ⟨l, q, heq⟩ := setOperations_cons (setKind op) (!all) rest first second
    have hkind : ((second :: rest).foldl (fun u n => Node.setOperation (setKind op) u n !all) first).kind ≠ .select := by
      rw [heq]
      cases op <;> simp [Node.setOperation, setKind]
    exact qualifies_makeResult hq hgood (fun hselect => absurd hselect hkind) (fun _ hselect => absurd hselect hkind)
      (fun h => by cases h) h

/-- **A table** is found under the name that it needs. -/
theorem qualifies_scanResult (hq : ∀ s, env.mustQualify s = true) {table : List String}
    (h : (scanResult env table rel).Gives s r s') : Qualifies false r := by
  simp only [scanResult, ConvertM.gives_bind, ConvertM.gives_lift] at h
  obtain ⟨n, t, ⟨hn, rfl⟩, h⟩ := h
  have htable : n.findsTables [] = true ∧ n.kind = .table := by
    have hidentifier : ∀ s, (table?.identifier s).findsTables [] = true := fun s =>
      findsTables_of_args (by decide) (by simp)
    unfold Node.table? at hn
    split at hn <;> cases hn <;>
      exact ⟨findsTables_of_args (by decide) (by simp [kept, hidentifier]), rfl⟩
  obtain ⟨hclosed, hkind⟩ := htable
  exact qualifies_makeResult hq hclosed (fun hselect => by simp [hkind] at hselect)
    (fun _ hselect => by simp [hkind] at hselect) (fun h => by cases h) h

/-- **Constant rows** are found under their name. -/
theorem qualifies_valuesResult (hq : ∀ s, env.mustQualify s = true) {fields : RowType} {tuples : List (List Literal)}
    (h : (valuesResult env fields tuples rel).Gives s r s') : Qualifies false r := by
  simp only [valuesResult, ConvertM.gives_bind, ConvertM.gives_nextName, ConvertM.gives_lift] at h
  obtain ⟨name, s₁, ⟨hname, rfl⟩, n, s₂, ⟨hn, rfl⟩, h⟩ := h
  have hrows : ClosedRows name n := by
    split at hn
    · exact closedRows_aliasedValues hn
    · exact closedRows_unionValues hn
  refine qualifies_makeResult hq hrows.closed hrows.clausal (fun _ hkind hlist => ?_) (fun h => by cases h) h
  rw [givenName, aliasOf?_select hkind]
  exact hname ▸ hrows.written hkind hlist

/-! ## Plans -/

mutual

/-- **`relationResult`** — the query for a plan names tables of its own only, and is found under an alias that is
written, or hidden. -/
theorem qualifies_relationResult (hq : ∀ s, env.mustQualify s = true) (henv : env.fieldMap = [])
    (hsub : ∀ rel, rel.satisfies aliasesWritten = true →
      Maintains (fun _ => True) (fun n => n.findsTables [] = true) (sub rel)) (root : Bool) :
    ∀ rel : Rel, rel.satisfies aliasesWritten = true →
    ∀ {s s' : State} {r : Result}, (relationResult env sub root rel).Gives s r s' → Qualifies (startsAnew rel) r
  | .scan table fields, _, s, s', r, h => by
    rw [relationResult] at h
    exact qualifies_scanResult hq h
  | .filter input condition ids, hrel, s, s', r, h => by
    simp only [Rel.satisfies, Bool.and_eq_true] at hrel
    obtain ⟨⟨-, hinput⟩, hcondition⟩ := hrel
    rw [relationResult] at h
    obtain ⟨x, t, hx, h⟩ := (ConvertM.gives_bind _ _ _ _ _).mp h
    exact qualifies_filterResult hq henv hsub (qualifies_relationResult hq henv hsub false input hinput hx) hcondition h
  | .project input projects names distinct ids, hrel, s, s', r, h => by
    simp only [Rel.satisfies, Bool.and_eq_true, Scalar.allSatisfy_iff] at hrel
    obtain ⟨⟨hreads, hinput⟩, hprojects⟩ := hrel
    rw [relationResult] at h
    obtain ⟨x, t, hx, h⟩ := (ConvertM.gives_bind _ _ _ _ _).mp h
    exact qualifies_projectResult hq henv hsub rfl hreads (qualifies_relationResult hq henv hsub false input hinput hx)
      hprojects h
  | .aggregate input keys sets calls, hrel, s, s', r, h => by
    simp only [Rel.satisfies, Bool.and_eq_true] at hrel
    obtain ⟨hreads, hinput⟩ := hrel
    -- such an operator may go on with its input, and only an alias that is written is found then
    have hplain : startsAnew input = false := by simpa [aliasesWritten, readsWritten] using hreads
    rw [relationResult] at h
    obtain ⟨x, t, hx, h⟩ := (ConvertM.gives_bind _ _ _ _ _).mp h
    exact qualifies_aggregateResult hq henv (hplain ▸ qualifies_relationResult hq henv hsub false input hinput hx) h
  | .sort input collation offset fetch, hrel, s, s', r, h => by
    simp only [Rel.satisfies, Bool.and_eq_true] at hrel
    obtain ⟨⟨⟨hreads, hinput⟩, hoffset⟩, hfetch⟩ := hrel
    have hplain : startsAnew input = false := by simpa [aliasesWritten, readsWritten] using hreads
    rw [relationResult] at h
    obtain ⟨x, t, hx, h⟩ := (ConvertM.gives_bind _ _ _ _ _).mp h
    refine qualifies_sortResult hq henv hsub (hplain ▸ qualifies_relationResult hq henv hsub false input hinput hx)
      (fun e he => ?_) h
    rcases he with rfl | rfl
    · exact hoffset
    · exact hfetch
  | .join left right condition type ids, hrel, s, s', r, h => by
    simp only [Rel.satisfies, Bool.and_eq_true] at hrel
    obtain ⟨⟨⟨hreads, hleft⟩, hright⟩, hcondition⟩ := hrel
    have htype : type.keepsLeftOnly = true := hreads
    rw [relationResult] at h
    simp only [ConvertM.gives_bind, htype, if_true] at h
    obtain ⟨x, t, hx, y, t', hy, h⟩ := h
    exact qualifies_semiJoinResult hq henv hsub (qualifies_relationResult hq henv hsub false left hleft hx)
      (qualifies_relationResult hq henv hsub false right hright hy) hcondition h
  | .setOp op all inputs, hrel, s, s', r, h => by
    simp only [Rel.satisfies, Bool.and_eq_true] at hrel
    rw [relationResult] at h
    obtain ⟨ns, t, hns, h⟩ := (ConvertM.gives_bind _ _ _ _ _).mp h
    obtain ⟨hlength, hclosed⟩ := closed_relationSelects hq henv hsub inputs hrel.2 hns
    rw [startsAnew, ← hlength]
    exact qualifies_setOpResult hq hclosed h
  | .tableFunction inputs call fields, hrel, s, s', r, h => by
    simp only [Rel.satisfies, Bool.and_eq_true] at hrel
    obtain ⟨⟨-, hinputs⟩, hcall⟩ := hrel
    rw [relationResult] at h
    obtain ⟨ns, t, hns, h⟩ := (ConvertM.gives_bind _ _ _ _ _).mp h
    exact qualifies_tableFunctionResult hq hsub (closed_relationSelects hq henv hsub inputs hinputs hns).2 hcall h
  | .values fields tuples, _, s, s', r, h => by
    rw [relationResult] at h
    exact qualifies_valuesResult hq h
  | .window .., hrel, _, _, _, _ => by simp [Rel.satisfies, aliasesWritten, readsWritten] at hrel
  | .rowPattern .., hrel, _, _, _, _ => by simp [Rel.satisfies, aliasesWritten, readsWritten] at hrel

/-- The queries for several such plans name tables of their own only. -/
theorem closed_relationSelects (hq : ∀ s, env.mustQualify s = true) (henv : env.fieldMap = [])
    (hsub : ∀ rel, rel.satisfies aliasesWritten = true →
      Maintains (fun _ => True) (fun n => n.findsTables [] = true) (sub rel)) :
    ∀ rels : List Rel, Rel.allSatisfy aliasesWritten rels = true →
    ∀ {s s' : State} {ns : List Node}, (relationSelects env sub rels).Gives s ns s' →
    ns.length = rels.length ∧ ∀ n ∈ ns, ClosedSelect n
  | [], _, s, s', ns, h => by
    rw [relationSelects] at h
    obtain ⟨rfl, -⟩ := (ConvertM.gives_pure _ _ _ _).mp h
    simp
  | rel :: rels, hrels, s, s', ns, h => by
    simp only [Rel.allSatisfy, Bool.and_eq_true] at hrels
    rw [relationSelects] at h
    simp only [ConvertM.gives_bind, ConvertM.gives_pure] at h
    obtain ⟨x, t, hx, m, u, hm, rest, v, hrest, rfl, -⟩ := h
    obtain ⟨hlength, hclosed⟩ := closed_relationSelects hq henv hsub rels hrels.2 hrest
    refine ⟨by simp [hlength], List.forall_mem_cons.mpr ⟨?_, hclosed⟩⟩
    exact (qualifies_relationResult hq henv hsub false rel hrels.1 hx).closed_asSelect hq hm

end

/-- A query inside an expression names tables of its own only. -/
theorem Qualifies.closed_asQuery (hq : ∀ s, env.mustQualify s = true) (hx : Qualifies hidden x)
    (h : (x.asQuery env).Gives s n s') : n.findsTables [] = true := by
  unfold Result.asQuery at h
  split at h
  · obtain ⟨rfl, -⟩ := (ConvertM.gives_pure _ _ _ _).mp h
    exact hx.closed
  · split at h
    · obtain ⟨rfl, -⟩ := (ConvertM.gives_pure _ _ _ _).mp h
      exact hx.closed
    · exact (hx.closed_asSelect hq h).closed

/-- **`queryAt`** — so does a query of any depth. -/
theorem closed_queryAt (hq : ∀ s, env.mustQualify s = true) (henv : env.fieldMap = []) (depth : Nat) (root : Bool)
    {rel : Rel} (hrel : rel.satisfies aliasesWritten = true) :
    Maintains (fun _ => True) (fun n => n.findsTables [] = true) (queryAt env depth root rel) := by
  induction depth generalizing root rel with
  | zero =>
    intro s n s' _ h
    rw [queryAt, ConvertM.gives_bind] at h
    obtain ⟨x, t, hx, hn⟩ := h
    -- there are no sub-queries at this depth
    have hnull : ∀ rel : Rel, rel.satisfies aliasesWritten = true →
        Maintains (fun _ => True) (fun n => n.findsTables [] = true) (Pure.pure Node.null) :=
      fun _ _ => .pure (inherited_null (inherited_findsTables []))
    exact ⟨trivial, (qualifies_relationResult hq henv hnull root rel hrel hx).closed_asQuery hq hn⟩
  | succ depth ih =>
    intro s n s' _ h
    rw [queryAt, ConvertM.gives_bind] at h
    obtain ⟨x, t, hx, hn⟩ := h
    have hqualifies := qualifies_relationResult hq henv (fun rel hrel => ih false hrel) root rel hrel hx
    exact ⟨trivial, hqualifies.closed_asQuery hq hn⟩

/-- **`statement`** — without implicit aliases of tables, every table that a column of a statement names is the alias of
a FROM item of its own SELECT or of a SELECT around it that has this one in an expression, if no relation of the plan
refers to the fields of a query under a name of its own. -/
theorem statement_findsTables {d : Dialect} (hd : d.capabilities.implicitTableAlias = false) {rel : Rel}
    (hrel : rel.satisfies aliasesWritten = true) (hn : statement d rel = .ok n) : n.findsTables [] = true := by
  have hq : ∀ s, (Env.plain d).mustQualify s = true := fun s => by simp [Env.mustQualify, Env.plain, hd]
  rw [statement_eq, ConvertM.value_eq_ok_iff] at hn
  obtain ⟨s, hn⟩ := hn
  rw [planStatement, planResult, ConvertM.gives_bind] at hn
  obtain ⟨r, t, hr, hn⟩ := hn
  have hqualifies : Qualifies (startsAnew rel) r :=
    qualifies_relationResult hq rfl (fun rel hrel => closed_queryAt hq rfl _ false hrel) true rel hrel hr
  unfold Result.asStatement at hn
  split at hn
  · obtain ⟨rfl, -⟩ := (ConvertM.gives_pure _ _ _ _).mp hn
    exact hqualifies.closed
  · exact (hqualifies.closed_asSelect hq hn).closed

/-- Standard SQL where a table is not its own alias. -/
def writtenAliases : Dialect :=
  { Dialect.ansi with capabilities := { Dialect.ansi.capabilities with implicitTableAlias := false } }

/-- Employees that have a department. -/
def placedEmployees : Rel :=
  .join (.scan ["emp"] [⟨"name", .varchar⟩, ⟨"dept", .integer⟩]) (.scan ["dept"] [⟨"id", .integer⟩])
    (.call .equals [.inputRef (1 : Nat) .integer, .inputRef (2 : Nat) .integer] .boolean) .semi []

/-- The largest departments of the employees that have one, if there are offices in the first of them. -/
def placedSizes : Rel :=
  .sort
    (.aggregate
      (.filter placedEmployees
        (.subQuery .exists []
          (.filter (.scan ["office"] [⟨"dept", .integer⟩])
            (.call .equals [.inputRef (0 : Nat) .integer, .literal ⟨.exact "1", .integer⟩] .boolean) [])
          .boolean) [])
      [.whole 1] [[.whole 1]] [{ op := .count, args := [], name := some "size" }])
    [⟨.whole 1, .descending, .unspecified⟩] none none

/-- The filter puts the semi join behind FROM and writes its alias. -/
theorem statement_findsTables_placedSizes :
    ∃ n, statement writtenAliases placedSizes = .ok n ∧ n.findsTables [] = true := by
  have hok : (statement writtenAliases placedSizes).toOption.isSome = true := by decide +kernel
  cases hn : statement writtenAliases placedSizes with
  | error e => simp [hn, Except.toOption] at hok
  | ok n => exact ⟨n, rfl, statement_findsTables rfl (by decide +kernel) hn⟩

/-- The names of the employees that have a department. -/
def placedNames : Rel := .project placedEmployees [.inputRef (0 : Nat) .varchar] ["name"] false []

/-- The projection goes on with the semi join, and names its fields by an alias that no item has. -/
theorem placedNames_lose_table :
    ∃ n, statement writtenAliases placedNames = .ok n ∧ n.findsTables [] = false := by
  have hlost : (statement writtenAliases placedNames).toOption.map (·.findsTables []) = some false := by
    decide +kernel
  cases hn : statement writtenAliases placedNames with
  | error e => simp [hn, Except.toOption] at hlost
  | ok n => exact ⟨n, rfl, by simpa [hn, Except.toOption] using hlost⟩

end AlgebraSql.Convert
