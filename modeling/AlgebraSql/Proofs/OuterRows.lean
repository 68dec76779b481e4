import AlgebraSql.Proofs.Correlations
import AlgebraSql.Proofs.FlatPlans
import AlgebraSql.Proofs.JoinTree
import AlgebraSql.Proofs.ScalarValues

/-!
# Outer rows — what the fields of a correlation variable stand for.

A filter or a projection makes the fields of its input known to its sub-queries before it is decided
whether it extends the query of the input or reads it as a sub-query.  The names under which the fields
are known are those of a sub-query, of a table under its own name, or of the tables of a join.  Where the
operator's own SELECT has FROM items of these names, the fields stand for the row of the input.  Merged
into the query of another operator, they stand for nothing, because no FROM item has the name.
-/

namespace AlgebraSql.Convert

open Sql Node

variable {env : Env} {sub : Rel → ConvertM Node} {s s' t : State} {schema : Schema} {id : String}

/-! ## While sub-queries are converted -/

/-- **`Meanwhile`** — the memories that conversions of expressions and plans leave behind, none of which
declares a correlation variable again. -/
inductive Meanwhile (env : Env) (id : String) (s : State) : State → Prop
  | start : Meanwhile env id s s
  | expression {t u : State} {depth : Nat} {ctx : Context} {fields : Bool} {e : Expr} {n : Node}
      (h : Meanwhile env id s t) (he : e.satisfies (undeclared id) fields = true)
      (hn : (scalarNode env (queryAt env depth false) ctx e).Gives t n u) : Meanwhile env id s u
  | plan {t u : State} {depth : Nat} {root : Bool} {rel : Rel} {r : Result} (h : Meanwhile env id s t)
      (hrel : rel.satisfies (undeclared id) = true)
      (hr : (relationResult env (queryAt env depth false) root rel).Gives t r u) : Meanwhile env id s u
  | opening {t u : State} {rel : Rel} {x : Result} {b : Builder} (h : Meanwhile env id s t)
      (hb : (x.builder env rel).Gives t b u) : Meanwhile env id s u
  | reading {t u : State} {x : Result} {n : Node} (h : Meanwhile env id s t)
      (hn : (x.asSelect env).Gives t n u) : Meanwhile env id s u
  | declaring {t u : State} {ids : List String} {inputs : Aliases} (h : Meanwhile env id s t) (hids : id ∉ ids)
      (hu : (registerCorrelations ids inputs).Gives t ⟨⟩ u) : Meanwhile env id s u

/-- Meanwhile, the variable stands for the same fields. -/
theorem Meanwhile.same (h : Meanwhile env id s t) :
    t.correlations.get? id = s.correlations.get? id := by
  have hqueries : ∀ depth, SparesQueries id (queryAt env depth false) := fun depth rel hrel =>
    spares_queryAt depth false hrel
  induction h with
  | start => rfl
  | expression _ he hn ih => rw [(spares_scalarNode (hqueries _) _ _ he).same hn, ih]
  | plan _ hrel hr ih => rw [(spares_relationResult (hqueries _) _ hrel).same hr, ih]
  | opening _ hb ih => rw [Spares.same (Result.steady_builder _ _) hb, ih]
  | reading _ hn ih => rw [Spares.same (Result.steady_asSelect _) hn, ih]
  | declaring _ hids hu ih => rw [(spares_registerCorrelations hids _).same hu, ih]

/-! ## The row that a variable stands for -/

/-- **`Denotes`** — in a SELECT, the fields of a correlation variable are written as columns of its FROM
items, and the column of a field has the value at the field's place. -/
def Denotes (env : Env) (schema : Schema) (id : String) (width : Nat) (n : Node) (s : State) : Prop :=
  ∀ i < width, ∃ name table, table ∈ (n.frame schema).map (·.1)
    ∧ (∀ t, Meanwhile env id s t → ∀ (sub : Rel → ConvertM Node) ctx u field type,
      (scalarNode env sub ctx (.fieldAccess (.correlation id u) field i type)).Gives t
        (Node.column name (some table)) t)
    ∧ ∀ (E : Engine) (db : Database) (outer : Names), db.schema = schema →
      (Node.column name (some table)).scalar E db (n.fromNames db outer) = some fun f => [f.row.getD i .null]

/-- A field of a variable is written as a column of the input that owns it. -/
theorem gives_outerField (hmap : env.fieldMap = []) {inputs : Aliases}
    (hs : s.correlations.get? id = some (.aliases inputs true)) {i : Nat} {table : String} {f : Field}
    (howner : Context.owner? inputs i = some (table, f)) (ctx : Context) (u : DataType) (field : String)
    (type : DataType) : (scalarNode env sub ctx (.fieldAccess (.correlation id u) field i type)).Gives s
      (Node.column f.name (some table)) s := by
  have hfield := Context.field_aliases hmap true howner
  simp only [scalarNode, correlatedField, correlated, ConvertM.gives_bind, ConvertM.gives_lift,
    ConvertM.gives_get]
  refine ⟨_, s, ⟨s, s, ⟨rfl, rfl⟩, ?_⟩, hfield, rfl⟩
  rw [hs]
  exact (ConvertM.gives_pure _ _ _ _).mpr ⟨rfl, rfl⟩

/-- Named inputs whose frame is that of the SELECT are what the fields stand for. -/
theorem denotes_of_frame (hmap : env.fieldMap = []) {inputs : Aliases}
    (hdistinct : Context.Distinct inputs true) {n : Node} (hframe : n.frame schema = Context.frame inputs)
    (hs : s.correlations.get? id = some (.aliases inputs true)) :
    Denotes env schema id (Context.width inputs) n s := by
  intro i hi
  obtain ⟨⟨table, f⟩, howner⟩ := Option.isSome_iff_exists.mp ((Context.owner?_isSome_iff inputs i).mpr hi)
  refine ⟨f.name, table, ?_, fun t ht sub ctx u field type => ?_, fun E db outer hdb => ?_⟩
  · have hcell := Context.cells_frame inputs i
    rw [howner] at hcell
    obtain ⟨item, hitem, hcell⟩ := List.mem_flatMap.mp (List.mem_of_getElem? hcell)
    obtain ⟨column, -, hcolumn⟩ := List.mem_map.mp hcell
    rw [hframe]
    exact List.mem_map.mpr ⟨item, hitem, congrArg Prod.fst hcolumn⟩
  · have ht' := ht.same
    rw [hs] at ht'
    exact gives_outerField hmap ht' howner ctx u field type
  · have hnames : n.fromNames db outer = Names.within (Context.frame inputs) outer := by
      rw [fromNames, hdb, hframe]
    rw [hnames]
    exact Context.scalar_column_frame hdistinct E db outer howner

/-! ## Names of results -/

/-- The result was recorded under a fresh name. -/
def Result.Fresh (r : Result) : Prop :=
  ∃ used n clauses rel aliases, r = recorded n clauses rel aliases (givenName used n)

/-- A conversion records what it gives. -/
def Recording (c : ConvertM Result) : Prop := ∀ s r s', c.Gives s r s' → r.Fresh

namespace Recording

theorem makeResult (henv : env.NeverQualifies) (n : Node) (clauses : List Clause) (rel : Rel)
    (aliases : Option Aliases) : Recording (makeResult env n clauses rel aliases) := by
  intro s r s' h
  exact ⟨_, _, _, _, _, ((ConvertM.gives_makeResult henv _ _ _ _ _ _ _).mp h).1⟩

theorem bind {α : Type} {c : ConvertM α} {f : α → ConvertM Result} (h : ∀ a, Recording (f a)) :
    Recording (c >>= f) := by
  intro s r s' hr
  obtain ⟨a, t, -, hr⟩ := (ConvertM.gives_bind _ _ _ _ _).mp hr
  exact h a t r s' hr

theorem throw {e : Error} : Recording (MonadExcept.throw e) := by
  intro s r s' h
  exact absurd h (ConvertM.gives_throw _ _ _ _)

end Recording

/-- **Every result** of a plan was recorded under a fresh name. -/
theorem recording_relationResult (henv : env.NeverQualifies) (root : Bool) (rel : Rel) :
    Recording (relationResult env sub root rel) := by
  have hbuilder : ∀ b : Builder, Recording (b.result env) := fun b => .makeResult henv _ _ _ _
  cases rel with
  | scan table fields =>
    rw [relationResult]
    exact .bind fun n => .makeResult henv _ _ _ _
  | values fields tuples =>
    rw [relationResult]
    exact .bind fun name => .bind fun n => .makeResult henv _ _ _ _
  | filter input condition ids =>
    rw [relationResult]
    exact .bind fun x => .bind fun _ => .bind fun b => .bind fun n => .bind hbuilder
  | project input projects names distinct ids =>
    rw [relationResult]
    refine .bind fun x => .bind fun _ => .bind fun b => ?_
    by_cases hidentity : isIdentity input projects (Rel.project input projects names distinct ids).fields = true
    · simp only [hidentity, if_true]
      exact .bind fun b => hbuilder _
    · simp only [hidentity]
      exact .bind fun ns => .bind fun items => .bind fun b => hbuilder _
  | aggregate input keys sets calls =>
    rw [relationResult]
    refine .bind fun x => .bind fun b => .bind fun ks => .bind fun items => .bind fun groups => ?_
    refine .bind fun aggregates => .bind fun items => ?_
    by_cases hplain : (groups.isEmpty && !calls.isEmpty) = true
    · simp only [hplain, if_true]
      exact .bind hbuilder
    · simp only [hplain]
      exact .bind hbuilder
  | join left right condition type ids =>
    rw [relationResult]
    refine .bind fun x => .bind fun y => ?_
    split
    · refine .bind fun _ => .bind fun on => ?_
      by_cases hneeded : x.resetAlias.neededAlias.isNone = true
      · simp only [hneeded, if_true]
        exact .bind fun select => .bind fun item => .makeResult henv _ _ _ _
      · simp only [hneeded]
        exact .bind fun select => .bind fun item => .makeResult henv _ _ _ _
    · refine .bind fun _ => .bind fun l => .bind fun r => ?_
      by_cases hproduct : isProduct condition type = true
      · simp only [hproduct, if_true]
        exact .bind fun n => .makeResult henv _ _ _ _
      · simp only [hproduct]
        exact .bind fun on => .bind fun n => .makeResult henv _ _ _ _
  | setOp op all inputs =>
    rw [relationResult]
    refine .bind fun ns => ?_
    unfold setOpResult
    split
    · exact .throw
    · exact .makeResult henv _ _ _ _
  | sort input collation offset fetch =>
    rw [relationResult]
    refine .bind fun x => ?_
    rw [sortResult_eq]
    exact .bind fun b => .bind fun b => .bind fun b => .bind fun b => .bind hbuilder
  | window input groups constants names =>
    rw [relationResult]
    exact .bind fun x => .bind fun b => .bind fun calls => .bind fun columns => .bind fun items => hbuilder _
  | tableFunction inputs call fields =>
    rw [relationResult]
    exact .bind fun ns => .bind fun n => .makeResult henv _ _ _ _
  | rowPattern input spec =>
    rw [relationResult]
    refine .bind fun x => .bind fun order => .bind fun input => .bind fun partition => .bind fun measures => ?_
    exact .bind fun pattern => .bind fun within => .bind fun define => .makeResult henv _ _ _ _

/-! ## Opening the query of the input -/

/-- The memory after the fields of named inputs have become known under ids. -/
def State.declaring (s : State) (ids : List String) (inputs : Aliases) : State :=
  { s with correlations := s.correlations.putAll (ids.map fun id => (id, .aliases inputs true)) }

/-- The clauses that an operator announces to its input. -/
def Result.announced (env : Env) (x : Result) : Rel → Result
  | .filter input condition ids =>
    x.expecting [filterClause env input condition] (ignoresClauses (.filter input condition ids))
  | .project .. => x.expecting [.select]
  | _ => x

/-- The query that a builder extends is the one that is opened. -/
theorem select_of_builder (henv : env.NeverQualifies) {x : Result} {rel : Rel} {b : Builder}
    (h : (x.builder env rel).Gives s b s') : Opening env x rel s b.select s' := by
  obtain ⟨m, hm, hb⟩ := (ConvertM.gives_builder henv x rel b s s').mp h
  have hselect : b.select = m := by
    unfold Result.opened at hb
    cases hlist : m.selectList? with
    | some items =>
      simp only [hlist, Except.ok.injEq] at hb
      rw [← hb]
    | none =>
      cases hnew : x.newAlias? (x.mustWrap env rel) with
      | none =>
        simp only [hlist, hnew, Except.ok.injEq] at hb
        rw [← hb]
      | some name =>
        simp only [hlist, hnew, bind_eq_ok_iff, pure_eq_ok_iff] at hb
        obtain ⟨fields, -, rfl⟩ := hb
        rfl
  rw [hselect]
  exact hm

/-- **`Extends`** — the query of a filter or of a projection is the opened one, of which a condition or the
select list and DISTINCT are set. -/
inductive Extends (env : Env) (sub : Rel → ConvertM Node) (s : State) (m : Node) : Rel → Node → Prop
  | filter {input : Rel} {condition : Expr} {ids : List String} {ctx : Context} {c : Node} {s' : State}
      (hc : (scalarNode env sub ctx condition).Gives s c s') :
      Extends env sub s m (.filter input condition ids) (withCondition (filterClause env input condition) m c)
  | identity {input : Rel} {projects : List Expr} {names : List String} {ids : List String} (distinct : Bool)
      (h : isIdentity input projects (Rel.project input projects names distinct ids).fields = true) :
      Extends env sub s m (.project input projects names distinct ids)
        (if distinct then m.set "distinct" (some (.flag true)) else m)
  | project {input : Rel} {projects : List Expr} {names : List String} {ids : List String} (distinct : Bool)
      {ctx : Context} {ns items : List Node} {s' : State}
      (hns : (projects.mapM (projectedNode env sub ctx)).Gives s ns s') :
      Extends env sub s m (.project input projects names distinct ids)
        (if distinct then (withList m items).set "distinct" (some (.flag true)) else withList m items)

/-- A filter or a projection, and its input. -/
inductive Reads : Rel → Rel → Prop
  | filter (input : Rel) (condition : Expr) (ids : List String) : Reads (.filter input condition ids) input
  | project (input : Rel) (projects : List Expr) (names : List String) (distinct : Bool) (ids : List String) :
      Reads (.project input projects names distinct ids) input

/-- **A filter or a projection** makes the fields of its input known, opens the query of the input, and
converts its own expressions from there on. -/
theorem extends_of_gives (henv : env.NeverQualifies) {N input : Rel} {root : Bool} {r : Result}
    (hN : Reads N input) (h : (relationResult env sub root N).Gives s r s') :
    ∃ x s₁ m s₂, (relationResult env sub false input).Gives s x s₁
      ∧ Opening env (x.announced env N) N (s₁.declaring N.declared x.aliases) m s₂
      ∧ Extends env sub s₂ m N r.node := by
  have hnode : ∀ {b : Builder} {t : State}, (b.result env).Gives t r s' → r.node = b.select := by
    intro b t ht
    rw [((ConvertM.gives_makeResult henv _ _ _ _ _ _ _).mp ht).1, recorded_node]
  rcases hN with ⟨input, condition, ids⟩ | ⟨input, projects, names, distinct, ids⟩
  · rw [relationResult, ConvertM.gives_bind] at h
    obtain ⟨x, s₁, hx, h⟩ := h
    simp only [filterResult, ConvertM.gives_bind, ConvertM.gives_lift, ConvertM.gives_registerCorrelations] at h
    obtain ⟨-, -, rfl, b, s₂, hb, c, s₃, hc, b', s₄, ⟨hput, rfl⟩, hresult⟩ := h
    refine ⟨x, s₁, b.select, s₂, hx, select_of_builder henv hb, ?_⟩
    rw [hnode hresult]
    have hput' : b'.select = withCondition (filterClause env input condition) b.select c := by
      rcases filterClause_three env input condition with hclause | hclause | hclause <;>
        simp only [hclause] at hput ⊢ <;> rw [put_eq_ok hput] <;> rfl
    rw [hput']
    exact .filter hc
  · rw [relationResult, ConvertM.gives_bind] at h
    obtain ⟨x, s₁, hx, h⟩ := h
    simp only [projectResult, ConvertM.gives_bind, ConvertM.gives_registerCorrelations] at h
    obtain ⟨-, -, rfl, b, s₂, hb, h⟩ := h
    refine ⟨x, s₁, b.select, s₂, hx, select_of_builder henv hb, ?_⟩
    cases hidentity : isIdentity input projects (Rel.project input projects names distinct ids).fields with
    | true =>
      simp only [hidentity, if_true, ConvertM.gives_bind, ConvertM.gives_pure] at h
      obtain ⟨b, s₃, ⟨rfl, rfl⟩, hresult⟩ := h
      rw [hnode hresult]
      have hextends := @Extends.identity env sub s₂ b.select input projects names ids distinct hidentity
      cases distinct <;> exact hextends
    | false =>
      simp only [hidentity, Bool.false_eq_true, if_false, ConvertM.gives_bind, ConvertM.gives_lift,
        ConvertM.gives_pure] at h
      obtain ⟨ns, s₄, hns, items, s₅, ⟨hitems, rfl⟩, b', s₃, ⟨rfl, rfl⟩, hresult⟩ := h
      rw [hnode hresult]
      have hextends := @Extends.project env sub s₂ b.select input projects names ids distinct _ ns items s₄ hns
      cases distinct <;> exact hextends

/-- The SELECT of the operator reads from what was opened. -/
theorem Extends.frame_eq {m n : Node} {N : Rel} (h : Extends env sub s m N n) (hm : m.kind = .select) :
    n.frame schema = m.frame schema := by
  cases h with
  | @filter input condition ids ctx c t hc =>
    rcases filterClause_three env input condition with hclause | hclause | hclause <;> rw [hclause] <;>
      exact frame_set hm (by decide) _
  | @identity input projects names ids distinct hidentity =>
    cases distinct with
    | true => exact frame_set hm (by decide) _
    | false => rfl
  | @project input projects names ids distinct ctx ns items t hns =>
    have hlist : (withList m items).frame schema = m.frame schema := frame_set hm (by decide) _
    cases distinct with
    | true => exact (frame_set (by simpa [withList] using hm) (by decide) _).trans hlist
    | false => exact hlist

/-- Opening the query of the input leaves known fields as they are. -/
theorem Opening.same {x : Result} {rel : Rel} {m : Node} (h : Opening env x rel s m s') :
    s'.correlations.get? id = s.correlations.get? id := by
  unfold Opening at h
  split at h
  · exact Spares.same x.steady_subSelect h
  · exact Spares.same x.steady_asSelect h

/-! ## Inputs without joins -/

/-- What is announced changes neither the query nor the names. -/
theorem Result.announced_eq (env : Env) (x : Result) (N : Rel) :
    ∃ expected ignores, x.announced env N = { x with expected, ignoreClauses := ignores } := by
  cases N <;> exact ⟨_, _, rfl⟩

/-- A fresh name of a query, other than its own, is not empty. -/
theorem givenName_ne_empty {used : UsedNames} {n : Node} (h : n.aliasOf? ≠ some (givenName used n)) :
    givenName used n ≠ "" := by
  unfold givenName at h ⊢
  cases hown : n.aliasOf? with
  | none => exact UsedNames.unique_ne_empty_of_ne (by decide)
  | some own =>
    rw [hown, Option.getD_some] at h
    rw [Option.getD_some]
    exact UsedNames.unique_ne_empty fun hsame => h (by rw [hsame])

/-- A single input is known by the own name of its query, or by a name that is not empty. -/
theorem Result.Fresh.name {x : Result} {name : String} (h : x.Fresh) (hsingle : x.Single name) :
    (x.neededAlias = none → x.node.aliasOf? = some name) ∧ (x.neededAlias = some name → name ≠ "") := by
  obtain ⟨used, n, clauses, rel, aliases, rfl⟩ := h
  have haliases := hsingle.aliases
  unfold recorded at haliases ⊢
  split at haliases
  · -- several inputs are no single one
    simp at haliases
  · simp only [List.cons.injEq, Prod.mk.injEq, and_true] at haliases
    subst haliases
    refine ⟨fun hnone => by simpa using hnone, fun hsome => givenName_ne_empty fun hsame => ?_⟩
    simp [hsame] at hsome

/-- **Below its name**, the query for a plan without joins is a FROM item with the columns of the plan. -/
theorem Flat.frame_asFrom {input : Rel} {x : Result} (hx : Flat schema input x) (hfresh : x.Fresh)
    (hquery : x.query.columns schema = input.fields.names) {item : Node} (h : x.asFrom = .ok item) :
    item.frame schema = Context.frame x.aliases := by
  obtain ⟨name, hsingle, hneeded⟩ := hx.single
  have hframe : Context.frame x.aliases = [(name, input.fields.names)] := by
    rw [hsingle.aliases, hx.fields]
    rfl
  obtain ⟨hown, hnonempty⟩ := hfresh.name hsingle
  rw [hframe]
  rcases hx.form with hplain | hleaf
  · have hname := hneeded hplain
    have hitem : derived x.node (some name) = item := by
      rw [Result.asFrom, hname] at h
      exact Except.ok.inj ((asFromItem_of_plainQuery hplain name).symm.trans h)
    have hcolumns : x.node.columns schema = input.fields.names := by
      rw [← Result.query_of_plain hplain, hquery]
    have hne : (some name) ≠ some "" := fun he => hnonempty hname (Option.some.inj he)
    rw [← hitem, frame_derived _ _ hne, hcolumns]
    rfl
  · rcases hsingle.needed with hnone | hsome
    · -- the FROM item is known by its own name
      have hnode : x.node = item := by
        rw [Result.asFrom, hnone] at h
        exact Except.ok.inj h
      have houtput : item.outputName = name := by
        rw [← hnode, outputName, hown hnone]
        rfl
      rw [hnode] at hleaf
      generalize x.neededAlias = needed at hleaf
      cases hleaf with
      | @table path _ _ ht hcolumns =>
        obtain ⟨t', own, ht', hkind, -⟩ := table?_traits (show path ≠ [] by rintro rfl; cases ht)
        obtain rfl : t' = item := by simpa [ht'] using ht
        have hschema : schema t'.parts = input.fields.names := by rw [← hcolumns, tableColumns, parts_table? ht']
        rw [frame_table hkind, houtput, hschema]
      | values own hrows =>
        rw [frame_values rfl, houtput, aliasColumns_valuesItem]
    · -- the FROM item is a table under another name
      rw [hsome] at hleaf
      rw [Result.asFrom, hsome] at h
      generalize x.node = n at hleaf h
      cases hleaf with
      | @table path _ _ ht hcolumns =>
        obtain ⟨t', own, ht', hkind, -, haliases, -⟩ := table?_traits (show path ≠ [] by rintro rfl; cases ht)
        obtain rfl : t' = n := by simpa [ht'] using ht
        have hitem : t'.set "alias" (some (.node (tableAlias name))) = item := by
          simpa [Node.asFromItem, Node.isFromItem, hkind, haliases] using h
        have hschema : schema t'.parts = input.fields.names := by rw [← hcolumns, tableColumns, parts_table? ht']
        rw [← hitem, frame_renamed hkind (hnonempty hsome), hschema]

/-- A plan without joins that is read under its name stands behind FROM of the opened query. -/
theorem Flat.opened_under_name (henv : env.NeverQualifies) {input N : Rel} {x : Result}
    (hx : Flat schema input x) (hread : x.neededAlias = none ∨ (x.announced env N).mustWrap env N = true)
    {m : Node} (h : Opening env (x.announced env N) N s m s') :
    ∃ item, x.asFrom = .ok item ∧ m = selectFrom item ∧ Shows schema x.query item := by
  obtain ⟨item, hitem, hreadable, hshows⟩ := hx.asFrom
  refine ⟨item, hitem, ?_, hshows⟩
  obtain ⟨expected, ignores, hannounced⟩ := x.announced_eq env N
  have hfrom : (x.announced env N).asFrom = .ok item := by
    rw [hannounced]
    exact hitem
  unfold Opening at h
  by_cases hwrap : (x.announced env N).mustWrap env N = true
  · rw [if_pos hwrap, ConvertM.gives_subSelect hfrom, ConvertM.gives_wrapSelect_of_readable henv hreadable] at h
    exact h.1
  · have hnone := hread.resolve_right hwrap
    have hnode : item = (x.announced env N).node := by
      rw [Result.asFrom, hnone] at hitem
      rw [hannounced]
      exact (Except.ok.inj hitem).symm
    have hselect : (x.announced env N).node.kind ≠ .select := by
      rw [← hnode]
      rcases (isReadable_iff item).mp hreadable with hk | hk | ⟨hk | hk, -⟩ <;> simp [hk]
    rw [if_neg hwrap, ConvertM.gives_asSelect_of_ne_select henv hselect, ← hnode,
      ConvertM.gives_wrapSelect_of_readable henv hreadable] at h
    exact h.1

/-! ## Joins of two tables -/

/-- A filter or a projection is merged into a query that has nothing but FROM and WHERE. -/
theorem needsWrapping_bare {c : WrapCheck} (hitems : WrapCheck.itemsOf c.node = none)
    (hgroups : c.groupBy? = none) (hdistinct : c.node.flag "distinct" = false)
    (hclauses : c.clauses = [.from] ∨ c.clauses = [.from, .where])
    (hfit : Clause.fit c.clauses c.expected = true)
    (hrel : (∃ input condition ids, c.rel = .filter input condition ids)
      ∨ ∃ input projects names distinct ids, c.rel = .project input projects names distinct ids) :
    needsWrapping c = false := by
  have hnone : ∀ rule ∈ wrapRules, rule c ≠ some true := by
    have hgroup : Clause.groupBy ∉ c.clauses := by rcases hclauses with h | h <;> simp [h]
    have hhaving : Clause.having ∉ c.clauses := by rcases hclauses with h | h <;> simp [h]
    have hlast : c.selectsLast = false := by
      rcases hclauses with h | h <;> rw [WrapCheck.selectsLast, h] <;> decide
    have hnests : ∀ projects, c.nestsWindows projects = false := fun projects => by
      simp [WrapCheck.nestsWindows, WrapCheck.items?, hitems]
    intro rule hrule
    simp only [wrapRules, List.mem_cons, List.not_mem_nil, or_false] at hrule
    obtain ⟨input, condition, ids, hrel⟩ | ⟨input, projects, names, distinct, ids, hrel⟩ := hrel
    · rcases hrule with rfl | rfl | rfl | rfl | rfl | rfl | rfl | rfl | rfl | rfl | rfl | rfl | rfl | rfl | rfl <;>
        simp [noClausesYet, qualifyOverWindow, clauseOrder, distinctProjection, aggregateInGroupBy, nestedWindow,
          nestedAggregate, groupByNameDropped, groupByWindow, windowInAggregate, sortOverIntersect, havingNameUsed,
          windowOverSelect, aggregateOverAggregate, groupByNameInHaving, wrapIf, hrel, hfit, hlast]
    · have haggregate : ∀ projects, c.groupsByAggregate projects = false := fun projects => by
        simp [WrapCheck.groupsByAggregate, hgroups]
      have hnoAggregates : aggregateInGroupBy c ≠ some true := by
        unfold aggregateInGroupBy
        split <;> simp [wrapIf, haggregate]
      rcases hrule with rfl | rfl | rfl | rfl | rfl | rfl | rfl | rfl | rfl | rfl | rfl | rfl | rfl | rfl | rfl <;>
        first
          | exact hnoAggregates
          | simp [noClausesYet, qualifyOverWindow, clauseOrder, distinctProjection, nestedWindow, nestedAggregate,
              groupByNameDropped, groupByWindow, windowInAggregate, sortOverIntersect, havingNameUsed,
              windowOverSelect, aggregateOverAggregate, groupByNameInHaving, wrapIf, hrel, hfit, hlast, hdistinct,
              hnests, hgroup, hhaving]
  unfold needsWrapping
  cases hverdict : wrapRules.findSome? fun rule => rule c with
  | none => rfl
  | some verdict =>
    obtain ⟨rule, hrule, hgives⟩ := List.exists_of_findSome?_eq_some hverdict
    cases verdict with
    | false => rfl
    | true => exact absurd hgives (hnone rule hrule)

/-- Two inputs with different names and columns with different names each. -/
theorem Context.distinct_pair {a b : String} (hne : a ≠ b) {f g : RowType} (hf : f.names.Nodup) (hg : g.names.Nodup) :
    Context.Distinct [(a, f), (b, g)] true := by
  have hcells : (Context.frame [(a, f), (b, g)]).cells.map (Context.calledBy true)
      = f.names.map (fun name => (some a, name)) ++ g.names.map fun name => (some b, name) := by
    simp [Context.frame, Frame.cells, Context.calledBy, RowType.names, Function.comp_def]
  rw [Context.Distinct, hcells, List.nodup_append]
  refine ⟨hf.map fun _ _ he => (Prod.mk.inj he).2, hg.map fun _ _ he => (Prod.mk.inj he).2, ?_⟩
  intro c hc c' hc' he
  obtain ⟨name, -, rfl⟩ := List.mem_map.mp hc
  obtain ⟨name', -, rfl⟩ := List.mem_map.mp hc'
  exact hne (Option.some.inj (Prod.mk.inj he).1)

theorem Context.width_pair (a b : String) (f g : RowType) :
    Context.width ([(a, f)] ++ [(b, g)]) = f.length + g.length := by simp [Context.width]

theorem child?_joinNode (l r : Node) (kind : String) (on : Option Node) :
    (joinNode l r kind on).child? "this" = some l ∧ (joinNode l r kind on).child? "expression" = some r := by
  simp [joinNode, child?]

/-- A joined item exposes the columns of both sides. -/
theorem frame_joinNode (l r : Node) (kind : String) (on : Option Node) (schema : Schema) :
    (joinNode l r kind on).frame schema = l.frame schema ++ r.frame schema :=
  frame_join rfl (child?_joinNode l r kind on).1 (child?_joinNode l r kind on).2

/-- A join of two tables. -/
inductive JoinedTables (schema : Schema) (f g : RowType) : Rel → Prop
  | mk {p q : List String} (condition : Expr) {type : JoinType} (ids : List String)
      (htype : type.keepsLeftOnly = false) (hp : tableColumns schema p = f.names)
      (hq : tableColumns schema q = g.names) : JoinedTables schema f g (.join (.scan p f) (.scan q g) condition type ids)

/-- A join of two tables, each of which has columns of different names. -/
inductive TablePair (schema : Schema) (f g : RowType) : Rel → Prop
  | mk {p q : List String} (condition : Expr) {type : JoinType} (ids : List String)
      (htype : type.keepsLeftOnly = false) (hp : tableColumns schema p = f.names)
      (hq : tableColumns schema q = g.names) (hf : f.names.Nodup) (hg : g.names.Nodup) :
      TablePair schema f g (.join (.scan p f) (.scan q g) condition type ids)

theorem TablePair.joined {f g : RowType} {rel : Rel} (h : TablePair schema f g rel) :
    JoinedTables schema f g rel := by
  obtain ⟨condition, ids, htype, hp, hq, -, -⟩ := h
  exact .mk condition ids htype hp hq

/-- A FROM item that is a join of two tables. -/
structure JoinsTables (item : Node) : Prop where
  kind : item.kind = .join
  left : ∃ l, item.child? "this" = some l ∧ l.kind = .table
  right : ∃ r, item.child? "expression" = some r ∧ r.kind = .table

/-- **`OverPair`** — the query of a result is a star over two joined tables, perhaps under a condition, and
the tables are the named inputs. -/
structure OverPair (schema : Schema) (f g : RowType) (x : Result) : Prop where
  aliases : ∃ a b, a ≠ b ∧ x.aliases = [(a, f), (b, g)]
  star : ∃ item, IsStar x.query item ∧ JoinsTables item
  frame : x.query.frame schema = Context.frame x.aliases
  distinct : x.node.flag "distinct" = false
  form : (x.node.kind = .join ∧ x.clauses = [.from]) ∨ (x.node = x.query ∧ x.clauses = [.from, .where])

/-- A filter or a projection over a join of two tables, and a projection over such a filter. -/
inductive PairReader (schema : Schema) (f g : RowType) : Rel → Rel → Prop
  | filter {input : Rel} (condition : Expr) (ids : List String) (h : TablePair schema f g input) :
      PairReader schema f g (.filter input condition ids) input
  | project {input : Rel} (projects : List Expr) (names : List String) (distinct : Bool) (ids : List String)
      (h : TablePair schema f g input) : PairReader schema f g (.project input projects names distinct ids) input
  | filtered {input : Rel} (condition : Expr) (below : List String) (projects : List Expr) (names : List String)
      (distinct : Bool) (ids : List String) (h : TablePair schema f g input) :
      PairReader schema f g (.project (.filter input condition below) projects names distinct ids)
        (.filter input condition below)

theorem TablePair.traits {f g : RowType} {rel : Rel} (h : TablePair schema f g rel) :
    f.names.Nodup ∧ g.names.Nodup ∧ rel.fields.length = f.length + g.length := by
  obtain ⟨condition, ids, htype, -, -, hf, hg⟩ := h
  exact ⟨hf, hg, by simp [Rel.fields, htype, RowType.length_unique]⟩

/-- The input has the fields of both tables. -/
theorem PairReader.traits {f g : RowType} {N input : Rel} (h : PairReader schema f g N input) :
    f.names.Nodup ∧ g.names.Nodup ∧ input.fields.length = f.length + g.length := by
  cases h with
  | filter condition ids h => exact h.traits
  | project projects names distinct ids h => exact h.traits
  | filtered condition below projects names distinct ids h =>
    rw [Rel.fields]
    exact h.traits

/-- One side of a join is the table, perhaps under another name. -/
theorem TableResult.table {path : List String} {fields : RowType} {used : UsedNames} {r : Result}
    {name : String} {item : Node} (h : TableResult path fields used r name item) :
    item.kind = .table ∧ ∃ t, Node.table? path = .ok t ∧ item.parts = t.parts := by
  obtain ⟨-, table, htable, hitem⟩ := h.reads
  obtain ⟨t, own, ht, hkind, -, haliases, -⟩ := table?_traits (show path ≠ [] by rintro rfl; cases htable)
  obtain rfl : t = table := by simpa [htable] using ht.symm
  rcases hitem with rfl | hitem
  · exact ⟨hkind, item, htable, rfl⟩
  · obtain rfl : t.set "alias" (some (.node (tableAlias name))) = item := by
      simpa [Node.asFromItem, Node.isFromItem, hkind, haliases] using hitem
    exact ⟨by simpa using hkind, t, htable, parts_set_alias _ _⟩

/-- A table as one side of a join has the columns of the table. -/
theorem TableResult.frame_eq {path : List String} {fields : RowType} {used : UsedNames} {r : Result}
    {name : String} {item : Node} (h : TableResult path fields used r name item)
    (hcolumns : tableColumns schema path = fields.names) : item.frame schema = [(name, fields.names)] := by
  obtain ⟨hkind, t, ht, hparts⟩ := h.table
  have houtput : item.outputName = name := by
    rw [outputName, h.reads.1]
    rfl
  have hschema : schema t.parts = fields.names := by rw [← hcolumns, tableColumns, parts_table? ht]
  rw [frame_table hkind, houtput, hparts, hschema]

/-- **A join of two tables** is paired. -/
theorem paired_join (henv : env.NeverQualifies) {f g : RowType} {rel : Rel} {root : Bool} {x : Result}
    (hrel : JoinedTables schema f g rel) (h : (relationResult env sub root rel).Gives s x s') :
    OverPair schema f g x ∧ x.node.kind = .join := by
  obtain ⟨condition, ids, htype, hp, hq⟩ := hrel
  rename_i p q type
  rw [relationResult, ConvertM.gives_bind] at h
  obtain ⟨l, s₁, hl, h⟩ := h
  rw [ConvertM.gives_bind] at h
  obtain ⟨r, s₂, hr, h⟩ := h
  simp only [htype, Bool.false_eq_true, if_false] at h
  -- a path without parts is no table
  have hpath : ∀ {path : List String} {fields : RowType} {s s' : State} {x : Result},
      (relationResult env sub false (.scan path fields)).Gives s x s' → path ≠ [] := by
    rintro path fields s s' x hx rfl
    simp only [relationResult, scanResult, ConvertM.gives_bind, ConvertM.gives_lift] at hx
    obtain ⟨n, t, ⟨hn, -⟩, -⟩ := hx
    cases hn
  obtain ⟨l', s₁', a, litem, hl', hused, hleft⟩ := gives_table sub henv f (hpath hl) false s
  obtain ⟨rfl, rfl⟩ := hl.unique hl'
  obtain ⟨r', s₂', b, ritem, hr', -, hright⟩ := gives_table sub henv g (hpath hr) false s₁
  obtain ⟨rfl, rfl⟩ := hr.unique hr'
  have hne : a ≠ b := by
    rintro rfl
    have hfree := hright.free
    rw [hused, UsedNames.has_record_self] at hfree
    cases hfree
  have hinputs : (OrderedMap.putAll [] l.joinAliases).putAll r.joinAliases = [(a, f), (b, g)] := by
    simp [hleft.joinAliases, hright.joinAliases, OrderedMap.putAll, OrderedMap.put, hne]
  rw [hleft.reset, hright.reset, joinResult] at h
  simp only [ConvertM.gives_bind, ConvertM.gives_lift, hleft.asFrom, hright.asFrom, Except.ok.injEq] at h
  obtain ⟨-, s₃, -, _, s₄, ⟨rfl, rfl⟩, _, s₅, ⟨rfl, rfl⟩, h⟩ := h
  obtain ⟨kind, on, s₄, hmake⟩ : ∃ kind on s₄, (makeJoinResult env (joinNode litem ritem kind on) l r
      (.join (.scan p f) (.scan q g) condition type ids)).Gives s₄ x s' := by
    split at h
    · simp only [ConvertM.gives_bind, ConvertM.gives_pure] at h
      obtain ⟨n, s₄, ⟨rfl, rfl⟩, hmake⟩ := h
      exact ⟨_, _, _, hmake⟩
    · simp only [ConvertM.gives_bind, ConvertM.gives_pure] at h
      obtain ⟨on, s₄, -, n, s₅, ⟨rfl, rfl⟩, hmake⟩ := h
      exact ⟨_, _, _, hmake⟩
  rw [makeJoinResult, hinputs, ConvertM.gives_makeResult henv] at hmake
  obtain ⟨rfl, -⟩ := hmake
  generalize givenName _ _ = name
  have hframe : (joinNode litem ritem kind on).frame schema = Context.frame [(a, f), (b, g)] := by
    rw [frame_joinNode, hleft.frame_eq hp, hright.frame_eq hq]
    rfl
  have hquery : (recorded (joinNode litem ritem kind on) [.from] (.join (.scan p f) (.scan q g) condition type ids)
      (some [(a, f), (b, g)]) name).query = selectFrom (joinNode litem ritem kind on) := by
    have hplain : isPlainQuery (joinNode litem ritem kind on) = false := by
      simp [isPlainQuery, joinNode, Node.is, isSetOperation, Kind.isSetOperation]
    rw [Result.query, recorded_node, hplain, if_neg (by simp)]
  have htables : JoinsTables (joinNode litem ritem kind on) :=
    ⟨rfl, ⟨litem, (child?_joinNode _ _ _ _).1, hleft.table.1⟩, ⟨ritem, (child?_joinNode _ _ _ _).2, hright.table.1⟩⟩
  refine ⟨⟨⟨a, b, hne, rfl⟩, ⟨_, hquery ▸ isStar_selectFrom _, htables⟩, ?_, ?_, .inl ⟨rfl, rfl⟩⟩, rfl⟩
  · rw [hquery, (isStar_selectFrom _).frame_eq, hframe]
    rfl
  · rw [recorded_node]
    cases on <;> simp [joinNode, flag, Node.optional]

namespace OverPair

variable {f g : RowType} {x : Result}

theorem distinctNames (h : OverPair schema f g x) (hf : f.names.Nodup) (hg : g.names.Nodup) :
    Context.Distinct x.aliases true := by
  obtain ⟨a, b, hne, haliases⟩ := h.aliases
  rw [haliases]
  exact Context.distinct_pair hne hf hg

/-- The clauses of a pair are those of a bare query. -/
theorem bare (h : OverPair schema f g x) : WrapCheck.itemsOf x.node = none
    ∧ (if x.node.is .select then x.node.groupBy? else none) = none
    ∧ (x.clauses = [.from] ∨ x.clauses = [.from, .where]) := by
  refine ⟨?_, ?_, h.form.imp And.right And.right⟩
  · unfold WrapCheck.itemsOf
    rcases h.form with ⟨hjoin, -⟩ | ⟨hnode, -⟩
    · simp [Node.is, hjoin]
    · obtain ⟨item, hstar, -⟩ := h.star
      rw [hnode, selectList?, list?, hstar.others "expressions" (by decide) (by decide)]
      simp
  · rcases h.form with ⟨hjoin, -⟩ | ⟨hnode, -⟩
    · simp [Node.is, hjoin]
    · obtain ⟨item, hstar, -⟩ := h.star
      simp [hnode, groupBy?, hstar.child?_eq]

/-- A filter over a join that has no clauses yet is merged into its query. -/
theorem mustWrap_filter (h : OverPair schema f g x) (hjoin : x.node.kind = .join) {input : Rel}
    {condition : Expr} {ids : List String} (hclause : filterClause env input condition = .where) :
    (x.announced env (.filter input condition ids)).mustWrap env (.filter input condition ids) = false := by
  obtain ⟨hitems, hgroups, hclauses⟩ := h.bare
  have honly : x.clauses = [.from] := by
    rcases h.form with ⟨-, hclauses⟩ | ⟨hnode, -⟩
    · exact hclauses
    · obtain ⟨item, hstar, -⟩ := h.star
      rw [hnode, hstar.kind] at hjoin
      cases hjoin
  refine needsWrapping_bare hitems hgroups h.distinct hclauses ?_ (.inl ⟨_, _, _, rfl⟩)
  simp only [Result.announced, Result.expecting, hclause, honly]
  split <;> decide

/-- A projection is merged into the query of a pair. -/
theorem mustWrap_project (h : OverPair schema f g x) {input : Rel} {projects : List Expr} {names : List String}
    {distinct : Bool} {ids : List String} : (x.announced env (.project input projects names distinct ids)).mustWrap
      env (.project input projects names distinct ids) = false := by
  obtain ⟨hitems, hgroups, hclauses⟩ := h.bare
  refine needsWrapping_bare hitems hgroups h.distinct hclauses ?_ (.inr ⟨_, _, _, _, _, rfl⟩)
  rcases hclauses with hclauses | hclauses <;> simp only [Result.announced, Result.expecting, hclauses] <;> decide

/-- Nothing wraps a pair below the operators that read it. -/
theorem mustWrap_announced (h : OverPair schema f g x) {N input : Rel} (hN : PairReader schema f g N input)
    (hkind : TablePair schema f g input → x.node.kind = .join) : (x.announced env N).mustWrap env N = false := by
  cases hN with
  | filter condition ids hpair =>
    refine h.mustWrap_filter (hkind hpair) ?_
    cases hpair
    rfl
  | project => exact h.mustWrap_project
  | filtered => exact h.mustWrap_project

/-- The statement for a pair. -/
theorem asStatement (henv : env.NeverQualifies) (h : OverPair schema f g x) {q : Node}
    (hq : (x.asStatement env).Gives s q s') : q = x.query := by
  unfold Result.asStatement at hq
  rcases h.form with ⟨hjoin, -⟩ | ⟨hsame, -⟩
  · have hset : x.node.isSetOperation = false := by simp [isSetOperation, hjoin, Kind.isSetOperation]
    have hread : isReadable x.node = true := (isReadable_iff _).mpr (.inr (.inl hjoin))
    rw [hset, if_neg (by simp), ConvertM.gives_asSelect_of_ne_select henv (by rw [hjoin]; decide),
      ConvertM.gives_wrapSelect_of_readable henv hread] at hq
    have hplain : isPlainQuery x.node = false := by simp [isPlainQuery, Node.is, hjoin, hset]
    rw [hq.1, Result.query, hplain, if_neg (by simp)]
  · obtain ⟨item, hstar, -⟩ := h.star
    have hkind : x.node.kind = .select := by rw [hsame, hstar.kind]
    have hset : x.node.isSetOperation = false := by simp [isSetOperation, hkind, Kind.isSetOperation]
    rw [hset, if_neg (by simp), ConvertM.gives_asSelect_of_select hkind] at hq
    rw [hq.1, hsame]

/-- The query of a pair is opened as it is. -/
theorem opened (henv : env.NeverQualifies) (h : OverPair schema f g x) {N : Rel}
    (hwrap : (x.announced env N).mustWrap env N = false) {m : Node}
    (hm : Opening env (x.announced env N) N s m s') : m = x.query := by
  obtain ⟨expected, ignores, hannounced⟩ := x.announced_eq env N
  have hnode : (x.announced env N).node = x.node := by rw [hannounced]
  rw [Opening, hwrap, if_neg (by simp)] at hm
  rcases h.form with ⟨hjoin, -⟩ | ⟨hsame, -⟩
  · have hplain : isPlainQuery x.node = false := by
      simp [isPlainQuery, Node.is, hjoin, isSetOperation, Kind.isSetOperation]
    have hread : isReadable (x.announced env N).node = true := by
      rw [hnode, isReadable_iff]
      exact .inr (.inl hjoin)
    rw [ConvertM.gives_asSelect_of_ne_select henv (by rw [hnode, hjoin]; decide),
      ConvertM.gives_wrapSelect_of_readable henv hread, hnode] at hm
    rw [hm.1, Result.query, hplain, if_neg (by simp)]
  · obtain ⟨item, hstar, -⟩ := h.star
    have hselect : (x.announced env N).node.kind = .select := by rw [hnode, hsame, hstar.kind]
    rw [ConvertM.gives_asSelect_of_select hselect, hnode] at hm
    rw [hm.1, hsame]

/-- The builder over a pair that nothing wraps: the fields keep their inputs. -/
theorem builder (henv : env.NeverQualifies) (h : OverPair schema f g x) {N : Rel}
    (hwrap : (x.announced env N).mustWrap env N = false) {b : Builder}
    (hb : ((x.announced env N).builder env N).Gives s b s') : b.select = x.query ∧ b.rel = N
      ∧ b.aliases = some x.aliases ∧ b.clauses = x.clauses ++ (x.announced env N).expected := by
  obtain ⟨m, hm, hb⟩ := (ConvertM.gives_builder henv _ _ _ _ _).mp hb
  obtain rfl := h.opened henv hwrap hm
  obtain ⟨item, hstar, -⟩ := h.star
  have hlist : x.query.selectList? = none := by simp [selectList?, list?, hstar.others]
  have hnew : (x.announced env N).newAlias? false = none := by
    unfold Result.newAlias?
    split <;> rfl
  simp only [Result.opened, hwrap, hlist, hnew, Bool.false_eq_true, if_false, Except.ok.injEq] at hb
  obtain ⟨expected, ignores, hannounced⟩ := x.announced_eq env N
  rw [← hb, hannounced]
  exact ⟨rfl, rfl, rfl, rfl⟩

end OverPair

/-- **A filter** over a join of two tables is paired as well: its condition stands beside the join. -/
theorem overPair_filter (henv : env.NeverQualifies) {f g : RowType} {pair : Rel} {condition : Expr}
    {ids : List String} {x r : Result} (hclause : filterClause env pair condition = .where)
    (hx : OverPair schema f g x) (hkind : x.node.kind = .join)
    (h : (filterResult env sub pair condition ids (.filter pair condition ids) x).Gives s r s') :
    OverPair schema f g r := by
  have hwrap : (x.announced env (.filter pair condition ids)).mustWrap env (.filter pair condition ids) = false :=
    hx.mustWrap_filter hkind hclause
  have hannounced : x.expecting [filterClause env pair condition] (ignoresClauses (.filter pair condition ids))
      = x.announced env (.filter pair condition ids) := rfl
  simp only [filterResult, ConvertM.gives_bind, ConvertM.gives_lift, hannounced] at h
  obtain ⟨-, s₁, -, b, s₂, hb, c, s₃, hc, b', s₄, ⟨hput, rfl⟩, hresult⟩ := h
  obtain ⟨hselect, -, hinputs, hclauses⟩ := hx.builder henv hwrap hb
  obtain ⟨a, b', hne, haliases⟩ := hx.aliases
  obtain ⟨item, hstar, htables⟩ := hx.star
  have honly : x.clauses = [.from] := by
    rcases hx.form with ⟨-, hclauses⟩ | ⟨hnode, -⟩
    · exact hclauses
    · rw [hnode, hstar.kind] at hkind
      cases hkind
  have hclauses : b.clauses = [.from, .where] := by
    rw [hclauses, honly]
    simp only [Result.announced, Result.expecting, hclause]
    rfl
  simp only [hclause] at hput
  obtain rfl := put_eq_ok hput
  obtain ⟨rfl, -⟩ := (ConvertM.gives_makeResult henv _ _ _ _ _ _ _).mp hresult
  simp only [hselect, hinputs, hclauses, haliases]
  generalize givenName _ _ = name
  have hwhere : (x.query.set "where" (some (.node (wrap .where c)))).IsStar item := hstar.set_where _
  have hplain : isPlainQuery (x.query.set "where" (some (.node (wrap .where c)))) = true := by
    rw [isPlainQuery_iff]
    exact ⟨.inl hwhere.kind, by simp [hasAlias, hwhere.child?_eq]⟩
  have hquery : (recorded (x.query.set "where" (some (.node (wrap .where c)))) [.from, .where]
      b.rel (some [(a, f), (b', g)]) name).query = x.query.set "where" (some (.node (wrap .where c))) := by
    rw [Result.query_of_plain (by simpa using hplain), recorded_node]
  refine ⟨⟨a, b', hne, rfl⟩, ⟨item, by rw [hquery]; exact hwhere, htables⟩, ?_, ?_,
    .inr ⟨by rw [hquery, recorded_node], rfl⟩⟩
  · rw [hquery, hwhere.frame_eq, ← hstar.frame_eq, hx.frame, haliases]
    rfl
  · rw [recorded_node]
    simp [flag, hwhere.others "distinct" (by decide) (by decide)]

/-- The result that a filter or a projection over such a join reads. -/
theorem overPair_of_reader (henv : env.NeverQualifies) {f g : RowType} {N input : Rel} {x : Result}
    (hN : PairReader schema f g N input) (h : (relationResult env sub false input).Gives s x s') :
    OverPair schema f g x ∧ (TablePair schema f g input → x.node.kind = .join) := by
  cases hN with
  | filter condition ids hpair =>
    obtain ⟨hx, hkind⟩ := paired_join henv hpair.joined h
    exact ⟨hx, fun _ => hkind⟩
  | project projects names distinct ids hpair =>
    obtain ⟨hx, hkind⟩ := paired_join henv hpair.joined h
    exact ⟨hx, fun _ => hkind⟩
  | @filtered pair condition below projects names distinct ids hpair =>
    rw [relationResult, ConvertM.gives_bind] at h
    obtain ⟨y, t, hy, h⟩ := h
    obtain ⟨hx, hkind⟩ := paired_join henv hpair.joined hy
    have hclause : filterClause env pair condition = .where := by
      cases hpair
      rfl
    exact ⟨overPair_filter henv hclause hx hkind h, fun hfilter => by cases hfilter⟩

/-! ## Correlation variables -/

/-- **`InPlace`** — where the names under which the fields of an input are known are FROM items of the
SELECT that reads it: the input has no joins, and its query needs no name or is wrapped under it; or two
joined tables are read directly, or through one filter. -/
inductive InPlace (env : Env) (schema : Schema) (x : Result) (N input : Rel) : Prop
  | single (hinput : input.every (joinFree schema) = true) (hnames : input.fields.names.Nodup)
      (hread : x.neededAlias = none ∨ (x.announced env N).mustWrap env N = true)
  | joined {f g : RowType} (h : PairReader schema f g N input)

/-- **The fields of a correlation variable stand for the row of the input**: in its own SELECT, a filter or
a projection in place reads the rows of the input from FROM, and wherever a field of the variable is
written below, it is a column of a FROM item and has the value at the field's place in the row. -/
theorem denotes_outerRow {d : Dialect} (hd : d ∈ Dialect.all) {N input : Rel} (hN : Reads N input)
    {depth : Nat} {root : Bool} {s₁ : State} {x r : Result}
    (hx : (relationResult (Env.plain d) (queryAt (Env.plain d) depth false) false input).Gives s x s₁)
    (hr : (relationResult (Env.plain d) (queryAt (Env.plain d) depth false) root N).Gives s r s')
    (hplace : InPlace (Env.plain d) schema x N input) :
    ∃ m s₂, Extends (Env.plain d) (queryAt (Env.plain d) depth false) s₂ m N r.node ∧ (∃ item, IsStar m item)
      ∧ (∀ q t t', (x.asStatement (Env.plain d)).Gives t q t' → ∀ E db names, db.schema = schema →
        m.rows E db names = q.rows E db names)
      ∧ ∀ id ∈ N.declared, Denotes (Env.plain d) schema id input.fields.length r.node s₂ := by
  have henv := Env.neverQualifies_plain hd
  obtain ⟨x', s₁', m, s₂, hx', hm, hextends⟩ := extends_of_gives henv hN hr
  obtain ⟨rfl, rfl⟩ := hx.unique hx'
  have hknown : ∀ id ∈ N.declared, s₂.correlations.get? id = some (.aliases x.aliases true) := by
    intro id hid
    rw [hm.same]
    exact OrderedMap.get?_putAll_const hid _ _
  refine ⟨m, s₂, hextends, ?_⟩
  cases hplace with
  | single hinput hnames hread =>
    have hflat : Flat schema input x := flat_relationResult henv rfl input hinput hx
    obtain ⟨item, hitem, rfl, hshows⟩ := hflat.opened_under_name henv hread hm
    refine ⟨⟨item, isStar_selectFrom item⟩, fun q t t' hq E db names hdb => ?_, fun id hid => ?_⟩
    · rw [hflat.asStatement henv hq]
      exact hshows.rows_selectFrom hflat.wide hdb names
    · obtain ⟨name, hsingle, -⟩ := hflat.single
      have hwidth : Context.width x.aliases = input.fields.length := by
        simp [hsingle.aliases, hflat.fields, Context.width]
      rw [← hwidth]
      by_cases hfields : input.fields = []
      · -- no field has a place
        intro i hi
        rw [hwidth, hfields] at hi
        cases hi
      refine denotes_of_frame rfl ?_ ?_ (hknown id hid)
      · have hcells : (Context.frame x.aliases).cells.map (Context.calledBy true)
            = input.fields.names.map fun c => (some name, c) := by
          simp [hsingle.aliases, hflat.fields, Context.frame, Frame.cells, Context.calledBy, RowType.names]
        rw [Context.Distinct, hcells]
        exact hnames.map fun _ _ he => (Prod.mk.inj he).2
      · rw [hextends.frame_eq rfl, (isStar_selectFrom item).frame_eq]
        exact hflat.frame_asFrom (recording_relationResult henv _ _ _ _ _ hx) (hflat.columns.resolve_right hfields) hitem
  | @joined f g hreader =>
    obtain ⟨hpair, hkind⟩ := overPair_of_reader henv hreader hx
    obtain rfl := hpair.opened henv (hpair.mustWrap_announced hreader hkind) hm
    obtain ⟨item, hstar, -⟩ := hpair.star
    refine ⟨⟨item, hstar⟩, fun q t t' hq E db names hdb => ?_, fun id hid => ?_⟩
    · rw [hpair.asStatement henv hq]
    · obtain ⟨hf, hg, hlength⟩ := hreader.traits
      have hwidth : Context.width x.aliases = input.fields.length := by
        obtain ⟨a, b, -, haliases⟩ := hpair.aliases
        simp [haliases, Context.width, hlength]
      rw [← hwidth]
      refine denotes_of_frame rfl (hpair.distinctNames hf hg) ?_ (hknown id hid)
      rw [hextends.frame_eq hstar.kind, hpair.frame]

/-! ## Employees and their departments -/

/-- The columns of the tables `emp` and `dept`. -/
def employees : RowType := [⟨"empno", .integer⟩, ⟨"deptno", .integer⟩]

def departments : RowType := [⟨"deptno", .integer⟩, ⟨"dname", .varchar⟩]

def companySchema : Schema := fun parts => if parts = ["emp"] then employees.names else departments.names

/-- The departments that have the number of the outer employee. -/
def ownDepartment : Rel :=
  .filter (.scan ["dept"] departments)
    (.call .equals [.fieldAccess (.correlation "$cor0" .integer) "deptno" 1 .integer, .inputRef (0 : Nat) .integer]
      .boolean) []

/-- Employees that have a department. -/
def employeesOfDepartments : Rel :=
  .filter (.scan ["emp"] employees) (.subQuery .exists [] ownDepartment .boolean) ["$cor0"]

/-- Over a table under its own name, the fields of the outer employee stand for the row of the table. -/
theorem denotes_outerRow_employees : ∃ m s₂ r,
    Extends (Env.plain .ansi) (queryAt (Env.plain .ansi) 1 false) s₂ m employeesOfDepartments r
      ∧ (∃ item, IsStar m item) ∧ Denotes (Env.plain .ansi) companySchema "$cor0" 2 r s₂ := by
  have hd : Dialect.ansi ∈ Dialect.all := by simp [Dialect.all]
  have hinput : ((relationResult (Env.plain .ansi) (queryAt (Env.plain .ansi) 1 false) false
      (.scan ["emp"] employees)).outcome {}).1.toOption.map (·.neededAlias) = some none := by decide +kernel
  have hresult : ((relationResult (Env.plain .ansi) (queryAt (Env.plain .ansi) 1 false) true
      employeesOfDepartments).outcome {}).1.toOption.isSome = true := by decide +kernel
  have hcolumns : (Rel.scan ["emp"] employees).every (joinFree companySchema) = true := by decide +kernel
  rcases hx : (relationResult (Env.plain .ansi) (queryAt (Env.plain .ansi) 1 false) false
    (.scan ["emp"] employees)).outcome {} with ⟨e | x, s₁⟩
  · simp [hx, Except.toOption] at hinput
  rcases hr : (relationResult (Env.plain .ansi) (queryAt (Env.plain .ansi) 1 false) true
    employeesOfDepartments).outcome {} with ⟨e | r, s'⟩
  · simp [hr, Except.toOption] at hresult
  have hneeded : x.neededAlias = none := by simpa [hx, Except.toOption] using hinput
  obtain ⟨m, s₂, hextends, hstar, -, hdenotes⟩ := denotes_outerRow hd (.filter _ _ _) hx hr
    (.single hcolumns (by decide) (.inl hneeded))
  exact ⟨m, s₂, r.node, hextends, hstar, hdenotes "$cor0" (by decide)⟩

/-- Employees with a number. -/
def numberedEmployees : Rel :=
  .filter (.scan ["emp"] employees) (.call .isNotNull [.inputRef (0 : Nat) .integer] .boolean) []

/-- Employees with the names of their departments. -/
def departmentNames : Rel :=
  .project numberedEmployees
    [.inputRef (0 : Nat) .integer,
      .subQuery .scalarQuery [] (.project ownDepartment [.inputRef (1 : Nat) .varchar] ["dname"] false []) .varchar]
    ["empno", "dname"] false ["$cor0"]

/-- Merged into the query of a filter, a projection writes the fields of the outer employee as columns
of `t`, but reads from `emp`. -/
theorem departmentNames_not_denotes : ∃ x s₁ r s' m s₂,
    (relationResult (Env.plain .ansi) (queryAt (Env.plain .ansi) 1 false) false numberedEmployees).Gives {} x s₁
      ∧ (relationResult (Env.plain .ansi) (queryAt (Env.plain .ansi) 1 false) true departmentNames).Gives {} r s'
      ∧ Opening (Env.plain .ansi) (x.announced (Env.plain .ansi) departmentNames) departmentNames
        (s₁.declaring departmentNames.declared x.aliases) m s₂
      ∧ Extends (Env.plain .ansi) (queryAt (Env.plain .ansi) 1 false) s₂ m departmentNames r.node
      ∧ ¬Denotes (Env.plain .ansi) companySchema "$cor0" 2 r.node s₂ := by
  have henv := @Env.neverQualifies_plain Dialect.ansi (by simp [Dialect.all])
  have hinput : ((relationResult (Env.plain .ansi) (queryAt (Env.plain .ansi) 1 false) false
      numberedEmployees).outcome {}).1.toOption.map (fun x => x.aliases.map fun p => (p.1, p.2.names))
        = some [("t", employees.names)] := by decide +kernel
  have hresult : ((relationResult (Env.plain .ansi) (queryAt (Env.plain .ansi) 1 false) true
      departmentNames).outcome {}).1.toOption.map (fun r => (r.node.frame companySchema).map (·.1))
        = some ["emp"] := by decide +kernel
  rcases hr : (relationResult (Env.plain .ansi) (queryAt (Env.plain .ansi) 1 false) true
    departmentNames).outcome {} with ⟨e | r, s'⟩
  · simp [hr, Except.toOption] at hresult
  obtain ⟨x, s₁, m, s₂, hx, hm, hextends⟩ := extends_of_gives henv (.project _ _ _ _ _) hr
  refine ⟨x, s₁, r, s', m, s₂, hx, hr, hm, hextends, fun hdenotes => ?_⟩
  have hframe : (r.node.frame companySchema).map (·.1) = ["emp"] := by
    simpa [hr, Except.toOption] using hresult
  have haliases : x.aliases.map (fun p => (p.1, p.2.names)) = [("t", employees.names)] := by
    have hout : (relationResult (Env.plain .ansi) (queryAt (Env.plain .ansi) 1 false) false
      numberedEmployees).outcome {} = (.ok x, s₁) := hx
    simpa [hout, Except.toOption] using hinput
  have hknown : s₂.correlations.get? "$cor0" = some (.aliases x.aliases true) := by
    rw [hm.same]
    exact OrderedMap.get?_putAll_const (by decide) _ _
  have hcell := Context.cells_frame x.aliases 1
  rw [show Context.frame x.aliases = [("t", employees.names)] from haliases] at hcell
  obtain ⟨⟨table, f⟩, howner, hcell⟩ := Option.map_eq_some_iff.mp hcell.symm
  obtain ⟨rfl, -⟩ := Prod.mk.inj hcell
  -- the column that is written has one table only
  obtain ⟨name, item, hitem, hwritten, -⟩ := hdenotes 1 (by decide)
  have hcolumn := (gives_outerField rfl hknown howner (.aliases [] false) .integer "deptno" .integer).unique
    (hwritten s₂ .start (fun _ => pure Node.null) (.aliases [] false) .integer "deptno" .integer)
  rw [hframe, List.mem_singleton] at hitem
  have htable := hcolumn.1
  simp [Node.column, kept, identifier, hitem] at htable

end AlgebraSql.Convert
