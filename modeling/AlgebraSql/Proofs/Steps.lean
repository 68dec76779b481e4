import AlgebraSql.Proofs.ClausesKept
import AlgebraSql.Proofs.SingleInputs

/-!
# Steps — the query for an operator from the query of its input.

An operator over a result with a single input opens the query of the result, puts its clauses into it
and records it.  There is one lemma for each operator that takes its step apart: what is opened, in
which context the expressions are converted, and which node is recorded.
-/

namespace AlgebraSql.Convert

open Sql Node

variable {env : Env} {sub : Rel → ConvertM Node} {s s' : State} {rel input : Rel} {x r : Result}
  {name : String}

/-- The query of a result is opened for a relation, as it is or below a new query. -/
def Opening (env : Env) (x : Result) (rel : Rel) (s : State) (m : Node) (s' : State) : Prop :=
  (if x.mustWrap env rel then x.subSelect env else x.asSelect env).Gives s m s'

/-- A SELECT is opened as it is, or in parentheses under the name that it needs. -/
theorem Opening.of_select (henv : env.NeverQualifies) (hplain : isPlainQuery x.node = true)
    (hkind : x.node.kind = .select) (hneeded : x.neededAlias = some name) {m : Node}
    (h : Opening env x rel s m s') :
    if x.mustWrap env rel then m = Node.selectFrom (derived x.node (some name)) else m = x.node := by
  unfold Opening at h
  split at h
  · have hitem : x.asFrom = .ok (derived x.node (some name)) := by
      simp only [Result.asFrom, hneeded, asFromItem_of_plainQuery hplain]
    rw [ConvertM.gives_subSelect hitem,
      ConvertM.gives_wrapSelect_of_readable henv (isReadable_derived _ _)] at h
    simp [*]
  · rw [ConvertM.gives_asSelect_of_select hkind] at h
    simp [*]

/-- A result that records a query which was made from the opened query of another result. -/
def Records (env : Env) (rel : Rel) (x : Result) (m n : Node) (r : Result) : Prop :=
  ∃ name, r = recorded n (x.builderOver env rel m).clauses rel (some x.aliases) name ∧ r.Single name

namespace Records

variable {m n : Node}

theorem node_eq (h : Records env rel x m n r) : r.node = n := by
  obtain ⟨name, rfl, -⟩ := h
  simp

/-- The clauses that were announced are among those of the query. -/
theorem mem_clauses (h : Records env rel x m n r) {c : Clause} (hc : c ∈ x.expected) : c ∈ r.clauses := by
  obtain ⟨name, rfl, -⟩ := h
  rw [recorded_clauses]
  unfold Result.builderOver
  split
  · exact hc
  · exact List.mem_append_right _ hc

end Records

/-- The names of items under the names of columns. -/
theorem declaredNames_namedItems {n : Node} {ns : List Node} {fields : RowType} (hkind : n.kind = .select)
    (hlist : n.selectList? = some (namedItems ns fields)) (hlength : ns.length = fields.length) :
    declaredNames fields n = fields.names.map some := by
  have hselect : n.is .select = true := (is_eq_true_iff _ _).mpr hkind
  simp only [declaredNames, hselect, hlist]
  refine List.ext_getElem (by simp [namedItems, RowType.names, hlength]) fun i hi hi' => ?_
  simp [namedItems, RowType.names]

/-- A SELECT with a star, or with items under the names of the columns, declares these columns or
none. -/
theorem declaredNames_select {n : Node} {fields : RowType} (hplain : isPlainQuery n = true)
    (hkind : n.kind = .select)
    (hlist : n.selectList? = none ∨ ∃ ns, n.selectList? = some (namedItems ns fields)
      ∧ ns.length = fields.length) :
    declaredNames fields n = [] ∨ declaredNames fields n = fields.names.map some := by
  rcases hlist with hnone | ⟨ns, hns, hlength⟩
  · left
    have halias : n.child? "alias" = none := by
      simpa [hasAlias] using ((isPlainQuery_iff n).mp hplain).2
    have hselect : n.is .select = true := (is_eq_true_iff _ _).mpr hkind
    simp [declaredNames, hselect, hnone, aliasColumns, halias]
  · exact .inr (declaredNames_namedItems hkind hns hlength)

/-- The columns that such a SELECT declares are those of its relation. -/
theorem declaredFields_select {n : Node} (hplain : isPlainQuery n = true) (hkind : n.kind = .select)
    (hlist : n.selectList? = none ∨ ∃ ns, n.selectList? = some (namedItems ns rel.fields)
      ∧ ns.length = rel.fields.length) : declaredFields rel n = rel.fields := by
  refine declaredFields_eq fun m hm => ?_
  rw [leftmost_eq (by simp [Node.isSetOperation, hkind, Kind.isSetOperation])] at hm
  obtain rfl : n = m := by simpa using hm
  exact declaredNames_select hplain hkind hlist

/-- A plain query has to be referred to by the name under which it is recorded. -/
theorem needed_recorded {n : Node} (hplain : isPlainQuery n = true) (clauses : List Clause) (rel : Rel)
    (aliases : Option Aliases) (name : String) :
    (recorded n clauses rel aliases name).neededAlias = some name := by
  unfold recorded
  split
  · rfl
  · simp [aliasOf?_of_plainQuery hplain]

/-- The condition of a clause together with a new one. -/
def conjoined (m : Node) (key : String) (condition : Node) : Node :=
  match m.condition? key with
  | some existing => Node.and [existing, condition]
  | none => condition

/-- A query with a condition in one of its clauses. -/
def withCondition (clause : Clause) (m condition : Node) : Node :=
  match clause with
  | .having => m.set "having" (some (.node (Node.wrap .having (conjoined m "having" condition))))
  | .qualify => m.set "qualify" (some (.node (Node.wrap .qualify (conjoined m "qualify" condition))))
  | _ => m.set "where" (some (.node (Node.wrap .where condition)))

/-- A query with a select list. -/
def withList (m : Node) (items : List Node) : Node := m.set "expressions" (some (.nodes items))

/-- The query of an aggregation: its select list, and GROUP BY unless the calls do without. -/
def aggregated (m : Node) (items groups : List Node) (hasCalls : Bool) : Node :=
  let n := withList m (if items.isEmpty then [Node.number "1"] else items)
  if groups.isEmpty && hasCalls then n
  else n.set "group" (some (.node (listNode .group groups)))

/-- A query with a limit in one of its clauses, if there is a limit. -/
def withLimit (m : Node) (key : String) (kind : Kind) (limit : Option Node) : Node :=
  match limit with
  | some c => m.set key (some (.node (Node.wrap kind c)))
  | none => m

/-- The query of a sort: its keys, if there are any, and its limits. -/
def sorted (m : Node) (keys : List Node) (limit offset : Option Node) : Node :=
  withLimit (withLimit (if keys.isEmpty then m else m.set "order" (some (.node (Node.order keys))))
    "limit" .limit limit) "offset" .offset offset

/-- What the clauses of a sort leave holds for the query of a sort. -/
theorem sorted_of_set {P : Node → Prop} {m : Node} (hm : P m)
    (hset : ∀ q key a, key ∈ finishingKeys → P q → P (q.set key (some a))) (keys : List Node)
    (limit offset : Option Node) : P (sorted m keys limit offset) := by
  have hlimit : ∀ {q : Node} {key : String} (kind : Kind) (limit : Option Node), key ∈ finishingKeys → P q →
      P (withLimit q key kind limit) := by
    intro q key kind limit hkey hq
    unfold withLimit
    split
    · exact hset q key _ hkey hq
    · exact hq
  unfold sorted
  refine hlimit _ _ (by decide) (hlimit _ _ (by decide) ?_)
  split
  · exact hm
  · exact hset m _ _ (by decide) hm

/-- The node of a limit, if there is a limit. -/
def limitNode (env : Env) (sub : Rel → ConvertM Node) (ctx : Context) (limit : Option Expr) :
    ConvertM (Option Node) :=
  match limit with
  | some e => do return some (← scalarNode env sub ctx e)
  | none => return none

/-- A star is spelled out where a sort is not the whole plan. -/
def Spelled (env : Env) (ctx : Context) (root : Bool) (fields : RowType) (m l : Node) : Prop :=
  if root = false ∧ m.selectList? = none then
    ∃ columns, (List.range fields.length).mapM (fun (i : Nat) => ctx.field env i) = .ok columns
      ∧ columns.length ≤ fields.length ∧ l = withList m (namedItems columns fields)
  else l = m

/-- Where windowed calls are projected, nothing passes unchanged. -/
theorem isIdentity_eq_false {projects : List Expr} (hwindow : projects.any (·.containsOver) = true) (fields : RowType) :
    isIdentity input projects fields = false := by
  by_contra hidentity
  rw [Bool.not_eq_false] at hidentity
  simp only [isIdentity, Bool.and_eq_true, List.all_eq_true] at hidentity
  obtain ⟨e, he, hover⟩ := List.any_eq_true.mp hwindow
  obtain ⟨j, hj, rfl⟩ := List.mem_iff_getElem.mp he
  have href := hidentity.1.2 (projects[j], j) (by simp [List.mk_mem_zipIdx_iff_getElem?, hj])
  generalize projects[j] = e at hover href
  cases e <;> simp [Scalar.inputRef?] at href
  simp [Scalar.containsOver, Scalar.subterms, Scalar.isOver] at hover

/-- A query that was made of an opened one is recorded. -/
def Closes (env : Env) (b : Builder) (n : Node) (s : State) (r : Result) (s' : State) : Prop :=
  (Builder.result env { b with select := n }).Gives s r s'

theorem Closes.node_eq {b : Builder} {n : Node} (h : Closes env b n s r s') : r.node = n := (makeResult_traits h).1

/-- A limit is put into the query if there is one. -/
theorem limited_step {clause : Clause} {key : String} {kind : Kind} {limit : Option Expr}
    {b b' : Builder} (h : (limited env sub clause key kind limit b).Gives s b' s') :
    ∃ c, (limitNode env sub b.context limit).Gives s c s'
      ∧ b' = { b with select := withLimit b.select key kind c } := by
  cases limit with
  | none =>
    obtain ⟨rfl, rfl⟩ := (ConvertM.gives_pure _ _ _ _).mp h
    exact ⟨none, (ConvertM.gives_pure _ _ _ _).mpr ⟨rfl, rfl⟩, rfl⟩
  | some e =>
    simp only [limited, ConvertM.gives_bind, ConvertM.gives_lift] at h
    obtain ⟨n, t, hn, hput, rfl⟩ := h
    obtain rfl := put_eq_ok hput
    exact ⟨some n, (ConvertM.gives_bind _ _ _ _ _).mpr ⟨n, _, hn, (ConvertM.gives_pure _ _ _ _).mpr
      ⟨rfl, rfl⟩⟩, rfl⟩

/-- **A sort** spells a star out in the opened query below the top, orders and limits. -/
theorem opened_sortResult {root : Bool} {collation : List Collation} {offset fetch : Option Expr}
    (h : (sortResult env sub root collation offset fetch rel x).Gives s r s') :
    ∃ b s₁ l keys limit s₂ skip s₃, ((x.expecting [.orderBy, .fetch, .offset]).builder env rel).Gives s b s₁
      ∧ Spelled env b.context root rel.fields b.select l ∧ collationsNodes env b.context collation = .ok keys
      ∧ (limitNode env sub b.context fetch).Gives s₁ limit s₂ ∧ (limitNode env sub b.context offset).Gives s₂ skip s₃
      ∧ Closes env b (sorted l keys limit skip) s₃ r s' := by
  rw [sortResult_eq] at h
  simp only [ConvertM.gives_bind] at h
  obtain ⟨b, s₁, hb, b₁, s₂, hlisted, b₂, s₃, hordered, b₃, s₄, hfetched, b₄, s₅, hskipped, hresult⟩ := h
  obtain ⟨l, hl, rfl, rfl⟩ : ∃ l, Spelled env b.context root rel.fields b.select l
      ∧ b₁ = { b with select := l } ∧ s₁ = s₂ := by
    unfold listed at hlisted
    unfold Spelled
    by_cases hstar : root = false ∧ b.select.selectList? = none
    · rw [if_pos (by simp [hstar.1, hstar.2])] at hlisted
      simp only [ConvertM.gives_lift, withFields, bind_eq_ok_iff, pure_eq_ok_iff] at hlisted
      obtain ⟨⟨columns, hcolumns, items, hitems, rfl⟩, rfl⟩ := hlisted
      obtain ⟨hlength, rfl⟩ := addSelects_eq_ok (by simp) hitems
      simp only [List.length_nil, Nat.zero_add] at hlength
      refine ⟨withList b.select (namedItems columns rel.fields), ?_, rfl, rfl⟩
      rw [if_pos hstar]
      exact ⟨columns, hcolumns, hlength, rfl⟩
    · rw [if_neg (by simpa using hstar)] at hlisted
      obtain ⟨rfl, rfl⟩ := (ConvertM.gives_pure _ _ _ _).mp hlisted
      exact ⟨b.select, by rw [if_neg hstar], rfl, rfl⟩
  obtain ⟨keys, hkeys, rfl, rfl⟩ : ∃ keys, collationsNodes env b.context collation = .ok keys
      ∧ b₂ = { b with select := if keys.isEmpty then l else l.set "order" (some (.node (Node.order keys))) }
      ∧ s₁ = s₃ := by
    unfold ordered at hordered
    simp only [ConvertM.gives_bind, ConvertM.gives_lift] at hordered
    obtain ⟨keys, t, ⟨hkeys, rfl⟩, hordered⟩ := hordered
    refine ⟨keys, hkeys, ?_⟩
    split at hordered
    · rename_i hempty
      obtain ⟨rfl, rfl⟩ := (ConvertM.gives_pure _ _ _ _).mp hordered
      exact ⟨by rw [if_pos hempty], rfl⟩
    · rename_i hne
      obtain ⟨hput, rfl⟩ := (ConvertM.gives_lift _ _ _ _).mp hordered
      obtain rfl := put_eq_ok hput
      exact ⟨by rw [if_neg hne], rfl⟩
  obtain ⟨limit, hlimit, rfl⟩ := limited_step hfetched
  obtain ⟨skip, hskip, rfl⟩ := limited_step hskipped
  exact ⟨b, s₁, l, keys, limit, s₄, skip, s₅, hb, hl, hkeys, hlimit, hskip, hresult⟩

namespace Result.Single

/-- Recording what a builder over a result holds. -/
theorem records (henv : env.NeverQualifies) (hx : x.Single name) {m n : Node}
    (h : (Builder.result env { x.builderOver env rel m with select := n }).Gives s r s') :
    Records env rel x m n r := by
  obtain ⟨name', rfl, hsingle, -, -⟩ := gives_result henv rfl (by simp [hx.aliases]) h
  exact ⟨name', rfl, hsingle⟩

/-- **A filter** puts its condition into one clause. -/
theorem filter_step (henv : env.NeverQualifies) (hx : x.Single name) {condition : Expr}
    {ids : List String} (h : (filterResult env sub input condition ids rel x).Gives s r s') :
    ∃ y m s₁ s₂ c s₃, y = x.expecting [filterClause env input condition] (ignoresClauses rel)
      ∧ Opening env y rel s₁ m s₂ ∧ (scalarNode env sub (y.contextOver env rel m) condition).Gives s₂ c s₃
      ∧ Records env rel y m (withCondition (filterClause env input condition) m c) r := by
  simp only [filterResult, ConvertM.gives_bind, ConvertM.gives_lift] at h
  obtain ⟨u, s₁, -, b, s₂, hb, c, s₃, hc, b', s₄, ⟨hput, rfl⟩, hresult⟩ := h
  rw [(hx.expecting _ _).gives_builder henv] at hb
  obtain ⟨m, hm, rfl⟩ := hb
  refine ⟨_, m, s₁, s₂, c, s₃, rfl, hm, hc, ?_⟩
  rcases filterClause_three env input condition with hclause | hclause | hclause <;>
    simp only [hclause] at hput ⊢ <;> obtain rfl := put_eq_ok hput <;>
    exact (hx.expecting _ _).records henv hresult

/-- **A projection** sets the select list, unless it changes nothing, and makes rows distinct. -/
theorem project_step (henv : env.NeverQualifies) (hx : x.Single name) {projects : List Expr}
    {distinct : Bool} {ids : List String}
    (h : (projectResult env sub input projects distinct ids rel x).Gives s r s') :
    ∃ y m s₁ s₂ n, y = x.expecting [.select] ∧ Opening env y rel s₁ m s₂
      ∧ ((isIdentity input projects rel.fields = true ∧ n = m)
        ∨ (isIdentity input projects rel.fields = false ∧ ∃ ns s₃,
          (projects.mapM (projectedNode env sub (y.contextOver env rel m))).Gives s₂ ns s₃
          ∧ ns.length ≤ rel.fields.length ∧ n = withList m (namedItems ns rel.fields)))
      ∧ Records env rel y m (if distinct then n.set "distinct" (some (.flag true)) else n) r := by
  simp only [projectResult, ConvertM.gives_bind] at h
  obtain ⟨u, s₁, -, b, s₂, hb, h⟩ := h
  rw [(hx.expecting _ _).gives_builder henv] at hb
  obtain ⟨m, hm, rfl⟩ := hb
  have hrecords : ∀ {n : Node} {t : State}, (Builder.result env (if distinct then Builder.setDistinct
      { (x.expecting [.select]).builderOver env rel m with select := n }
        else { (x.expecting [.select]).builderOver env rel m with select := n })).Gives t r s' →
      Records env rel (x.expecting [.select]) m
        (if distinct then n.set "distinct" (some (.flag true)) else n) r := by
    intro n t ht
    cases distinct with
    | true => exact (hx.expecting _ _).records henv ht
    | false => exact (hx.expecting _ _).records henv ht
  cases hidentity : isIdentity input projects rel.fields with
  | true =>
    simp only [hidentity, if_true, ConvertM.gives_bind, ConvertM.gives_pure] at h
    obtain ⟨b, s₃, ⟨rfl, rfl⟩, hresult⟩ := h
    exact ⟨_, m, s₁, s₂, m, rfl, hm, .inl ⟨rfl, rfl⟩, hrecords hresult⟩
  | false =>
    simp only [hidentity, Bool.false_eq_true, if_false, ConvertM.gives_bind, ConvertM.gives_lift,
      ConvertM.gives_pure] at h
    obtain ⟨ns, s₄, hns, items, s₅, ⟨hitems, rfl⟩, b, s₃, ⟨rfl, rfl⟩, hresult⟩ := h
    obtain ⟨hlength, rfl⟩ := addSelects_eq_ok (by simp) hitems
    simp only [List.length_nil, List.drop_zero, List.nil_append] at hresult
    exact ⟨_, m, s₁, s₂, _, rfl, hm, .inr ⟨rfl, ns, _, hns, by simpa using hlength, rfl⟩,
      hrecords hresult⟩

/-- **An aggregation** sets the select list, and groups. -/
theorem aggregate_step (henv : env.NeverQualifies) (hx : x.Single name) {keys : List Ordinal}
    {sets : List (List Ordinal)} {calls : List AggregateCall}
    (h : (aggregateResult env keys sets calls rel x).Gives s r s') :
    ∃ y m s₁ ks gs as, y = x.expecting [.groupBy] (ignoresClauses rel) ∧ Opening env y rel s m s₁
      ∧ keys.mapM ((y.contextOver env rel m).field env) = .ok ks
      ∧ groupByNodes env (y.contextOver env rel m) keys sets = .ok gs
      ∧ calls.mapM (aggregateNode env (y.contextOver env rel m)) = .ok as
      ∧ ks.length + as.length ≤ rel.fields.length
      ∧ Records env rel y m (aggregated m (namedItems (ks ++ as) rel.fields) gs !calls.isEmpty) r := by
  simp only [aggregateResult, ConvertM.gives_bind, ConvertM.gives_lift] at h
  obtain ⟨b, s₁, hb, ks, s₂, ⟨hks, rfl⟩, named, s₃, ⟨hnamed, rfl⟩, gs, s₄, ⟨hgs, rfl⟩, as, s₅, ⟨has, rfl⟩,
    items, s₆, ⟨hitems, rfl⟩, h⟩ := h
  rw [(hx.expecting _ _).gives_builder henv] at hb
  obtain ⟨m, hm, rfl⟩ := hb
  obtain ⟨hlength, rfl⟩ := addSelects_twice hnamed hitems
  refine ⟨_, m, _, ks, gs, as, rfl, hm, hks, hgs, has, hlength, ?_⟩
  unfold aggregated
  split at h
  · rename_i hplain
    simp only [ConvertM.gives_bind, ConvertM.gives_pure] at h
    obtain ⟨b, s₇, ⟨rfl, rfl⟩, hresult⟩ := h
    rw [if_pos hplain]
    exact (hx.expecting _ _).records henv hresult
  · rename_i hgroups
    simp only [ConvertM.gives_bind, ConvertM.gives_lift] at h
    obtain ⟨b, s₇, ⟨hput, rfl⟩, hresult⟩ := h
    obtain rfl := put_eq_ok hput
    rw [if_neg hgroups]
    exact (hx.expecting _ _).records henv hresult

/-- **Windowed calls** set the select list. -/
theorem window_step (henv : env.NeverQualifies) (hx : x.Single name)
    {groups : List (WindowGroup Expr)} {constants : List Literal}
    (h : (windowResult env sub input groups constants rel x).Gives s r s') :
    ∃ y m s₁ s₂ calls columns, y = x.expecting [.select] ∧ Opening env y rel s m s₁
      ∧ (groups.mapM (windowGroupNodes env sub (y.contextOver env rel m) constants
        (input.fields.length : Nat))).Gives s₁ calls s₂
      ∧ (List.range input.fields.length).mapM (fun (i : Nat) => (y.contextOver env rel m).field env i)
        = .ok columns
      ∧ (columns ++ calls.flatten).length ≤ rel.fields.length
      ∧ Records env rel y m (withList m (namedItems (columns ++ calls.flatten) rel.fields)) r := by
  simp only [windowResult, ConvertM.gives_bind, ConvertM.gives_lift] at h
  obtain ⟨b, s₁, hb, calls, s₂, hcalls, columns, s₃, ⟨hcolumns, rfl⟩, items, s₄, ⟨hitems, rfl⟩,
    hresult⟩ := h
  rw [(hx.expecting _ _).gives_builder henv] at hb
  obtain ⟨m, hm, rfl⟩ := hb
  obtain ⟨hlength, rfl⟩ := addSelects_eq_ok (by simp) hitems
  simp only [List.length_nil, List.drop_zero, List.nil_append] at hresult
  exact ⟨_, m, _, _, calls, columns, rfl, hm, hcalls, hcolumns, by simpa using hlength,
    (hx.expecting _ _).records henv hresult⟩

/-- **A sort** spells a star out below the top, orders and limits. -/
theorem sort_step (henv : env.NeverQualifies) (hx : x.Single name) {root : Bool}
    {collation : List Collation} {offset fetch : Option Expr}
    (h : (sortResult env sub root collation offset fetch rel x).Gives s r s') :
    ∃ y m s₁ l keys limit s₂ skip s₃, y = x.expecting [.orderBy, .fetch, .offset]
      ∧ Opening env y rel s m s₁ ∧ Spelled env (y.contextOver env rel m) root rel.fields m l
      ∧ collationsNodes env (y.contextOver env rel m) collation = .ok keys
      ∧ (limitNode env sub (y.contextOver env rel m) fetch).Gives s₁ limit s₂
      ∧ (limitNode env sub (y.contextOver env rel m) offset).Gives s₂ skip s₃
      ∧ Records env rel y m (sorted l keys limit skip) r := by
  obtain ⟨b, s₁, l, keys, limit, s₂, skip, s₃, hb, hl, hkeys, hlimit, hskip, hr⟩ := opened_sortResult h
  rw [(hx.expecting _ _).gives_builder henv] at hb
  obtain ⟨m, hm, rfl⟩ := hb
  exact ⟨_, m, s₁, l, keys, limit, s₂, skip, s₃, rfl, hm, hl, hkeys, hlimit, hskip, (hx.expecting _ _).records henv hr⟩

end Result.Single

end AlgebraSql.Convert
