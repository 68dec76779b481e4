import AlgebraSql.Proofs.ClauseOrder
import AlgebraSql.Proofs.References

/-!
# Clauses kept — every plan is converted without losing a clause.

One lemma for each operator says that it opens the query of its input by the rules and puts its
clauses where there are none; the run over the plan is an induction over these steps.
-/

namespace AlgebraSql.Convert

open Sql Node

variable {env : Env} {sub : Rel → ConvertM Node} {s s' : State}

/-! ## The invariant of results -/

/-- **`Tracked`** — the clauses of the query for a relation are declared, and only a sort finishes it. -/
structure Tracked (rel : Rel) (r : Result) : Prop where
  used : r.clauses ≠ []
  declares : r.node.kind = .select → Declares r.clauses r.node
  unfinished : isSort rel = false → r.node.kind = .select → Unfinished r.node
  sorted : isSort rel = true → .offset ∈ r.clauses
  /-- A SELECT has no name of its own. -/
  named : r.neededAlias = none → r.node.kind ≠ .select

theorem aliasOf?_select {n : Node} (h : n.kind = .select) : n.aliasOf? = none := by
  simp [aliasOf?, isFromItem, h]

/-- A record of a query whose clauses are declared is tracked. -/
theorem tracked_makeResult {n : Node} {clauses : List Clause} {rel : Rel} {aliases : Option Aliases}
    {r : Result} (h : (makeResult env n clauses rel aliases).Gives s r s') (hused : clauses ≠ [])
    (hdeclares : n.kind = .select → Declares clauses n)
    (hunfinished : isSort rel = false → n.kind = .select → Unfinished n)
    (hsorted : isSort rel = true → .offset ∈ clauses) : r.node = n ∧ Tracked rel r := by
  obtain ⟨rfl, rfl, hnamed⟩ := makeResult_traits h
  exact ⟨rfl, hused, hdeclares, hunfinished, hsorted,
    fun hnone hkind => hnamed hnone (aliasOf?_select hkind)⟩

/-- The same for a relation that is no sort. -/
theorem tracked_unsorted (rel : Rel) {n : Node} {clauses : List Clause} {aliases : Option Aliases}
    {r : Result} (h : (makeResult env n clauses rel aliases).Gives s r s') (hused : clauses ≠ [])
    (hdeclares : n.kind = .select → Declares clauses n) (hunfinished : n.kind = .select → Unfinished n)
    (hrel : isSort rel = false) : r.node = n ∧ Tracked rel r :=
  tracked_makeResult h hused hdeclares (fun _ => hunfinished) fun hsort => by simp [hrel] at hsort

/-- The record of a builder whose clauses are declared is tracked. -/
theorem tracked_result {b : Builder} {rel : Rel} {r : Result} {clause : Clause}
    (h : (b.result env).Gives s r s') (hrel : b.rel = rel) (hclause : clause ∈ b.clauses)
    (hdeclares : Declares b.clauses b.select) (hunfinished : isSort rel = false → Unfinished b.select)
    (hsorted : isSort rel = true → .offset ∈ b.clauses) : r.node = b.select ∧ Tracked rel r := by
  subst hrel
  exact tracked_makeResult h (List.ne_nil_of_mem hclause) (fun _ => hdeclares)
    (fun hsort _ => hunfinished hsort) hsorted

theorem Tracked.resetAlias {rel : Rel} {r : Result} (h : Tracked rel r) : Tracked rel r.resetAlias := by
  unfold Result.resetAlias
  split
  · exact ⟨h.used, h.declares, h.unfinished, h.sorted, h.named⟩
  · exact h

@[simp]
theorem resetAlias_node (r : Result) : r.resetAlias.node = r.node := by
  unfold Result.resetAlias
  split <;> rfl

/-! ## Opening results -/

/-- What a builder over a result of a relation is ready for. -/
structure Ready (env : Env) (x : Result) (rel : Rel) (expected : List Clause) (ignores : Bool)
    (b : Builder) : Prop where
  opens : Opens x.node b.select
  kind : b.select.kind = .select
  unfinished : Unfinished b.select
  declares : Declares b.clauses b.select
  relation : b.rel = rel
  announced : expected ⊆ b.clauses
  /-- The query has no clauses yet, or it is the one of the result, which the rules let pass. -/
  fresh : (∀ key ∈ declaredKeys, b.select.arg? key = none)
    ∨ (b.select = x.node ∧ x.node.kind = .select
      ∧ (x.expecting expected ignores).mustWrap env rel = false)

/-- A sort is wrapped, unless its parent ignores clauses. -/
theorem Tracked.isSort_eq_false {input rel : Rel} {x : Result} {expected : List Clause}
    {ignores : Bool} (hx : Tracked input x) (hne : expected ≠ []) (hrel : rel.inputs = [input])
    (hignores : ignores = true → isSort input = false)
    (h : (x.expecting expected ignores).mustWrap env rel = false) : isSort input = false := by
  rcases unwrapped_cases (r := x.expecting expected ignores) hx.used h with
    ⟨input', condition, ids, rfl, hinput, -⟩ | ⟨hfit, -⟩
  · obtain rfl : input' = input := by simpa [Rel.inputs] using hrel
    exact hinput
  · cases hsort : isSort input with
    | false => rfl
    | true =>
      have hfalse : ignores = false := by
        cases ignores with
        | false => rfl
        | true => exact absurd (hignores rfl) (by simp [hsort])
      obtain ⟨e, he⟩ := List.exists_mem_of_ne_nil _ hne
      -- OFFSET comes behind every clause, so nothing fits behind it
      have hrank := rank_of_fit hfit (hx.sorted hsort)
        (e := e) (by simpa [Result.expecting, hfalse] using he)
      have hlast : e.rank ≤ Clause.rank .offset := by cases e <;> decide
      rcases hrank with hlt | ⟨rfl, hle⟩
      · omega
      · exact absurd hle (by decide)

/-- **Opening a result** gives a builder whose query is unfinished and declares its clauses. -/
theorem Tracked.ready {input rel : Rel} {x : Result} {expected : List Clause} {ignores : Bool}
    {b : Builder} (hx : Tracked input x) (hne : expected ≠ []) (hrel : rel.inputs = [input])
    (hignores : ignores = true → isSort input = false)
    (hb : ((x.expecting expected ignores).builder env rel).Gives s b s') :
    Ready env x rel expected ignores b := by
  obtain ⟨hrelation, hclauses, hselect⟩ := builder_traits hb
  have hexpected : expected ⊆ b.clauses := by
    intro e he
    rw [hclauses]
    split <;> simp [Result.expecting, he]
  rcases hselect with ⟨hwrap, hkind, hsame⟩ | ⟨item, hitem, hembeds⟩
  · change x.node.kind = .select at hkind
    have hunfinished := hx.unfinished (hx.isSort_eq_false hne hrel hignores hwrap) hkind
    have hdeclares : Declares b.clauses x.node := by
      rw [hclauses, hwrap]
      exact (hx.declares hkind).mono (by simp [Result.expecting])
    change b.select = x.node at hsame
    rw [← hsame] at hdeclares hunfinished
    refine ⟨?_, by rw [hsame, hkind], hunfinished, hdeclares, hrelation, hexpected,
      .inr ⟨hsame, hkind, hwrap⟩⟩
    rw [hsame] at hunfinished ⊢
    exact .itself hkind hunfinished
  · refine ⟨hitem ▸ .read hembeds, by rw [hitem]; rfl, hitem ▸ unfinished_selectFrom item,
      hitem ▸ declares_selectFrom _ item, hrelation, hexpected, .inl ?_⟩
    intro key hkey
    simp only [declaredKeys, List.mem_cons, List.not_mem_nil, or_false] at hkey
    rcases hkey with rfl | rfl | rfl | rfl <;> simp [hitem, Node.selectFrom]

/-! ## Filters -/

/-- A filter becomes HAVING, QUALIFY or WHERE. -/
theorem filterClause_three (env : Env) (input : Rel) (condition : Expr) :
    filterClause env input condition = .having ∨ filterClause env input condition = .qualify
      ∨ filterClause env input condition = .where := by
  unfold filterClause
  split
  · exact .inl rfl
  · split
    · exact .inr (.inl rfl)
    · exact .inr (.inr rfl)
  · exact .inr (.inr rfl)

/-- A condition beside the one that is there is not lost. -/
theorem conjoins_alongside {clauses : List Clause} {b : Builder} (h : Declares clauses b.select)
    {key : String} (hkey : key ∈ ["having", "qualify"]) (kind : Kind) (condition : Node) :
    Conjoins key kind condition b.select
      (b.select.set key (some (.node (Node.wrap kind (b.alongside key condition))))) := by
  unfold Builder.alongside
  cases hexisting : b.select.condition? key with
  | some existing => exact .inr ⟨existing, hexisting, rfl⟩
  | none =>
    refine .inl ⟨?_, rfl⟩
    by_contra hgiven
    exact h.conditions key hkey hgiven hexisting

/-- A WHERE is put only where there is none. -/
theorem Ready.where_fresh {input : Rel} {condition : Expr} {ids : List String} {x : Result}
    {b : Builder} (hx : Tracked input x) (hclause : filterClause env input condition = .where)
    (h : Ready env x (.filter input condition ids) [.where]
      (ignoresClauses (.filter input condition ids)) b) : b.select.arg? "where" = none := by
  rcases h.fresh with hfresh | ⟨hsame, hkind, hwrap⟩
  · exact hfresh "where" (by decide)
  · rw [hsame]
    by_contra hgiven
    obtain ⟨c, hc, hrank⟩ := (hx.declares hkind).filtered hgiven
    have hnotIgnored : ignoresClauses (.filter input condition ids) = false := by
      cases input <;> first | rfl | simp [filterClause] at hclause
    rcases unwrapped_cases (r := x.expecting _ _) hx.used hwrap with
      ⟨input', condition', ids', heq, -, hqualify⟩ | ⟨hfit, -⟩
    · obtain ⟨rfl, rfl, -⟩ : input = input' ∧ condition = condition' ∧ ids = ids' := by
        simpa using heq
      rw [hclause] at hqualify
      cases hqualify
    · have hlt := rank_of_fit hfit hc (e := .where) (by simp [Result.expecting, hnotIgnored])
      rcases hlt with hlt | ⟨heq, -⟩
      · change c.rank < 1 at hlt
        omega
      · cases heq

/-- **A filter** adds its condition. -/
theorem filterResult_adds {input : Rel} {condition : Expr} {ids : List String} {x r : Result}
    (hx : Tracked input x)
    (h : (filterResult env sub input condition ids (.filter input condition ids) x).Gives s r s') :
    (∃ m, Opens x.node m ∧ FilterAdds env sub input condition m r.node)
      ∧ Tracked (.filter input condition ids) r := by
  unfold filterResult at h
  simp only [ConvertM.gives_bind, ConvertM.gives_lift] at h
  obtain ⟨u, s₁, -, b, s₂, hb, n, s₃, hn, b', s₄, ⟨hput, rfl⟩, hresult⟩ := h
  have hready := hx.ready (by simp) rfl (fun hignores => by
    cases input <;> first | rfl | simp [ignoresClauses] at hignores) hb
  have htranslates : Translates env sub condition n := ⟨b.context, s₂, s₃, hn⟩
  have hmem : filterClause env input condition ∈ b.clauses := hready.announced (by simp)
  -- the condition becomes one of three clauses, none of which is part of a sort
  obtain ⟨key, kind, c, hkey, hadds, rfl⟩ : ∃ key kind c,
      (filterClause env input condition, key) ∈ conditionClauses
      ∧ FilterAdds env sub input condition b.select
        (b.select.set key (some (.node (Node.wrap kind c))))
      ∧ b' = { b with select := b.select.set key (some (.node (Node.wrap kind c))) } := by
    unfold FilterAdds
    rcases filterClause_three env input condition with hclause | hclause | hclause <;>
      simp only [hclause] at hput hready ⊢ <;> obtain rfl := put_eq_ok hput
    · exact ⟨"having", .having, _, by decide,
        ⟨n, htranslates, conjoins_alongside hready.declares (by decide) _ n⟩, rfl⟩
    · exact ⟨"qualify", .qualify, _, by decide,
        ⟨n, htranslates, conjoins_alongside hready.declares (by decide) _ n⟩, rfl⟩
    · exact ⟨"where", .where, n, by decide, ⟨n, htranslates, hready.where_fresh hx hclause, rfl⟩, rfl⟩
  have hmade := tracked_result hresult hready.relation hmem
    (hready.declares.setCondition hkey hmem _ _)
    (fun _ => hready.unfinished.set _ fun hfinishing => by
      simp only [conditionClauses, List.mem_cons, Prod.mk.injEq, List.not_mem_nil, or_false] at hkey
      rcases hkey with ⟨-, rfl⟩ | ⟨-, rfl⟩ | ⟨-, rfl⟩ <;> exact absurd hfinishing (by decide))
    (fun hsort => by cases hsort)
  exact ⟨⟨b.select, hready.opens, hmade.1 ▸ hadds⟩, hmade.2⟩

/-! ## Projections and windowed calls -/

/-- A builder with another select list. -/
theorem mayList_setSelect (b : Builder) (items : List Node) :
    MayList b.select (b.setSelect items).select := .inr ⟨items, rfl⟩

/-- **A projection** sets the select list of an unfinished query. -/
theorem projectResult_sets {input : Rel} {projects : List Expr} {names : List String}
    {distinct : Bool} {ids : List String} {x r : Result} (hx : Tracked input x)
    (h : (projectResult env sub input projects distinct ids
      (.project input projects names distinct ids) x).Gives s r s') :
    (∃ m, Opens x.node m ∧ ProjectSets distinct m r.node)
      ∧ Tracked (.project input projects names distinct ids) r := by
  unfold projectResult at h
  simp only [ConvertM.gives_bind] at h
  obtain ⟨u, s₁, -, b, s₂, hb, h⟩ := h
  have hready := hx.ready (by simp) rfl (fun hignores => by cases hignores) hb
  have hmem : Clause.select ∈ b.clauses := hready.announced (by simp)
  obtain ⟨m, s₃, hlist, hresult⟩ : ∃ m s₃, MayList b.select m
      ∧ (Builder.result env (if distinct then Builder.setDistinct { b with select := m }
        else { b with select := m })).Gives s₃ r s' := by
    split at h
    · exact ⟨b.select, _, .inl rfl, h⟩
    · simp only [ConvertM.gives_bind, ConvertM.gives_pure] at h
      obtain ⟨ns, s₃, -, items, s₄, -, b', s₅, ⟨rfl, rfl⟩, hresult⟩ := h
      exact ⟨_, _, mayList_setSelect b items, hresult⟩
  have hunfinished := hlist.unfinished hready.unfinished
  have hdeclares := hlist.declares hready.declares
  obtain ⟨hnode, htracked⟩ : r.node = (if distinct then
      m.set "distinct" (some (.flag true)) else m)
      ∧ Tracked (.project input projects names distinct ids) r := by
    cases distinct with
    | true =>
      exact tracked_result hresult hready.relation hmem (hdeclares.set _ (by decide))
        (fun _ => hunfinished.set _ (by decide)) (fun hsort => by cases hsort)
    | false =>
      exact tracked_result hresult hready.relation hmem hdeclares (fun _ => hunfinished)
        (fun hsort => by cases hsort)
  exact ⟨⟨b.select, hready.opens, m, hlist, hnode⟩, htracked⟩

/-- **Windowed calls** set the select list of an unfinished query. -/
theorem windowResult_sets {input : Rel} {groups : List (WindowGroup Expr)} {constants : List Literal}
    {names : List String} {x r : Result} (hx : Tracked input x)
    (h : (windowResult env sub input groups constants (.window input groups constants names) x).Gives
      s r s') :
    (∃ m, Opens x.node m ∧ MayList m r.node) ∧ Tracked (.window input groups constants names) r := by
  unfold windowResult at h
  simp only [ConvertM.gives_bind, ConvertM.gives_lift] at h
  obtain ⟨b, s₁, hb, calls, s₂, -, columns, s₃, ⟨-, rfl⟩, items, s₄, ⟨-, rfl⟩, hresult⟩ := h
  have hready := hx.ready (by simp) rfl (fun hignores => by cases hignores) hb
  have hmem : Clause.select ∈ b.clauses := hready.announced (by simp)
  have hlist := mayList_setSelect b items
  have hmade := tracked_result hresult hready.relation hmem (hlist.declares hready.declares)
    (fun _ => hlist.unfinished hready.unfinished) (fun hsort => by cases hsort)
  exact ⟨⟨b.select, hready.opens, hmade.1 ▸ hlist⟩, hmade.2⟩

/-! ## Aggregations -/

/-- Only the aggregate of an aggregate is put over a grouped query, and it brings no keys. -/
theorem groups_over_groups {input : Rel} {groupSet : List Ordinal} {sets : List (List Ordinal)}
    {calls : List AggregateCall} {r : Result} (hgroup : .groupBy ∈ r.clauses)
    (h : aggregateOverAggregate (wrapCheck env r (.aggregate input groupSet sets calls)) ≠ some true) :
    groupSet = [] ∧ calls ≠ [] := by
  have hcontains : r.clauses.contains .groupBy = true := by simpa using hgroup
  simp only [aggregateOverAggregate, wrapCheck, hcontains, if_true, ne_eq, Option.some.injEq,
    Bool.not_eq_true, Bool.or_eq_false_iff, Bool.not_eq_eq_eq_not, Bool.not_false,
    List.isEmpty_iff] at h
  refine ⟨h.2, ?_⟩
  rintro rfl
  have hnested := h.1
  unfold WrapCheck.hasNested at hnested
  split at hnested
  · cases hnested
  · simp at hnested

theorem hasNested_mono {c : WrapCheck} {calls : List AggregateCall} {p q : Node → Bool} (hpq : ∀ n, p n = true → q n = true)
    (h : c.hasNested calls p = true) : c.hasNested calls q = true := by
  unfold WrapCheck.hasNested at h ⊢
  split at h
  · cases h
  · simp only [List.any_eq_true, Option.any_eq_true] at h ⊢
    obtain ⟨arg, harg, item, hitem, n, hn, hp⟩ := h
    exact ⟨arg, harg, item, hitem, n, hn, hpq n hp⟩

/-- No keys in one set are no grouping items. -/
theorem groupByNodes_nil {ctx : Context} {sets : List (List Ordinal)} {keys : List Node}
    (hplain : groupKind [] sets = .simple) (h : groupByNodes env ctx [] sets = .ok keys) :
    keys = [] := by
  simp only [groupByNodes, hplain, bne_self_eq_false, Bool.false_and, Bool.false_eq_true,
    if_false] at h
  simpa [keyNodes, pure, Except.pure, bind, Except.bind] using h.symm

/-- A GROUP BY is put only where there is none. -/
theorem Ready.group_fresh {input : Rel} {groupSet : List Ordinal} {sets : List (List Ordinal)}
    {calls : List AggregateCall} {x : Result} {b : Builder} {ctx : Context} {keys : List Node}
    {ignores : Bool} (hx : Tracked input x) (hplain : groupKind groupSet sets = .simple)
    (h : Ready env x (.aggregate input groupSet sets calls) [.groupBy] ignores b)
    (hkeys : groupByNodes env ctx groupSet sets = .ok keys)
    (hne : ¬(keys.isEmpty && !calls.isEmpty) = true) : b.select.arg? "group" = none := by
  rcases h.fresh with hfresh | ⟨hsame, hkind, hwrap⟩
  · exact hfresh "group" (by decide)
  · rw [hsame]
    by_contra hgiven
    have hgroup := (hx.declares hkind).grouped hgiven
    rcases unwrapped_cases (r := x.expecting _ _) hx.used hwrap with
      ⟨input', condition', ids', heq, -⟩ | ⟨-, hverdict⟩
    · cases heq
    · obtain ⟨rfl, hcalls⟩ := groups_over_groups (r := x.expecting _ _) hgroup hverdict
      obtain rfl := groupByNodes_nil hplain hkeys
      exact hne (by simpa using hcalls)

/-- **An aggregation** sets the select list, and groups unless its calls do without. -/
theorem aggregateResult_sets {input : Rel} {groupSet : List Ordinal} {sets : List (List Ordinal)}
    {calls : List AggregateCall} {x r : Result} (hx : Tracked input x)
    (h : (aggregateResult env groupSet sets calls (.aggregate input groupSet sets calls) x).Gives
      s r s') :
    (∃ b m keys, Ready env x (.aggregate input groupSet sets calls) [.groupBy]
        (ignoresClauses (.aggregate input groupSet sets calls)) b
      ∧ MayList b.select m ∧ groupByNodes env b.context groupSet sets = .ok keys
      ∧ r.node = if keys.isEmpty && !calls.isEmpty then m
        else m.set "group" (some (.node (.mk .group [("expressions", .nodes keys)]))))
      ∧ Tracked (.aggregate input groupSet sets calls) r := by
  unfold aggregateResult at h
  simp only [ConvertM.gives_bind, ConvertM.gives_lift] at h
  obtain ⟨b, s₁, hb, keys, s₂, ⟨-, rfl⟩, named, s₃, ⟨-, rfl⟩, groupBy, s₄, ⟨hkeys, rfl⟩,
    aggregates, s₅, ⟨-, rfl⟩, items, s₆, ⟨-, rfl⟩, h⟩ := h
  have hready := hx.ready (by simp) rfl (fun hignores => by
    cases input <;> first | rfl | simp [ignoresClauses] at hignores) hb
  have hmem : Clause.groupBy ∈ b.clauses := hready.announced (by simp)
  generalize hlisted : (if items.isEmpty then [Node.number "1"] else items) = list at h
  have hlist := mayList_setSelect b list
  have hunfinished := hlist.unfinished hready.unfinished
  have hdeclares := hlist.declares hready.declares
  split at h
  · rename_i hempty
    simp only [ConvertM.gives_bind, ConvertM.gives_pure] at h
    obtain ⟨b', s₇, ⟨rfl, rfl⟩, hresult⟩ := h
    have hmade := tracked_result hresult hready.relation hmem hdeclares (fun _ => hunfinished)
      (fun hsort => by cases hsort)
    exact ⟨⟨b, _, groupBy, hready, hlist, hkeys, by rw [if_pos hempty, hmade.1]⟩, hmade.2⟩
  · rename_i hne
    simp only [ConvertM.gives_bind, ConvertM.gives_lift] at h
    obtain ⟨b', s₇, ⟨hput, rfl⟩, hresult⟩ := h
    obtain rfl := put_eq_ok hput
    have hmade := tracked_result hresult hready.relation hmem (hdeclares.setGroup hmem _)
      (fun _ => hunfinished.set _ (by decide)) (fun hsort => by cases hsort)
    exact ⟨⟨b, _, groupBy, hready, hlist, hkeys, by rw [if_neg hne, hmade.1]⟩, hmade.2⟩

/-- An aggregation by one set of keys puts GROUP BY where there is none. -/
theorem aggregateResult_adds {input : Rel} {groupSet : List Ordinal} {sets : List (List Ordinal)}
    {calls : List AggregateCall} {x r : Result} (hx : Tracked input x)
    (hplain : groupKind groupSet sets = .simple)
    (h : (aggregateResult env groupSet sets calls (.aggregate input groupSet sets calls) x).Gives
      s r s') :
    (∃ m, Opens x.node m ∧ AggregateAdds env groupSet sets calls m r.node)
      ∧ Tracked (.aggregate input groupSet sets calls) r := by
  obtain ⟨⟨b, m, keys, hready, hlist, hkeys, hnode⟩, hr⟩ := aggregateResult_sets hx h
  refine ⟨⟨b.select, hready.opens, m, b.context, keys, hlist, hkeys, ?_⟩, hr⟩
  by_cases hempty : (keys.isEmpty && !calls.isEmpty) = true
  · rw [if_pos hempty] at hnode ⊢
    exact hnode
  · rw [if_neg hempty] at hnode ⊢
    refine ⟨?_, hnode⟩
    rw [hlist.arg?_eq (by decide)]
    exact hready.group_fresh hx hplain hkeys hempty

/-! ## Sorts -/

/-- A limit is put where there is none. -/
theorem limited_adds {clause : Clause} {key : String} {kind : Kind} {limit : Option Expr}
    {b b' : Builder} (hfresh : b.select.arg? key = none)
    (h : (limited env sub clause key kind limit b).Gives s b' s') :
    (∃ n, Option.Rel (Translates env sub) limit n
      ∧ MayAdd key (n.map (Node.wrap kind)) b.select b'.select)
      ∧ b' = { b with select := b'.select } := by
  cases limit with
  | none =>
    obtain ⟨rfl, -⟩ := (ConvertM.gives_pure _ _ _ _).mp h
    exact ⟨⟨none, .none, rfl⟩, rfl⟩
  | some e =>
    simp only [limited, ConvertM.gives_bind, ConvertM.gives_lift] at h
    obtain ⟨n, t, hn, hput, rfl⟩ := h
    obtain rfl := put_eq_ok hput
    exact ⟨⟨some n, .some ⟨_, _, _, hn⟩, hfresh, rfl⟩, rfl⟩

/-- **A sort** finishes an unfinished query. -/
theorem sortResult_adds {root : Bool} {input : Rel} {collation : List Collation}
    {offset fetch : Option Expr} {x r : Result} (hx : Tracked input x)
    (h : (sortResult env sub root collation offset fetch (.sort input collation offset fetch) x).Gives
      s r s') :
    (∃ m, Opens x.node m ∧ SortAdds env sub collation offset fetch m r.node)
      ∧ Tracked (.sort input collation offset fetch) r := by
  rw [sortResult_eq] at h
  simp only [ConvertM.gives_bind] at h
  obtain ⟨b, s₁, hb, b₁, s₂, hlisted, b₂, s₃, hordered, b₃, s₄, hfetched, b₄, s₅, hskipped, hresult⟩ := h
  have hready := hx.ready (by simp) rfl (fun hignores => by cases hignores) hb
  have hmem : Clause.offset ∈ b.clauses := hready.announced (by simp)
  obtain ⟨hlist, hsame₁⟩ : MayList b.select b₁.select ∧ b₁ = { b with select := b₁.select } := by
    unfold listed at hlisted
    split at hlisted
    · simp only [ConvertM.gives_lift, withFields, bind_eq_ok_iff, pure_eq_ok_iff] at hlisted
      obtain ⟨⟨ns, -, items, -, rfl⟩, -⟩ := hlisted
      exact ⟨mayList_setSelect b items, rfl⟩
    · obtain ⟨rfl, -⟩ := (ConvertM.gives_pure _ _ _ _).mp hlisted
      exact ⟨.inl rfl, rfl⟩
  have hunfinished := hlist.unfinished hready.unfinished
  obtain ⟨keys, hkeys, horder, hsame₂⟩ : ∃ keys, collationsNodes env b₁.context collation = .ok keys
      ∧ MayAdd "order" (if keys.isEmpty then none else some (Node.order keys)) b₁.select b₂.select
      ∧ b₂ = { b₁ with select := b₂.select } := by
    unfold ordered at hordered
    simp only [ConvertM.gives_bind, ConvertM.gives_lift] at hordered
    obtain ⟨keys, t, ⟨hkeys, rfl⟩, hordered⟩ := hordered
    refine ⟨keys, hkeys, ?_⟩
    split at hordered
    · rename_i hempty
      obtain ⟨rfl, -⟩ := (ConvertM.gives_pure _ _ _ _).mp hordered
      rw [if_pos hempty]
      exact ⟨rfl, rfl⟩
    · rename_i hne
      obtain ⟨hput, -⟩ := (ConvertM.gives_lift _ _ _ _).mp hordered
      obtain rfl := put_eq_ok hput
      rw [if_neg hne]
      exact ⟨⟨hunfinished _ (by decide), rfl⟩, rfl⟩
  -- each clause leaves the places of the later ones free
  have hlimit : b₂.select.arg? "limit" = none := by
    rw [horder.arg?_eq (by decide)]
    exact hunfinished _ (by decide)
  obtain ⟨⟨limit, hlimits, hfetches⟩, hsame₃⟩ := limited_adds hlimit hfetched
  have hoffset : b₃.select.arg? "offset" = none := by
    rw [hfetches.arg?_eq (by decide), horder.arg?_eq (by decide)]
    exact hunfinished _ (by decide)
  obtain ⟨⟨skip, hskips, hoffsets⟩, hsame₄⟩ := limited_adds hoffset hskipped
  have hdeclares : Declares b.clauses b₄.select :=
    hoffsets.declares (hfetches.declares (horder.declares (hlist.declares hready.declares)
      (by decide)) (by decide)) (by decide)
  rw [hsame₄, hsame₃, hsame₂, hsame₁] at hresult
  have hmade := tracked_result hresult hready.relation hmem hdeclares
    (fun hsort => by cases hsort) (fun _ => hmem)
  exact ⟨⟨b.select, hready.opens, b₁.select, b₂.select, b₃.select, b₁.context, keys, limit, skip, hlist,
    hkeys, horder, hlimits, hfetches, hskips, hmade.1 ▸ hoffsets⟩, hmade.2⟩

/-! ## Leaves -/

/-- A query of a leaf has no clauses but FROM and WHERE. -/
def Bare (n : Node) : Prop :=
  ∀ key ∈ ["group", "having", "qualify", "order", "limit", "offset"], n.arg? key = none

theorem Bare.unfinished {n : Node} (h : Bare n) : Unfinished n := by
  intro key hkey
  simp only [finishingKeys, List.mem_cons, List.not_mem_nil, or_false] at hkey
  rcases hkey with rfl | rfl | rfl <;> exact h _ (by decide)

theorem Bare.declares {n : Node} (h : Bare n) {clauses : List Clause}
    (hclauses : ∃ c ∈ clauses, 1 ≤ c.rank) : Declares clauses n where
  filtered := fun _ => hclauses
  grouped := fun hgiven => absurd (h _ (by decide)) hgiven
  conditions := by
    intro key hkey hgiven
    simp only [List.mem_cons, List.not_mem_nil, or_false] at hkey
    rcases hkey with rfl | rfl <;> exact absurd (h _ (by decide)) hgiven

theorem bare_selectWhere (item condition : Node) : Bare (Node.selectWhere item condition) := by
  intro key hkey
  simp only [List.mem_cons, List.not_mem_nil, or_false] at hkey
  rcases hkey with rfl | rfl | rfl | rfl | rfl | rfl <;> simp [Node.selectWhere]

theorem bare_selectFrom (item : Node) : Bare (Node.selectFrom item) := by
  intro key hkey
  simp only [List.mem_cons, List.not_mem_nil, or_false] at hkey
  rcases hkey with rfl | rfl | rfl | rfl | rfl | rfl <;> simp [Node.selectFrom]

theorem bare_selectItems (items : List Node) : Bare (Node.selectItems items) := by
  intro key hkey
  simp only [List.mem_cons, List.not_mem_nil, or_false] at hkey
  rcases hkey with rfl | rfl | rfl | rfl | rfl | rfl <;> simp [Node.selectItems]

/-- Set operations from left to right are no SELECT, unless there is none. -/
theorem kind_setOperations (kind : Kind) (distinct : Bool) (ns : List Node) (n : Node) :
    ns.foldl (fun u m => Node.setOperation kind u m distinct) n = n
      ∨ (ns.foldl (fun u m => Node.setOperation kind u m distinct) n).kind = kind := by
  induction ns generalizing n with
  | nil => exact .inl rfl
  | cons m ns ih =>
    right
    rcases ih (Node.setOperation kind n m distinct) with h | h
    · rw [List.foldl_cons, h]
      rfl
    · exact h

/-- **A table** is read as it is. -/
theorem scanResult_built {table : List String} {fields : RowType} {r : Result}
    (h : (scanResult env table (.scan table fields)).Gives s r s') :
    Node.table? table = .ok r.node ∧ Tracked (.scan table fields) r := by
  simp only [scanResult, ConvertM.gives_bind, ConvertM.gives_lift] at h
  obtain ⟨n, t, ⟨hn, rfl⟩, h⟩ := h
  have hkind : n.kind = .table := by
    unfold Node.table? at hn
    split at hn <;> cases hn <;> rfl
  have hmade := tracked_unsorted (.scan table fields) h (by simp)
    (fun hselect => by simp [hkind] at hselect) (fun hselect => by simp [hkind] at hselect) rfl
  exact ⟨hmade.1 ▸ hn, hmade.2⟩

/-- The query for constant rows has no clauses but FROM and WHERE. -/
theorem bare_values {name : String} {fields : RowType} {tuples : List (List Literal)} {n : Node}
    (hn : (if env.dialect.capabilities.aliasedValues then aliasedValues env name fields tuples
      else unionValues env name fields tuples) = .ok n) (hselect : n.kind = .select) : Bare n := by
  split at hn
  · simp only [aliasedValues] at hn
    split at hn
    · cases hn
      exact bare_selectWhere _ _
    · simp only [bind_eq_ok_iff, pure_eq_ok_iff] at hn
      obtain ⟨rows, -, rfl⟩ := hn
      simp at hselect
  · simp only [unionValues, bind_eq_ok_iff] at hn
    obtain ⟨ns, hns, hn⟩ := hn
    cases ns with
    | nil =>
      simp only [bind_eq_ok_iff, pure_eq_ok_iff] at hn
      obtain ⟨item, -, rfl⟩ := hn
      exact bare_selectWhere _ _
    | cons first rest =>
      obtain rfl := (pure_eq_ok_iff _ _).mp hn
      have hfirst : Bare first := forall_of_mapM hns (fun tuple _ m hm => by
        simp only [bind_eq_ok_iff, pure_eq_ok_iff] at hm
        obtain ⟨literals, -, rfl⟩ := hm
        exact bare_selectItems _) first (by simp)
      rcases kind_setOperations .union false rest first with hsame | hkind
      · rw [hsame]
        exact hfirst
      · rw [hkind] at hselect
        cases hselect

/-- **Constant rows** have no clauses but FROM and WHERE. -/
theorem valuesResult_built {fields : RowType} {tuples : List (List Literal)} {r : Result}
    (h : (valuesResult env fields tuples (.values fields tuples)).Gives s r s') :
    (∃ name, (if env.dialect.capabilities.aliasedValues then aliasedValues env name fields tuples
      else unionValues env name fields tuples) = .ok r.node) ∧ Tracked (.values fields tuples) r := by
  simp only [valuesResult, ConvertM.gives_bind, ConvertM.gives_lift] at h
  obtain ⟨name, s₁, -, n, s₂, ⟨hn, rfl⟩, h⟩ := h
  have hmade := tracked_unsorted (.values fields tuples) h (by simp)
    (fun hselect => (bare_values hn hselect).declares ⟨.select, by simp, by decide⟩)
    (fun hselect => (bare_values hn hselect).unfinished) rfl
  exact ⟨⟨name, hmade.1 ▸ hn⟩, hmade.2⟩

/-- **A table function** is read by a query of its own. -/
theorem tableFunctionResult_built {inputs : List Rel} {call : Expr} {fields : RowType}
    {selects : List Node} {r : Result}
    (h : (tableFunctionResult env sub call (.tableFunction inputs call fields) selects).Gives s r s') :
    (∃ item, r.node = Node.selectFrom item) ∧ Tracked (.tableFunction inputs call fields) r := by
  simp only [tableFunctionResult, ConvertM.gives_bind] at h
  obtain ⟨n, t, -, h⟩ := h
  have hbare := bare_selectFrom (Node.wrap .tableFunction n)
  have hmade := tracked_unsorted (.tableFunction inputs call fields) h (by simp)
    (fun _ => hbare.declares ⟨.select, by simp, by decide⟩) (fun _ => hbare.unfinished) rfl
  exact ⟨⟨_, hmade.1⟩, hmade.2⟩

/-! ## Other readers -/

/-- **A row pattern** reads its input as a FROM item. -/
theorem rowPatternResult_built {input : Rel} {spec : RowPattern Expr} {x r : Result}
    (h : (rowPatternResult env sub spec (.rowPattern input spec) x).Gives s r s') :
    (∃ item, Embeds x.node item ∧ r.node.kind = .matchRecognize ∧ r.node.this? = some item)
      ∧ Tracked (.rowPattern input spec) r := by
  simp only [rowPatternResult, ConvertM.gives_bind, ConvertM.gives_lift] at h
  obtain ⟨order, s₁, -, item, s₂, ⟨hitem, rfl⟩, partition, s₃, -, measures, s₄, -, pattern, s₅, -,
    within, s₆, -, define, s₇, -, h⟩ := h
  have hembeds : Embeds x.node item := by simpa using embeds_asFrom hitem
  have hmade := tracked_unsorted (.rowPattern input spec) h (by simp)
    (fun hselect => by simp at hselect) (fun hselect => by simp at hselect) rfl
  refine ⟨⟨item, hembeds, by rw [hmade.1]; rfl, ?_⟩, hmade.2⟩
  rw [hmade.1]
  simp [this?, child?]

/-- **A join** reads both inputs as FROM items. -/
theorem joinResult_built {left right : Rel} {condition : Expr} {type : JoinType} {ids : List String}
    {x y r : Result}
    (h : (joinResult env sub condition type ids (.join left right condition type ids) x.resetAlias
      y.resetAlias).Gives s r s') :
    (∃ l m kind on, Embeds x.node l ∧ Embeds y.node m ∧ r.node = joinNode l m kind on)
      ∧ Tracked (.join left right condition type ids) r := by
  simp only [joinResult, ConvertM.gives_bind, ConvertM.gives_lift] at h
  obtain ⟨u, s₁, -, l, s₂, ⟨hl, rfl⟩, m, s₃, ⟨hm, rfl⟩, h⟩ := h
  have hembeds : Embeds x.node l ∧ Embeds y.node m :=
    ⟨by simpa using embeds_asFrom hl, by simpa using embeds_asFrom hm⟩
  obtain ⟨kind, on, t, h⟩ : ∃ kind on t, (makeJoinResult env (joinNode l m kind on) x.resetAlias
      y.resetAlias (.join left right condition type ids)).Gives t r s' := by
    split at h
    · exact ⟨_, _, _, h⟩
    · simp only [ConvertM.gives_bind, ConvertM.gives_pure] at h
      obtain ⟨on, s₄, -, n, s₅, ⟨rfl, rfl⟩, h⟩ := h
      exact ⟨_, _, _, h⟩
  have hkind : (joinNode l m kind on).kind ≠ .select := by simp [joinNode]
  have hmade := tracked_unsorted (.join left right condition type ids) h (by simp)
    (fun hselect => absurd hselect hkind) (fun hselect => absurd hselect hkind) rfl
  exact ⟨⟨l, m, kind, on, hembeds.1, hembeds.2, hmade.1⟩, hmade.2⟩

/-- **A semi join** tests for partners in the WHERE of a query that has none. -/
theorem semiJoinResult_built {left right : Rel} {condition : Expr} {type : JoinType}
    {ids : List String} {x y r : Result} (hx : Tracked left x)
    (h : (semiJoinResult env sub condition type ids (.join left right condition type ids) x.resetAlias
      y.resetAlias).Gives s r s') :
    (∃ m, Opens x.node m ∧ SemiJoinAdds type y.node m r.node)
      ∧ Tracked (.join left right condition type ids) r := by
  rw [semiJoinResult_eq] at h
  simp only [ConvertM.gives_bind, ConvertM.gives_lift] at h
  obtain ⟨u, s₁, -, on, s₂, -, m, s₃, hm, other, s₄, ⟨hother, rfl⟩, h⟩ := h
  obtain ⟨item, rfl, hitem⟩ : ∃ item, m = Node.selectFrom item ∧ Embeds x.node item := by
    unfold leftQuery at hm
    split at hm
    · rename_i hneeded
      rcases asSelect_reads hm with ⟨hkind, -⟩ | hread
      · exact absurd hkind (hx.resetAlias.named (by simpa using hneeded))
      · simpa using hread
    · simpa using subSelect_reads hm
  have hnone : (Node.selectFrom item).condition? "where" = none := by
    simp [condition?, Node.selectFrom, child?]
  simp only [partnerTest, hnone] at h
  have hkey : (Clause.where, "where") ∈ conditionClauses := by decide
  have hmade := tracked_unsorted (.join left right condition type ids) h (by simp)
    (fun _ => (declares_selectFrom _ item).setCondition hkey (by simp) _ _)
    (fun _ => (unfinished_selectFrom item).set _ (by decide)) rfl
  refine ⟨⟨_, .read hitem, other, on, by simpa using embeds_asFrom hother, .inl ⟨?_, hmade.1⟩⟩, hmade.2⟩
  simp [Node.selectFrom]

/-- **A set operation** combines the queries of at least two inputs. -/
theorem setOpResult_built {op : SetOperator} {all : Bool} {inputs : List Rel} {selects : List Node}
    {r : Result} (hlength : 2 ≤ selects.length)
    (h : (setOpResult env op all (.setOp op all inputs) selects).Gives s r s') :
    (∃ first rest, selects = first :: rest
      ∧ r.node = rest.foldl (fun u n => Node.setOperation (setKind op) u n !all) first)
      ∧ Tracked (.setOp op all inputs) r := by
  unfold setOpResult at h
  split at h
  · exact absurd h (ConvertM.gives_throw _ _ _ _)
  · rename_i first rest
    obtain ⟨second, others, rfl⟩ : ∃ second others, rest = second :: others := by
      cases rest with
      | nil => simp at hlength
      | cons second others => exact ⟨second, others, rfl⟩
    have hkind : (others.foldl (fun u n => Node.setOperation (setKind op) u n !all)
        (Node.setOperation (setKind op) first second !all)).kind ≠ .select := by
      rcases kind_setOperations (setKind op) (!all) others
        (Node.setOperation (setKind op) first second !all) with h | h
      · rw [h]
        exact (setKind_traits op).2.2.2
      · rw [h]
        exact (setKind_traits op).2.2.2
    have hmade := tracked_unsorted (.setOp op all inputs) h (by simp)
      (fun hselect => absurd hselect hkind) (fun hselect => absurd hselect hkind) rfl
    exact ⟨⟨first, _, rfl, hmade.1⟩, hmade.2⟩

/-! ## Plans -/

/-- An aggregation groups by one set of keys, and a set operation has at least two inputs. -/
def groupsPlainly : Rel → Bool
  | .aggregate _ groupSet sets _ => groupKind groupSet sets == .simple
  | .setOp _ _ inputs => 2 ≤ inputs.length
  | _ => true

theorem builtAll_length {rels : List Rel} {ns : List Node} (h : BuiltAll env sub rels ns) :
    ns.length = rels.length := by
  induction rels generalizing ns with
  | nil =>
    obtain rfl : ns = [] := by simpa [BuiltAll] using h
    rfl
  | cons rel rels ih =>
    simp only [BuiltAll] at h
    obtain ⟨x, n, rest, -, -, hrest, rfl⟩ := h
    simp [ih hrest]

mutual

/-- **`relationResult`** — no clause of the query for a plan is lost on the way to it, and none is put
out of order. -/
theorem relationResult_built (rel : Rel) {root : Bool} {s s' : State} {r : Result}
    (hrel : rel.every groupsPlainly = true) (h : (relationResult env sub root rel).Gives s r s') :
    Built env sub rel r.node ∧ Tracked rel r := by
  cases rel with
  | scan table fields =>
    rw [relationResult] at h
    simpa only [Built] using scanResult_built h
  | values fields tuples =>
    rw [relationResult] at h
    simpa only [Built] using valuesResult_built h
  | filter input condition ids =>
    simp only [Rel.every, Bool.and_eq_true] at hrel
    rw [relationResult, ConvertM.gives_bind] at h
    obtain ⟨x, t, hx, h⟩ := h
    obtain ⟨hbuilt, htracked⟩ := relationResult_built input hrel.2 hx
    obtain ⟨⟨m, hm, hadds⟩, hr⟩ := filterResult_adds htracked h
    rw [Built]
    exact ⟨⟨x.node, m, hbuilt, hm, hadds⟩, hr⟩
  | project input projects names distinct ids =>
    simp only [Rel.every, Bool.and_eq_true] at hrel
    rw [relationResult, ConvertM.gives_bind] at h
    obtain ⟨x, t, hx, h⟩ := h
    obtain ⟨hbuilt, htracked⟩ := relationResult_built input hrel.2 hx
    obtain ⟨⟨m, hm, hsets⟩, hr⟩ := projectResult_sets htracked h
    rw [Built]
    exact ⟨⟨x.node, m, hbuilt, hm, hsets⟩, hr⟩
  | aggregate input groupSet sets calls =>
    simp only [Rel.every, Bool.and_eq_true, groupsPlainly, beq_iff_eq] at hrel
    rw [relationResult, ConvertM.gives_bind] at h
    obtain ⟨x, t, hx, h⟩ := h
    obtain ⟨hbuilt, htracked⟩ := relationResult_built input hrel.2 hx
    obtain ⟨⟨m, hm, hadds⟩, hr⟩ := aggregateResult_adds htracked hrel.1 h
    rw [Built]
    exact ⟨⟨x.node, m, hbuilt, hm, hadds⟩, hr⟩
  | sort input collation offset fetch =>
    simp only [Rel.every, Bool.and_eq_true] at hrel
    rw [relationResult, ConvertM.gives_bind] at h
    obtain ⟨x, t, hx, h⟩ := h
    obtain ⟨hbuilt, htracked⟩ := relationResult_built input hrel.2 hx
    obtain ⟨⟨m, hm, hadds⟩, hr⟩ := sortResult_adds htracked h
    rw [Built]
    exact ⟨⟨x.node, m, hbuilt, hm, hadds⟩, hr⟩
  | window input groups constants names =>
    simp only [Rel.every, Bool.and_eq_true] at hrel
    rw [relationResult, ConvertM.gives_bind] at h
    obtain ⟨x, t, hx, h⟩ := h
    obtain ⟨hbuilt, htracked⟩ := relationResult_built input hrel.2 hx
    obtain ⟨⟨m, hm, hlist⟩, hr⟩ := windowResult_sets htracked h
    rw [Built]
    exact ⟨⟨x.node, m, hbuilt, hm, hlist⟩, hr⟩
  | rowPattern input spec =>
    simp only [Rel.every, Bool.and_eq_true] at hrel
    rw [relationResult, ConvertM.gives_bind] at h
    obtain ⟨x, t, hx, h⟩ := h
    obtain ⟨hbuilt, -⟩ := relationResult_built input hrel.2 hx
    obtain ⟨⟨item, hitem, hkind, hthis⟩, hr⟩ := rowPatternResult_built h
    rw [Built]
    exact ⟨⟨x.node, item, hbuilt, hitem, hkind, hthis⟩, hr⟩
  | join left right condition type ids =>
    simp only [Rel.every, Bool.and_eq_true] at hrel
    simp only [relationResult, ConvertM.gives_bind] at h
    obtain ⟨x, s₁, hx, y, s₂, hy, h⟩ := h
    obtain ⟨hbuiltx, htrackedx⟩ := relationResult_built left hrel.1.2 hx
    obtain ⟨hbuilty, -⟩ := relationResult_built right hrel.2 hy
    rw [Built]
    cases htype : type.keepsLeftOnly with
    | true =>
      simp only [htype, if_true] at h ⊢
      obtain ⟨hadds, hr⟩ := semiJoinResult_built htrackedx h
      exact ⟨⟨x.node, y.node, hbuiltx, hbuilty, hadds⟩, hr⟩
    | false =>
      simp only [htype, Bool.false_eq_true, if_false] at h ⊢
      obtain ⟨hjoins, hr⟩ := joinResult_built h
      exact ⟨⟨x.node, y.node, hbuiltx, hbuilty, hjoins⟩, hr⟩
  | setOp op all inputs =>
    simp only [Rel.every, Bool.and_eq_true, groupsPlainly, decide_eq_true_eq] at hrel
    rw [relationResult, ConvertM.gives_bind] at h
    obtain ⟨ns, t, hns, h⟩ := h
    have hbuilt := relationSelects_built inputs hrel.2 hns
    obtain ⟨⟨first, rest, rfl, hnode⟩, hr⟩ :=
      setOpResult_built (by rw [builtAll_length hbuilt]; exact hrel.1) h
    rw [Built]
    exact ⟨⟨first, rest, hbuilt, hnode⟩, hr⟩
  | tableFunction inputs call fields =>
    rw [relationResult, ConvertM.gives_bind] at h
    obtain ⟨ns, t, -, h⟩ := h
    simpa only [Built] using tableFunctionResult_built h

/-- **`relationSelects`** — the queries for several plans are returned as they were built. -/
theorem relationSelects_built (rels : List Rel) {s s' : State} {ns : List Node}
    (hrels : Rel.everyOf groupsPlainly rels = true) (h : (relationSelects env sub rels).Gives s ns s') :
    BuiltAll env sub rels ns := by
  cases rels with
  | nil =>
    rw [relationSelects, ConvertM.gives_pure] at h
    rw [BuiltAll, h.1]
  | cons rel rels =>
    simp only [Rel.everyOf, Bool.and_eq_true] at hrels
    simp only [relationSelects, ConvertM.gives_bind, ConvertM.gives_pure] at h
    obtain ⟨x, s₁, hx, n, s₂, hn, rest, s₃, hrest, rfl, -⟩ := h
    rw [BuiltAll]
    exact ⟨x.node, n, rest, (relationResult_built rel hrels.1 hx).1, returned_asSelect hn,
      relationSelects_built rels hrels.2 hrest, rfl⟩

end

/-! ## Statements and sub-queries -/

/-- **No clause is lost** in the statement for a plan: it is built by the rules from its leaves to its
root, and then returned as it is or read by `SELECT *`. -/
theorem planStatement_built {rel : Rel} {n : Node} (hrel : rel.every groupsPlainly = true)
    (h : (planStatement env rel).Gives s n s') :
    ∃ x, Built env (queryAt env rel.queryDepth false) rel x ∧ Returned x n := by
  unfold planStatement planResult at h
  rw [ConvertM.gives_bind] at h
  obtain ⟨r, t, hr, hn⟩ := h
  exact ⟨r.node, (relationResult_built rel hrel hr).1, returned_asStatement hn⟩

/-- The plan of a sub-query is converted like any other one, at any depth. -/
theorem queryAt_built {depth : Nat} {root : Bool} {rel : Rel} {n : Node}
    (hrel : rel.every groupsPlainly = true) (h : (queryAt env depth root rel).Gives s n s') :
    ∃ below x, Built env below rel x ∧ Returned x n := by
  obtain ⟨below, r, t, hr, hn⟩ : ∃ below r t, (relationResult env below root rel).Gives s r t
      ∧ (r.asQuery env).Gives t n s' := by
    cases depth <;>
      (rw [queryAt] at h
       rw [ConvertM.gives_bind] at h
       obtain ⟨r, t, hr, hn⟩ := h
       exact ⟨_, r, t, hr, hn⟩)
  exact ⟨below, r.node, (relationResult_built rel hrel hr).1, returned_asQuery hn⟩

/-- The groups of a filtered table with more than one row, largest key first. -/
def largeGroups : Rel :=
  .sort
    (aboveOne (.aggregate (aboveOne scanLetters 1) [.whole 0] [[.whole 0]]
      [{ op := Operator.count, args := [], name := some "n" }]) 1)
    [⟨.whole 0, .descending, .high .descending⟩] none (some (.literal ⟨.exact "3", DataType.integer⟩))

/-- WHERE, GROUP BY, HAVING, ORDER BY and FETCH meet in one query, and all of them stay. -/
theorem planStatement_built_largeGroups : ∃ n x, statement Dialect.ansi largeGroups = .ok n
    ∧ Built (Env.plain Dialect.ansi) (queryAt (Env.plain Dialect.ansi) largeGroups.queryDepth false)
      largeGroups x
    ∧ Returned x n := by
  have hok : (statement Dialect.ansi largeGroups).toOption.isSome = true := by decide +kernel
  cases hn : statement Dialect.ansi largeGroups with
  | error e => simp [hn, Except.toOption] at hok
  | ok n =>
    rw [statement_eq] at hn
    obtain ⟨s', hgives⟩ := (ConvertM.value_eq_ok_iff _ _).mp hn
    obtain ⟨x, hbuilt, hreturned⟩ := planStatement_built (by decide +kernel) hgives
    exact ⟨n, x, rfl, hbuilt, hreturned⟩

end AlgebraSql.Convert
