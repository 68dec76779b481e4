import AlgebraSql.Proofs.FlatPlans

/-!
# Clause origins — which operators the HAVING, QUALIFY and GROUP BY of a query come from.

An operator that is merged into the query of its input shares that query with the operators below.
HAVING only stands in queries that group, QUALIFY only in queries over a filter on windowed calls, and
only an aggregation groups.  So it is known which conditions a query has before a filter adds its own,
and that a filter on groups or on windowed calls is never put around the query.
-/

namespace AlgebraSql.Convert

open Sql Node

variable {env : Env} {sub : Rel → ConvertM Node} {s s' : State} {schema : Schema}

/-- An operator that does not group rows. -/
def ungrouped : Rel → Bool
  | .aggregate .. => false
  | _ => true

/-- A filter that is put into QUALIFY, with nothing but projections without windowed calls above it. -/
def filtersWindows (d : Dialect) : Rel → Bool
  | .filter (.project _ projects _ _ _) condition _ =>
    d.capabilities.qualify && projects.any (·.containsOver) && !condition.containsOver
  | .project input projects _ _ _ => !projects.any (·.containsOver) && filtersWindows d input
  | _ => false

/-! ## The last clause -/

theorem rank_injective {c d : Clause} (h : c.rank = d.rank) : c = d := by
  revert h
  cases c <;> cases d <;> decide

theorem mem_of_last? {clauses : List Clause} {last : Clause} (h : Clause.last? clauses = some last) :
    last ∈ clauses := by
  have hfold : ∀ (cs : List Clause) (start : Option Clause), cs.foldl later start = some last →
      start = some last ∨ last ∈ cs := by
    intro cs
    induction cs with
    | nil => exact fun start h => .inl h
    | cons c cs ih =>
      intro start h
      rcases ih _ h with hlater | hmem
      · have hsplit : later start c = some c ∨ later start c = start := by
          unfold later
          split
          · exact .inl rfl
          · split
            · exact .inl rfl
            · exact .inr rfl
        rcases hsplit with hc | hsame
        · rw [hc] at hlater
          cases hlater
          exact .inr List.mem_cons_self
        · exact .inl (hsame ▸ hlater)
      · exact .inr (List.mem_cons_of_mem _ hmem)
  rcases hfold clauses none h with hnone | hmem
  · cases hnone
  · exact hmem

/-- A clause behind all others is the last one. -/
theorem last?_eq_of_rank {clauses : List Clause} {c : Clause} (hc : c ∈ clauses)
    (hall : ∀ d ∈ clauses, d.rank ≤ c.rank) : Clause.last? clauses = some c := by
  obtain ⟨last, hlast⟩ := Option.ne_none_iff_exists'.mp (last?_ne_none hc)
  have hge : c.rank ≤ last.rank := (rank_le_foldl clauses hlast).1 c hc
  have hle : last.rank ≤ c.rank := hall last (mem_of_last? hlast)
  rw [hlast, rank_injective (Nat.le_antisymm hge hle)]

/-- Behind a select list another one may be set, which is then the last clause. -/
theorem last?_of_select {clauses : List Clause} (h : Clause.fit clauses [.select] = true) :
    Clause.last? (clauses ++ [.select]) = some .select := by
  refine last?_eq_of_rank (by simp) fun d hd => ?_
  rcases List.mem_append.mp hd with hd | hd
  · rcases rank_of_fit h hd (List.mem_singleton.mpr rfl) with hlt | ⟨-, hle⟩
    · exact hlt.le
    · exact hle
  · rw [List.mem_singleton.mp hd]

/-! ## The invariant of results -/

/-- **`Origins`** — HAVING stands in a grouped query, QUALIFY above a filter on windowed calls, only
aggregations group, and a select list is declared. -/
structure Origins (d : Dialect) (rel : Rel) (x : Result) : Prop where
  having : x.node.kind = .select → x.node.child? "having" ≠ none → .groupBy ∈ x.clauses
  qualify : x.node.kind = .select → x.node.child? "qualify" ≠ none →
    .select ∈ x.clauses ∧ (isSort rel = false → .groupBy ∈ x.clauses ∨ filtersWindows d rel = true)
  groups : .groupBy ∈ x.clauses → rel.every ungrouped = false
  lists : x.node.kind = .select → x.node.selectList? ≠ none → ∃ c ∈ x.clauses, Clause.groupBy.rank ≤ c.rank
  /-- An aggregation ends with GROUP BY, unless it ignores what is there. -/
  aggregates : ∀ {input keys sets calls}, rel = .aggregate input keys sets calls →
    .groupBy ∈ x.clauses ∧ (ignoresClauses rel = false → ∀ c ∈ x.clauses, c.rank ≤ Clause.groupBy.rank)
  /-- A projection ends with the select list. -/
  projects : ∀ {input projects names distinct ids}, rel = .project input projects names distinct ids →
    Clause.last? x.clauses = some .select

/-- The clauses of a recorded query. -/
theorem Records.mem_clauses_iff {rel : Rel} {y r : Result} {m n : Node} (h : Records env rel y m n r)
    {c : Clause} : c ∈ r.clauses ↔ c ∈ y.expected ∨ (y.mustWrap env rel = false ∧ c ∈ y.clauses) := by
  obtain ⟨name, rfl, -⟩ := h
  rw [recorded_clauses]
  unfold Result.builderOver
  cases y.mustWrap env rel <;> simp [or_comm]

section

variable {input rel : Rel} {x r : Result} {m n : Node} {expected : List Clause} {ignores : Bool}

/-- A condition of a query that is opened is one of the result, which is not wrapped. -/
theorem Flat.opened_condition (henv : env.NeverQualifies) (hx : Flat schema input x)
    (hm : Opening env (x.expecting expected ignores) rel s m s') {key : String}
    (hkey : key ∈ ["having", "qualify"]) (hgiven : m.child? key ≠ none) :
    m = x.node ∧ x.node.kind = .select ∧ (x.expecting expected ignores).mustWrap env rel = false := by
  rcases hx.opened henv hm with hsame | ⟨item, rfl, -⟩
  · exact hsame
  · simp only [List.mem_cons, List.not_mem_nil, or_false] at hkey
    rcases hkey with rfl | rfl <;> simp [selectFrom, child?] at hgiven

/-- The conditions of a query that is opened have their origins in the input. -/
theorem Origins.inherited (henv : env.NeverQualifies) (hx : Flat schema input x) (ho : Origins env.dialect input x)
    (hm : Opening env (x.expecting expected ignores) rel s m s')
    (hr : Records env rel (x.expecting expected ignores) m n r) (hne : expected ≠ [])
    (hrel : rel.inputs = [input]) (hignores : ignores = true → isSort input = false) :
    (m.child? "having" ≠ none → .groupBy ∈ r.clauses)
      ∧ (m.child? "qualify" ≠ none → (x.expecting expected ignores).mustWrap env rel = false
        ∧ .select ∈ x.clauses ∧ .select ∈ r.clauses
        ∧ (.groupBy ∈ r.clauses ∨ filtersWindows env.dialect input = true))
      ∧ (m.selectList? ≠ none → ∃ c ∈ r.clauses, Clause.groupBy.rank ≤ c.rank) := by
  refine ⟨?_, ?_, ?_⟩
  · intro hgiven
    obtain ⟨rfl, hkind, hwrap⟩ := hx.opened_condition henv hm (by simp) hgiven
    exact hr.mem_clauses_iff.mpr (.inr ⟨hwrap, ho.having hkind hgiven⟩)
  · intro hgiven
    obtain ⟨rfl, hkind, hwrap⟩ := hx.opened_condition henv hm (by simp) hgiven
    have hsort := hx.tracked.isSort_eq_false hne hrel hignores hwrap
    obtain ⟨hselect, horigin⟩ := ho.qualify hkind hgiven
    refine ⟨hwrap, hselect, hr.mem_clauses_iff.mpr (.inr ⟨hwrap, hselect⟩), ?_⟩
    exact (horigin hsort).imp_left fun hgroup => hr.mem_clauses_iff.mpr (.inr ⟨hwrap, hgroup⟩)
  · intro hgiven
    rcases hx.opened henv hm with ⟨rfl, hkind, hwrap⟩ | ⟨item, rfl, -⟩
    · obtain ⟨c, hc, hrank⟩ := ho.lists hkind hgiven
      exact ⟨c, hr.mem_clauses_iff.mpr (.inr ⟨hwrap, hc⟩), hrank⟩
    · simp [selectFrom, selectList?, list?] at hgiven

/-- A grouped query over one that is opened has its origin in the input. -/
theorem Origins.groups_below (ho : Origins env.dialect input x)
    (hr : Records env rel (x.expecting expected ignores) m n r) (hnew : .groupBy ∉ expected)
    (hgroup : .groupBy ∈ r.clauses) : input.every ungrouped = false := by
  rcases hr.mem_clauses_iff.mp hgroup with hmem | ⟨-, hmem⟩
  · exact absurd (by simpa [Result.expecting] using hmem) hnew
  · exact ho.groups hmem

/-- What is not wrapped by an operator other than a filter has clauses before the new ones. -/
theorem fit_of_unwrapped (hx : Tracked input x) (hfilter : ∀ i c ids, rel ≠ .filter i c ids)
    (h : (x.expecting expected false).mustWrap env rel = false) : Clause.fit x.clauses expected.eraseDups = true := by
  rcases unwrapped_cases (r := x.expecting expected false) hx.used h with
    ⟨i, c, ids, hrel, -⟩ | ⟨hfit, -⟩
  · exact absurd hrel (hfilter i c ids)
  · exact hfit

/-- A new select list is the last clause. -/
theorem last?_of_records (hx : Tracked input x) (hfilter : ∀ i c ids, rel ≠ .filter i c ids)
    (hr : Records env rel (x.expecting [.select]) m n r) : Clause.last? r.clauses = some .select := by
  obtain ⟨name, rfl, -⟩ := hr
  rw [recorded_clauses]
  unfold Result.builderOver
  cases hwrap : (x.expecting [.select]).mustWrap env rel with
  | true => rfl
  | false => exact last?_of_select (fit_of_unwrapped hx hfilter hwrap)

/-- Windowed calls are not put over a select list. -/
theorem not_window_of_select (hx : Tracked input x)
    (hrel : WrapCheck.projectsWindow rel = true ∨ ∃ i groups constants names, rel = .window i groups constants names)
    (hselect : .select ∈ x.clauses) : (x.expecting [.select]).mustWrap env rel = true := by
  by_contra hwrap
  rw [Bool.not_eq_true] at hwrap
  have hfilter : ∀ i c ids, rel ≠ .filter i c ids := by
    rintro i c ids rfl
    rcases hrel with h | ⟨_, _, _, _, h⟩
    · simp [WrapCheck.projectsWindow, WrapCheck.projects?] at h
    · cases h
  have hlast : Clause.last? x.clauses = some .select := by
    refine last?_eq_of_rank hselect fun d hd => ?_
    rcases rank_of_fit (fit_of_unwrapped hx hfilter hwrap) hd (e := .select) (by simp) with hlt | ⟨-, hle⟩
    · exact hlt.le
    · exact hle
  have hqualify : qualifyOverWindow (wrapCheck env (x.expecting [.select]) rel) ≠ some false := by
    unfold qualifyOverWindow
    split
    · rename_i i c ids h
      exact absurd h (hfilter i c ids)
    · simp
  refine middleRule_ne_true (r := x.expecting [.select]) hx.used hqualify hwrap
    (show windowOverSelect ∈ middleRules by simp [middleRules]) ?_
  have hlast' : (wrapCheck env (x.expecting [.select]) rel).selectsLast = true := by
    simp [WrapCheck.selectsLast, wrapCheck, Result.expecting, hlast]
  unfold windowOverSelect
  rcases hrel with hwindow | ⟨i, groups, constants, names, rfl⟩
  · split
    · simp [wrapIf, hlast']
    · rename_i r hr
      have : WrapCheck.projectsWindow (wrapCheck env (x.expecting [.select]) rel).rel = true := hwindow
      simp [wrapIf, hlast', this]
  · change wrapIf (wrapCheck env (x.expecting [.select]) (.window i groups constants names)).selectsLast = some true
    rw [hlast']
    rfl

end

/-! ## Filters are merged -/

section

variable {input : Rel} {x : Result} {condition : Expr} {ids : List String}

/-- A rule that says something about other operators than a filter leaves the question open. -/
theorem unwrapped_of_rules {r : Result} {rel : Rel} (h : ∀ rule ∈ wrapRules, rule (wrapCheck env r rel) = none) :
    r.mustWrap env rel = false := by
  have hnone : (wrapRules.findSome? fun rule => rule (wrapCheck env r rel)) = none :=
    List.findSome?_eq_none_iff.mpr h
  change needsWrapping (wrapCheck env r rel) = false
  simp [needsWrapping, hnone]

/-- **A filter on groups** is merged into the query of the aggregation. -/
theorem Origins.merges_having {input : Rel} {keys : List Ordinal} {sets : List (List Ordinal)}
    {calls : List AggregateCall} (hx : Tracked (.aggregate input keys sets calls) x)
    (ho : Origins env.dialect (.aggregate input keys sets calls) x) :
    (x.expecting [.having] (ignoresClauses (.filter (.aggregate input keys sets calls) condition ids))).mustWrap
      env (.filter (.aggregate input keys sets calls) condition ids) = false := by
  have hignores : ignoresClauses (.filter (.aggregate input keys sets calls) condition ids)
      = ignoresClauses (.aggregate input keys sets calls) := by cases input <;> rfl
  have hused : x.clauses.isEmpty = false := List.isEmpty_eq_false_iff.mpr hx.used
  obtain ⟨-, hends⟩ := ho.aggregates rfl
  have hfit : Clause.fit x.clauses (if ignoresClauses (.aggregate input keys sets calls) then [] else [.having])
      = true := by
    cases hig : ignoresClauses (.aggregate input keys sets calls) with
    | true =>
      unfold Clause.fit
      split <;> rfl
    | false =>
      unfold Clause.fit
      split
      · rfl
      · rename_i last hlast
        have hle := hends hig last (mem_of_last? hlast)
        simp only [Bool.false_eq_true, if_false, List.all_cons, List.all_nil, Bool.and_true, Clause.follows,
          Bool.or_eq_true, decide_eq_true_eq]
        exact .inl (Nat.lt_of_le_of_lt hle (by decide))
  refine unwrapped_of_rules fun rule hrule => ?_
  rw [hignores]
  simp only [wrapRules, List.mem_cons, List.not_mem_nil, or_false] at hrule
  rcases hrule with rfl | rfl | rfl | hrule
  · simp [noClausesYet, wrapCheck, Result.expecting, hused]
  · simp [qualifyOverWindow, wrapCheck, WrapCheck.projectsWindow, WrapCheck.projects?]
  · cases hig : ignoresClauses (.aggregate input keys sets calls) <;> rw [hig] at hfit <;>
      simp_all [clauseOrder, wrapCheck, Result.expecting, wrapIf, List.eraseDups_cons]
  · rcases hrule with rfl | rfl | rfl | rfl | rfl | rfl | rfl | rfl | rfl | rfl | rfl | rfl <;>
      simp [distinctProjection, aggregateInGroupBy, nestedWindow, nestedAggregate, groupByNameDropped,
        groupByWindow, windowInAggregate, sortOverIntersect, havingNameUsed, windowOverSelect,
        aggregateOverAggregate, groupByNameInHaving, wrapCheck, WrapCheck.projectsWindow, WrapCheck.projects?,
        wrapIf]

/-- **A filter on windowed calls** is merged into the query of the projection. -/
theorem Origins.merges_qualify {input : Rel} {projects : List Expr} {names : List String} {distinct : Bool}
    {others : List String} (hx : Tracked (.project input projects names distinct others) x)
    (ho : Origins env.dialect (.project input projects names distinct others) x)
    (hclause : filterClause env (.project input projects names distinct others) condition = .qualify)
    {ignores : Bool} :
    (x.expecting [.qualify] ignores).mustWrap env
      (.filter (.project input projects names distinct others) condition ids) = false := by
  have hused : x.clauses.isEmpty = false := List.isEmpty_eq_false_iff.mpr hx.used
  obtain ⟨⟨hcapable, hwindow⟩, hplain⟩ : (env.dialect.capabilities.qualify = true
      ∧ projects.any (·.containsOver) = true) ∧ condition.containsOver = false := by
    simp only [filterClause] at hclause
    split at hclause
    · rename_i h
      simpa [Bool.and_eq_true] using h
    · cases hclause
  have hlast := ho.projects rfl
  change needsWrapping (wrapCheck env (x.expecting [.qualify] ignores) _) = false
  have hfirst : noClausesYet (wrapCheck env (x.expecting [.qualify] ignores)
      (.filter (.project input projects names distinct others) condition ids)) = none := by
    simp [noClausesYet, wrapCheck, Result.expecting, hused]
  have hsecond : qualifyOverWindow (wrapCheck env (x.expecting [.qualify] ignores)
      (.filter (.project input projects names distinct others) condition ids)) = some false := by
    simp only [qualifyOverWindow, wrapCheck, Result.expecting, WrapCheck.projectsWindow, WrapCheck.projects?,
      WrapCheck.selectsLast, hlast, hcapable, hplain, Option.any_some, hwindow]
    rfl
  simp [needsWrapping, wrapRules, hfirst, hsecond]

/-- A filter on rows over a SELECT is put around it. -/
theorem Flat.not_merges_where (hx : Flat schema input x) (hkind : x.node.kind = .select)
    (hclause : filterClause env input condition = .where) :
    (x.expecting [.where] (ignoresClauses (.filter input condition ids))).mustWrap env
      (.filter input condition ids) = true := by
  by_contra hwrap
  rw [Bool.not_eq_true] at hwrap
  have hignores : ignoresClauses (.filter input condition ids) = false := by
    cases input <;> first | rfl | simp [filterClause] at hclause
  rcases unwrapped_cases (r := x.expecting [.where] _) hx.tracked.used hwrap with
    ⟨i, c, is, heq, -, hqualify⟩ | ⟨hfit, -⟩
  · obtain ⟨rfl, rfl, -⟩ : input = i ∧ condition = c ∧ ids = is := by simpa using heq
    rw [hclause] at hqualify
    cases hqualify
  · obtain ⟨c, hc, hrank⟩ := hx.late hkind
    rw [hignores] at hfit
    rcases rank_of_fit hfit hc (e := .where) (by simp [Result.expecting]) with hlt | ⟨he, -⟩
    · have : Clause.rank .where = 1 := rfl
      omega
    · cases he

end

/-! ## Operators -/

section

variable {input : Rel} {x r : Result}

/-- The clauses of a leaf have no origins. -/
theorem Origins.of_leaf {rel : Rel} (hhaving : x.node.kind = .select → x.node.child? "having" = none)
    (hqualify : x.node.kind = .select → x.node.child? "qualify" = none) (hgroups : .groupBy ∉ x.clauses)
    (hlists : x.node.kind = .select → ∃ c ∈ x.clauses, Clause.groupBy.rank ≤ c.rank) (hrel : ∀ i, rel.inputs ≠ [i]) : Origins env.dialect rel x where
  having hkind hgiven := absurd (hhaving hkind) hgiven
  qualify hkind hgiven := absurd (hqualify hkind) hgiven
  groups h := absurd h hgroups
  lists hkind _ := hlists hkind
  aggregates := by
    rintro i keys sets calls rfl
    exact absurd rfl (hrel i)
  projects := by
    rintro i projects names distinct ids rfl
    exact absurd rfl (hrel i)

theorem origins_filter (henv : env.NeverQualifies) {condition : Expr} {ids : List String}
    (hx : Flat schema input x) (ho : Origins env.dialect input x)
    (h : (filterResult env sub input condition ids (.filter input condition ids) x).Gives s r s') :
    Origins env.dialect (.filter input condition ids) r := by
  obtain ⟨name, hsingle, -⟩ := hx.single
  obtain ⟨y, m, s₁, s₂, c, s₃, rfl, hm, -, hr⟩ := hsingle.filter_step henv h
  have hsort : ignoresClauses (.filter input condition ids) = true → isSort input = false := fun hignores => by
    cases input <;> first | rfl | simp [ignoresClauses] at hignores
  obtain ⟨hhaving, hqualify, hlists⟩ := ho.inherited henv hx hm hr (by simp) rfl hsort
  have hnew : .groupBy ∉ [filterClause env input condition] := by
    rcases filterClause_three env input condition with hc | hc | hc <;> simp [hc]
  have hgroups : .groupBy ∈ r.clauses → (Rel.filter input condition ids).every ungrouped = false := fun hgroup => by
    rw [Rel.every, ho.groups_below hr hnew hgroup, Bool.and_false]
  have hnode := hr.node_eq
  have hlist : r.node.selectList? = m.selectList? := by
    rw [hnode]
    unfold withCondition selectList?
    split <;> exact list?_set_of_ne _ _ (by decide)
  have hlists' : r.node.kind = .select → r.node.selectList? ≠ none →
      ∃ c ∈ r.clauses, Clause.groupBy.rank ≤ c.rank := fun _ hgiven => hlists (by rwa [hlist] at hgiven)
  rcases filterClause_three env input condition with hclause | hclause | hclause
  · -- HAVING: the input is an aggregation, which is not wrapped
    obtain ⟨i, keys, sets, calls, rfl⟩ : ∃ i keys sets calls, input = .aggregate i keys sets calls := by
      cases input with
      | aggregate i keys sets calls => exact ⟨i, keys, sets, calls, rfl⟩
      | project =>
        simp only [filterClause] at hclause
        split at hclause <;> cases hclause
      | _ => simp [filterClause] at hclause
    have hmerged : (x.expecting [.having] (ignoresClauses (.filter (.aggregate i keys sets calls) condition
        ids))).mustWrap env (.filter (.aggregate i keys sets calls) condition ids) = false :=
      ho.merges_having hx.tracked
    rw [hclause] at hr
    have hgroup : .groupBy ∈ r.clauses := hr.mem_clauses_iff.mpr (.inr ⟨hmerged, (ho.aggregates rfl).1⟩)
    refine ⟨fun _ _ => hgroup, fun hkind hgiven => ⟨?_, fun _ => .inl hgroup⟩, hgroups, hlists', by simp, by simp⟩
    refine (hqualify ?_).2.2.1
    rwa [hnode, hclause, withCondition, child?_set_of_ne _ _ (by decide)] at hgiven
  · -- QUALIFY: the input is a projection with windowed calls, which is not wrapped
    obtain ⟨i, projects, names, distinct, others, rfl⟩ : ∃ i projects names distinct others,
        input = .project i projects names distinct others := by
      cases input with
      | project i projects names distinct others => exact ⟨i, projects, names, distinct, others, rfl⟩
      | _ => simp [filterClause] at hclause
    have hmerged : (x.expecting [.qualify] (ignoresClauses (.filter (.project i projects names distinct others)
        condition ids))).mustWrap env (.filter (.project i projects names distinct others) condition ids) = false :=
      ho.merges_qualify hx.tracked hclause
    rw [hclause] at hr
    have hfilters : filtersWindows env.dialect (.filter (.project i projects names distinct others) condition ids)
        = true := by
      simp only [filterClause] at hclause
      split at hclause
      · assumption
      · cases hclause
    refine ⟨fun hkind hgiven => hhaving ?_, fun hkind hgiven => ⟨?_, fun _ => .inr ?_⟩, hgroups, hlists', by simp, by simp⟩
    · rwa [hnode, hclause, withCondition, child?_set_of_ne _ _ (by decide)] at hgiven
    · exact hr.mem_clauses_iff.mpr (.inr ⟨hmerged, mem_of_last? (ho.projects rfl)⟩)
    · exact hfilters
  · -- WHERE: a SELECT is wrapped, so the query is a star
    have hstar : ∀ key ∈ ["having", "qualify"], m.child? key = none := by
      intro key hkey
      by_contra hgiven
      obtain ⟨rfl, hkind, hwrap⟩ := hx.opened_condition henv hm hkey hgiven
      rw [hclause, hx.not_merges_where hkind hclause] at hwrap
      cases hwrap
    refine ⟨fun hkind hgiven => absurd ?_ hgiven, fun hkind hgiven => absurd ?_ hgiven, hgroups, hlists', by simp, by simp⟩
    · rw [hnode, hclause, withCondition, child?_set_of_ne _ _ (by decide)]
      · exact hstar _ (by simp)
      all_goals simp
    · rw [hnode, hclause, withCondition, child?_set_of_ne _ _ (by decide)]
      · exact hstar _ (by simp)
      all_goals simp

/-- A new select list and DISTINCT leave the conditions. -/
theorem child?_projected {m n : Node} {distinct : Bool} (hlist : n = m ∨ ∃ items, n = withList m items)
    {key : String} (hkey : key ∈ ["having", "qualify"]) :
    (if distinct then n.set "distinct" (some (.flag true)) else n).child? key = m.child? key := by
  simp only [List.mem_cons, List.not_mem_nil, or_false] at hkey
  rcases hkey with rfl | rfl <;> rcases hlist with rfl | ⟨items, rfl⟩ <;> cases distinct <;>
    simp [withList, child?_set_of_ne]

theorem origins_project (henv : env.NeverQualifies) {projects : List Expr} {names : List String}
    {distinct : Bool} {ids : List String} (hx : Flat schema input x) (ho : Origins env.dialect input x)
    (h : (projectResult env sub input projects distinct ids
      (.project input projects names distinct ids) x).Gives s r s') :
    Origins env.dialect (.project input projects names distinct ids) r := by
  obtain ⟨name, hsingle, -⟩ := hx.single
  obtain ⟨y, m, s₁, s₂, n, rfl, hm, hlist, hr⟩ := hsingle.project_step henv h
  obtain ⟨hhaving, hqualify, -⟩ := ho.inherited henv hx hm hr (by simp) rfl (by simp)
  have hlist' : n = m ∨ ∃ items, n = withList m items := by
    rcases hlist with ⟨-, rfl⟩ | ⟨-, ns, t, -, -, rfl⟩
    · exact .inl rfl
    · exact .inr ⟨_, rfl⟩
  have hchild : ∀ key ∈ ["having", "qualify"], r.node.child? key = m.child? key := fun key hkey => by
    rw [hr.node_eq, child?_projected hlist' hkey]
  refine ⟨fun _ hgiven => hhaving ?_, fun _ hgiven => ?_, fun hgroup => ?_, fun _ _ => ⟨.select,
    hr.mem_clauses_iff.mpr (.inl (by simp [Result.expecting])), by decide⟩, by simp, fun _ =>
    last?_of_records hx.tracked (by simp) hr⟩
  · rwa [hchild _ (by simp)] at hgiven
  · rw [hchild _ (by simp)] at hgiven
    obtain ⟨hwrap, hselect, hmem, horigin⟩ := hqualify hgiven
    refine ⟨hmem, fun _ => horigin.imp_right fun hfilters => ?_⟩
    -- windowed calls would have been put around the query
    have hplain : projects.any (·.containsOver) = false := by
      by_contra hwindow
      rw [Bool.not_eq_false] at hwindow
      have hmust : (x.expecting [.select]).mustWrap env (.project input projects names distinct ids) = true :=
        not_window_of_select hx.tracked (.inl (by simpa [WrapCheck.projectsWindow, WrapCheck.projects?] using hwindow))
          hselect
      rw [hmust] at hwrap
      cases hwrap
    simp [filtersWindows, hplain, hfilters]
  · rw [Rel.every, ho.groups_below hr (by simp) hgroup, Bool.and_false]

/-- The clauses of an aggregation leave the conditions. -/
theorem child?_aggregated {m : Node} {items groups : List Node} {hasCalls : Bool} {key : String}
    (hkey : key ∈ ["having", "qualify"]) : (aggregated m items groups hasCalls).child? key = m.child? key := by
  simp only [List.mem_cons, List.not_mem_nil, or_false] at hkey
  unfold aggregated
  rcases hkey with rfl | rfl <;> dsimp only <;> split <;> simp [withList, child?_set_of_ne]

theorem origins_aggregate (henv : env.NeverQualifies) {keys : List Ordinal} {sets : List (List Ordinal)}
    {calls : List AggregateCall} (hx : Flat schema input x) (ho : Origins env.dialect input x)
    (h : (aggregateResult env keys sets calls (.aggregate input keys sets calls) x).Gives s r s') :
    Origins env.dialect (.aggregate input keys sets calls) r := by
  obtain ⟨name, hsingle, -⟩ := hx.single
  obtain ⟨y, m, s₁, ks, gs, as, rfl, hm, -, -, -, -, hr⟩ := hsingle.aggregate_step henv h
  have hsort : ignoresClauses (.aggregate input keys sets calls) = true → isSort input = false := fun hignores => by
    cases input <;> first | rfl | simp [ignoresClauses] at hignores
  obtain ⟨-, hqualify, -⟩ := ho.inherited henv hx hm hr (by simp) rfl hsort
  have hgroup : .groupBy ∈ r.clauses := hr.mem_clauses_iff.mpr (.inl (by simp [Result.expecting]))
  refine ⟨fun _ _ => hgroup, fun _ hgiven => ⟨?_, fun _ => .inl hgroup⟩, fun _ => by simp [Rel.every, ungrouped],
    fun _ _ => ⟨_, hgroup, Nat.le_refl _⟩,
    fun hrel => ⟨hgroup, fun hignores c hc => ?_⟩, by simp⟩
  · refine (hqualify ?_).2.2.1
    rwa [hr.node_eq, child?_aggregated (by simp)] at hgiven
  · rcases hr.mem_clauses_iff.mp hc with hnew | ⟨hwrap, hold⟩
    · obtain rfl : c = .groupBy := by simpa [Result.expecting] using hnew
      exact Nat.le_refl _
    · rw [hignores] at hwrap
      rcases rank_of_fit (fit_of_unwrapped hx.tracked (by simp) hwrap) hold (e := .groupBy) (by simp) with hlt | ⟨he, -⟩
      · exact hlt.le
      · cases he

theorem origins_window (henv : env.NeverQualifies) {groups : List (WindowGroup Expr)}
    {constants : List Literal} {names : List String} (hx : Flat schema input x) (ho : Origins env.dialect input x)
    (h : (windowResult env sub input groups constants (.window input groups constants names) x).Gives
      s r s') : Origins env.dialect (.window input groups constants names) r := by
  obtain ⟨name, hsingle, -⟩ := hx.single
  obtain ⟨y, m, s₁, s₂, calls, columns, rfl, hm, -, -, -, hr⟩ := hsingle.window_step henv h
  obtain ⟨hhaving, hqualify, -⟩ := ho.inherited henv hx hm hr (by simp) rfl (by simp)
  have hchild : ∀ key ∈ ["having", "qualify"], r.node.child? key = m.child? key := fun key hkey => by
    simp only [List.mem_cons, List.not_mem_nil, or_false] at hkey
    rw [hr.node_eq]
    rcases hkey with rfl | rfl <;> simp [withList, child?_set_of_ne]
  refine ⟨fun _ hgiven => hhaving ?_, fun _ hgiven => ?_, fun hgroup => ?_, fun _ _ => ⟨.select,
    hr.mem_clauses_iff.mpr (.inl (by simp [Result.expecting])), by decide⟩, by simp, by simp⟩
  · rwa [hchild _ (by simp)] at hgiven
  · -- a query with QUALIFY has a select list, so it is wrapped
    rw [hchild _ (by simp)] at hgiven
    obtain ⟨hwrap, hselect, -, -⟩ := hqualify hgiven
    rw [not_window_of_select hx.tracked (.inr ⟨_, _, _, _, rfl⟩) hselect] at hwrap
    cases hwrap
  · rw [Rel.every, ho.groups_below hr (by simp) hgroup, Bool.and_false]

theorem origins_sort (henv : env.NeverQualifies) {root : Bool} {collation : List Collation}
    {offset fetch : Option Expr} (hx : Flat schema input x) (ho : Origins env.dialect input x)
    (h : (sortResult env sub root collation offset fetch (.sort input collation offset fetch) x).Gives
      s r s') : Origins env.dialect (.sort input collation offset fetch) r := by
  obtain ⟨name, hsingle, -⟩ := hx.single
  obtain ⟨y, m, s₁, l, keys, limit, s₂, skip, s₃, rfl, hm, hl, -, -, -, hr⟩ := hsingle.sort_step henv h
  obtain ⟨hhaving, hqualify, -⟩ := ho.inherited henv hx hm hr (by simp) rfl (by simp)
  have hchild : ∀ key ∈ ["having", "qualify"], r.node.child? key = m.child? key := fun key hkey => by
    have hlimit : ∀ {n : Node} {k : String} (kind : Kind) (c : Option Node), k ∈ ["limit", "offset"] →
        (withLimit n k kind c).child? key = n.child? key := by
      intro n k kind c hk
      simp only [List.mem_cons, List.not_mem_nil, or_false] at hkey hk
      unfold withLimit
      split
      · rcases hkey with rfl | rfl <;> rcases hk with rfl | rfl <;> simp [child?_set_of_ne]
      · rfl
    have hlisted : l.child? key = m.child? key := by
      simp only [List.mem_cons, List.not_mem_nil, or_false] at hkey
      unfold Spelled at hl
      split at hl
      · obtain ⟨columns, -, -, rfl⟩ := hl
        rcases hkey with rfl | rfl <;> simp [withList, child?_set_of_ne]
      · rw [hl]
    rw [hr.node_eq, sorted, hlimit _ _ (by simp), hlimit _ _ (by simp), ← hlisted]
    simp only [List.mem_cons, List.not_mem_nil, or_false] at hkey
    split
    · rfl
    · rcases hkey with rfl | rfl <;> simp [child?_set_of_ne]
  refine ⟨fun _ hgiven => hhaving ?_, fun _ hgiven => ⟨?_, by simp [isSort]⟩, fun hgroup => ?_,
    fun _ _ => ⟨.orderBy, hr.mem_clauses_iff.mpr (.inl (by simp [Result.expecting, List.eraseDups_cons])), by decide⟩,
    by simp, by simp⟩
  · rwa [hchild _ (by simp)] at hgiven
  · refine (hqualify ?_).2.2.1
    rwa [hchild _ (by simp)] at hgiven
  · rw [Rel.every, ho.groups_below hr (by simp) hgroup, Bool.and_false]

end

/-! ## Plans -/

theorem origins_scan (henv : env.NeverQualifies) {table : List String} {fields : RowType} {r : Result}
    (h : (scanResult env table (.scan table fields)).Gives s r s') : Origins env.dialect (.scan table fields) r := by
  have hkind : r.node.kind ≠ .select := by simp [kind_scanResult h]
  simp only [scanResult, ConvertM.gives_bind, ConvertM.gives_lift, ConvertM.gives_makeResult henv] at h
  obtain ⟨t, s₁, -, rfl, -⟩ := h
  exact .of_leaf (fun hselect => absurd hselect hkind) (fun hselect => absurd hselect hkind)
    (by simp) (fun hselect => absurd hselect hkind) (by simp [Rel.inputs])

theorem origins_values (henv : env.NeverQualifies) {fields : RowType} {tuples : List (List Literal)} {r : Result}
    (h : (valuesResult env fields tuples (.values fields tuples)).Gives s r s') :
    Origins env.dialect (.values fields tuples) r := by
  obtain ⟨⟨name, hn⟩, -⟩ := valuesResult_built h
  simp only [valuesResult, ConvertM.gives_bind, ConvertM.gives_lift, ConvertM.gives_makeResult henv] at h
  obtain ⟨other, s₁, -, n, s₂, -, rfl, -⟩ := h
  have hbare : ∀ key ∈ ["group", "having", "qualify", "order", "limit", "offset"],
      n.kind = .select → n.child? key = none := fun key hkey hselect => by
    rw [recorded_node] at hn
    simp [child?, bare_values hn hselect key hkey]
  refine .of_leaf (fun hselect => ?_) (fun hselect => ?_) (by simp) (fun _ => ⟨.select, by simp, by decide⟩)
    (by simp [Rel.inputs])
  · rw [recorded_node] at hselect ⊢
    exact hbare _ (by simp) hselect
  · rw [recorded_node] at hselect ⊢
    exact hbare _ (by simp) hselect

theorem origins_setOp (henv : env.NeverQualifies) {op : SetOperator} {all : Bool} {inputs : List Rel}
    {selects : List Node} {r : Result} (hinputs : 2 ≤ inputs.length) (hselects : selects.length = inputs.length)
    (h : (setOpResult env op all (.setOp op all inputs) selects).Gives s r s') :
    Origins env.dialect (.setOp op all inputs) r := by
  obtain ⟨first, second, rest, rfl⟩ : ∃ first second rest, selects = first :: second :: rest := by
    match selects, hselects with
    | [], hl => simp at hl; omega
    | [_], hl => simp at hl; omega
    | first :: second :: rest, _ => exact ⟨first, second, rest, rfl⟩
  simp only [setOpResult, ConvertM.gives_makeResult henv] at h
  obtain ⟨rfl, -⟩ := h
  have hkind : ∀ u : Node, u.kind ≠ .select → ((rest.foldl (fun u n => Node.setOperation (setKind op) u n !all)
      u).kind ≠ .select) := fun u hu => by
    rcases kind_setOperations (setKind op) (!all) rest u with hsame | hk
    · rwa [hsame]
    · rw [hk]
      exact (setKind_traits op).2.2.2
  have hnode := hkind (Node.setOperation (setKind op) first second !all) (setKind_traits op).2.2.2
  refine .of_leaf (fun hselect => absurd ?_ hnode) (fun hselect => absurd ?_ hnode) (by simp)
    (fun _ => ⟨.setOp, by simp, by decide⟩) ?_
  · rw [recorded_node] at hselect
    exact hselect
  · rw [recorded_node] at hselect
    exact hselect
  · rintro i rfl
    simp at hinputs

/-- **`relationResult`** — the clauses of every plan without joins have their origins. -/
theorem origins_relationResult (henv : env.NeverQualifies) (hmap : env.fieldMap = []) (rel : Rel) {root : Bool}
    {s s' : State} {r : Result} (hrel : rel.every (joinFree schema) = true)
    (h : (relationResult env sub root rel).Gives s r s') : Origins env.dialect rel r := by
  cases rel with
  | scan table fields =>
    rw [relationResult] at h
    exact origins_scan henv h
  | values fields tuples =>
    rw [relationResult] at h
    exact origins_values henv h
  | filter input condition ids =>
    simp only [Rel.every, Bool.and_eq_true] at hrel
    rw [relationResult, ConvertM.gives_bind] at h
    obtain ⟨x, t, hx, h⟩ := h
    exact origins_filter henv (flat_relationResult henv hmap input hrel.2 hx)
      (origins_relationResult henv hmap input hrel.2 hx) h
  | project input projects names distinct ids =>
    simp only [Rel.every, Bool.and_eq_true] at hrel
    rw [relationResult, ConvertM.gives_bind] at h
    obtain ⟨x, t, hx, h⟩ := h
    exact origins_project henv (flat_relationResult henv hmap input hrel.2 hx)
      (origins_relationResult henv hmap input hrel.2 hx) h
  | aggregate input keys sets calls =>
    simp only [Rel.every, Bool.and_eq_true] at hrel
    rw [relationResult, ConvertM.gives_bind] at h
    obtain ⟨x, t, hx, h⟩ := h
    exact origins_aggregate henv (flat_relationResult henv hmap input hrel.2 hx)
      (origins_relationResult henv hmap input hrel.2 hx) h
  | window input groups constants names =>
    simp only [Rel.every, Bool.and_eq_true] at hrel
    rw [relationResult, ConvertM.gives_bind] at h
    obtain ⟨x, t, hx, h⟩ := h
    exact origins_window henv (flat_relationResult henv hmap input hrel.2 hx)
      (origins_relationResult henv hmap input hrel.2 hx) h
  | sort input collation offset fetch =>
    simp only [Rel.every, Bool.and_eq_true] at hrel
    rw [relationResult, ConvertM.gives_bind] at h
    obtain ⟨x, t, hx, h⟩ := h
    exact origins_sort henv (flat_relationResult henv hmap input hrel.2 hx)
      (origins_relationResult henv hmap input hrel.2 hx) h
  | setOp op all inputs =>
    simp only [Rel.every, joinFree, Bool.and_eq_true, decide_eq_true_eq] at hrel
    rw [relationResult, ConvertM.gives_bind] at h
    obtain ⟨ns, t, hns, h⟩ := h
    exact origins_setOp henv hrel.1 (shaped_relationSelects henv hmap inputs hrel.2 hns).length_eq.symm h
  | join => simp [Rel.every, joinFree] at hrel
  | tableFunction => simp [Rel.every, joinFree] at hrel
  | rowPattern => simp [Rel.every, joinFree] at hrel

/-! ## Conditions of an aggregation -/

/-- **An aggregation** over one that is not grouped is put into a query without HAVING, and without QUALIFY
unless windowed calls are filtered below. -/
theorem Origins.fresh_aggregate (henv : env.NeverQualifies) {input : Rel} {x : Result} {keys : List Ordinal}
    {sets : List (List Ordinal)} {calls : List AggregateCall} (hx : Flat schema input x) (ho : Origins env.dialect input x)
    (hnested : env.dialect.capabilities.nestedAggregates = true → input.every ungrouped = true)
    {m : Node} (hm : Opening env (x.expecting [.groupBy] (ignoresClauses (.aggregate input keys sets calls)))
      (.aggregate input keys sets calls) s m s') :
    m.child? "having" = none ∧ (filtersWindows env.dialect input = false → m.child? "qualify" = none) := by
  have hsort : ignoresClauses (.aggregate input keys sets calls) = true → isSort input = false := fun hignores => by
    cases input <;> first | rfl | simp [ignoresClauses] at hignores
  generalize ignoresClauses (.aggregate input keys sets calls) = ignores at hm hsort
  have hungrouped : m.child? "having" ≠ none ∨ m.child? "qualify" ≠ none → .groupBy ∉ x.clauses := by
    intro hgiven hgroup
    have hwrap : (x.expecting [.groupBy] ignores).mustWrap env (.aggregate input keys sets calls) = false := by
      rcases hgiven with h | h
      · exact (hx.opened_condition henv hm (by simp) h).2.2
      · exact (hx.opened_condition henv hm (by simp) h).2.2
    cases hcapable : env.dialect.capabilities.nestedAggregates with
    | true =>
      have := hnested hcapable
      rw [ho.groups hgroup] at this
      cases this
    | false =>
      have hqualify : qualifyOverWindow (wrapCheck env (x.expecting [.groupBy] ignores)
          (.aggregate input keys sets calls)) ≠ some false := by simp [qualifyOverWindow, wrapCheck]
      have hplain := middleRule_ne_true (r := x.expecting [.groupBy] ignores) hx.tracked.used hqualify hwrap
        (show nestedAggregate ∈ middleRules by simp [middleRules])
      rcases unwrapped_cases (r := x.expecting [.groupBy] ignores) hx.tracked.used hwrap with
        ⟨_, _, _, heq, -⟩ | ⟨-, hverdict⟩
      · cases heq
      · -- the aggregate of an aggregate would have been wrapped
        have hcontains : x.clauses.contains .groupBy = true := by simpa using hgroup
        simp only [aggregateOverAggregate, wrapCheck, Result.expecting, hcontains, if_true, ne_eq,
          Option.some.injEq, Bool.not_eq_true, Bool.or_eq_false_iff, Bool.not_eq_eq_eq_not, Bool.not_false] at hverdict
        have hcalls := hverdict.1
        refine hplain ?_
        simp only [nestedAggregate, wrapCheck, hcapable, Bool.not_false, Bool.true_and]
        exact congrArg wrapIf (hasNested_mono (fun n hn => by simp [hn]) hcalls)
  refine ⟨?_, fun hfilters => ?_⟩
  · by_contra hgiven
    obtain ⟨rfl, hkind, -⟩ := hx.opened_condition henv hm (by simp) hgiven
    exact hungrouped (.inl hgiven) (ho.having hkind hgiven)
  · by_contra hgiven
    obtain ⟨rfl, hkind, hwrap⟩ := hx.opened_condition henv hm (by simp) hgiven
    have hunsorted := hx.tracked.isSort_eq_false (by simp) rfl hsort hwrap
    rcases (ho.qualify hkind hgiven).2 hunsorted with hgroup | htrue
    · exact hungrouped (.inr hgiven) hgroup
    · rw [hfilters] at htrue
      cases htrue

end AlgebraSql.Convert
