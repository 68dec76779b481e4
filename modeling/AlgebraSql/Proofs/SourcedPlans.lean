import AlgebraSql.Proofs.SourcedInputs

/-!
# Sources of plans — no two sources of a SELECT share a name, and none is hidden by one in an expression.

By induction over a plan, the query for it is settled at the level of the plan, and by induction over the depth
of sub-queries so are the queries in expressions.  A table that is read by itself inside an expression is
written under its own name though that name may be taken; so sources are hidden only if a level inside an
expression reads a table that has the name of a source around it.
-/

namespace AlgebraSql.Convert

open Sql Node

variable {α β : Type} {env : Env} {sub : Rel → ConvertM Node} {L : Level} {s s' t : State}

/-! ## Inputs -/

/-- A conversion after a first one that takes the course. -/
theorem OnTheWay.bind {c : ConvertM α} {f : α → ConvertM β} {b : β} (hs : OnlyColumns s) (hc : Grow c)
    (h : (c >>= f).Gives s b s') : ∃ a t, c.Gives s a t ∧ OnTheWay s t ∧ (f a).Gives t b s' := by
  obtain ⟨a, t, ha, hb⟩ := (ConvertM.gives_bind _ _ _ _ _).mp h
  exact ⟨a, t, ha, ⟨hc.onlyColumns ha hs, hc.subset ha⟩, hb⟩

theorem grow_relationResult (hsub : ∀ rel, Grow (sub rel)) (root : Bool) (rel : Rel) :
    Grow (relationResult env sub root rel) := fun bound =>
  steady_relationResult (steadyQueries_of_grow hsub bound) root rel (Rel.satisfies_trivial (trivial_growing bound) rel)

theorem grow_relationSelects (hsub : ∀ rel, Grow (sub rel)) (rels : List Rel) : Grow (relationSelects env sub rels) :=
  fun bound => steady_relationSelects (steadyQueries_of_grow hsub bound) rels
    (Rel.allSatisfy_trivial (trivial_growing bound) rels)

theorem Rel.satisfies_join {k : PlanCheck} {left right : Rel} {condition : Expr} {type : JoinType} {ids : List String}
    (h : (Rel.join left right condition type ids).satisfies k = true) : k.relation (.join left right condition type ids) = true
      ∧ left.satisfies k = true ∧ right.satisfies k = true ∧ condition.satisfies k true = true := by
  simpa only [Rel.satisfies, Bool.and_eq_true, and_assoc] using h

/-- A set operation reads the tables of its inputs. -/
theorem Rel.mem_tablesOf {rels : List Rel} {rel : Rel} (hrel : rel ∈ rels) {name : String} (h : name ∈ rel.tables) :
    name ∈ Rel.tablesOf rels := by
  induction rels with
  | nil => cases hrel
  | cons first rest ih =>
    rw [Rel.tablesOf, List.mem_append]
    rcases List.mem_cons.mp hrel with rfl | hrel
    · exact .inl h
    · exact .inr (ih hrel)

/-- The partner of a test is a level of its own; unless it is a table, it reads no tables with names of sources of
the level around it. -/
theorem Level.Holds.partner {left right : Rel} {condition : Expr} {type : JoinType} {ids : List String}
    (h : L.Holds (.join left right condition type ids)) (htype : type.keepsLeftOnly = true) :
    (L.inside right L.reads).Holds right
      ∧ (right.isScan = false → (L.inside right (clearName L.tables)).Holds right)
      ∧ (L.assumed → ClearExpr L.reads [L.tables, right.tables] true condition) := by
  have hassumed : L.assumed → right.allClear = true ∧ right.satisfies (readsOnly L.reads) = true
      ∧ (right.isScan = false → right.satisfies (readsOnly (clearName L.tables)) = true)
      ∧ ClearExpr L.reads [L.tables, right.tables] true condition := by
    intro hB
    obtain ⟨hclear, hreads, hqueries, hpartners⟩ := h.clear hB
    obtain ⟨hlevel, -, hclear, hcondition⟩ := Rel.satisfies_join hclear
    obtain ⟨-, -, hreads, hconditionReads⟩ := Rel.satisfies_join hreads
    obtain ⟨-, -, -, hconditionQueries⟩ := Rel.satisfies_join hqueries
    obtain ⟨hpartner, -⟩ := Rel.satisfies_join hpartners
    have hlevel : right.levelClear = true := by simpa [levelsClear, htype] using hlevel
    have hpartner : (right.isScan = true ∨ right.satisfies (readsOnly (clearName L.tables)) = true)
        ∧ condition.satisfies (queriesRead (clearName right.tables)) true = true := by
      simpa [partnersClear, htype] using hpartner
    refine ⟨Bool.and_eq_true_iff.mpr ⟨hlevel, hclear⟩, hreads, fun hscan => ?_, hcondition, hconditionReads, ?_⟩
    · exact hpartner.1.resolve_left (by simp [hscan])
    · intro tables htables
      simp only [List.mem_cons, List.not_mem_nil, or_false] at htables
      rcases htables with rfl | rfl
      · exact hconditionQueries
      · exact hpartner.2
  exact ⟨Level.holds_inside fun hB => ⟨(hassumed hB).1, (hassumed hB).2.1⟩,
    fun hscan => Level.holds_inside fun hB => ⟨(hassumed hB).1, (hassumed hB).2.2.1 hscan⟩, fun hB => (hassumed hB).2.2.2⟩

/-- The inputs of a table function are levels of their own that read no tables with names of sources of the level
around them. -/
theorem Level.Holds.argument {inputs : List Rel} {call : Expr} {fields : RowType}
    (h : L.Holds (.tableFunction inputs call fields)) {input : Rel} (hinput : input ∈ inputs) :
    (L.inside input L.reads).Holds input ∧ (L.inside input (clearName L.tables)).Holds input := by
  have hassumed : L.assumed → input.allClear = true ∧ input.satisfies (readsOnly L.reads) = true
      ∧ input.satisfies (readsOnly (clearName L.tables)) = true := by
    intro hB
    obtain ⟨hclear, hreads, -, hpartners⟩ := h.clear hB
    simp only [Rel.satisfies, Bool.and_eq_true, Rel.allSatisfy_iff] at hclear hreads hpartners
    have hlevel : input.levelClear = true := List.all_eq_true.mp hclear.1.1 input hinput
    exact ⟨Bool.and_eq_true_iff.mpr ⟨hlevel, hclear.1.2 input hinput⟩, hreads.1.2 input hinput,
      List.all_eq_true.mp hpartners.1.1 input hinput⟩
  exact ⟨Level.holds_inside fun hB => ⟨(hassumed hB).1, (hassumed hB).2.1⟩,
    Level.holds_inside fun hB => ⟨(hassumed hB).1, (hassumed hB).2.2⟩⟩

/-- A table behind FROM holds no SELECT. -/
theorem allSources_asFrom_table {r : Result} {item : Node} (hkind : r.node.kind = .table) (hnone : r.node.allSources = [])
    (hitem : r.asFrom = .ok item) : item.allSources = [] := by
  unfold Result.asFrom at hitem
  split at hitem
  · rename_i name _
    obtain rfl : r.node.underAlias name r.node.aliasColumns = item := by
      simpa [asFromItem, isFromItem, hkind, Node.underAlias] using hitem
    refine List.eq_nil_iff_forall_not_mem.mpr fun v hv => ?_
    have hmem := mem_allSources_underAlias (by simp [hkind]) hv
    simp [hnone] at hmem
  · cases hitem
    exact hnone

/-! ## Plans -/

mutual

/-- **`relationResult`** — the query for a plan of a level is placed. -/
theorem placed_relationResult (root : Bool) : ∀ (rel : Rel) {L : Level} {s s' : State} {r : Result},
    L.Converts env sub → L.Holds rel → OnlyColumns s → (relationResult env sub root rel).Gives s r s' → Placed L s s' r
  | .scan path fields, L, s, s', r, hL, hrel, _, h => by
    rw [relationResult] at h
    exact (placed_scanResult hL hrel h).1
  | .values fields tuples, L, s, s', r, hL, _, _, h => by
    rw [relationResult] at h
    exact placed_valuesResult hL h
  | .filter input condition ids, L, s, s', r, hL, hrel, hs, h => by
    rw [relationResult] at h
    obtain ⟨x, t, hx, ht, h⟩ := OnTheWay.bind hs (grow_relationResult hL.grow false input) h
    have hinput : L.Holds input := hrel.input (List.Subset.refl _) fun k hk => by
      simp only [Rel.satisfies, Bool.and_eq_true] at hk
      exact hk.1.2
    refine placed_filterResult hL (placed_relationResult false input hL hinput hs hx) ht (hrel.expr fun k hk => ?_) h
    simp only [Rel.satisfies, Bool.and_eq_true] at hk
    exact hk.2
  | .project input projects names distinct ids, L, s, s', r, hL, hrel, hs, h => by
    rw [relationResult] at h
    obtain ⟨x, t, hx, ht, h⟩ := OnTheWay.bind hs (grow_relationResult hL.grow false input) h
    have hinput : L.Holds input := hrel.input (List.Subset.refl _) fun k hk => by
      simp only [Rel.satisfies, Bool.and_eq_true] at hk
      exact hk.1.2
    refine placed_projectResult hL (placed_relationResult false input hL hinput hs hx) ht
      (fun e he => hrel.expr fun k hk => ?_) h
    simp only [Rel.satisfies, Bool.and_eq_true, Scalar.allSatisfy_iff] at hk
    exact hk.2 e he
  | .aggregate input keys sets calls, L, s, s', r, hL, hrel, hs, h => by
    rw [relationResult] at h
    obtain ⟨x, t, hx, ht, h⟩ := OnTheWay.bind hs (grow_relationResult hL.grow false input) h
    have hinput : L.Holds input := hrel.input (List.Subset.refl _) fun k hk => by
      simp only [Rel.satisfies, Bool.and_eq_true] at hk
      exact hk.2
    exact placed_aggregateResult hL (placed_relationResult false input hL hinput hs hx) ht h
  | .join left right condition type ids, L, s, s', r, hL, hrel, hs, h => by
    rw [relationResult] at h
    obtain ⟨x, t, hx, ht, h⟩ := OnTheWay.bind hs (grow_relationResult hL.grow false left) h
    obtain ⟨y, t', hy, ht', h⟩ := OnTheWay.bind ht.columns (grow_relationResult hL.grow false right) h
    have hleft : L.Holds left := hrel.input (by simp [Rel.tables]) fun k hk => (Rel.satisfies_join hk).2.1
    have hleft := placed_relationResult false left hL hleft hs hx
    dsimp only at h
    split at h
    · rename_i htype
      obtain ⟨hright, hclear, hcondition⟩ := hrel.partner htype
      have hplaced := placed_relationResult false right (hL.inside right L.reads) hright ht.columns hy
      have hinner : (L.inside right L.reads).assumed = L.assumed ∧ (L.inside right L.reads).required = L.required := ⟨rfl, rfl⟩
      refine placed_semiJoinResult hL hinner.1 hinner.2 hleft.resetAlias hplaced.resetAlias ht' ht.before
        (fun item hitem v hv => ?_) hcondition h
      have hitem' := hplaced.resetAlias.asFrom hitem
      by_cases hscan : right.isScan = true
      · -- a table has no SELECT inside
        obtain ⟨path, fields, rfl⟩ : ∃ path fields, right = .scan path fields := by
          cases right <;> simp [Rel.isScan] at hscan
          exact ⟨_, _, rfl⟩
        rw [relationResult] at hy
        obtain ⟨-, hnone, hkind⟩ := placed_scanResult (hL.inside _ L.reads) hright hy
        rw [allSources_asFrom_table (by simpa using hkind) (by simpa using hnone) hitem] at hv
        cases hv
      · refine ⟨hitem'.all v hv, ?_⟩
        exact ((placed_relationResult false right (hL.inside right (clearName L.tables)) (hclear (by simpa using hscan))
          ht.columns hy).resetAlias.asFrom hitem).all v hv
    · rename_i htype
      have hright : L.Holds right := hrel.input (by simp [Rel.tables, htype]) fun k hk => (Rel.satisfies_join hk).2.2.1
      have hright := placed_relationResult false right hL hright ht.columns hy
      exact placed_joinResult hL hleft.resetAlias hright.resetAlias ht' ht.before
        (hrel.expr fun k hk => (Rel.satisfies_join hk).2.2.2) h
  | .setOp op all inputs, L, s, s', r, hL, hrel, hs, h => by
    rw [relationResult] at h
    obtain ⟨selects, t, hselects, ht, h⟩ := OnTheWay.bind hs (grow_relationSelects hL.grow inputs) h
    have hinputs : ∀ input ∈ inputs, L.Holds input := by
      intro input hinput
      refine hrel.input (fun name hname => Rel.mem_tablesOf hinput hname) fun k hk => ?_
      simp only [Rel.satisfies, Bool.and_eq_true, Rel.allSatisfy_iff] at hk
      exact hk.2 input hinput
    refine placed_setOpResult hL.never ht.before (fun n hn => ?_) h
    obtain ⟨input, -, hsettled⟩ := settled_relationSelects inputs (fun input hinput => ⟨hL, hinputs input hinput⟩) hs hselects n hn
    exact hsettled
  | .sort input collation offset fetch, L, s, s', r, hL, hrel, hs, h => by
    rw [relationResult] at h
    obtain ⟨x, t, hx, ht, h⟩ := OnTheWay.bind hs (grow_relationResult hL.grow false input) h
    have hinput : L.Holds input := hrel.input (List.Subset.refl _) fun k hk => by
      simp only [Rel.satisfies, Bool.and_eq_true] at hk
      exact hk.1.1.2
    refine placed_sortResult hL (placed_relationResult false input hL hinput hs hx) ht
      (fun e he => hrel.expr fun k hk => ?_) h
    simp only [Rel.satisfies, Bool.and_eq_true] at hk
    rcases he with rfl | rfl
    · exact hk.1.2
    · exact hk.2
  | .window input groups constants names, L, s, s', r, hL, hrel, hs, h => by
    rw [relationResult] at h
    obtain ⟨x, t, hx, ht, h⟩ := OnTheWay.bind hs (grow_relationResult hL.grow false input) h
    have hinput : L.Holds input := hrel.input (List.Subset.refl _) fun k hk => by
      simp only [Rel.satisfies, Bool.and_eq_true] at hk
      exact hk.1.2
    refine placed_windowResult hL (placed_relationResult false input hL hinput hs hx) ht (fun g hg => ⟨fun e he => ?_,
      fun c hc e he => ?_⟩) h
    · refine hrel.expr fun k hk => ?_
      simp only [Rel.satisfies, Bool.and_eq_true, Scalar.groupsSatisfy_iff] at hk
      exact Scalar.satisfies_of_frameSatisfies (hk.2 g hg).1 e he
    · refine hrel.expr fun k hk => ?_
      simp only [Rel.satisfies, Bool.and_eq_true, Scalar.groupsSatisfy_iff] at hk
      exact (hk.2 g hg).2 c hc e he
  | .tableFunction inputs call fields, L, s, s', r, hL, hrel, hs, h => by
    rw [relationResult] at h
    obtain ⟨selects, t, hselects, ht, h⟩ := OnTheWay.bind hs (grow_relationSelects hL.grow inputs) h
    refine placed_tableFunctionResult hL ht (hrel.expr fun k hk => ?_) (fun n hn => ?_) h
    · simp only [Rel.satisfies, Bool.and_eq_true] at hk
      exact hk.2
    · obtain ⟨rel, -, hbrings, -⟩ := settled_relationSelects inputs
        (fun input hinput => ⟨hL.inside input L.reads, (hrel.argument hinput).1⟩) hs hselects n hn
      obtain ⟨rel', -, havoids, -⟩ := settled_relationSelects inputs
        (fun input hinput => ⟨hL.inside input (clearName L.tables), (hrel.argument hinput).2⟩) hs hselects n hn
      exact ⟨hbrings.sound, fun v hv => ⟨hbrings.all v hv, havoids.all v hv⟩⟩
  | .rowPattern input spec, L, s, s', r, hL, hrel, hs, h => by
    rw [relationResult] at h
    obtain ⟨x, t, hx, ht, h⟩ := OnTheWay.bind hs (grow_relationResult hL.grow false input) h
    have hinput : L.Holds input := hrel.input (List.Subset.refl _) fun k hk => by
      simp only [Rel.satisfies, Bool.and_eq_true] at hk
      exact hk.1.2
    refine placed_rowPatternResult hL (placed_relationResult false input hL hinput hs hx) ht
      (fun e he => hrel.expr fun k hk => ?_) h
    simp only [Rel.satisfies, Bool.and_eq_true] at hk
    exact Scalar.satisfies_of_patternSatisfies hk.2 e he

/-- **`relationSelects`** — each query has the sources of a level. -/
theorem settled_relationSelects : ∀ (rels : List Rel) {levelOf : Rel → Level} {s s' : State} {ns : List Node},
    (∀ rel ∈ rels, (levelOf rel).Converts env sub ∧ (levelOf rel).Holds rel) → OnlyColumns s →
    (relationSelects env sub rels).Gives s ns s' →
    ∀ n ∈ ns, ∃ rel ∈ rels, Settled (levelOf rel) s s' n ∧ isPlainQuery n = true
  | [], levelOf, s, s', ns, _, _, h => by
    rw [relationSelects] at h
    obtain ⟨rfl, -⟩ := (ConvertM.gives_pure _ _ _ _).mp h
    simp
  | rel :: rels, levelOf, s, s', ns, hrels, hs, h => by
    obtain ⟨hL, hrel⟩ := hrels rel (by simp)
    rw [relationSelects] at h
    obtain ⟨x, t, hx, ht, h⟩ := OnTheWay.bind hs (grow_relationResult hL.grow false rel) h
    obtain ⟨n, t₁, hn, ht₁, h⟩ := OnTheWay.bind ht.columns (fun _ => x.steady_asSelect) h
    obtain ⟨rest, t₂, hrest, ht₂, h⟩ := OnTheWay.bind ht₁.columns (grow_relationSelects hL.grow rels) h
    obtain ⟨rfl, rfl⟩ := (ConvertM.gives_pure _ _ _ _).mp h
    intro m hm
    rcases List.mem_cons.mp hm with rfl | hm
    · obtain ⟨hsettled, hplain⟩ := (placed_relationResult false rel hL hrel hs hx).selected hL ht.before hn
      exact ⟨rel, by simp, hsettled.later ht₂.before, hplain⟩
    · obtain ⟨other, hother, hsettled, hplain⟩ := settled_relationSelects rels
        (fun rel hrel => hrels rel (List.mem_cons_of_mem _ hrel)) ht₁.columns hrest m hm
      exact ⟨other, List.mem_cons_of_mem _ hother,
        hsettled.mono (List.Subset.trans ht.before ht₁.before) (List.Subset.refl _), hplain⟩

end

/-! ## Sub-queries -/

theorem grow_queryAt (depth : Nat) (rel : Rel) : Grow (queryAt env depth false rel) := fun bound =>
  steady_queryAt depth false (Rel.satisfies_trivial (trivial_growing bound) rel)

/-- A query inside an expression has the sources of its plan. -/
theorem Placed.asQuery (hL : L.Converts env sub) {s₀ : State} {r : Result} {n : Node} (h : Placed L s₀ s r)
    (hbefore : s₀.usedNames ⊆ s.usedNames) (hn : (r.asQuery env).Gives s n s') : Settled L s₀ s' n := by
  unfold Result.asQuery at hn
  split at hn
  · obtain ⟨rfl, rfl⟩ := (ConvertM.gives_pure _ _ _ _).mp hn
    exact h.toSettled
  · split at hn
    · obtain ⟨rfl, rfl⟩ := (ConvertM.gives_pure _ _ _ _).mp hn
      exact h.toSettled
    · exact (h.selected hL hbefore hn).1

/-- **`queryAt`** — the queries in expressions have sound sources, and bring their names. -/
theorem queriesSourced_queryAt (henv : env.NeverQualifies) (hmap : env.fieldMap = []) {B : Prop} {required : Bool}
    (hrequired : required = true → env.dialect.capabilities.fromAliasRequired = true) (depth : Nat) :
    QueriesSourced B required (queryAt env depth false) := by
  have hquery : ∀ sub : Rel → ConvertM Node, (∀ rel, Grow (sub rel)) → QueriesSourced B required sub →
      QueriesSourced B required fun rel => relationResult env sub false rel >>= fun r => r.asQuery env := by
    intro sub hgrow hsub rel ok s n s' hclear hs hn
    let L : Level := { assumed := B, required, tables := rel.tables, reads := ok }
    have hL : L.Converts env sub := ⟨henv, hmap, hrequired, hgrow, hsub⟩
    obtain ⟨r, t, hr, ht, hn⟩ := OnTheWay.bind hs (grow_relationResult hL.grow false rel) hn
    have hrel : L.Holds rel := L.holds_inside hclear
    have hsettled := (placed_relationResult false rel hL hrel hs hr).asQuery hL ht.before hn
    exact ⟨hsettled.sound, hsettled.all⟩
  induction depth with
  | zero =>
    refine hquery (fun _ => Pure.pure Node.null) (fun _ _ => .pure) fun rel ok s n s' _ _ hn => ?_
    obtain ⟨rfl, -⟩ := (ConvertM.gives_pure _ _ _ _).mp hn
    exact sourced_leaf rfl rfl
  | succ depth ih => exact hquery _ (grow_queryAt depth) ih

/-! ## Statements -/

/-- The sources in a statement are sound; none is hidden if the plan is clear. -/
theorem sourcesSound_statement {d : Dialect} (htable : d.capabilities.implicitTableAlias = true)
    (hcolumn : d.capabilities.columnNamedAsTable = true) {rel : Rel} {n : Node} (hn : statement d rel = .ok n) :
    AllSourcesSound (rel.allClear = true) d.capabilities.fromAliasRequired n := by
  rw [statement_eq, ConvertM.value_eq_ok_iff] at hn
  obtain ⟨s, hn⟩ := hn
  have henv : (Env.plain d).NeverQualifies := ⟨htable, hcolumn⟩
  let L : Level := { assumed := rel.allClear = true, required := d.capabilities.fromAliasRequired, tables := rel.tables,
                     reads := fun _ => true }
  have hL : L.Converts (Env.plain d) (queryAt (Env.plain d) rel.queryDepth false) :=
    ⟨henv, rfl, id, grow_queryAt _, queriesSourced_queryAt henv rfl id _⟩
  obtain ⟨r, t, hr, ht, hn⟩ := OnTheWay.bind onlyColumns_start (grow_relationResult hL.grow true rel) hn
  have hreads : rel.satisfies (readsOnly fun _ => true) = true := by
    refine Rel.satisfies_trivial ⟨fun rel => ?_, fun _ _ => rfl⟩ rel
    cases rel <;> simp [readsOnly]
  have hplaced := placed_relationResult true rel hL (L.holds_inside fun hclear => ⟨hclear, hreads⟩) onlyColumns_start hr
  unfold Result.asStatement at hn
  split at hn
  · obtain ⟨rfl, -⟩ := (ConvertM.gives_pure _ _ _ _).mp hn
    exact hplaced.sound
  · exact (hplaced.selected hL ht.before hn).1.sound

/-- **`statement`** — in every statement for a plan the sources of each SELECT have different names, and where the
dialect wants names, every query in parentheses behind FROM has one.  If no level of the plan reads a table that
has the name of a source around it, then no source has the name of one of a SELECT in an expression. -/
theorem statement_sources {d : Dialect} (htable : d.capabilities.implicitTableAlias = true)
    (hcolumn : d.capabilities.columnNamedAsTable = true) {rel : Rel} {n : Node} (hn : statement d rel = .ok n) :
    (∀ q ∈ n.subnodes, q.kind = .select → q.sourceNames.Nodup)
      ∧ (d.capabilities.fromAliasRequired = true → ∀ m ∈ n.subnodes, passesOn m.kind = true → ∀ p ∈ m.args,
        readsAt m.kind p.1 = true → ∀ item ∈ p.2.children, item.kind = .subquery → item.hasAlias = true)
      ∧ (rel.allClear = true → ∀ q ∈ n.subnodes, q.kind = .select → ∀ v ∈ q.sourceNames, v ∉ q.innerSources) := by
  have hsound := sourcesSound_statement htable hcolumn hn
  exact ⟨fun q hq => (hsound q hq).distinct, fun hrequired m hm => (hsound m hm).named hrequired,
    fun hclear q hq => (hsound q hq).visible hclear⟩

/-- Employees and their managers. -/
def staff : RowType := [⟨"id", .integer⟩, ⟨"mgr", .integer⟩]

/-- Offices that the person of the row around heads. -/
def ownOffices : Rel :=
  .filter (.scan ["office"] [⟨"head", .integer⟩])
    (.call .equals [.fieldAccess (.correlation "$cor0" .integer) "id" 0 .integer, .inputRef (0 : Nat) .integer] .boolean) []

/-- Heads of offices among old and new employees, with their managers. -/
def headsOfOffices : Rel :=
  .filter
    (.join (.setOp .union true [.scan ["emp"] staff, .scan ["emp"] staff]) (.scan ["emp"] staff)
      (.call .equals [.inputRef (1 : Nat) .integer, .inputRef (2 : Nat) .integer] .boolean) .inner [])
    (.subQuery .exists [] ownOffices .boolean) ["$cor0"]

/-- The employees behind FROM are `t` and `emp1`, and the offices in the condition are neither. -/
theorem statement_sources_heads : ∃ n, statement .postgres headsOfOffices = .ok n
    ∧ (∀ q ∈ n.subnodes, q.kind = .select → q.sourceNames.Nodup)
    ∧ (∀ m ∈ n.subnodes, passesOn m.kind = true → ∀ p ∈ m.args, readsAt m.kind p.1 = true →
      ∀ item ∈ p.2.children, item.kind = .subquery → item.hasAlias = true)
    ∧ ∀ q ∈ n.subnodes, q.kind = .select → ∀ v ∈ q.sourceNames, v ∉ q.innerSources := by
  have hok : (statement .postgres headsOfOffices).toOption.isSome = true := by decide +kernel
  cases hn : statement .postgres headsOfOffices with
  | error e => simp [hn, Except.toOption] at hok
  | ok n =>
    obtain ⟨hdistinct, hnamed, hvisible⟩ := statement_sources rfl rfl hn
    exact ⟨n, rfl, hdistinct, hnamed rfl, hvisible (by decide +kernel)⟩

/-- Employees that report to the person of the row around. -/
def ownReports : Rel :=
  .filter (.scan ["emp"] staff)
    (.call .equals [.fieldAccess (.correlation "$cor0" .integer) "id" 0 .integer, .inputRef (1 : Nat) .integer] .boolean) []

/-- Employees with reports. -/
def managers : Rel := .filter (.scan ["emp"] staff) (.subQuery .exists [] ownReports .boolean) ["$cor0"]

/-- The table in the condition has the name of the table around it, so `emp.id` is not what was meant. -/
theorem managers_hidden : ∃ n, statement .ansi managers = .ok n
    ∧ ¬ ∀ q ∈ n.subnodes, q.kind = .select → ∀ v ∈ q.sourceNames, v ∉ q.innerSources := by
  have hn : (statement .ansi managers).toOption.map (fun n => (n.kind, n.sourceNames, n.innerSources))
      = some (.select, ["emp"], ["emp"]) := by decide +kernel
  cases hn' : statement .ansi managers with
  | error e => simp [hn', Except.toOption] at hn
  | ok n =>
    rw [hn'] at hn
    simp only [Except.toOption, Option.map_some, Option.some.injEq, Prod.mk.injEq] at hn
    obtain ⟨hkind, hnames, hinner⟩ := hn
    refine ⟨n, rfl, fun h => ?_⟩
    have hself : n ∈ n.subnodes := by
      rw [subnodes_eq]
      exact List.mem_cons_self
    exact h n hself hkind "emp" (by simp [hnames]) (by simp [hinner])

end AlgebraSql.Convert
