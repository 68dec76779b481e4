import AlgebraSql.Proofs.SubstitutedFunctions

/-!
# Substituted plans — the functions of a whole plan.

The steps of a conversion look at the relation they are made for, but never at its operators.  So they are the
same steps for the plan that calls the substitutes, and where an expression is converted, it is converted in
step.  With the names that a statement calls this settles what becomes of the functions of a plan.
-/

namespace AlgebraSql.Convert

open Sql Node

variable {env : Env} {p : Operator → Bool} {other : Operator → Operator} {E : Error → Prop}
  {sub sub' : Rel → ConvertM Node}

/-! ## Results -/

/-- The plan that calls the substitutes. -/
abbrev settledPlan (env : Env) (other : Operator → Operator) (rel : Rel) : Rel := rel.mapOperators (settledIn env other)

theorem fields_settledPlan (rel : Rel) : (settledPlan env other rel).fields = rel.fields :=
  Rel.fields_mapOperators kind_settled rel

theorem tableOf_settledPlan (rel : Rel) : tableOf (settledPlan env other rel) = tableOf rel := by
  cases rel with
  | filter input => cases input <;> rfl
  | project input => cases input <;> rfl
  | _ => rfl

/-- A result is recorded without regard to the operators of its relation. -/
theorem makeResult_settledPlan (n : Node) (clauses : List Clause) (rel : Rel) (aliases : Option Aliases) :
    makeResult env n clauses (settledPlan env other rel) aliases = makeResult env n clauses rel aliases := by
  simp only [makeResult, declaredFields, fields_settledPlan, tableNameOf, tableOf_settledPlan]

theorem firstInputFields_settledPlan (rel : Rel) :
    Result.firstInputFields (settledPlan env other rel) = Result.firstInputFields rel := by
  unfold Result.firstInputFields
  rw [Rel.inputs_mapOperators]
  cases rel.inputs with
  | nil => simp
  | cons input rest =>
    rw [List.map_cons]
    exact congrArg Except.ok (fields_settledPlan input)

/-- Builders that differ in the relation that goes on. -/
def SameBuilder (env : Env) (other : Operator → Operator) (b b' : Builder) : Prop :=
  b' = { b with rel := settledPlan env other b.rel }

/-- **`builder`** — a result is opened for both relations in the same way. -/
theorem follows_builder (r : Result) (rel : Rel) :
    Follows E (SameBuilder env other) (r.builder env rel) (r.builder env (settledPlan env other rel)) := by
  have hwrap : r.mustWrap env (settledPlan env other rel) = r.mustWrap env rel :=
    needsWrapping_mapOperators kind_settled ⟨r.node, rel, r.clauses, _, _⟩
  have hitems : ∀ items, r.itemContext env (settledPlan env other rel) items = r.itemContext env rel items := by
    intro items
    cases rel <;> rfl
  unfold Result.builder
  rw [hwrap, firstInputFields_settledPlan]
  dsimp only
  split
  all_goals
    refine .bind_eq (.refl _) fun select => ?_
    split
    · exact .pure (by rw [SameBuilder, hitems])
    · exact .bind_eq (.refl _) fun fields => .bind_eq (.refl _) fun s => .pure rfl
    · exact .bind_eq (.refl _) fun s => .pure rfl

section Builders

variable {b b' : Builder} (h : SameBuilder env other b b')

include h

theorem SameBuilder.context : b'.context = b.context := by rw [h]

theorem SameBuilder.select : b'.select = b.select := by rw [h]

theorem SameBuilder.result : b'.result env = b.result env := by
  rw [h]
  exact makeResult_settledPlan _ _ _ _

theorem SameBuilder.setSelect (items : List Node) : SameBuilder env other (b.setSelect items) (b'.setSelect items) := by
  rw [h]
  rfl

theorem SameBuilder.follows_put (clause : Clause) (key : String) (n : Node) :
    Follows E (SameBuilder env other) (liftM (b.put clause key n)) (liftM (b'.put clause key n)) := by
  rw [h]
  refine .lift ?_
  unfold Builder.put
  split
  · exact .inr (.inr ⟨_, _, rfl, rfl, rfl⟩)
  · exact .inr (.inl ⟨_, rfl, by rw [Rel.operatorName_mapOperators]⟩)

end Builders

/-! ## Operators -/

theorem filterClause_settledPlan (input : Rel) (condition : Expr) :
    filterClause env (settledPlan env other input) (condition.mapOperators (settledIn env other))
      = filterClause env input condition := by
  cases input with
  | project input projects names distinct ids =>
    simp [filterClause, settledPlan, Rel.mapOperators, Scalar.mapOperatorsOf_eq, List.any_map, Function.comp_def]
  | _ => rfl

theorem ignoresClauses_settledPlan (rel : Rel) : ignoresClauses (settledPlan env other rel) = ignoresClauses rel := by
  cases rel with
  | filter input =>
    cases input with
    | aggregate input => cases input <;> rfl
    | _ => rfl
  | aggregate input => cases input <;> rfl
  | _ => rfl

section Operators

variable (h : FollowsQueries env.dialect p other sub sub')

include h

/-- **A filter** is converted in step. -/
theorem follows_filterResult {input : Rel} {condition : Expr} (hcondition : condition.satisfies (operatorsAre p) true = true)
    (ids : List String) (rel : Rel) (x : Result) :
    Follows (Unsupported env.dialect p) Eq (filterResult env sub input condition ids rel x)
      (filterResult env sub' (settledPlan env other input) (condition.mapOperators (settledIn env other)) ids
        (settledPlan env other rel) x) := by
  unfold filterResult
  rw [filterClause_settledPlan, ignoresClauses_settledPlan]
  refine .bind_eq (.refl _) fun _ => .bind (follows_builder _ rel) fun b b' hb => ?_
  rw [hb.context]
  refine .bind_eq (follows_scalarNode h b.context true condition hcondition) fun n => ?_
  have halongside : ∀ key, b'.alongside key n = b.alongside key n := fun key => by simp only [Builder.alongside, hb.select]
  refine .bind (R := SameBuilder env other) ?_ fun b₁ b₁' hb₁ => .of_eq hb₁.result.symm
  split
  · rw [halongside]
    exact hb.follows_put _ _ _
  · rw [halongside]
    exact hb.follows_put _ _ _
  · exact hb.follows_put _ _ _

/-- **A projection** is converted in step. -/
theorem follows_projectResult {input : Rel} {projects : List Expr}
    (hprojects : ∀ e ∈ projects, e.satisfies (operatorsAre p) true = true) (distinct : Bool) (ids : List String) (rel : Rel)
    (x : Result) :
    Follows (Unsupported env.dialect p) Eq (projectResult env sub input projects distinct ids rel x)
      (projectResult env sub' (settledPlan env other input) (Scalar.mapOperatorsOf (settledIn env other) projects) distinct
        ids (settledPlan env other rel) x) := by
  have hidentity : isIdentity (settledPlan env other input) (Scalar.mapOperatorsOf (settledIn env other) projects) rel.fields
      = isIdentity input projects rel.fields := by
    simp [isIdentity, fields_settledPlan, Scalar.mapOperatorsOf_eq, List.zipIdx_map, List.all_map, Function.comp_def]
  have hdone : ∀ b b' : Builder, SameBuilder env other b b' →
      Follows (Unsupported env.dialect p) Eq ((if distinct then b.setDistinct else b).result env)
        ((if distinct then b'.setDistinct else b').result env) := by
    intro b b' hb
    cases distinct
    · exact .of_eq hb.result.symm
    · have hdistinct : SameBuilder env other b.setDistinct b'.setDistinct := by
        rw [hb]
        rfl
      exact .of_eq hdistinct.result.symm
  unfold projectResult
  rw [fields_settledPlan, hidentity]
  refine .bind_eq (.refl _) fun _ => .bind (follows_builder _ rel) fun b b' hb => ?_
  by_cases hsame : isIdentity input projects rel.fields = true
  · simp only [hsame, if_true]
    exact .bind (.pure hb) hdone
  · simp only [hsame, Bool.false_eq_true, if_false, Scalar.mapOperatorsOf_eq]
    refine .bind_eq (.mapM fun e he => ?_) fun ns => .bind_eq (.refl _) fun items => .bind (.pure (hb.setSelect items)) hdone
    unfold projectedNode
    rw [hb.context, Scalar.type_mapOperators]
    exact .bind_eq (follows_scalarNode h b.context true e (hprojects e he)) fun n => .refl _

omit h in
/-- **An aggregation** is converted in step. -/
theorem follows_aggregateResult (keys : List Ordinal) (sets : List (List Ordinal)) {calls : List AggregateCall}
    (hcalls : ∀ c ∈ calls, p c.op = true) (rel : Rel) (x : Result) :
    Follows (Unsupported env.dialect p) Eq (aggregateResult env keys sets calls rel x)
      (aggregateResult env keys sets (calls.map fun c => { c with op := settledIn env other c.op })
        (settledPlan env other rel) x) := by
  unfold aggregateResult
  rw [ignoresClauses_settledPlan, fields_settledPlan]
  refine .bind (follows_builder _ rel) fun b b' hb => ?_
  rw [hb.context]
  refine .bind_eq (.refl _) fun ks => .bind_eq (.refl _) fun items => .bind_eq (.refl _) fun groups => ?_
  rw [liftM_mapM, liftM_mapM]
  refine .bind_eq (.mapM fun c hc => follows_aggregateNode b.context (hcalls c hc)) fun ns => .bind_eq (.refl _) fun all => ?_
  have hlisted := hb.setSelect (if all.isEmpty then [Node.number "1"] else all)
  simp only [List.isEmpty_map]
  split
  · exact .bind (.pure hlisted) fun b₁ b₁' hb₁ => .of_eq hb₁.result.symm
  · exact .bind (hlisted.follows_put _ _ _) fun b₁ b₁' hb₁ => .of_eq hb₁.result.symm

/-- **A sort** is converted in step. -/
theorem follows_sortResult {offset fetch : Option Expr} (hoffset : Scalar.satisfies? (operatorsAre p) offset = true)
    (hfetch : Scalar.satisfies? (operatorsAre p) fetch = true) (root : Bool) (collation : List Collation) (rel : Rel)
    (x : Result) :
    Follows (Unsupported env.dialect p) Eq (sortResult env sub root collation offset fetch rel x)
      (sortResult env sub' root collation (Scalar.mapOperators? (settledIn env other) offset)
        (Scalar.mapOperators? (settledIn env other) fetch) (settledPlan env other rel) x) := by
  have hlimited : ∀ {clause : Clause} {key : String} {kind : Kind} {limit : Option Expr} (b b' : Builder),
      Scalar.satisfies? (operatorsAre p) limit = true → SameBuilder env other b b' →
        Follows (Unsupported env.dialect p) (SameBuilder env other) (limited env sub clause key kind limit b)
          (limited env sub' clause key kind (Scalar.mapOperators? (settledIn env other) limit) b') := by
    intro clause key kind limit b b' hlimit hb
    cases limit with
    | none => exact .pure hb
    | some e =>
      unfold limited
      simp only [Scalar.mapOperators?, hb.context]
      exact .bind_eq (follows_scalarNode h b.context false e hlimit) fun n => hb.follows_put _ _ _
  rw [sortResult_eq, sortResult_eq, fields_settledPlan]
  refine .bind (follows_builder _ rel) fun b b' hb => ?_
  refine .bind (R := SameBuilder env other) ?_ fun b₁ b₁' hb₁ => .bind (R := SameBuilder env other) ?_ fun b₂ b₂' hb₂ => ?_
  · unfold listed
    rw [hb.select]
    split
    · simp only [withFields, liftM_bind, hb.context]
      exact .bind_eq (.refl _) fun columns => .bind_eq (.refl _) fun items => .pure (hb.setSelect items)
    · exact .pure hb
  · unfold ordered
    rw [hb₁.context]
    refine .bind_eq (.refl _) fun items => ?_
    split
    · exact .pure hb₁
    · exact hb₁.follows_put _ _ _
  · refine .bind (hlimited b₂ b₂' hfetch hb₂) fun b₃ b₃' hb₃ => .bind (hlimited b₃ b₃' hoffset hb₃) fun b₄ b₄' hb₄ => ?_
    exact .of_eq hb₄.result.symm

/-- **Windowed calls** are converted in step. -/
theorem follows_windowResult (input : Rel) {groups : List (WindowGroup Expr)}
    (hops : ∀ g ∈ groups, ∀ c ∈ g.calls, p c.op = true)
    (hgroups : Scalar.groupsSatisfy (operatorsAre p) groups = true) (constants : List Literal) (rel : Rel) (x : Result) :
    Follows (Unsupported env.dialect p) Eq (windowResult env sub input groups constants rel x)
      (windowResult env sub' (settledPlan env other input) (Scalar.mapOperatorsOfGroups (settledIn env other) groups)
        constants (settledPlan env other rel) x) := by
  unfold windowResult
  rw [fields_settledPlan, fields_settledPlan, Scalar.mapOperatorsOfGroups_eq]
  refine .bind (follows_builder _ rel) fun b b' hb => ?_
  rw [hb.context]
  refine .bind_eq (.mapM fun g hg => ?_) fun calls => .bind_eq (.refl _) fun columns => .bind_eq (.refl _) fun items => ?_
  · obtain ⟨hframe, hcalls⟩ := (Scalar.groupsSatisfy_iff groups).mp hgroups g hg
    exact follows_windowGroupNodes h b.context constants _ (hops g hg) hframe hcalls
  · exact .of_eq (hb.setSelect items).result.symm

/-- **A join** is converted in step. -/
theorem follows_joinResult (hp : Decided env.dialect p) {condition : Expr}
    (hcondition : condition.satisfies (operatorsAre p) true = true) (type : JoinType) (ids : List String) (rel : Rel)
    (x y : Result) :
    Follows (Unsupported env.dialect p) Eq (joinResult env sub condition type ids rel x y)
      (joinResult env sub' (condition.mapOperators (settledIn env other)) type ids (settledPlan env other rel) x y) := by
  have hproduct : isProduct (condition.mapOperators (settledIn env other)) type = isProduct condition type := by
    simp [isProduct]
  unfold joinResult makeJoinResult
  rw [hproduct]
  simp only [makeResult_settledPlan]
  refine .bind_eq (.refl _) fun _ => .bind_eq (.refl _) fun l => .bind_eq (.refl _) fun r => ?_
  split
  · exact .refl _
  · exact .bind_eq (follows_conditionNode hp h _ _ condition hcondition) fun on => .refl _

/-- **A join that only tests for partners** is converted in step. -/
theorem follows_semiJoinResult (hp : Decided env.dialect p) {condition : Expr}
    (hcondition : condition.satisfies (operatorsAre p) true = true) (type : JoinType) (ids : List String) (rel : Rel)
    (x y : Result) :
    Follows (Unsupported env.dialect p) Eq (semiJoinResult env sub condition type ids rel x y)
      (semiJoinResult env sub' (condition.mapOperators (settledIn env other)) type ids (settledPlan env other rel) x y) := by
  rw [semiJoinResult_eq, semiJoinResult_eq]
  simp only [makeResult_settledPlan]
  refine .bind_eq (.refl _) fun _ => ?_
  exact .bind_eq (follows_conditionNode hp h _ _ condition hcondition) fun on => .refl _

theorem follows_tableFunctionResult {call : Expr} (hcall : call.satisfies (operatorsAre p) true = true) (rel : Rel)
    (ns : List Node) :
    Follows (Unsupported env.dialect p) Eq (tableFunctionResult env sub call rel ns)
      (tableFunctionResult env sub' (call.mapOperators (settledIn env other)) (settledPlan env other rel) ns) := by
  unfold tableFunctionResult
  simp only [makeResult_settledPlan]
  exact .bind_eq (follows_scalarNode h _ true call hcall) fun n => .refl _

theorem follows_rowPatternResult {spec : RowPattern Expr} (hspec : Scalar.patternSatisfies (operatorsAre p) spec = true)
    (rel : Rel) (x : Result) :
    Follows (Unsupported env.dialect p) Eq (rowPatternResult env sub spec rel x)
      (rowPatternResult env sub' (Scalar.mapOperatorsOfPattern (settledIn env other) spec) (settledPlan env other rel) x) := by
  obtain ⟨pattern, definitions, measures, strictStart, strictEnd, after, subsets, allRows, partition, order, within⟩ := spec
  simp only [Scalar.patternSatisfies, Bool.and_eq_true] at hspec
  obtain ⟨⟨hpattern, hdefinitions⟩, hmeasures⟩ := hspec
  have hnamed : ∀ {ctx : Context} {entries : List (String × Expr)}, Scalar.namedSatisfy (operatorsAre p) entries = true →
      Follows (Unsupported env.dialect p) Eq (namedNodes env sub ctx entries)
        (namedNodes env sub' ctx (Scalar.mapOperatorsOfNamed (settledIn env other) entries)) := by
    intro ctx entries he
    unfold namedNodes
    rw [Scalar.mapOperatorsOfNamed_eq]
    refine .mapM fun q hq => ?_
    exact .bind_eq (follows_scalarNode h ctx true q.2 ((Scalar.namedSatisfy_iff entries).mp he q hq)) fun n => .refl _
  unfold rowPatternResult
  simp only [makeResult_settledPlan, Scalar.mapOperatorsOfPattern]
  refine .bind_eq (.refl _) fun order => .bind_eq (.refl _) fun input => .bind_eq (.refl _) fun partition => ?_
  refine .bind_eq (hnamed hmeasures) fun measures => .bind_eq (follows_scalarNode h _ true pattern hpattern) fun pattern => ?_
  exact .bind_eq (.refl _) fun within => .bind_eq (hnamed hdefinitions) fun define => .refl _

end Operators

/-! ## Plans -/

mutual

/-- **`relationResult`** — a plan is converted in step with the one that calls the substitutes. -/
theorem follows_relationResult (hp : Decided env.dialect p) (h : FollowsQueries env.dialect p other sub sub') (root : Bool) :
    ∀ rel : Rel, rel.satisfies (operatorsAre p) = true →
      Follows (Unsupported env.dialect p) Eq (relationResult env sub root rel)
        (relationResult env sub' root (settledPlan env other rel))
  | .scan table fields, _ => by
    rw [settledPlan, Rel.mapOperators, relationResult, relationResult]
    exact .refl _
  | .values fields tuples, _ => by
    rw [settledPlan, Rel.mapOperators, relationResult, relationResult]
    exact .refl _
  | .filter input condition ids, hrel => by
    simp only [Rel.satisfies, Bool.and_eq_true] at hrel
    rw [settledPlan, Rel.mapOperators, relationResult, relationResult]
    refine .bind_eq (follows_relationResult hp h false input hrel.1.2) fun x => ?_
    exact follows_filterResult h hrel.2 ids (.filter input condition ids) x
  | .project input projects names distinct ids, hrel => by
    simp only [Rel.satisfies, Bool.and_eq_true, Scalar.allSatisfy_iff] at hrel
    rw [settledPlan, Rel.mapOperators, relationResult, relationResult]
    refine .bind_eq (follows_relationResult hp h false input hrel.1.2) fun x => ?_
    exact follows_projectResult h hrel.2 distinct ids (.project input projects names distinct ids) x
  | .aggregate input keys sets calls, hrel => by
    simp only [Rel.satisfies, Bool.and_eq_true] at hrel
    rw [settledPlan, Rel.mapOperators, relationResult, relationResult]
    refine .bind_eq (follows_relationResult hp h false input hrel.2) fun x => ?_
    exact follows_aggregateResult keys sets (fun c hc => List.all_eq_true.mp hrel.1 c hc) (.aggregate input keys sets calls) x
  | .join left right condition type ids, hrel => by
    simp only [Rel.satisfies, Bool.and_eq_true] at hrel
    obtain ⟨⟨⟨-, hleft⟩, hright⟩, hcondition⟩ := hrel
    rw [settledPlan, Rel.mapOperators, relationResult, relationResult]
    refine .bind_eq (follows_relationResult hp h false left hleft) fun x => ?_
    refine .bind_eq (follows_relationResult hp h false right hright) fun y => ?_
    dsimp only
    split
    · exact follows_semiJoinResult h hp hcondition type ids (.join left right condition type ids) _ _
    · exact follows_joinResult h hp hcondition type ids (.join left right condition type ids) _ _
  | .setOp op all inputs, hrel => by
    simp only [Rel.satisfies, Bool.and_eq_true] at hrel
    rw [settledPlan, Rel.mapOperators, relationResult, relationResult]
    refine .bind_eq (follows_relationSelects hp h inputs hrel.2) fun ns => .of_eq ?_
    unfold setOpResult
    split
    · rfl
    · exact (makeResult_settledPlan _ _ (.setOp op all inputs) _).symm
  | .sort input collation offset fetch, hrel => by
    simp only [Rel.satisfies, Bool.and_eq_true] at hrel
    obtain ⟨⟨⟨-, hinput⟩, hoffset⟩, hfetch⟩ := hrel
    rw [settledPlan, Rel.mapOperators, relationResult, relationResult]
    refine .bind_eq (follows_relationResult hp h false input hinput) fun x => ?_
    exact follows_sortResult h hoffset hfetch root collation (.sort input collation offset fetch) x
  | .window input groups constants names, hrel => by
    simp only [Rel.satisfies, Bool.and_eq_true] at hrel
    obtain ⟨⟨hops, hinput⟩, hgroups⟩ := hrel
    rw [settledPlan, Rel.mapOperators, relationResult, relationResult]
    refine .bind_eq (follows_relationResult hp h false input hinput) fun x => ?_
    refine follows_windowResult h input (fun g hg c hc => ?_) hgroups constants (.window input groups constants names) x
    exact List.all_eq_true.mp (List.all_eq_true.mp hops g hg) c hc
  | .tableFunction inputs call fields, hrel => by
    simp only [Rel.satisfies, Bool.and_eq_true] at hrel
    rw [settledPlan, Rel.mapOperators, relationResult, relationResult]
    refine .bind_eq (follows_relationSelects hp h inputs hrel.1.2) fun ns => ?_
    exact follows_tableFunctionResult h hrel.2 (.tableFunction inputs call fields) ns
  | .rowPattern input spec, hrel => by
    simp only [Rel.satisfies, Bool.and_eq_true] at hrel
    rw [settledPlan, Rel.mapOperators, relationResult, relationResult]
    refine .bind_eq (follows_relationResult hp h false input hrel.1.2) fun x => ?_
    exact follows_rowPatternResult h hrel.2 (.rowPattern input spec) x

/-- **`relationSelects`** — so are several plans. -/
theorem follows_relationSelects (hp : Decided env.dialect p) (h : FollowsQueries env.dialect p other sub sub') :
    ∀ rels : List Rel, Rel.allSatisfy (operatorsAre p) rels = true →
      Follows (Unsupported env.dialect p) Eq (relationSelects env sub rels)
        (relationSelects env sub' (Rel.mapOperatorsOf (settledIn env other) rels))
  | [], _ => by
    rw [Rel.mapOperatorsOf, relationSelects, relationSelects]
    exact .refl _
  | rel :: rels, hrels => by
    simp only [Rel.allSatisfy, Bool.and_eq_true] at hrels
    rw [Rel.mapOperatorsOf, relationSelects, relationSelects]
    refine .bind_eq (follows_relationResult hp h false rel hrels.1) fun x => .bind_eq (.refl _) fun n => ?_
    exact .bind_eq (follows_relationSelects hp h rels hrels.2) fun ns => .refl _

end

/-- **`queryAt`** — so are sub-queries of any depth. -/
theorem follows_queryAt (hp : Decided env.dialect p) (depth : Nat) (root : Bool) {rel : Rel}
    (hrel : rel.satisfies (operatorsAre p) = true) :
    Follows (Unsupported env.dialect p) Eq (queryAt env depth root rel)
      (queryAt env depth root (settledPlan env other rel)) := by
  have hlast : FollowsQueries env.dialect p other (fun _ => pure Node.null) fun _ => pure Node.null := fun _ _ => .refl _
  induction depth generalizing root rel with
  | zero =>
    unfold queryAt
    exact .bind_eq (follows_relationResult hp hlast root rel hrel) fun x => .refl _
  | succ depth ih =>
    unfold queryAt
    exact .bind_eq (follows_relationResult hp (fun rel hrel => ih false hrel) root rel hrel) fun x => .refl _

/-! ## Statements -/

variable (other) in
/-- A whole plan is converted in step. -/
theorem follows_planStatement (hp : Decided env.dialect p) {rel : Rel} (hrel : rel.satisfies (operatorsAre p) = true) :
    Follows (Unsupported env.dialect p) Eq (planStatement env rel) (planStatement env (settledPlan env other rel)) := by
  unfold planStatement planResult
  rw [settledPlan, Rel.queryDepth_mapOperators]
  exact .bind_eq (follows_relationResult hp (fun rel hrel => follows_queryAt hp _ false hrel) true rel hrel) fun x => .refl _

/-- A check of the operators that a plan calls, apart from those that a conversion puts in by itself. -/
abbrev callsOnly (p : Operator → Bool) : PlanCheck := operatorsAre fun op => p op || Operator.implied.contains op

theorem decided_callsOnly {d : Dialect} (hd : TargetsOffered d) (hp : ∀ op, p op = true → op.decidedBy d.capabilities.library = true) :
    Decided d fun op => p op || Operator.implied.contains op where
  targets := hd
  decided := fun op hop => by
    rcases Bool.or_eq_true_iff.mp hop with hop | hop
    · exact hp op hop
    · have hlanguage : Operator.implied.all (·.libraries.isNone) = true := by decide
      have hnone := List.all_eq_true.mp hlanguage op (by simpa using hop)
      simp [Operator.decidedBy, Operator.availableIn, hnone]
  reversed := fun op hop => by
    unfold Operator.reversed
    split
    any_goals simp [Operator.implied]
    simpa [Operator.implied] using hop

/-- **`statement`** — what becomes of the functions that a plan calls, if the library decides about each operator.
Every function in the statement is one that the library offers, and it is called by the plan, a member of the group
of such a function, or one of the language.  And the conversion either fails with the complaint about a function of the
plan for which there is no substitute, or its outcome is that for the plan in which the substitutes stand in place of
the functions; whatever stands there for a function without a substitute, it is not reached. -/
theorem statement_functionsOffered {d : Dialect} (hd : TargetsOffered d)
    (hp : ∀ op, p op = true → op.decidedBy d.capabilities.library = true) {rel : Rel}
    (hrel : rel.satisfies (callsOnly p) = true) :
    (∀ n, statement d rel = .ok n → CallsOffered d.capabilities.library p n)
      ∧ ∀ other : Operator → Operator, (∃ e, Unsupported d p e ∧ statement d rel = .error e)
        ∨ statement d rel = statement d (rel.mapOperators (settled d.capabilities.library other)) := by
  have hdecided : Decided (Env.plain d).dialect fun op => p op || Operator.implied.contains op := decided_callsOnly hd hp
  constructor
  · intro n hn
    rw [statement_eq, ConvertM.value_eq_ok_iff] at hn
    obtain ⟨s, hn⟩ := hn
    rw [planStatement, planResult, ConvertM.gives_bind] at hn
    obtain ⟨r, s₁, hr, hn⟩ := hn
    have hassembled := (offered_relationResult hdecided rfl (fun sub hsub => offered_queryAt hdecided rfl _ false hsub) true
      rel hrel {} r s₁ onlyColumns_start hr).2
    intro c hc hcall
    obtain ⟨op, hname, havailable, horigin⟩ :=
      (structural_callsOffered _ _).returned hassembled.good (returned_asStatement hn) c hc hcall
    refine ⟨op, hname, havailable, ?_⟩
    simp only [Bool.or_eq_true, List.contains_iff_mem] at horigin
    tauto
  · intro other
    rw [statement_eq, statement_eq]
    rcases follows_planStatement other hdecided hrel {} with ⟨e, ⟨op, hop, hnone, rfl⟩, hfails⟩ | ⟨e, t, he, he'⟩
      | ⟨n, m, t, rfl, hn, hm⟩
    · refine .inl ⟨_, ⟨op, ?_, hnone, rfl⟩, hfails⟩
      rcases Bool.or_eq_true_iff.mp hop with hop | hop
      · exact hop
      · -- an operator of the language needs no substitute
        have hlanguage : Operator.implied.all (·.libraries.isNone) = true := by decide
        have hlibraries := List.all_eq_true.mp hlanguage op (by simpa using hop)
        simp [Operator.substitute, Operator.availableIn, hlibraries] at hnone
    · exact .inr ((congrArg Prod.fst he).trans (congrArg Prod.fst he').symm)
    · exact .inr ((congrArg Prod.fst hn).trans (congrArg Prod.fst hm).symm)

/-- Prices, with a price list in place of missing ones, and for each shop whether all its prices are above a limit. -/
def pricedShops : Rel :=
  .aggregate
    (.project (.scan ["prices"] [⟨"shop", DataType.integer⟩, ⟨"price", DataType.integer⟩, ⟨"listed", DataType.integer⟩])
      [.inputRef (.whole 0) DataType.integer,
        .call Operator.greaterThan
          [.call { name := "NVL", libraries := [.oracle, .hive, .spark, .snowflake], group := some "nvl" : LibraryFunction }.operator
            [.inputRef (.whole 1) DataType.integer, .inputRef (.whole 2) DataType.integer] DataType.integer,
            .literal (Literal.exact (.integer 10))] DataType.boolean]
      ["shop", "above"] false [])
    [.whole 0] [[.whole 0]]
    [{ op := { name := "BOOL_AND", libraries := [.postgres, .snowflake, .spark], group := some "bool_and",
               isAggregate := true : LibraryFunction }.operator, args := [.whole 1], name := some "all_above" }]

/-- The functions of other libraries are written as `IFNULL` and `LOGICAL_AND`, as if these had been called. -/
theorem statement_functionsOffered_pricedShops :
    ∃ n, statement Dialect.bigQuery pricedShops = .ok n ∧ CallsOffered .bigQuery (Operator.libraryOperators.contains ·) n
      ∧ statement Dialect.bigQuery (pricedShops.mapOperators (settled .bigQuery id)) = .ok n := by
  have hok : (statement Dialect.bigQuery pricedShops).toOption.isSome = true := by decide +kernel
  have htargets : TargetsOffered Dialect.bigQuery := by
    unfold TargetsOffered
    decide +kernel
  have hcatalog : Operator.libraryOperators.all (·.decidedBy .bigQuery) = true := by decide +kernel
  have hchecked : pricedShops.satisfies (callsOnly (Operator.libraryOperators.contains ·)) = true := by decide +kernel
  have hfunctions := statement_functionsOffered htargets
    (fun op hop => List.all_eq_true.mp hcatalog op (List.contains_iff_mem.mp hop)) hchecked
  cases hn : statement Dialect.bigQuery pricedShops with
  | error e => simp [hn, Except.toOption] at hok
  | ok n =>
    rw [hn] at hfunctions
    refine ⟨n, rfl, hfunctions.1 n rfl, ?_⟩
    rcases hfunctions.2 id with ⟨e, -, hfails⟩ | hsame
    · cases hfails
    · exact hsame.symm

/-- Dates with a day added by a function that other databases define. -/
def laterDates : Rel :=
  .project (.scan ["t"] [⟨"d", { name := .date }⟩])
    [.call { name := "DATE_ADD", libraries := [.bigQuery, .hive, .spark], kind := .plus : LibraryFunction }.operator
      [.inputRef (.whole 0) { name := .date }, .literal (Literal.exact (.integer 1))] { name := .date }]
    ["later"] false []

/-- A library function whose kind is that of a sum is written where no library defines it. -/
theorem laterDates_not_offered :
    laterDates.satisfies (operatorsAre (Operator.libraryOperators.contains ·)) = true
      ∧ ∃ n, statement Dialect.ansi laterDates = .ok n
        ∧ ¬CallsOffered .standard (Operator.libraryOperators.contains ·) n := by
  refine ⟨by decide +kernel, ?_⟩
  have hcalled : (statement Dialect.ansi laterDates).toOption.map
      (fun n => n.subnodes.any fun c => c.kind == .call && c.text "this" == "DATE_ADD") = some true := by
    decide +kernel
  have hmissing : (Operator.libraryOperators ++ Operator.implied).all
      (fun op => op.name != "DATE_ADD" || !op.availableIn .standard) = true := by
    decide +kernel
  cases hn : statement Dialect.ansi laterDates with
  | error e => simp [hn, Except.toOption] at hcalled
  | ok n =>
    refine ⟨n, rfl, fun hoffered => ?_⟩
    obtain ⟨c, hc, hname⟩ : ∃ c ∈ n.subnodes, c.kind = .call ∧ c.text "this" = "DATE_ADD" := by
      simpa [hn, Except.toOption, List.any_eq_true] using hcalled
    obtain ⟨op, hop, havailable, horigin⟩ := hoffered c hc (.inl hname.1)
    have hlisted : op ∈ Operator.libraryOperators ++ Operator.implied := by
      simp only [List.contains_iff_mem] at horigin
      rw [List.mem_append]
      tauto
    have hunavailable := List.all_eq_true.mp hmissing op hlisted
    simp [hop, hname.2, havailable] at hunavailable

end AlgebraSql.Convert
