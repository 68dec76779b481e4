import AlgebraSql.Algebra.Depth
import AlgebraSql.Proofs.SoundOperators

/-!
# Sub-queries — rounds of conversion beyond the depth of a plan change nothing.

The conversion of a plan is given a conversion of the plans inside expressions, which are less deep
than the plan.  Two of them that agree on all plans of smaller depth make no difference.  So a plan
is converted by as many rounds as one likes, if only they suffice, and plans of different depths can
be compared.
-/

namespace AlgebraSql.Convert

open Sql

/-- Two conversions of plans that are the same for plans of smaller depth. -/
def AgreeBelow (n : Nat) (sub sub' : Rel → ConvertM Node) : Prop :=
  ∀ rel, rel.queryDepth < n → sub rel = sub' rel

variable {env : Env} {sub sub' : Rel → ConvertM Node} {n : Nat}

/-! ## Expressions -/

mutual

/-- An expression is converted the same with conversions that agree on its sub-queries. -/
theorem scalarNode_congr (h : AgreeBelow n sub sub') (ctx : Context) :
    ∀ e : Expr, e.queryDepth ≤ n →
    scalarNode env sub ctx e = scalarNode env sub' ctx e
  | .inputRef _ _, _ => by rw [scalarNode, scalarNode]
  | .localRef i shared _, he => by
    rw [Scalar.queryDepth] at he
    rw [scalarNode, scalarNode]
    split
    · exact scalarNodeAt_congr h ctx i _ shared he
    · rfl
  | .literal _, _ => by rw [scalarNode, scalarNode]
  | .call op operands type, he => by
    rw [Scalar.queryDepth] at he
    have hoperands := scalarNodes_congr h ctx operands he
    rw [scalarNode.eq_def, scalarNode.eq_def]
    simp only [hoperands]
    split
    · rfl
    · rfl
    · split
      · rfl
      · rename_i inner e es t rest
        simp only [Scalar.queryDepths, Nat.max_le] at he
        rw [scalarNode_congr h ctx (.call inner (e :: es) t) he.1]
        have hinner := he.1
        simp only [Scalar.queryDepth, Scalar.queryDepths, Nat.max_le] at hinner
        rw [scalarNode_congr h ctx e hinner.1]
      · rename_i operand rest _
        simp only [Scalar.queryDepths, Nat.max_le] at he
        rw [scalarNode_congr h ctx operand he.1]
    · rfl
    · congr 1
      funext sarg
      split
      · rename_i operand rest
        simp only [Scalar.queryDepths, Nat.max_le] at he
        rw [scalarNode_congr h ctx operand he.1]
      · rfl
    · split
      · rfl
      · rename_i operand rest
        simp only [Scalar.queryDepths, Nat.max_le] at he
        rw [scalarNode_congr h ctx operand he.1]
    · rfl
    · rfl
    · split
      · rfl
      · rename_i pattern bounds
        simp only [Scalar.queryDepths, Nat.max_le] at he
        rw [scalarNode_congr h ctx pattern he.1]
    · split
      · rename_i inner _ u right more _
        simp only [Scalar.queryDepths, Scalar.queryDepth, Nat.max_le] at he
        rw [scalarNode_congr h ctx inner he.1.1, scalarNode_congr h ctx right he.2.1]
      · rename_i left _ inner _ u more _
        simp only [Scalar.queryDepths, Scalar.queryDepth, Nat.max_le] at he
        rw [scalarNode_congr h ctx left he.1, scalarNode_congr h ctx inner he.2.1.1]
      · rw [hoperands]
  | .overWindow op operands ⟨partition, order, frame⟩ distinct t, he => by
    simp only [Scalar.queryDepth, Scalar.queryDepthOfWindow, Nat.max_le] at he
    obtain ⟨hoperands, hpartition, horder, hframe⟩ := he
    rw [scalarNode, scalarNode, scalarNodes_congr h ctx operands hoperands, scalarNodes_congr h ctx partition hpartition,
      sortKeyNodes_congr h ctx order horder, frameNodeOf_congr h ctx frame hframe]
  | .fieldAccess row field i t, he => by
    rw [Scalar.queryDepth] at he
    rw [scalarNode.eq_def, scalarNode.eq_def]
    split <;> simp_all only [reduceCtorEq, Scalar.fieldAccess.injEq]
    rename_i hrow
    obtain ⟨rfl, rfl, -, -⟩ := hrow
    rw [scalarNode_congr h ctx _ he]
  | .correlation _ _, _ => by rw [scalarNode, scalarNode]
  | .subQuery op operands relation t, he => by
    simp only [Scalar.queryDepth, Nat.max_le] at he
    rw [scalarNode, scalarNode, h relation (by omega)]
    congr 1
    funext query
    split
    · split
      · rename_i only
        simp only [Scalar.queryDepths, Nat.max_le] at he
        rw [scalarNode_congr h ctx only he.1.1]
      · rw [scalarNodes_congr h ctx operands he.1]
    · rfl
  | .parameter _ _, _ => by rw [scalarNode, scalarNode]
  | .patternField _ _ _, _ => by rw [scalarNode, scalarNode]

theorem scalarNodes_congr (h : AgreeBelow n sub sub') (ctx : Context) :
    ∀ es : List Expr, Scalar.queryDepths es ≤ n →
    scalarNodes env sub ctx es = scalarNodes env sub' ctx es
  | [], _ => by rw [scalarNodes, scalarNodes]
  | e :: es, he => by
    simp only [Scalar.queryDepths, Nat.max_le] at he
    rw [scalarNodes, scalarNodes, scalarNode_congr h ctx e he.1, scalarNodes_congr h ctx es he.2]

theorem scalarNodeAt_congr (h : AgreeBelow n sub sub') (ctx : Context) (index : Ordinal) (i : Nat) :
    ∀ es : List Expr, Scalar.queryDepths es ≤ n →
    scalarNodeAt env sub ctx index i es = scalarNodeAt env sub' ctx index i es
  | [], _ => by rw [scalarNodeAt, scalarNodeAt]
  | e :: es, he => by
    simp only [Scalar.queryDepths, Nat.max_le] at he
    rw [scalarNodeAt, scalarNodeAt, scalarNode_congr h ctx e he.1, scalarNodeAt_congr h ctx index (i - 1) es he.2]

theorem sortKeyNodes_congr (h : AgreeBelow n sub sub') (ctx : Context) :
    ∀ ks : List (SortKey Expr), Scalar.queryDepthOfKeys ks ≤ n →
    sortKeyNodes env sub ctx ks = sortKeyNodes env sub' ctx ks
  | [], _ => by rw [sortKeyNodes, sortKeyNodes]
  | ⟨e, _, _⟩ :: ks, he => by
    simp only [Scalar.queryDepthOfKeys, Nat.max_le] at he
    rw [sortKeyNodes, sortKeyNodes, scalarNode_congr h ctx e he.1, sortKeyNodes_congr h ctx ks he.2]

theorem boundOf_congr (h : AgreeBelow n sub sub') (ctx : Context) :
    ∀ b : Bound Expr, Scalar.queryDepthOfBound (some b) ≤ n →
    boundOf env sub ctx b = boundOf env sub' ctx b
  | .unboundedPreceding, _ => by rw [boundOf, boundOf]
  | .unboundedFollowing, _ => by rw [boundOf, boundOf]
  | .currentRow, _ => by rw [boundOf, boundOf]
  | .preceding e, he => by
    rw [Scalar.queryDepthOfBound] at he
    rw [boundOf, boundOf, scalarNode_congr h ctx e he]
  | .following e, he => by
    rw [Scalar.queryDepthOfBound] at he
    rw [boundOf, boundOf, scalarNode_congr h ctx e he]

theorem frameNodeOf_congr (h : AgreeBelow n sub sub') (ctx : Context) :
    ∀ f : Frame Expr, Scalar.queryDepthOfFrame f ≤ n →
    frameNodeOf env sub ctx f = frameNodeOf env sub' ctx f
  | ⟨_, none, _⟩, _ => by rw [frameNodeOf, frameNodeOf]
  | ⟨_, some start, none⟩, he => by
    simp only [Scalar.queryDepthOfFrame, Nat.max_le] at he
    rw [frameNodeOf, frameNodeOf, boundOf_congr h ctx start he.1]
  | ⟨_, some start, some stop⟩, he => by
    simp only [Scalar.queryDepthOfFrame, Nat.max_le] at he
    rw [frameNodeOf, frameNodeOf, boundOf_congr h ctx start he.1, boundOf_congr h ctx stop he.2]

end

/-! ## Join conditions -/

/-- What a comparison is turned into is as deep as the comparison. -/
theorem queryDepth_leftFirst (leftWidth : Nat) (op : Operator) (operands : List Expr) (type : DataType) :
    (leftFirst leftWidth op operands type).queryDepth ≤ Scalar.queryDepths operands := by
  unfold leftFirst
  split
  · split <;> simp [Scalar.queryDepth, Scalar.queryDepths]
  · simp [Scalar.queryDepth]

/-- Operands without a conversion are not deeper. -/
theorem queryDepths_withoutCast (d : Dialect) (op : Operator) (operands : List Expr) :
    Scalar.queryDepths (withoutCast d op operands) ≤ Scalar.queryDepths operands := by
  unfold withoutCast
  split
  · simp only [Scalar.queryDepths, Scalar.queryDepth]
    omega
  · simp only [Scalar.queryDepths, Scalar.queryDepth]
    omega
  · exact Nat.le_refl _

mutual

/-- A join condition is converted the same with conversions that agree on its sub-queries. -/
theorem conditionNode_congr (h : AgreeBelow n sub sub') (left right : Context) :
    ∀ e : Expr, e.queryDepth ≤ n → conditionNode env sub left right e = conditionNode env sub' left right e
  | .literal l, he => by
    rw [conditionNode, conditionNode]
    split
    · rfl
    · exact scalarNode_congr h _ _ he
  | .call op operands type, he => by
    have hoperands := he
    rw [Scalar.queryDepth] at hoperands
    have hflipped : (leftFirst left.fieldCount op (withoutCast env.dialect op operands) type).queryDepth
        ≤ n := Nat.le_trans (queryDepth_leftFirst _ _ _ _)
      (Nat.le_trans (queryDepths_withoutCast _ _ _) hoperands)
    rw [conditionNode, conditionNode, conditionNodes_congr h left right operands hoperands,
      scalarNode_congr h _ _ hflipped, scalarNode_congr h _ _ he]
  | .inputRef _ _, he => scalarNode_congr h _ _ he
  | .localRef _ _ _, he => scalarNode_congr h _ _ he
  | .overWindow _ _ _ _ _, he => scalarNode_congr h _ _ he
  | .fieldAccess _ _ _ _, he => scalarNode_congr h _ _ he
  | .correlation _ _, he => scalarNode_congr h _ _ he
  | .subQuery _ _ _ _, he => scalarNode_congr h _ _ he
  | .parameter _ _, he => scalarNode_congr h _ _ he
  | .patternField _ _ _, he => scalarNode_congr h _ _ he

theorem conditionNodes_congr (h : AgreeBelow n sub sub') (left right : Context) :
    ∀ es : List Expr, Scalar.queryDepths es ≤ n →
    conditionNodes env sub left right es = conditionNodes env sub' left right es
  | [], _ => by rw [conditionNodes, conditionNodes]
  | e :: es, he => by
    simp only [Scalar.queryDepths, Nat.max_le] at he
    rw [conditionNodes, conditionNodes, conditionNode_congr h left right e he.1,
      conditionNodes_congr h left right es he.2]

end

/-! ## Lists -/

/-- Steps that are the same for each element of a list. -/
theorem mapM_congr_left {α β : Type} {f g : α → ConvertM β} {as : List α} (h : ∀ a ∈ as, f a = g a) :
    as.mapM f = as.mapM g := by
  induction as with
  | nil => rw [List.mapM_nil, List.mapM_nil]
  | cons a as ih =>
    rw [List.mapM_cons, List.mapM_cons, h a (by simp), ih fun b hb => h b (by simp [hb])]

theorem queryDepth_le_of_mem {e : Expr} {es : List Expr} (he : e ∈ es) :
    e.queryDepth ≤ Scalar.queryDepths es := by
  induction es with
  | nil => cases he
  | cons e' es ih =>
    simp only [Scalar.queryDepths]
    rcases List.mem_cons.mp he with rfl | he
    · omega
    · have := ih he
      omega

theorem queryDepth_le_of_mem_named {p : String × Expr} {es : List (String × Expr)} (hp : p ∈ es) :
    p.2.queryDepth ≤ Scalar.queryDepthOfNamed es := by
  induction es with
  | nil => cases hp
  | cons q es ih =>
    obtain ⟨name, e⟩ := q
    simp only [Scalar.queryDepthOfNamed]
    rcases List.mem_cons.mp hp with rfl | hp
    · exact Nat.le_max_left _ _
    · have := ih hp
      omega

theorem queryDepths_le_of_mem_calls {c : WindowCall Expr} {calls : List (WindowCall Expr)}
    (hc : c ∈ calls) : Scalar.queryDepths c.operands ≤ Scalar.queryDepthOfCalls calls := by
  induction calls with
  | nil => cases hc
  | cons c' calls ih =>
    obtain ⟨op, operands, distinct, type⟩ := c'
    simp only [Scalar.queryDepthOfCalls]
    rcases List.mem_cons.mp hc with rfl | hc
    · exact Nat.le_max_left _ _
    · have := ih hc
      omega

theorem queryDepth_le_of_mem_groups {g : WindowGroup Expr} {groups : List (WindowGroup Expr)}
    (hg : g ∈ groups) : Scalar.queryDepthOfFrame g.frame ≤ Scalar.queryDepthOfGroups groups
      ∧ Scalar.queryDepthOfCalls g.calls ≤ Scalar.queryDepthOfGroups groups := by
  induction groups with
  | nil => cases hg
  | cons g' groups ih =>
    obtain ⟨keys, order, frame, calls⟩ := g'
    simp only [Scalar.queryDepthOfGroups]
    rcases List.mem_cons.mp hg with rfl | hg
    · dsimp only
      omega
    · have := ih hg
      omega

/-! ## Operators -/

/-- An operand, or the constant that it refers to, is not deeper than the operand. -/
theorem queryDepth_resolveConstant {constants : List Literal} {width : Ordinal} {operand e : Expr}
    (he : resolveConstant constants width operand = .ok e) : e.queryDepth ≤ operand.queryDepth := by
  unfold resolveConstant at he
  split at he
  · split at he
    · cases he
      exact Nat.le_refl _
    · split at he
      · cases he
        simp [Scalar.queryDepth]
      · cases he
  · cases he
    exact Nat.le_refl _

/-- The calls of a window group are converted the same. -/
theorem windowGroupNodes_congr (h : AgreeBelow n sub sub') (ctx : Context) (constants : List Literal)
    (width : Ordinal) {g : WindowGroup Expr} (hframe : Scalar.queryDepthOfFrame g.frame ≤ n)
    (hcalls : Scalar.queryDepthOfCalls g.calls ≤ n) :
    windowGroupNodes env sub ctx constants width g = windowGroupNodes env sub' ctx constants width g := by
  have hoperand : ∀ e : Expr, e.queryDepth ≤ n → windowOperand env sub ctx constants width e
      = windowOperand env sub' ctx constants width e := by
    intro e he
    unfold windowOperand
    cases hresolved : resolveConstant constants width e with
    | error err => rfl
    | ok e' =>
      exact scalarNode_congr h ctx e' (Nat.le_trans (queryDepth_resolveConstant hresolved) he)
  unfold windowGroupNodes
  congr 1
  funext partition
  congr 1
  funext order
  refine mapM_congr_left fun c hc => ?_
  have hoperands := Nat.le_trans (queryDepths_le_of_mem_calls hc) hcalls
  unfold windowCallNode
  rw [mapM_congr_left fun e he => hoperand e (Nat.le_trans (queryDepth_le_of_mem he) hoperands),
    frameNodeOf_congr h ctx g.frame hframe]

/-- A limit of a sort is converted the same. -/
theorem limited_congr (h : AgreeBelow n sub sub') (clause : Clause) (key : String) (kind : Kind)
    {limit : Option Expr} (hlimit : Scalar.queryDepth? limit ≤ n) (b : Builder) :
    limited env sub clause key kind limit b = limited env sub' clause key kind limit b := by
  cases limit with
  | none => rfl
  | some e => simp only [limited, scalarNode_congr h b.context e hlimit]

/-- A row pattern is converted the same. -/
theorem rowPatternResult_congr (h : AgreeBelow n sub sub') (rel : Rel) (x : Result)
    {spec : RowPattern Expr} (hspec : Scalar.queryDepthOfPattern spec ≤ n) :
    rowPatternResult env sub spec rel x = rowPatternResult env sub' spec rel x := by
  have hparts : spec.pattern.queryDepth ≤ n ∧ Scalar.queryDepthOfNamed spec.definitions ≤ n
      ∧ Scalar.queryDepthOfNamed spec.measures ≤ n := by
    cases spec
    simpa only [Scalar.queryDepthOfPattern, Nat.max_le] using hspec
  obtain ⟨hpattern, hdefinitions, hmeasures⟩ := hparts
  have hnamed : ∀ (ctx : Context) (es : List (String × Expr)), Scalar.queryDepthOfNamed es ≤ n →
      namedNodes env sub ctx es = namedNodes env sub' ctx es := by
    intro ctx es hes
    refine mapM_congr_left fun p hp => ?_
    obtain ⟨name, e⟩ := p
    have he := Nat.le_trans (queryDepth_le_of_mem_named hp) hes
    simp only [scalarNode_congr h ctx e he]
  simp only [rowPatternResult, hnamed _ _ hdefinitions, hnamed _ _ hmeasures,
    scalarNode_congr h _ _ hpattern]

/-! ## Plans -/

mutual

/-- **A plan is converted the same** with conversions that agree on its sub-queries. -/
theorem relationResult_congr (h : AgreeBelow n sub sub') (root : Bool) :
    ∀ rel : Rel, rel.queryDepth ≤ n → relationResult env sub root rel = relationResult env sub' root rel
  | .scan _ _, _ => by rw [relationResult, relationResult]
  | .filter input condition _, hrel => by
    simp only [Rel.queryDepth, Nat.max_le] at hrel
    rw [relationResult, relationResult, relationResult_congr h false input hrel.1]
    simp only [filterResult, scalarNode_congr h _ _ hrel.2]
  | .project input projects _ _ _, hrel => by
    simp only [Rel.queryDepth, Nat.max_le] at hrel
    have hprojects : ∀ ctx, projects.mapM (projectedNode env sub ctx)
        = projects.mapM (projectedNode env sub' ctx) := fun ctx => mapM_congr_left fun e he => by
      simp only [projectedNode, scalarNode_congr h ctx e (Nat.le_trans (queryDepth_le_of_mem he) hrel.2)]
    rw [relationResult, relationResult, relationResult_congr h false input hrel.1]
    simp only [projectResult, hprojects]
  | .aggregate input _ _ _, hrel => by
    rw [Rel.queryDepth] at hrel
    rw [relationResult, relationResult, relationResult_congr h false input hrel]
  | .join left right condition type _, hrel => by
    simp only [Rel.queryDepth, Nat.max_le] at hrel
    rw [relationResult, relationResult, relationResult_congr h false left hrel.1.1,
      relationResult_congr h false right hrel.1.2]
    simp only [joinResult, semiJoinResult, conditionNode_congr h _ _ _ hrel.2]
  | .setOp _ _ inputs, hrel => by
    rw [Rel.queryDepth] at hrel
    rw [relationResult, relationResult, relationSelects_congr h inputs hrel]
  | .sort input _ offset fetch, hrel => by
    simp only [Rel.queryDepth, Nat.max_le] at hrel
    rw [relationResult, relationResult, relationResult_congr h false input hrel.1]
    simp only [sortResult_eq, limited_congr h _ _ _ hrel.2.1, limited_congr h _ _ _ hrel.2.2]
  | .window input groups _ _, hrel => by
    simp only [Rel.queryDepth, Nat.max_le] at hrel
    have hgroups : ∀ ctx constants width, groups.mapM (windowGroupNodes env sub ctx constants width)
        = groups.mapM (windowGroupNodes env sub' ctx constants width) := fun ctx constants width =>
      mapM_congr_left fun g hg => windowGroupNodes_congr h ctx constants width
        (Nat.le_trans (queryDepth_le_of_mem_groups hg).1 hrel.2)
        (Nat.le_trans (queryDepth_le_of_mem_groups hg).2 hrel.2)
    rw [relationResult, relationResult, relationResult_congr h false input hrel.1]
    simp only [windowResult, hgroups]
  | .tableFunction inputs call _, hrel => by
    simp only [Rel.queryDepth, Nat.max_le] at hrel
    rw [relationResult, relationResult, relationSelects_congr h inputs hrel.1]
    simp only [tableFunctionResult, scalarNode_congr h _ _ hrel.2]
  | .values _ _, _ => by rw [relationResult, relationResult]
  | .rowPattern input spec, hrel => by
    simp only [Rel.queryDepth, Nat.max_le] at hrel
    rw [relationResult, relationResult, relationResult_congr h false input hrel.1]
    simp only [rowPatternResult_congr h _ _ hrel.2]

theorem relationSelects_congr (h : AgreeBelow n sub sub') : ∀ rels : List Rel, Rel.queryDepths rels ≤ n →
    relationSelects env sub rels = relationSelects env sub' rels
  | [], _ => by rw [relationSelects, relationSelects]
  | rel :: rels, hrels => by
    simp only [Rel.queryDepths, Nat.max_le] at hrels
    rw [relationSelects, relationSelects, relationResult_congr h false rel hrels.1,
      relationSelects_congr h rels hrels.2]

end

/-! ## Rounds -/

/-- The conversion of the plans inside a plan that is converted in so many rounds. -/
def subAt (env : Env) : Nat → Rel → ConvertM Node
  | 0 => fun _ => pure Node.null
  | depth + 1 => queryAt env depth false

theorem queryAt_eq (env : Env) (depth : Nat) (root : Bool) (rel : Rel) :
    queryAt env depth root rel = (do
      let x ← relationResult env (subAt env depth) root rel
      x.asQuery env) := by
  cases depth <;> rw [queryAt] <;> rfl

/-- Conversions of different many rounds agree on plans that both suffice for. -/
theorem agreeBelow_subAt (env : Env) {n : Nat} : ∀ {depth depth' : Nat}, n ≤ depth → n ≤ depth' →
    AgreeBelow n (subAt env depth) (subAt env depth') := by
  induction n with
  | zero => exact fun _ _ rel hlt => absurd hlt (Nat.not_lt_zero _)
  | succ n ih =>
    intro depth depth' hdepth hdepth' rel hlt
    obtain ⟨k, rfl⟩ : ∃ k, depth = k + 1 := ⟨depth - 1, by omega⟩
    obtain ⟨k', rfl⟩ : ∃ k', depth' = k' + 1 := ⟨depth' - 1, by omega⟩
    have hk : n ≤ k := by omega
    have hk' : n ≤ k' := by omega
    have hagree := ih hk hk'
    change queryAt env k false rel = queryAt env k' false rel
    rw [queryAt_eq, queryAt_eq, relationResult_congr hagree false rel (by omega)]

/-- **Rounds beyond the depth of a plan** change nothing in the result for it. -/
theorem planResult_eq (env : Env) {rel : Rel} {depth : Nat} (hrel : rel.queryDepth ≤ depth) :
    planResult env rel = relationResult env (queryAt env depth false) true rel :=
  relationResult_congr (n := rel.queryDepth)
    (agreeBelow_subAt env (Nat.le_succ rel.queryDepth) (Nat.le_succ_of_le hrel)) true rel (Nat.le_refl _)

end AlgebraSql.Convert
