import AlgebraSql.Proofs.CallNesting
import AlgebraSql.Proofs.JoinConditions
import AlgebraSql.Proofs.SourcedExpressions

/-!
# Bare expressions — what an expression comes down to.

A reference to a shared expression is that expression, two denials cancel, and a conjunction or disjunction of one
condition is the condition.  Nothing is written for any of them.  What is left is a field, a constant, or an
operation, which is written as a node of its own.
-/

namespace AlgebraSql

namespace Scalar

variable {ρ : Type}

mutual

/-- **`core`** — an expression without anything around it for which nothing is written. -/
def core : Scalar ρ → Scalar ρ
  | .localRef i shared t =>
    match i.nat? with
    | some n => (coreAt n shared).getD (.localRef i shared t)
    | none => .localRef i shared t
  | .call op es t =>
    if isConnective op then
      match es with
      | [e] => core e
      | _ => .call op es t
    else if op.kind == .not then
      match es with
      | .call inner (e :: _) _ :: _ => if inner.kind == .not then core e else .call op es t
      | _ => .call op es t
    else .call op es t
  | e => e

/-- The core of the entry of a list that has `n` others before it. -/
def coreAt (n : Nat) : List (Scalar ρ) → Option (Scalar ρ)
  | [] => none
  | e :: es => if n = 0 then some (core e) else coreAt (n - 1) es

end

/-- Nothing is connected by a connective of one operand. -/
theorem core_single {op : Operator} (hop : isConnective op = true) (e : Scalar ρ) (t : DataType) :
    (call op [e] t).core = e.core := by
  rw [core.eq_def]
  simp [hop]

/-- Two denials cancel. -/
theorem core_twice {op inner : Operator} (hop : op.kind = .not) (hinner : inner.kind = .not) (e : Scalar ρ)
    (more rest : List (Scalar ρ)) (t u : DataType) : (call op (call inner (e :: more) u :: rest) t).core = e.core := by
  rw [core.eq_def]
  simp [isConnective, hop, hinner]

/-- Any other call is its own core. -/
theorem core_call {op : Operator} {es : List (Scalar ρ)} (t : DataType)
    (hsingle : isConnective op = true → es.length ≠ 1)
    (htwice : op.kind = .not → ∀ inner e more u rest, es = call inner (e :: more) u :: rest → inner.kind ≠ .not) :
    (call op es t).core = call op es t := by
  rw [core.eq_def]
  simp only
  split
  · rename_i hop
    split
    · exact absurd rfl (hsingle hop)
    · rfl
  · split
    · rename_i hkind
      split
      · rename_i inner e more u rest
        rw [if_neg (by simpa using htwice (by simpa using hkind) inner e more u rest rfl)]
      · rfl
    · rfl

end Scalar

namespace Convert

open Sql Node Scalar

variable {env : Env} {sub : Rel → ConvertM Node} {ctx : Context}

/-! ## Operations -/

/-- A number, which is read as a position where positions stand. -/
def isNumber (n : Node) : Bool := n.is .literal && !n.isString

/-- Kinds of nodes that hold the items of GROUP BY together. -/
def isGroupList : Kind → Bool
  | .rollup | .cube | .groupingSets | .tuple => true
  | _ => false

/-- Kinds of nodes that stand for more than a name or a constant: no columns, items, constants and lists. -/
def isOperation (k : Kind) : Bool := k != .column && k != .aliased && k != .literal && !isGroupList k

/-- What a conversion builds on nodes is an operation. -/
theorem operates_operation : Operates fun n => isOperation n.kind = true where
  of_kind {n} hkind := by
    cases hk : n.kind <;> simp_all [isOperation, isGroupList]

/-- No known dialect writes a sum or difference as a connective. -/
theorem targets_unconnected {d : Dialect} (hd : d ∈ Dialect.all) :
    d.targetFunctions.all (!isConnective ·.operator) = true := by
  simp only [Dialect.all, List.mem_cons, List.not_mem_nil, or_false] at hd
  rcases hd with rfl | rfl | rfl | rfl | rfl | rfl <;> decide +kernel

/-- Nothing but a connective is written as one. -/
theorem isConnective_of_retarget {d : Dialect} (hd : d.targetFunctions.all (!isConnective ·.operator) = true)
    {op written : Operator} {types : List DataType} (hop : isConnective op = false)
    (h : d.retarget op types = .ok written) : isConnective written = false := by
  have htarget : isConnective (d.targetFunction op types) = false := by
    unfold Dialect.targetFunction
    split
    · split
      · rename_i f hf
        simpa using List.all_eq_true.mp hd f (List.mem_of_find?_eq_some hf)
      · exact hop
    · exact hop
  have hcatalog : Operator.libraryOperators.all (!isConnective ·) = true := by decide +kernel
  unfold Dialect.retarget at h
  split at h
  · cases h
    rfl
  · cases h
    exact htarget
  · cases h
    exact htarget
  · rcases mem_alternatives_of_availableFunction h with rfl | halternative
    · exact hop
    · unfold Operator.alternatives at halternative
      split at halternative
      · cases halternative
      · simpa using List.all_eq_true.mp hcatalog written (List.mem_of_mem_filter halternative)
  · cases h
    exact hop

section Operations

variable {Good : Node → Prop} (hG : Operates Good)

include hG

/-- A call of anything but a connective is an operation. -/
theorem operates_operationNode {op : Operator} (hop : isConnective op = false) {ns : List Node} {n : Node}
    (h : operationNode op ns = .ok n) : Good n := by
  unfold operationNode at h
  split at h
  · cases h
    refine hG.of_kind ?_
    split <;> simp [Node.aggregate, Node.call]
  · split at h
    · rename_i k hk
      unfold binaryNode at h
      split at h <;> cases h
      refine hG.of_kind ?_
      unfold binaryKind? at hk
      split at hk <;> cases hk <;> simp [Node.binary]
    · cases h
    · unfold specialNode at h
      split at h
      · rename_i hkind
        simp [isConnective, hkind] at hop
      · rename_i hkind
        simp [isConnective, hkind] at hop
      all_goals
        cases h
        try exact hG.of_kind (by simp [Node.not, Node.neg, Node.wrap, Node.isTest, negatable, Node.inList, Node.call])

/-- Any other number of conditions than one is connected by an operation. -/
theorem operates_connect {kind : Kind} {unit : Node} (hkind : kind ∉ Kind.literal :: partKinds)
    (hunit : unit.kind ∉ Kind.literal :: partKinds) {ns : List Node} (h : ns.length ≠ 1) :
    Good (Node.connect kind unit ns) := by
  have hbinary : ∀ l r, Good (Node.binary kind l r) := fun l r => hG.of_kind hkind
  have hfold : ∀ (ns : List Node) {n : Node}, Good n → Good (ns.foldl (Node.binary kind) n) := by
    intro ns
    induction ns with
    | nil => exact fun h => h
    | cons m ns ih => exact fun _ => ih (hbinary _ _)
  match ns, h with
  | [], _ => exact hG.of_kind hunit
  | n :: m :: ns, _ => exact hfold ns (hbinary n m)

end Operations

/-! ## What stands for an expression -/

/-- **`StandsFor`** — a node stands for an expression with nothing around it: the node of the field or of the
constant that the expression is, a column of another row, or an operation, which has some property. -/
def StandsFor (Good : Node → Prop) (env : Env) (ctx : Context) (e : Expr) (n : Node) : Prop :=
  match e with
  | .inputRef i _ => ctx.field env i = .ok n
  | .literal l => literalIn env ctx l = .ok n
  | .fieldAccess .. | .patternField .. => Good n ∨ ∃ name table, n = Node.column name (some table)
  | _ => Good n

theorem length_of_scalarNodes {es : List Expr} {ns : List Node} {s s' : State}
    (h : (scalarNodes env sub ctx es).Gives s ns s') : ns.length = es.length := by
  induction es generalizing s s' ns with
  | nil =>
    rw [scalarNodes, ConvertM.gives_pure] at h
    rw [← h.1]
    rfl
  | cons e es ih =>
    simp only [scalarNodes, ConvertM.gives_bind, ConvertM.gives_pure] at h
    obtain ⟨n, s₁, -, more, s₂, hmore, rfl, -⟩ := h
    rw [List.length_cons, List.length_cons, ih hmore]

section Calls

variable {Good : Node → Prop} (hG : Operates Good)

include hG

/-- A call that nothing is left out of is an operation. -/
theorem yields_call (hd : env.dialect.targetFunctions.all (!isConnective ·.operator) = true) {op : Operator}
    {es : List Expr} (t : DataType) (hsingle : isConnective op = true → es.length ≠ 1)
    (htwice : op.kind = .not → ∀ inner e more u rest, es = .call inner (e :: more) u :: rest → inner.kind ≠ .not) :
    Yields Good (scalarNode env sub ctx (.call op es t)) := by
  have hconnected : isConnective op = true → ∀ s ns s', (scalarNodes env sub ctx es).Gives s ns s' → ns.length ≠ 1 := by
    intro hop s ns s' hns
    rw [length_of_scalarNodes hns]
    exact hsingle hop
  rw [scalarNode.eq_def]
  simp only
  split
  · rename_i hkind
    refine .bind (hconnected (by simp [isConnective, hkind])) fun ns hns => .pure (operates_connect hG (by simp) (by simp [Node.boolean]) hns)
  · rename_i hkind
    refine .bind (hconnected (by simp [isConnective, hkind])) fun ns hns => .pure (operates_connect hG (by simp) (by simp [Node.boolean]) hns)
  · rename_i hkind
    split
    · exact .throw
    · rename_i inner e more u rest
      rw [if_neg (by simpa using htwice hkind inner e more u rest rfl)]
      exact .bind_any fun n => .pure (produced_deny hG _)
    · exact .bind_any fun n => .pure (produced_deny hG _)
  · exact .bind_any fun ns => .pure (hG.of_kind (by unfold caseNode; split <;> simp))
  · refine .bind_any fun sarg => ?_
    split
    · exact .bind_any fun n => .lift fun m hm => produced_sargNode hG hm
    · exact .throw
  · split
    · exact .throw
    · split
      · refine .lift fun n hn => ?_
        unfold cursorNode at hn
        split at hn
        · simp only [bind_eq_ok_iff, pure_eq_ok_iff] at hn
          obtain ⟨m, -, rfl⟩ := hn
          exact hG.of_kind (by simp [Node.wrap])
        · cases hn
      · exact .bind_any fun n => .pure (hG.of_kind (by simp [Dialect.castNode]))
  · exact .bind_any fun ns => .pure (hG.of_kind (by simp))
  · exact .bind_any fun ns => .pure (hG.of_kind (by simp))
  · split
    · exact .throw
    · refine .bind_any fun n => .lift fun m hm => ?_
      simp only [quantifierNode, bind_eq_ok_iff, pure_eq_ok_iff] at hm
      obtain ⟨min, -, max, -, rfl⟩ := hm
      exact hG.of_kind (by simp)
  · have hcall : ∀ types ns, Yields Good (do
        let written ← env.dialect.retarget op types
        operationNode written ns) := fun types ns =>
      .bind (.lift fun written hwritten => isConnective_of_retarget hd (by simp_all [isConnective]) hwritten)
        fun written hwritten => .lift fun m hm => operates_operationNode hG hwritten hm
    split
    · exact .bind_any fun l => .bind_any fun r => .bind_any (hcall _)
    · exact .bind_any fun l => .bind_any fun r => .bind_any (hcall _)
    · exact .bind_any (hcall _)

/-- A windowed call is an operation. -/
theorem operates_windowedNode (op : Operator) (args : List Node) (distinct : Bool) (parts : WindowParts) :
    Good (windowedNode op args distinct parts) := by
  refine hG.of_kind ?_
  unfold windowedNode
  split <;> simp [orZero, overNode, Node.call]

end Calls

/-- A test with a sub-query, and its value, are operations. -/
theorem operates_subQueryNode {Good : Node → Prop} (hG : Operates Good) (hquery : ∀ q, Good (Node.subquery q))
    {op : Operator} {operand : Option Node} {query n : Node} (h : subQueryNode op operand query = .ok n) : Good n := by
  unfold subQueryNode at h
  split at h <;> cases h
  · exact hG.of_kind (by simp [Node.inQuery])
  · exact hG.of_kind (by simp [Node.inQuery])
  · exact hG.of_kind (by simp [Node.wrap])
  · exact hquery _

/-- The fields of named inputs are columns. -/
theorem column_of_aliases (henv : env.fieldMap = []) {inputs : Aliases} {qualified : Bool} {i : Ordinal} {n : Node}
    (h : (Context.aliases inputs qualified).field env i = .ok n) :
    ∃ name table, n = Node.column name (if qualified then some table else none) := by
  simp only [Context.field, Context.aliasField, Env.mapped?, henv, OrderedMap.get?_nil, Option.getD_none] at h
  split at h
  · split at h
    · rename_i table f _
      exact ⟨f.name, table, (Except.ok.inj h).symm⟩
    · cases h
  · cases h

/-- A field of a row around is a column with a qualifier. -/
theorem column_correlatedField (henv : env.fieldMap = []) {id : String} {i : Nat} {s s' : State} {n : Node}
    (hs : OnlyColumns s) (h : (correlatedField env id i).Gives s n s') :
    ∃ name table, n = Node.column name (some table) := by
  simp only [correlatedField, correlated, ConvertM.gives_bind, ConvertM.gives_get, ConvertM.gives_lift] at h
  obtain ⟨ctx, s₁, ⟨t, s₂, ⟨rfl, rfl⟩, hctx⟩, hn, -⟩ := h
  split at hctx
  · rename_i found hfound
    obtain ⟨rfl, -⟩ := (ConvertM.gives_pure _ _ _ _).mp hctx
    obtain ⟨inputs, rfl⟩ := hs id _ hfound
    exact column_of_aliases henv hn
  · exact absurd hctx (ConvertM.gives_throw _ _ _ _)

section Scalars

variable {Good : Node → Prop}

mutual

/-- **`scalarNode`** — an expression is written as what stands for its core. -/
theorem stands_scalarNode (hG : Operates Good) (hquery : ∀ q, Good (Node.subquery q)) (henv : env.fieldMap = [])
    (hd : env.dialect.targetFunctions.all (!isConnective ·.operator) = true) :
    ∀ (e : Expr) {s s' : State} {n : Node}, OnlyColumns s → (scalarNode env sub ctx e).Gives s n s' →
    StandsFor Good env ctx e.core n
  | .inputRef i t, s, s', n, _, h => by
    rw [scalarNode, ConvertM.gives_lift] at h
    exact h.1
  | .literal l, s, s', n, _, h => by
    rw [scalarNode, ConvertM.gives_lift] at h
    exact h.1
  | .localRef i shared t, s, s', n, hs, h => by
    rw [scalarNode] at h
    rw [core]
    cases hk : i.nat? with
    | some k =>
      simp only [hk] at h
      obtain ⟨c, hc, hstands⟩ := stands_scalarNodeAt hG hquery henv hd i k shared hs h
      simp only [hc, Option.getD_some]
      exact hstands
    | none =>
      simp only [hk] at h
      exact absurd h (ConvertM.gives_throw _ _ _ _)
  | .call op es t, s, s', n, hs, h => by
    by_cases hsingle : isConnective op = true ∧ es.length = 1
    · -- one condition is connected with nothing
      obtain ⟨hop, hone⟩ := hsingle
      obtain ⟨e, rfl⟩ := List.length_eq_one_iff.mp hone
      rw [core_single hop]
      simp only [scalarNode_connective hop, scalarNodes, ConvertM.gives_bind, ConvertM.gives_pure] at h
      obtain ⟨ns, s₁, ⟨m, s₂, hm, more, s₃, ⟨rfl, rfl⟩, rfl, rfl⟩, rfl, rfl⟩ := h
      have hsame : (if op.kind == .and then Node.and [m] else Node.or [m]) = m := ite_self m
      rw [hsame]
      exact stands_scalarNode hG hquery henv hd e hs hm
    · by_cases htwice : ∃ inner e more u rest,
          op.kind = .not ∧ es = call inner (e :: more) u :: rest ∧ inner.kind = .not
      · obtain ⟨inner, e, more, u, rest, hop, rfl, hinner⟩ := htwice
        rw [core_twice hop hinner]
        rw [scalarNode.eq_def] at h
        simp only [hop, hinner, BEq.rfl, if_true] at h
        exact stands_scalarNode hG hquery henv hd e hs h
      · have hlone : isConnective op = true → es.length ≠ 1 := fun hop hone => hsingle ⟨hop, hone⟩
        have honce : op.kind = .not → ∀ inner e more u rest, es = call inner (e :: more) u :: rest →
            inner.kind ≠ .not := fun hop inner e more u rest heq hinner =>
          htwice ⟨inner, e, more, u, rest, hop, heq, hinner⟩
        rw [core_call t hlone honce]
        exact yields_call hG hd t hlone honce s n s' h
  | .overWindow op es window distinct t, s, s', n, _, h => by
    have hwindow : Yields Good
        (scalarNode env sub ctx (.overWindow op es window distinct t)) := by
      rw [scalarNode]
      refine .bind_any fun ps => .bind_any fun os => .bind_any fun written => .bind_any fun as => ?_
      simp only
      split
      · exact .bind_any fun frame => .pure (operates_windowedNode hG _ _ _ _)
      · exact .bind_any fun frame => .pure (operates_windowedNode hG _ _ _ _)
    exact hwindow s n s' h
  | .fieldAccess row field i t, s, s', n, hs, h => by
    rw [scalarNode.eq_def] at h
    split at h
    any_goals contradiction
    · rename_i id u _ _ _ heq
      cases heq
      exact .inr (column_correlatedField henv hs h)
    · rename_i row' field' i' t' _ heq
      cases heq
      simp only [ConvertM.gives_bind, ConvertM.gives_pure] at h
      obtain ⟨m, s₁, -, rfl, -⟩ := h
      exact .inl (hG.of_kind (by simp [Node.dot]))
  | .correlation id t, s, s', n, _, h => by
    rw [scalarNode] at h
    exact absurd h (ConvertM.gives_throw _ _ _ _)
  | .subQuery op es relation t, s, s', n, _, h => by
    have htest : Yields Good (scalarNode env sub ctx (.subQuery op es relation t)) := by
      rw [scalarNode]
      refine .bind_any fun query => ?_
      have hoperand : ∀ operand : Option Node, Yields Good
          (liftM (subQueryNode op operand query)) := fun operand => .lift fun n hn => operates_subQueryNode hG hquery hn
      simp only
      split
      · split
        · exact .bind_any fun n => .bind_any hoperand
        · exact .bind_any fun ns => .bind_any hoperand
      · exact .bind_any hoperand
    exact htest s n s' h
  | .parameter i t, s, s', n, _, h => by
    rw [scalarNode, ConvertM.gives_pure] at h
    obtain ⟨rfl, -⟩ := h
    exact hG.of_kind (by simp)
  | .patternField symbol i t, s, s', n, _, h => by
    rw [scalarNode, ConvertM.gives_lift] at h
    simp only [patternFieldNode, bind_eq_ok_iff] at h
    obtain ⟨⟨m, -, hn⟩, -⟩ := h
    split at hn
    · obtain rfl := (pure_eq_ok_iff _ _).mp hn
      exact .inr ⟨_, _, rfl⟩
    · cases hn

theorem stands_scalarNodeAt (hG : Operates Good) (hquery : ∀ q, Good (Node.subquery q)) (henv : env.fieldMap = [])
    (hd : env.dialect.targetFunctions.all (!isConnective ·.operator) = true) (index : Ordinal)
     (k : Nat) : ∀ (es : List Expr) {s s' : State} {n : Node}, OnlyColumns s →
    (scalarNodeAt env sub ctx index k es).Gives s n s' → ∃ c, coreAt k es = some c ∧ StandsFor Good env ctx c n
  | [], s, s', n, _, h => by
    rw [scalarNodeAt] at h
    exact absurd h (ConvertM.gives_throw _ _ _ _)
  | e :: es, s, s', n, hs, h => by
    rw [scalarNodeAt] at h
    rw [coreAt]
    split at h
    · rename_i hk
      rw [if_pos hk]
      exact ⟨_, rfl, stands_scalarNode hG hquery henv hd e hs h⟩
    · rename_i hk
      rw [if_neg hk]
      exact stands_scalarNodeAt hG hquery henv hd index (k - 1) es hs h

end

/-- **`projectedNode`** — a projected expression is written as what stands for its core, but a bare null as a cast. -/
theorem stands_projectedNode (hG : Operates Good) (hquery : ∀ q, Good (Node.subquery q)) (henv : env.fieldMap = [])
    (hd : env.dialect.targetFunctions.all (!isConnective ·.operator) = true) {e : Expr} {s s' : State} {n : Node}
    (hs : OnlyColumns s) (h : (projectedNode env sub ctx e).Gives s n s') :
    StandsFor Good env ctx e.core n ∨ Good n := by
  simp only [projectedNode, ConvertM.gives_bind, ConvertM.gives_pure] at h
  obtain ⟨m, s₁, hm, rfl, -⟩ := h
  split
  · refine .inr (hG.of_kind ?_)
    unfold typedNull
    split <;> simp [Node.null, Dialect.castNode]
  · exact .inl (stands_scalarNode hG hquery henv hd e hs hm)

end Scalars

end Convert

end AlgebraSql
