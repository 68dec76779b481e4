import AlgebraSql.Proofs.Inherited
import AlgebraSql.Proofs.Parts

/-!
# Admitted expressions — properties that a whole expression inherits.

A property that ordinary nodes inherit from their children holds of the node for an expression as soon as
it holds of its fields, of its calls and of the queries in it.  `Maintains` is the contract of a conversion
for such a property: it also says what every memory on the way has, because sub-queries and the fields of
rows around depend on the memory.
-/

namespace AlgebraSql.Convert

open Sql Node

variable {Good : Node → Prop} {env : Env} {ctx : Context}

/-! ## Conversions -/

/-- **`Maintains`** — from every memory with the property `I`, a conversion leaves one with it and gives
only values with the property `post`. -/
def Maintains {α : Type} (I : State → Prop) (post : α → Prop) (c : ConvertM α) : Prop :=
  ∀ s a s', I s → c.Gives s a s' → I s' ∧ post a

/-- A value that a conversion gives from some memory with the property `I`. -/
def Given {α : Type} (I : State → Prop) (c : ConvertM α) (a : α) : Prop := ∃ s s', I s ∧ c.Gives s a s'

namespace Maintains

variable {α β : Type} {I : State → Prop} {post : α → Prop} {post' : β → Prop}

theorem pure {a : α} (h : post a) : Maintains I post (Pure.pure a) := by
  intro s b s' hs hgives
  obtain ⟨rfl, rfl⟩ := (ConvertM.gives_pure _ _ _ _).mp hgives
  exact ⟨hs, h⟩

theorem lift {x : Except Error α} (h : ∀ a, x = .ok a → post a) : Maintains I post (liftM x) := by
  intro s a s' hs hgives
  obtain ⟨hx, rfl⟩ := (ConvertM.gives_lift _ _ _ _).mp hgives
  exact ⟨hs, h a hx⟩

theorem throw {e : Error} : Maintains I post (MonadExcept.throw e) := by
  intro s a s' _ hgives
  exact absurd hgives (ConvertM.gives_throw _ _ _ _)

/-- In a sequence, the second step may rely on where the value of the first one comes from. -/
theorem bind_given {c : ConvertM α} {f : α → ConvertM β} (hc : Maintains I post c)
    (hf : ∀ a, post a → Given I c a → Maintains I post' (f a)) : Maintains I post' (c >>= f) := by
  intro s b s'' hs hgives
  obtain ⟨a, s', hca, hfa⟩ := (ConvertM.gives_bind _ _ _ _ _).mp hgives
  obtain ⟨hs', ha⟩ := hc s a s' hs hca
  exact hf a ha ⟨s, s', hs, hca⟩ s' b s'' hs' hfa

theorem bind {c : ConvertM α} {f : α → ConvertM β} (hc : Maintains I post c)
    (hf : ∀ a, post a → Maintains I post' (f a)) : Maintains I post' (c >>= f) :=
  hc.bind_given fun a ha _ => hf a ha

/-- What follows a pure step may rely on what the step gives. -/
theorem lift_bind {x : Except Error α} {f : α → ConvertM β} (hf : ∀ a, x = .ok a → Maintains I post' (f a)) :
    Maintains I post' (liftM x >>= f) := by
  intro s b s'' hs hgives
  obtain ⟨a, s', hlift, hfa⟩ := (ConvertM.gives_bind _ _ _ _ _).mp hgives
  obtain ⟨hx, rfl⟩ := (ConvertM.gives_lift _ _ _ _).mp hlift
  exact hf a hx s b s'' hs hfa

theorem pure_bind {a : α} {f : α → ConvertM β} (hf : Maintains I post' (f a)) :
    Maintains I post' (Pure.pure a >>= f) := by
  intro s b s'' hs hgives
  obtain ⟨a', s', ha, hfa⟩ := (ConvertM.gives_bind _ _ _ _ _).mp hgives
  obtain ⟨rfl, rfl⟩ := (ConvertM.gives_pure _ _ _ _).mp ha
  exact hf s b s'' hs hfa

theorem mono {post₂ : α → Prop} {c : ConvertM α} (hc : Maintains I post c) (h : ∀ a, post a → post₂ a) :
    Maintains I post₂ c := fun s a s' hs hgives =>
  ⟨(hc s a s' hs hgives).1, h a (hc s a s' hs hgives).2⟩

theorem mapM {f : α → ConvertM β} {as : List α} (hf : ∀ a ∈ as, Maintains I post' (f a)) :
    Maintains I (fun bs => ∀ b ∈ bs, post' b) (as.mapM f) := by
  induction as with
  | nil =>
    rw [List.mapM_nil]
    exact .pure (by simp)
  | cons a as ih =>
    rw [List.mapM_cons]
    refine .bind (hf a (by simp)) fun b hb => .bind (ih fun c hc => hf c (by simp [hc])) fun bs hbs => .pure ?_
    simpa using ⟨hb, hbs⟩

end Maintains

/-- A second property that is asked for on a condition only. -/
theorem Maintains.and_imp {α : Type} {I : State → Prop} {p q : α → Prop} {h : Prop} {c : ConvertM α}
    (hp : Maintains I p c) (hq : h → Maintains I q c) : Maintains I (fun a => p a ∧ (h → q a)) c :=
  fun s a s' hs hgives => ⟨(hp s a s' hs hgives).1, (hp s a s' hs hgives).2, fun hh => (hq hh s a s' hs hgives).2⟩

/-- Two properties of what a conversion gives, one of them known from where it comes. -/
theorem Given.property {α : Type} {I : State → Prop} {post : α → Prop} {c : ConvertM α} {a : α}
    (h : Given I c a) (hc : Maintains I post c) : post a := by
  obtain ⟨s, s', hs, hgives⟩ := h
  exact (hc s a s' hs hgives).2

/-! ## Classes of expressions -/

/-- **`Admits`** — in a context, the fields have the property, and so have the queries and the calls of the
expressions of a class.  Fields that no expression of the class refers to may be anything. -/
structure Admits (env : Env) (sub : Rel → ConvertM Node) (I : State → Prop) (Good : Node → Prop) (ctx : Context)
    (A : Expr → Prop) : Prop where
  inherited : Inherited Good
  closed : PartClosed A
  field : ∀ {i t n}, A (.inputRef i t) → ctx.field env i = .ok n → Good n
  correlated : ∀ {id u field i t}, A (.fieldAccess (.correlation id u) field i t) →
    Maintains I Good (correlatedField env id i)
  patternField : ∀ {symbol i t n}, A (.patternField symbol i t) → patternFieldNode env ctx symbol i = .ok n → Good n
  query : ∀ {op es rel t}, A (.subQuery op es rel t) → Maintains I Good (sub rel)
  call : ∀ {op es t written ns}, A (.call op es t) → env.dialect.retarget op (es.map (·.type)) = .ok written →
    written.form = .function → (∀ n ∈ ns, Good n) →
    Good (if written.isAggregate then Node.aggregate written.name ns else Node.call written.name ns)
  /-- A windowed call, given where its operands, its keys and its frame come from. -/
  windowed : ∀ {op es window distinct t written args partition order frame},
    A (.overWindow op es window distinct t) → windowedOperator env.dialect op es = .ok written →
    Given I (scalarNodes env sub ctx es) args → (∀ n ∈ args, Good n) →
    Given I (scalarNodes env sub ctx window.partition) partition → (∀ n ∈ partition, Good n) →
    Given I (sortKeyNodes env sub ctx window.order) order → (∀ n ∈ order, Good n) →
    (∀ n, frame = some n → Given I (frameNodeOf env sub ctx window.frame) (some n) ∧ Good n) →
    Good (windowedNode written args distinct ⟨partition, order, frame⟩)

/-- A field of a pattern variable is a column. -/
theorem HasColumns.patternField (hcolumns : HasColumns Good) {symbol : String} {i : Ordinal} {n : Node}
    (h : patternFieldNode env ctx symbol i = .ok n) : Good n := by
  simp only [patternFieldNode, bind_eq_ok_iff] at h
  obtain ⟨m, -, h⟩ := h
  split at h
  · obtain rfl := (pure_eq_ok_iff _ _).mp h
    exact hcolumns _ _
  · cases h

/-- A class admits two properties together if it admits each of them. -/
theorem Admits.and {sub : Rel → ConvertM Node} {I : State → Prop} {P Q : Node → Prop} {A : Expr → Prop}
    (hP : Admits env sub I P ctx A) (hQ : Admits env sub I Q ctx A) :
    Admits env sub I (fun n => P n ∧ Q n) ctx A where
  inherited := hP.inherited.and hQ.inherited
  closed := hP.closed
  field := fun he hn => ⟨hP.field he hn, hQ.field he hn⟩
  correlated := fun he => ((hP.correlated he).and_imp fun _ : True => hQ.correlated he).mono fun _ h => ⟨h.1, h.2 trivial⟩
  patternField := fun he hn => ⟨hP.patternField he hn, hQ.patternField he hn⟩
  query := fun he => ((hP.query he).and_imp fun _ : True => hQ.query he).mono fun _ h => ⟨h.1, h.2 trivial⟩
  call := fun he hwritten hform hns =>
    ⟨hP.call he hwritten hform fun n hn => (hns n hn).1, hQ.call he hwritten hform fun n hn => (hns n hn).2⟩
  windowed := fun he hwritten hargs has hpartition hps horder hos hframe =>
    ⟨hP.windowed he hwritten hargs (fun n hn => (has n hn).1) hpartition (fun n hn => (hps n hn).1) horder
        (fun n hn => (hos n hn).1) fun n hn => ⟨(hframe n hn).1, (hframe n hn).2.1⟩,
      hQ.windowed he hwritten hargs (fun n hn => (has n hn).2) hpartition (fun n hn => (hps n hn).2) horder
        (fun n hn => (hos n hn).2) fun n hn => ⟨(hframe n hn).1, (hframe n hn).2.2⟩⟩

/-- A smaller class is admitted too. -/
theorem Admits.restrict {sub : Rel → ConvertM Node} {I : State → Prop} {A B : Expr → Prop}
    (h : Admits env sub I Good ctx A) (hB : PartClosed B) (hAB : ∀ e, B e → A e) : Admits env sub I Good ctx B where
  inherited := h.inherited
  closed := hB
  field := fun he => h.field (hAB _ he)
  correlated := fun he => h.correlated (hAB _ he)
  patternField := fun he => h.patternField (hAB _ he)
  query := fun he => h.query (hAB _ he)
  call := fun he => h.call (hAB _ he)
  windowed := fun he => h.windowed (hAB _ he)

/-! ## Expressions -/

section Scalars

variable {sub : Rel → ConvertM Node} {I : State → Prop} {A : Expr → Prop}

/-- A call of an operator on nodes with the property. -/
theorem Admits.operation (h : Admits env sub I Good ctx A) {op : Operator} {es : List Expr} {t : DataType}
    (he : A (.call op es t)) {ns : List Node} (hns : ∀ n ∈ ns, Good n) :
    Maintains I Good (do
      let written ← env.dialect.retarget op (es.map (·.type))
      operationNode written ns) := by
  refine .lift_bind fun written hwritten => .lift fun n hn => ?_
  by_cases hform : written.form = .function
  · have hcall := h.call he hwritten hform hns
    obtain rfl : (if written.isAggregate then Node.aggregate written.name ns else Node.call written.name ns) = n := by
      simpa [operationNode, hform] using hn
    exact hcall
  · exact inherited_operationNode h.inherited hn hform hns

mutual

/-- **`scalarNode`** — the node for an expression inherits the property from its fields, calls and queries. -/
theorem inherited_scalarNode (h : Admits env sub I Good ctx A) :
    ∀ e : Expr, A e → Maintains I Good (scalarNode env sub ctx e)
  | .inputRef i t, he => by
    rw [scalarNode]
    exact .lift fun n hn => h.field he hn
  | .localRef i shared t, he => by
    rw [scalarNode]
    split
    · refine inherited_scalarNodeAt h i _ shared fun e hmem => h.closed _ he e ?_
      simp [Scalar.immediate, nth?, *]
    · exact .throw
  | .literal l, _ => by
    rw [scalarNode]
    exact .lift fun n hn => inherited_literalIn h.inherited hn
  | .call op es t, he => by
    have hes : ∀ e ∈ es, A e := h.closed _ he
    have hoperands := inherited_scalarNodes h es hes
    rw [scalarNode.eq_def]
    simp only
    split
    · exact .bind hoperands fun ns hns => .pure (inherited_and h.inherited hns)
    · exact .bind hoperands fun ns hns => .pure (inherited_or h.inherited hns)
    · -- a denial of a denial is what it denies twice
      split
      · exact .throw
      · rename_i inner e more u rest
        have hinner := hes (.call inner (e :: more) u) (by simp)
        split
        · exact inherited_scalarNode h e (h.closed _ hinner e (by simp [Scalar.immediate]))
        · exact .bind (inherited_scalarNode h (.call inner (e :: more) u) hinner) fun n hn =>
            .pure (inherited_deny h.inherited _ hn)
      · rename_i operand rest _
        exact .bind (inherited_scalarNode h operand (hes operand (by simp))) fun n hn =>
          .pure (inherited_deny h.inherited _ hn)
    · exact .bind hoperands fun ns hns => .pure (inherited_caseNode h.inherited hns)
    · refine .lift_bind fun sarg _ => ?_
      split
      · rename_i operand rest _
        exact .bind (inherited_scalarNode h operand (hes operand (by simp))) fun n hn =>
          .lift fun m hm => inherited_sargNode h.inherited hn hm
      · exact .throw
    · split
      · exact .throw
      · rename_i operand rest
        split
        · refine .lift fun n hn => ?_
          unfold cursorNode at hn
          split at hn
          · simp only [bind_eq_ok_iff, pure_eq_ok_iff] at hn
            obtain ⟨m, hm, rfl⟩ := hn
            exact inherited_wrap h.inherited rfl (h.field (hes _ List.mem_cons_self) hm)
          · cases hn
        · exact .bind (inherited_scalarNode h operand (hes operand (by simp))) fun n hn =>
            .pure (inherited_castNode h.inherited _ hn _)
    · exact .bind hoperands fun ns hns => .pure (h.inherited.of_args rfl (by simpa using hns))
    · exact .bind hoperands fun ns hns => .pure (h.inherited.of_args rfl (by simpa using hns))
    · split
      · exact .throw
      · rename_i pattern bounds
        exact .bind (inherited_scalarNode h pattern (hes pattern (by simp))) fun n hn =>
          .lift fun m hm => inherited_quantifierNode h.inherited hm hn
    · -- the operands of any other call, without a conversion that the dialect makes by itself
      split
      · rename_i op' inner tail u right more _
        have hinner := h.closed _ (hes (.call op' (inner :: tail) u) (by simp)) inner (by simp [Scalar.immediate])
        refine .bind (inherited_scalarNode h inner hinner) fun l hl => ?_
        refine .bind (inherited_scalarNode h right (hes right (by simp))) fun r hr => ?_
        exact .pure_bind (h.operation he (by simpa using ⟨hl, hr⟩))
      · rename_i left op' inner tail u more _
        have hinner := h.closed _ (hes (.call op' (inner :: tail) u) (by simp)) inner (by simp [Scalar.immediate])
        refine .bind (inherited_scalarNode h left (hes left (by simp))) fun l hl => ?_
        refine .bind (inherited_scalarNode h inner hinner) fun r hr => ?_
        exact .pure_bind (h.operation he (by simpa using ⟨hl, hr⟩))
      · exact .bind hoperands fun ns hns => h.operation he hns
  | .overWindow op es ⟨partition, order, frame⟩ distinct t, he => by
    have hes : ∀ e ∈ es, A e := fun e hmem => h.closed _ he e (by simp [Scalar.immediate, hmem])
    have hpartition : ∀ e ∈ partition, A e := fun e hmem =>
      h.closed _ he e (by simp [Scalar.immediate, windowExprs, hmem])
    have horder : ∀ k ∈ order, A k.key := fun k hmem => h.closed _ he k.key (by
      simpa [Scalar.immediate, windowExprs] using .inr (.inr (.inl ⟨k, hmem, rfl⟩)))
    have hframe : ∀ e ∈ frameExprs frame, A e := fun e hmem =>
      h.closed _ he e (by simp [Scalar.immediate, windowExprs, hmem])
    rw [scalarNode]
    refine .bind_given (inherited_scalarNodes h partition hpartition) fun ps hps hgivenp => ?_
    refine .bind_given (inherited_sortKeyNodes h order horder) fun os hos hgiveno => ?_
    refine .lift_bind fun written hwritten => ?_
    refine .bind_given (inherited_scalarNodes h es hes) fun as has hgivena => ?_
    split
    · refine .bind_given (inherited_frameNodeOf h frame hframe) fun f hf hgivenf => .pure ?_
      refine h.windowed he hwritten hgivena has hgivenp hps hgiveno hos fun n hn => ?_
      subst hn
      exact ⟨hgivenf, hf n rfl⟩
    · refine .pure_bind (.pure ?_)
      exact h.windowed he hwritten hgivena has hgivenp hps hgiveno hos fun n hn => by cases hn
  | .fieldAccess row field i t, he => by
    rw [scalarNode.eq_def]
    split
    any_goals contradiction
    · rename_i id u _ j v heq
      cases heq
      exact h.correlated he
    · rename_i row' field' i' t' _ heq
      cases heq
      refine .bind (inherited_scalarNode h row (h.closed _ he row (by simp [Scalar.immediate]))) fun n hn => .pure ?_
      exact h.inherited.of_args rfl (by simpa using ⟨hn, inherited_identifier h.inherited field _⟩)
  | .correlation id t, _ => by
    rw [scalarNode]
    exact .throw
  | .subQuery op es relation t, he => by
    have hes : ∀ e ∈ es, A e := h.closed _ he
    rw [scalarNode]
    refine .bind (h.query he) fun query hquery => ?_
    have htest : ∀ o : Option Node, (∀ m, o = some m → Good m) →
        Maintains I Good (liftM (subQueryNode op o query)) := fun o ho =>
      .lift fun n hn => inherited_subQueryNode h.inherited hn ho hquery
    split
    · split
      · rename_i only
        refine .bind (inherited_scalarNode h only (hes only (by simp))) fun n hn => ?_
        exact .pure_bind (htest _ fun m hm => by cases hm; exact hn)
      · refine .bind (inherited_scalarNodes h _ hes) fun ns hns => ?_
        exact .pure_bind (htest _ fun m hm => by cases hm; exact inherited_tuple h.inherited hns)
    · exact .pure_bind (htest none fun m hm => by cases hm)
  | .parameter i t, _ => by
    rw [scalarNode]
    exact .pure (h.inherited.leaf rfl rfl)
  | .patternField symbol i t, he => by
    rw [scalarNode]
    exact .lift fun n hn => h.patternField he hn

/-- The nodes for several expressions have the property. -/
theorem inherited_scalarNodes (h : Admits env sub I Good ctx A) :
    ∀ es : List Expr, (∀ e ∈ es, A e) → Maintains I (fun ns => ∀ n ∈ ns, Good n) (scalarNodes env sub ctx es)
  | [], _ => by
    rw [scalarNodes]
    exact .pure (by simp)
  | e :: es, he => by
    rw [scalarNodes]
    refine .bind (inherited_scalarNode h e (he e (by simp))) fun n hn => ?_
    refine .bind (inherited_scalarNodes h es fun e hmem => he e (by simp [hmem])) fun ns hns => .pure ?_
    simpa using ⟨hn, hns⟩

/-- The node for an entry of a shared list has the property. -/
theorem inherited_scalarNodeAt (h : Admits env sub I Good ctx A) (index : Ordinal) (n : Nat) :
    ∀ es : List Expr, (∀ e, es[n]? = some e → A e) → Maintains I Good (scalarNodeAt env sub ctx index n es)
  | [], _ => by
    rw [scalarNodeAt]
    exact .throw
  | e :: es, he => by
    rw [scalarNodeAt]
    by_cases hn : n = 0
    · rw [if_pos hn]
      exact inherited_scalarNode h e (he e (by simp [hn]))
    · rw [if_neg hn]
      refine inherited_scalarNodeAt h index (n - 1) es fun c hmem => he c ?_
      rwa [List.getElem?_cons, if_neg hn]

/-- The sort keys of a window have the property. -/
theorem inherited_sortKeyNodes (h : Admits env sub I Good ctx A) :
    ∀ ks : List (SortKey Expr), (∀ k ∈ ks, A k.key) →
    Maintains I (fun ns => ∀ n ∈ ns, Good n) (sortKeyNodes env sub ctx ks)
  | [], _ => by
    rw [sortKeyNodes]
    exact .pure (by simp)
  | ⟨e, direction, nulls⟩ :: ks, hks => by
    rw [sortKeyNodes]
    refine .bind (inherited_scalarNode h e (hks ⟨e, direction, nulls⟩ (by simp))) fun n hn => ?_
    refine .bind (inherited_sortKeyNodes h ks fun k hmem => hks k (by simp [hmem])) fun ns hns => .pure ?_
    intro m hm
    rcases List.mem_append.mp hm with hm | hm
    · exact inherited_sortKeys h.inherited hn hn m hm
    · exact hns m hm

/-- The offset of a frame's end has the property. -/
theorem inherited_boundOf (h : Admits env sub I Good ctx A) :
    ∀ b : Bound Expr, (∀ e ∈ boundExprs (some b), A e) →
    Maintains I (fun e => ∀ c ∈ e.offset.children, Good c) (boundOf env sub ctx b)
  | .unboundedPreceding, _ => by
    rw [boundOf]
    exact .pure (by simp)
  | .unboundedFollowing, _ => by
    rw [boundOf]
    exact .pure (by simp)
  | .currentRow, _ => by
    rw [boundOf]
    exact .pure (by simp)
  | .preceding e, he => by
    rw [boundOf]
    exact .bind (inherited_scalarNode h e (he e (by simp [boundExprs]))) fun n hn => .pure (by simpa using hn)
  | .following e, he => by
    rw [boundOf]
    exact .bind (inherited_scalarNode h e (he e (by simp [boundExprs]))) fun n hn => .pure (by simpa using hn)

/-- The frame of a window has the property. -/
theorem inherited_frameNodeOf (h : Admits env sub I Good ctx A) :
    ∀ f : Frame Expr, (∀ e ∈ frameExprs f, A e) →
    Maintains I (fun f => ∀ n, f = some n → Good n) (frameNodeOf env sub ctx f)
  | ⟨rows, none, stop⟩, _ => by
    rw [frameNodeOf]
    exact .pure fun n hn => by cases hn
  | ⟨rows, some start, none⟩, he => by
    rw [frameNodeOf]
    refine .bind (inherited_boundOf h start fun e hmem => he e (by simp [frameExprs, hmem])) fun b hb => .pure fun n hn => ?_
    cases hn
    exact inherited_frameNode h.inherited hb fun e he => by cases he
  | ⟨rows, some start, some stop⟩, he => by
    rw [frameNodeOf]
    refine .bind (inherited_boundOf h start fun e hmem => he e (by simp [frameExprs, hmem])) fun b hb => ?_
    refine .bind (inherited_boundOf h stop fun e hmem => he e (by simp [frameExprs, hmem])) fun c hc => .pure fun n hn => ?_
    cases hn
    exact inherited_frameNode h.inherited hb fun e he => by cases he; exact hc

end

/-! ## Join conditions -/

/-- Comparisons of a class may be turned round and lose a conversion. -/
def ClosedUnderTurning (d : Dialect) (A : Expr → Prop) : Prop :=
  ∀ {op es t}, A (.call op es t) → isFieldComparison op.kind = true →
    ∀ width, A (leftFirst width op (withoutCast d op es) t)

/-- A class that asks for something of the operator of a call, and of its operands to be members. -/
theorem closedUnderTurning {d : Dialect} {A : Expr → Prop} {C : Operator → Prop} (hA : PartClosed A)
    (hcall : ∀ {op es t}, C op → (∀ e ∈ es, A e) → A (.call op es t))
    (hop : ∀ {op es t}, A (.call op es t) → C op ∧ C op.reversed) : ClosedUnderTurning d A := by
  intro op es t he _ width
  have hes : ∀ e ∈ es, A e := hA _ he
  have hbare : ∀ e ∈ withoutCast d op es, A e := by
    intro e hmem
    unfold withoutCast at hmem
    split at hmem
    · rename_i op' inner tail u right rest _
      simp only [List.mem_cons, List.not_mem_nil, or_false] at hmem
      rcases hmem with rfl | rfl
      · exact hA _ (hes (.call op' (e :: tail) u) (by simp)) e (by simp [Scalar.immediate])
      · exact hes e (by simp)
    · rename_i left op' inner tail u rest _
      simp only [List.mem_cons, List.not_mem_nil, or_false] at hmem
      rcases hmem with rfl | rfl
      · exact hes e (by simp)
      · exact hA _ (hes (.call op' (e :: tail) u) (by simp)) e (by simp [Scalar.immediate])
    · exact hes e hmem
  unfold leftFirst
  split
  · rename_i a s b u heq
    split
    · refine hcall (hop he).2 fun e hmem => hbare e ?_
      rw [heq]
      simpa [or_comm] using hmem
    · exact hcall (hop he).1 (heq ▸ hbare)
  · exact hcall (hop he).1 hbare

mutual

/-- **`conditionNode`** — a join condition inherits the property too. -/
theorem inherited_conditionNode {left right : Context} (h : Admits env sub I Good (.join left right) A)
    (hturn : ClosedUnderTurning env.dialect A) :
    ∀ e : Expr, A e → Maintains I Good (conditionNode env sub left right e)
  | .literal l, he => by
    rw [conditionNode.eq_def]
    simp only
    split
    · exact .pure (inherited_boolean h.inherited _)
    · exact inherited_scalarNode h (.literal l) he
  | .call op es t, he => by
    have hes : ∀ e ∈ es, A e := h.closed _ he
    rw [conditionNode.eq_def]
    simp only
    split
    · exact .bind (inherited_conditionNodes h hturn es hes) fun ns hns => .pure (inherited_and h.inherited hns)
    · split
      · exact .bind (inherited_conditionNodes h hturn es hes) fun ns hns => .pure (inherited_or h.inherited hns)
      · split
        · rename_i hcomparison
          exact inherited_scalarNode h _ (hturn he hcomparison _)
        · exact inherited_scalarNode h (.call op es t) he
  | .inputRef i t, he => inherited_scalarNode h _ he
  | .localRef i shared t, he => inherited_scalarNode h _ he
  | .overWindow op es window distinct t, he => inherited_scalarNode h _ he
  | .fieldAccess row field i t, he => inherited_scalarNode h _ he
  | .correlation id t, he => inherited_scalarNode h _ he
  | .subQuery op es relation t, he => inherited_scalarNode h _ he
  | .parameter i t, he => inherited_scalarNode h _ he
  | .patternField symbol i t, he => inherited_scalarNode h _ he

theorem inherited_conditionNodes {left right : Context} (h : Admits env sub I Good (.join left right) A)
    (hturn : ClosedUnderTurning env.dialect A) :
    ∀ es : List Expr, (∀ e ∈ es, A e) →
    Maintains I (fun ns => ∀ n ∈ ns, Good n) (conditionNodes env sub left right es)
  | [], _ => by
    rw [conditionNodes]
    exact .pure (by simp)
  | e :: es, he => by
    rw [conditionNodes]
    refine .bind (inherited_conditionNode h hturn e (he e (by simp))) fun n hn => ?_
    refine .bind (inherited_conditionNodes h hturn es fun e hmem => he e (by simp [hmem])) fun ns hns => .pure ?_
    simpa using ⟨hn, hns⟩

end

/-! ## Window groups -/

/-- An operand of a windowed call of a group is an expression of the class, or a constant. -/
theorem inherited_windowOperand (h : Admits env sub I Good ctx A) (hliteral : ∀ l, A (.literal l))
    (constants : List Literal) (width : Ordinal) {e : Expr} (he : A e) :
    Maintains I Good (windowOperand env sub ctx constants width e) := by
  refine .lift_bind fun operand hoperand => inherited_scalarNode h operand ?_
  unfold resolveConstant at hoperand
  split at hoperand
  · split at hoperand
    · cases hoperand
      exact he
    · split at hoperand <;> cases hoperand
      exact hliteral _
  · cases hoperand
    exact he

/-- **Window groups** — the windowed calls of a group have what windowed calls of inherited parts have. -/
theorem inherited_windowGroupNodes {Windowed : Node → Prop} (h : Admits env sub I Good ctx A)
    (hfields : ∀ i n, ctx.field env i = .ok n → Good n) (hliteral : ∀ l, A (.literal l)) (constants : List Literal) (width : Ordinal) {group : WindowGroup Expr}
    (hframe : ∀ e ∈ frameExprs group.frame, A e) (hcalls : ∀ c ∈ group.calls, ∀ e ∈ c.operands, A e)
    (hover : ∀ c ∈ group.calls, ∀ written args parts, windowedOperator env.dialect c.op c.operands = .ok written →
      (∀ n ∈ args ++ parts.partition ++ parts.order ++ parts.frame.toList, Good n) →
      Windowed (windowedNode written args c.distinct parts)) :
    Maintains I (fun ns => ∀ n ∈ ns, Windowed n) (windowGroupNodes env sub ctx constants width group) := by
  have hkeys : Maintains I (fun ns => ∀ n ∈ ns, Good n)
      (group.keys.mapM fun k => liftM (ctx.field env k)) :=
    .mapM fun k _ => .lift fun n hn => hfields k n hn
  unfold windowGroupNodes
  refine .bind hkeys fun partition hpartition => ?_
  refine .lift_bind fun order horder => .mapM fun c hc => ?_
  have horder : ∀ n ∈ order, Good n := inherited_collationsNodes h.inherited (fun c _ => hfields c.key) horder
  unfold windowCallNode
  refine .lift_bind fun written hwritten => ?_
  refine .bind (.mapM fun e he => inherited_windowOperand h hliteral constants width (hcalls c hc e he))
    fun args hargs => ?_
  have hparts : ∀ frame : Option Node, (∀ n, frame = some n → Good n) →
      Maintains I Windowed (Pure.pure (windowedNode written args c.distinct ⟨partition, order, frame⟩)) := by
    intro frame hframe
    refine .pure (hover c hc written args _ hwritten fun n hn => ?_)
    simp only [List.mem_append, Option.mem_toList] at hn
    rcases hn with ((hn | hn) | hn) | hn
    · exact hargs n hn
    · exact hpartition n hn
    · exact horder n hn
    · exact hframe n hn
  split
  · exact .bind (inherited_frameNodeOf h group.frame hframe) hparts
  · exact .pure_bind (hparts none fun n hn => by cases hn)

end Scalars

end AlgebraSql.Convert
