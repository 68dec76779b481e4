import AlgebraSql.Proofs.SoundOperators

/-!
# Courses — what every conversion makes of the memory.

A conversion does three things to the memory: it records names, it declares correlation variables and it notes
whether a table has the name of one of its columns.  A relation that holds along these steps holds from the
memory before any conversion to the memory after it.  If such steps never come back below a bound, a
conversion that ends below the bound has been below it all the time; so it goes on in the same way when
sub-queries are only converted below the bound.
-/

namespace AlgebraSql

/-! ## Declarations -/

namespace Rel

/-- The correlation variables that an operator declares. -/
def declared : Rel → List String
  | .filter _ _ ids => ids
  | .project _ _ _ _ ids => ids
  | .join _ _ _ _ ids => ids
  | _ => []

end Rel

namespace Convert

open Sql

variable {α β : Type} {env : Env}

/-! ## Conversions -/

/-- **`Course`** — a relation that holds along every step of a conversion, and a bound that no step comes back
below.  Not all correlation variables may be declarable. -/
structure Course where
  leads : State → State → Prop
  bounded : State → Prop
  declarable : String → Bool
  refl : ∀ s, leads s s
  trans : ∀ {s t u}, leads s t → leads t u → leads s u
  recording : ∀ s name, leads s { s with usedNames := s.usedNames.record name }
  comparing : ∀ s b, leads s { s with tableNamedAsColumn := b }
  declaring : ∀ (s : State) (ids : List String) (inputs : Aliases), (∀ id ∈ ids, declarable id = true) →
    leads s { s with correlations := s.correlations.putAll (ids.map fun id => (id, .aliases inputs true)) }
  bounded_of_leads : ∀ {s t}, leads s t → bounded t → bounded s

namespace Course

/-- Operators declare only declarable variables. -/
def check (C : Course) : PlanCheck where
  relation rel := rel.declared.all C.declarable
  expression _ _ := true

@[simp]
theorem check_relation_iff (C : Course) (rel : Rel) :
    C.check.relation rel = true ↔ ∀ id ∈ rel.declared, C.declarable id = true := by
  simp [check]

end Course

/-- **`Steady`** — a conversion takes the course from every memory, and where it ends below the bound, another
conversion gives the same. -/
def Steady (C : Course) (c c' : ConvertM α) : Prop :=
  ∀ s a s', c.Gives s a s' → C.leads s s' ∧ (C.bounded s' → c'.Gives s a s')

/-- A conversion takes the course. -/
abbrev Takes (C : Course) (c : ConvertM α) : Prop := Steady C c c

variable {C : Course}

namespace Steady

theorem pure {a : α} : Steady C (Pure.pure a) (Pure.pure a) := by
  intro s b s' h
  refine ⟨?_, fun _ => h⟩
  rw [((ConvertM.gives_pure _ _ _ _).mp h).2]
  exact C.refl s'

theorem lift {x : Except Error α} : Steady C (liftM x) (liftM x) := by
  intro s a s' h
  refine ⟨?_, fun _ => h⟩
  rw [((ConvertM.gives_lift _ _ _ _).mp h).2]
  exact C.refl s'

theorem throw {e : Error} {c' : ConvertM α} : Steady C (MonadExcept.throw e) c' := by
  intro s a s' h
  exact absurd h (ConvertM.gives_throw _ _ _ _)

theorem get : Steady C MonadState.get MonadState.get := by
  intro s a s' h
  refine ⟨?_, fun _ => h⟩
  rw [((ConvertM.gives_get _ _ _).mp h).2]
  exact C.refl s'

theorem modify {f : State → State} (h : ∀ s, C.leads s (f s)) : Steady C (modify f) (modify f) := by
  intro s a s' hgives
  refine ⟨?_, fun _ => hgives⟩
  rw [← (ConvertM.gives_modify _ _ _ _).mp hgives]
  exact h s

theorem bind {c c' : ConvertM α} {f f' : α → ConvertM β} (hc : Steady C c c') (hf : ∀ a, Steady C (f a) (f' a)) :
    Steady C (c >>= f) (c' >>= f') := by
  intro s b s'' h
  obtain ⟨a, s', hca, hfa⟩ := (ConvertM.gives_bind _ _ _ _ _).mp h
  obtain ⟨hleads, hsame⟩ := hc s a s' hca
  obtain ⟨hleads', hsame'⟩ := hf a s' b s'' hfa
  refine ⟨C.trans hleads hleads', fun hbounded => ?_⟩
  have hbefore := C.bounded_of_leads hleads' hbounded
  exact (ConvertM.gives_bind _ _ _ _ _).mpr ⟨a, s', hsame hbefore, hsame' hbounded⟩

/-- What follows a pure step may rely on what the step gives. -/
theorem lift_bind {x : Except Error α} {f f' : α → ConvertM β} (hf : ∀ a, x = .ok a → Steady C (f a) (f' a)) :
    Steady C (liftM x >>= f) (liftM x >>= f') := by
  intro s b s' h
  obtain ⟨a, t, hlift, hfa⟩ := (ConvertM.gives_bind _ _ _ _ _).mp h
  obtain ⟨hx, rfl⟩ := (ConvertM.gives_lift _ _ _ _).mp hlift
  refine ⟨(hf a hx s b s' hfa).1, fun hbounded => (ConvertM.gives_bind _ _ _ _ _).mpr ⟨a, s, hlift, ?_⟩⟩
  exact (hf a hx s b s' hfa).2 hbounded

theorem mapM {f f' : α → ConvertM β} (as : List α) (hf : ∀ a ∈ as, Steady C (f a) (f' a)) :
    Steady C (as.mapM f) (as.mapM f') := by
  induction as with
  | nil =>
    rw [List.mapM_nil, List.mapM_nil]
    exact .pure
  | cons a as ih =>
    rw [List.mapM_cons, List.mapM_cons]
    exact .bind (hf a (by simp)) fun b => .bind (ih fun c hc => hf c (by simp [hc])) fun bs => .pure

end Steady

/-! ## Expressions -/

section Scalars

variable {sub sub' : Rel → ConvertM Node}

/-- Sub-queries take the course, unless they declare other variables. -/
abbrev SteadyQueries (C : Course) (sub sub' : Rel → ConvertM Node) : Prop :=
  ∀ rel, rel.satisfies C.check = true → Steady C (sub rel) (sub' rel)

theorem steady_correlatedField (id : String) (index : Nat) :
    Steady C (correlatedField env id index) (correlatedField env id index) := by
  unfold correlatedField correlated
  refine .bind (.bind .get fun s => ?_) fun ctx => .lift
  split
  · exact .pure
  · exact .throw

mutual

/-- **`scalarNode`** — an expression takes the course. -/
theorem steady_scalarNode (h : SteadyQueries C sub sub') (ctx : Context) (fields : Bool) :
    ∀ e : Expr, e.satisfies C.check fields = true → Steady C (scalarNode env sub ctx e) (scalarNode env sub' ctx e)
  | .inputRef i t, _ => by
    rw [scalarNode, scalarNode]
    exact .lift
  | .localRef i shared t, he => by
    simp only [Scalar.satisfies, Bool.and_eq_true] at he
    rw [scalarNode, scalarNode]
    cases i.nat? with
    | none => exact .throw
    | some n => exact steady_scalarNodeAt h ctx fields i n shared he.2
  | .literal l, _ => by
    rw [scalarNode, scalarNode]
    exact .lift
  | .call op operands t, he => by
    have hall : Scalar.allSatisfy C.check fields operands = true := (Bool.and_eq_true_iff.mp he).2
    have hoperands := steady_scalarNodes h ctx fields operands hall
    rw [scalarNode.eq_def env sub ctx (.call op operands t), scalarNode.eq_def env sub' ctx (.call op operands t)]
    simp only
    split
    · exact .bind hoperands fun ns => .pure
    · exact .bind hoperands fun ns => .pure
    · rcases operands with _ | ⟨operand, rest⟩
      · exact .throw
      · simp only [Scalar.allSatisfy, Bool.and_eq_true] at hall
        have hdefault : Steady C
            (do
              let n ← scalarNode env sub ctx operand
              return deny (operand.operator?.map (·.kind)) n)
            (do
              let n ← scalarNode env sub' ctx operand
              return deny (operand.operator?.map (·.kind)) n) :=
          .bind (steady_scalarNode h ctx fields operand hall.1) fun n => .pure
        cases operand with
        | call inner es u =>
          rcases es with _ | ⟨e, es⟩
          · exact hdefault
          · have hinner := hall.1
            simp only [Scalar.satisfies, Scalar.allSatisfy, Bool.and_eq_true] at hinner
            simp only
            split
            · exact steady_scalarNode h ctx fields e hinner.2.1
            · exact .bind (steady_scalarNode h ctx fields (.call inner (e :: es) u) hall.1) fun n => .pure
        | _ => exact hdefault
    · exact .bind hoperands fun ns => .pure
    · refine .bind .lift fun sarg => ?_
      rcases operands with _ | ⟨operand, rest⟩
      · exact .throw
      · simp only [Scalar.allSatisfy, Bool.and_eq_true] at hall
        exact .bind (steady_scalarNode h ctx fields operand hall.1) fun n => .lift
    · rcases operands with _ | ⟨operand, rest⟩
      · exact .throw
      · simp only [Scalar.allSatisfy, Bool.and_eq_true] at hall
        simp only
        split
        · exact .lift
        · exact .bind (steady_scalarNode h ctx fields operand hall.1) fun n => .pure
    · exact .bind hoperands fun ns => .pure
    · exact .bind hoperands fun ns => .pure
    · rcases operands with _ | ⟨pattern, bounds⟩
      · exact .throw
      · simp only [Scalar.allSatisfy, Bool.and_eq_true] at hall
        exact .bind (steady_scalarNode h ctx fields pattern hall.1) fun n => .lift
    · -- the operands of any other call, without a conversion that the dialect makes by itself
      have hcall : ∀ ns, Steady C
          (do
            let written ← env.dialect.retarget op (operands.map (·.type))
            operationNode written ns)
          (do
            let written ← env.dialect.retarget op (operands.map (·.type))
            operationNode written ns) := fun ns => .bind .lift fun written => .lift
      have hdefault := Steady.bind hoperands hcall
      rcases operands with _ | ⟨left, _ | ⟨right, rest⟩⟩
      · exact hdefault
      · exact hdefault
      · simp only [Scalar.allSatisfy, Bool.and_eq_true] at hall
        obtain ⟨hleft, hright, -⟩ := hall
        cases castSide env.dialect op.kind (left :: right :: rest) with
        | neither => exact hdefault
        | left =>
          cases left with
          | call op' es u =>
            rcases es with _ | ⟨inner, es⟩
            · exact hdefault
            · simp only [Scalar.satisfies, Scalar.allSatisfy, Bool.and_eq_true] at hleft
              refine .bind (steady_scalarNode h ctx fields inner hleft.2.1) fun l => ?_
              exact .bind (steady_scalarNode h ctx fields right hright) fun r => .bind .pure hcall
          | _ => exact hdefault
        | right =>
          cases right with
          | call op' es u =>
            rcases es with _ | ⟨inner, es⟩
            · exact hdefault
            · simp only [Scalar.satisfies, Scalar.allSatisfy, Bool.and_eq_true] at hright
              refine .bind (steady_scalarNode h ctx fields left hleft) fun l => ?_
              exact .bind (steady_scalarNode h ctx fields inner hright.2.1) fun r => .bind .pure hcall
          | _ => exact hdefault
  | .overWindow op operands ⟨partition, order, frame⟩ distinct t, he => by
    simp only [Scalar.satisfies, Scalar.windowSatisfies, Bool.and_eq_true] at he
    obtain ⟨⟨-, hoperands⟩, ⟨hpartition, horder⟩, hframe⟩ := he
    rw [scalarNode, scalarNode]
    refine .bind (steady_scalarNodes h ctx fields partition hpartition) fun ps => ?_
    refine .bind (steady_sortKeyNodes h ctx fields order horder) fun os => .bind .lift fun written => ?_
    refine .bind (steady_scalarNodes h ctx fields operands hoperands) fun as => ?_
    split
    · exact .bind (steady_frameNodeOf h ctx fields frame hframe) fun f => .pure
    · exact .bind .pure fun f => .pure
  | .fieldAccess row field i t, he => by
    simp only [Scalar.satisfies, Bool.and_eq_true] at he
    by_cases hrow : ∃ id u, row = .correlation id u
    · obtain ⟨id, u, rfl⟩ := hrow
      rw [scalarNode, scalarNode]
      exact steady_correlatedField id i
    · have hother : ∀ id u, row = .correlation id u → False := fun id u heq => hrow ⟨id, u, heq⟩
      rw [scalarNode, scalarNode]
      · exact .bind (steady_scalarNode h ctx fields row he.2) fun n => .pure
      · exact hother
      · exact hother
  | .correlation id t, _ => by
    rw [scalarNode, scalarNode]
    exact .throw
  | .subQuery op operands relation t, he => by
    simp only [Scalar.satisfies, Bool.and_eq_true] at he
    obtain ⟨⟨-, hoperands⟩, hrelation⟩ := he
    rw [scalarNode, scalarNode]
    refine .bind (h relation hrelation) fun query => ?_
    split
    · rcases operands with _ | ⟨only, _ | ⟨second, rest⟩⟩
      · exact .bind (steady_scalarNodes h ctx fields _ hoperands) fun ns => .bind .pure fun o => .lift
      · simp only [Scalar.allSatisfy, Bool.and_eq_true] at hoperands
        exact .bind (steady_scalarNode h ctx fields only hoperands.1) fun n => .bind .pure fun o => .lift
      · exact .bind (steady_scalarNodes h ctx fields _ hoperands) fun ns => .bind .pure fun o => .lift
    · exact .bind .pure fun o => .lift
  | .parameter i t, _ => by
    rw [scalarNode, scalarNode]
    exact .pure
  | .patternField symbol i t, _ => by
    rw [scalarNode, scalarNode]
    exact .lift

/-- Several expressions take the course. -/
theorem steady_scalarNodes (h : SteadyQueries C sub sub') (ctx : Context) (fields : Bool) :
    ∀ es : List Expr, Scalar.allSatisfy C.check fields es = true →
      Steady C (scalarNodes env sub ctx es) (scalarNodes env sub' ctx es)
  | [], _ => by
    rw [scalarNodes, scalarNodes]
    exact .pure
  | e :: es, he => by
    simp only [Scalar.allSatisfy, Bool.and_eq_true] at he
    rw [scalarNodes, scalarNodes]
    refine .bind (steady_scalarNode h ctx fields e he.1) fun n => ?_
    exact .bind (steady_scalarNodes h ctx fields es he.2) fun ns => .pure

/-- An entry of a shared list takes the course. -/
theorem steady_scalarNodeAt (h : SteadyQueries C sub sub') (ctx : Context) (fields : Bool) (index : Ordinal) (n : Nat) :
    ∀ es : List Expr, Scalar.allSatisfy C.check fields es = true →
      Steady C (scalarNodeAt env sub ctx index n es) (scalarNodeAt env sub' ctx index n es)
  | [], _ => by
    rw [scalarNodeAt, scalarNodeAt]
    exact .throw
  | e :: es, he => by
    simp only [Scalar.allSatisfy, Bool.and_eq_true] at he
    rw [scalarNodeAt, scalarNodeAt]
    split
    · exact steady_scalarNode h ctx fields e he.1
    · exact steady_scalarNodeAt h ctx fields index (n - 1) es he.2

/-- The sort keys of a window take the course. -/
theorem steady_sortKeyNodes (h : SteadyQueries C sub sub') (ctx : Context) (fields : Bool) :
    ∀ ks : List (SortKey Expr), Scalar.keysSatisfy C.check fields ks = true →
      Steady C (sortKeyNodes env sub ctx ks) (sortKeyNodes env sub' ctx ks)
  | [], _ => by
    rw [sortKeyNodes, sortKeyNodes]
    exact .pure
  | ⟨e, direction, nulls⟩ :: ks, he => by
    simp only [Scalar.keysSatisfy, Bool.and_eq_true] at he
    rw [sortKeyNodes, sortKeyNodes]
    refine .bind (steady_scalarNode h ctx fields e he.1) fun n => ?_
    exact .bind (steady_sortKeyNodes h ctx fields ks he.2) fun ns => .pure

/-- The offset of a frame's end takes the course. -/
theorem steady_boundOf (h : SteadyQueries C sub sub') (ctx : Context) (fields : Bool) :
    ∀ b : Bound Expr, Scalar.boundSatisfies C.check fields (some b) = true →
      Steady C (boundOf env sub ctx b) (boundOf env sub' ctx b)
  | .unboundedPreceding, _ | .unboundedFollowing, _ | .currentRow, _ => by
    rw [boundOf, boundOf]
    exact .pure
  | .preceding e, he | .following e, he => by
    rw [boundOf, boundOf]
    exact .bind (steady_scalarNode h ctx fields e he) fun n => .pure

/-- The frame of a window takes the course. -/
theorem steady_frameNodeOf (h : SteadyQueries C sub sub') (ctx : Context) (fields : Bool) :
    ∀ f : Frame Expr, Scalar.frameSatisfies C.check fields f = true →
      Steady C (frameNodeOf env sub ctx f) (frameNodeOf env sub' ctx f)
  | ⟨rows, none, stop⟩, _ => by
    rw [frameNodeOf, frameNodeOf]
    exact .pure
  | ⟨rows, some start, none⟩, he => by
    simp only [Scalar.frameSatisfies, Bool.and_eq_true] at he
    rw [frameNodeOf, frameNodeOf]
    exact .bind (steady_boundOf h ctx fields start he.1) fun b => .pure
  | ⟨rows, some start, some stop⟩, he => by
    simp only [Scalar.frameSatisfies, Bool.and_eq_true] at he
    rw [frameNodeOf, frameNodeOf]
    refine .bind (steady_boundOf h ctx fields start he.1) fun b => ?_
    exact .bind (steady_boundOf h ctx fields stop he.2) fun c => .pure

end

/-! ## Join conditions and window groups -/

/-- A comparison that is turned round has the same operands. -/
theorem Course.satisfies_leftFirst {fields : Bool} {width : Nat} {op : Operator} {operands : List Expr} {t : DataType}
    (he : Scalar.allSatisfy C.check fields operands = true) :
    (leftFirst width op operands t).satisfies C.check fields = true := by
  have hcall : ∀ op, (Scalar.call op operands t).satisfies C.check fields = true := by
    intro op
    rw [Scalar.satisfies, he]
    rfl
  unfold leftFirst
  split
  · split
    · rfl
    · exact hcall op
  · exact hcall op

mutual

/-- **`conditionNode`** — a join condition takes the course. -/
theorem steady_conditionNode (h : SteadyQueries C sub sub') (left right : Context) :
    ∀ e : Expr, e.satisfies C.check true = true →
      Steady C (conditionNode env sub left right e) (conditionNode env sub' left right e)
  | .literal l, he => by
    rw [conditionNode.eq_def env sub, conditionNode.eq_def env sub']
    simp only
    split
    · exact .pure
    · exact steady_scalarNode h _ true (.literal l) he
  | .call op operands t, he => by
    have hoperands := he
    simp only [Scalar.satisfies, Bool.and_eq_true] at hoperands
    rw [conditionNode.eq_def env sub, conditionNode.eq_def env sub']
    simp only
    split
    · exact .bind (steady_conditionNodes h left right operands hoperands.2) fun ns => .pure
    · split
      · exact .bind (steady_conditionNodes h left right operands hoperands.2) fun ns => .pure
      · split
        · exact steady_scalarNode h _ true _ (Course.satisfies_leftFirst (allSatisfy_withoutCast hoperands.2))
        · exact steady_scalarNode h _ true (.call op operands t) he
  | .inputRef .., he | .localRef .., he | .overWindow .., he | .fieldAccess .., he | .correlation .., he
  | .subQuery .., he | .parameter .., he | .patternField .., he => steady_scalarNode h _ true _ he

/-- Several join conditions take the course. -/
theorem steady_conditionNodes (h : SteadyQueries C sub sub') (left right : Context) :
    ∀ es : List Expr, Scalar.allSatisfy C.check true es = true →
      Steady C (conditionNodes env sub left right es) (conditionNodes env sub' left right es)
  | [], _ => by
    rw [conditionNodes, conditionNodes]
    exact .pure
  | e :: es, he => by
    simp only [Scalar.allSatisfy, Bool.and_eq_true] at he
    rw [conditionNodes, conditionNodes]
    refine .bind (steady_conditionNode h left right e he.1) fun n => ?_
    exact .bind (steady_conditionNodes h left right es he.2) fun ns => .pure

end

/-- An operand of a windowed call takes the course. -/
theorem steady_windowOperand (h : SteadyQueries C sub sub') (ctx : Context) (constants : List Literal) (width : Ordinal)
    {operand : Expr} (he : operand.satisfies C.check true = true) :
    Steady C (windowOperand env sub ctx constants width operand)
      (windowOperand env sub' ctx constants width operand) := by
  refine .lift_bind fun e hresolve => steady_scalarNode h ctx true e ?_
  unfold resolveConstant at hresolve
  split at hresolve
  · split at hresolve
    · cases hresolve
      exact he
    · split at hresolve
      · cases hresolve
        rfl
      · cases hresolve
  · cases hresolve
    exact he

/-- A window group takes the course. -/
theorem steady_windowGroupNodes (h : SteadyQueries C sub sub') (ctx : Context) (constants : List Literal)
    (width : Ordinal) {group : WindowGroup Expr}
    (hframe : Scalar.frameSatisfies C.check true group.frame = true)
    (hcalls : ∀ c ∈ group.calls, ∀ e ∈ c.operands, e.satisfies C.check true = true) :
    Steady C (windowGroupNodes env sub ctx constants width group)
      (windowGroupNodes env sub' ctx constants width group) := by
  unfold windowGroupNodes
  refine .bind (.mapM _ fun k _ => .lift) fun partition => .bind .lift fun order => .mapM _ fun c hc => ?_
  unfold windowCallNode
  refine .bind .lift fun written => .bind (.mapM _ fun e he => ?_) fun args => ?_
  · exact steady_windowOperand h ctx constants width (hcalls c hc e he)
  · split
    · exact .bind (steady_frameNodeOf h ctx true group.frame hframe) fun f => .pure
    · exact .bind .pure fun f => .pure

/-! ## Results -/

theorem steady_freshName (name : String) : Takes C (freshName name) := by
  intro s chosen s' h
  refine ⟨?_, fun _ => h⟩
  rw [← ((ConvertM.gives_freshName _ _ _ _).mp h).2]
  exact C.recording s _

theorem steady_nextName : Takes C nextName := by
  intro s name s' h
  refine ⟨?_, fun _ => h⟩
  rw [((ConvertM.gives_nextName _ _ _).mp h).2]
  exact C.refl s'

/-- A declaration of declarable variables takes the course. -/
theorem steady_registerCorrelations {ids : List String} (h : ∀ id ∈ ids, C.declarable id = true) (inputs : Aliases) :
    Takes C (registerCorrelations ids inputs) := by
  intro s u s' hgives
  refine ⟨?_, fun _ => hgives⟩
  rw [← (ConvertM.gives_registerCorrelations _ _ _ _ _).mp hgives]
  exact C.declaring s ids inputs h

theorem steady_makeResult (n : Node) (clauses : List Clause) (rel : Rel) (aliases : Option Aliases) :
    Takes C (makeResult env n clauses rel aliases) := by
  unfold makeResult
  refine .bind (steady_freshName _) fun name => .bind (.modify fun s => C.comparing s _) fun _ => .bind .get fun t => ?_
  rcases aliases with _ | (_ | ⟨a, rest⟩)
  · exact .pure
  · exact .pure
  · dsimp only
    split <;> exact .pure

theorem steady_wrapSelect (n : Node) : Takes C (wrapSelect env n) := by
  unfold wrapSelect
  refine .bind .get fun s => ?_
  split
  · exact .bind (steady_freshName _) fun name => .bind .lift fun item => .pure
  · exact .pure

namespace Result

variable (r : Result)

theorem steady_subSelect : Takes C (r.subSelect env) := .bind .lift fun item => steady_wrapSelect item

theorem steady_asSelect : Takes C (r.asSelect env) := by
  unfold asSelect
  split
  · exact .pure
  · refine .bind .get fun s => ?_
    split
    · exact r.steady_subSelect
    · exact steady_wrapSelect _

theorem steady_asQuery : Takes C (r.asQuery env) := by
  unfold asQuery
  split
  · exact .pure
  · split
    · exact .pure
    · exact r.steady_asSelect

theorem steady_builder (rel : Rel) : Takes C (r.builder env rel) := by
  unfold builder
  dsimp only
  split
  all_goals
    refine .bind (by first | exact r.steady_subSelect | exact r.steady_asSelect) fun select => ?_
    split
    · exact .pure
    · exact .bind .lift fun fields => .bind .get fun s => .pure
    · exact .bind .get fun s => .pure

end Result

/-! ## Operators -/

/-- **A filter** takes the course. -/
theorem steady_filterResult (h : SteadyQueries C sub sub) {input : Rel} {condition : Expr}
    {ids : List String} (hids : ∀ id ∈ ids, C.declarable id = true)
    (hcondition : condition.satisfies C.check true = true) (rel : Rel) (x : Result) : Takes C (filterResult env sub input condition ids rel x) := by
  unfold filterResult
  refine .bind (steady_registerCorrelations hids _) fun _ => .bind (Result.steady_builder _ _) fun b => ?_
  refine .bind (steady_scalarNode h _ true _ hcondition) fun n => .bind .lift fun b => ?_
  exact steady_makeResult _ _ _ _

/-- **A projection** takes the course. -/
theorem steady_projectResult (h : SteadyQueries C sub sub) {input : Rel}
    {projects : List Expr} {distinct : Bool} {ids : List String} (hids : ∀ id ∈ ids, C.declarable id = true)
    (hprojects : ∀ e ∈ projects, e.satisfies C.check true = true) (rel : Rel) (x : Result) :
    Takes C (projectResult env sub input projects distinct ids rel x) := by
  unfold projectResult
  refine .bind (steady_registerCorrelations hids _) fun _ => .bind (Result.steady_builder _ _) fun b => ?_
  by_cases hidentity : isIdentity input projects rel.fields = true
  · simp only [hidentity, if_true]
    exact .bind .pure fun b => steady_makeResult _ _ _ _
  · simp only [hidentity]
    refine .bind (.mapM _ fun e he => ?_) fun ns => .bind .lift fun items => ?_
    · exact .bind (steady_scalarNode h _ true e (hprojects e he)) fun n => .pure
    · exact .bind .pure fun b => steady_makeResult _ _ _ _

/-- **An aggregation** takes the course. -/
theorem steady_aggregateResult (keys : List Ordinal) (sets : List (List Ordinal))
    (calls : List AggregateCall) (rel : Rel) (x : Result) :
    Takes C (aggregateResult env keys sets calls rel x) := by
  unfold aggregateResult
  refine .bind (Result.steady_builder _ _) fun b => .bind .lift fun ks => .bind .lift fun items => ?_
  refine .bind .lift fun groups => .bind .lift fun aggregates => .bind .lift fun items => ?_
  by_cases hplain : (groups.isEmpty && !calls.isEmpty) = true
  · simp only [hplain, if_true]
    exact .bind .pure fun b => steady_makeResult _ _ _ _
  · simp only [hplain]
    exact .bind .lift fun b => steady_makeResult _ _ _ _

/-- **A sort** takes the course. -/
theorem steady_sortResult (h : SteadyQueries C sub sub) {root : Bool}
    {collation : List Collation} {offset fetch : Option Expr}
    (hoffset : Scalar.satisfies? C.check offset = true)
    (hfetch : Scalar.satisfies? C.check fetch = true) (rel : Rel) (x : Result) :
    Takes C (sortResult env sub root collation offset fetch rel x) := by
  have hlimited : ∀ {clause : Clause} {key : String} {kind : Kind} {limit : Option Expr},
      Scalar.satisfies? C.check limit = true →
        ∀ b, Takes C (limited env sub clause key kind limit b) := by
    intro clause key kind limit hlimit b
    cases limit with
    | none => exact .pure
    | some e => exact .bind (steady_scalarNode h _ false e hlimit) fun n => .lift
  rw [sortResult_eq]
  refine .bind (Result.steady_builder _ _) fun b => .bind ?_ fun b => .bind ?_ fun b => ?_
  · unfold listed
    split
    · exact .lift
    · exact .pure
  · unfold ordered
    refine .bind .lift fun keys => ?_
    split
    · exact .pure
    · exact .lift
  · refine .bind (hlimited hfetch b) fun b => .bind (hlimited hoffset b) fun b => ?_
    exact steady_makeResult _ _ _ _

/-- **Windowed calls** take the course. -/
theorem steady_windowResult (h : SteadyQueries C sub sub) {input : Rel}
    {groups : List (WindowGroup Expr)} (hgroups : Scalar.groupsSatisfy C.check groups = true)
    (constants : List Literal) (rel : Rel) (x : Result) :
    Takes C (windowResult env sub input groups constants rel x) := by
  unfold windowResult
  refine .bind (Result.steady_builder _ _) fun b => .bind (.mapM _ fun g hg => ?_) fun calls => ?_
  · obtain ⟨hframe, hcalls⟩ := (Scalar.groupsSatisfy_iff groups).mp hgroups g hg
    exact steady_windowGroupNodes h _ _ _ hframe hcalls
  · exact .bind .lift fun columns => .bind .lift fun items => steady_makeResult _ _ _ _

theorem steady_valuesResult (fields : RowType) (tuples : List (List Literal)) (rel : Rel) :
    Takes C (valuesResult env fields tuples rel) := by
  unfold valuesResult
  exact .bind steady_nextName fun name => .bind .lift fun n => steady_makeResult _ _ _ _

theorem steady_setOpResult (op : SetOperator) (all : Bool) (rel : Rel) (ns : List Node) :
    Takes C (setOpResult env op all rel ns) := by
  unfold setOpResult
  split
  · exact .throw
  · exact steady_makeResult _ _ _ _

/-- **A join** takes the course. -/
theorem steady_joinResult (h : SteadyQueries C sub sub) {condition : Expr}
    {type : JoinType} {ids : List String} (hids : ∀ id ∈ ids, C.declarable id = true)
    (hcondition : condition.satisfies C.check true = true) (rel : Rel) (x y : Result) :
    Takes C (joinResult env sub condition type ids rel x y) := by
  unfold joinResult
  refine .bind (steady_registerCorrelations hids _) fun _ => .bind .lift fun l => .bind .lift fun r => ?_
  by_cases hproduct : isProduct condition type = true
  · simp only [hproduct, if_true]
    exact .bind .pure fun n => steady_makeResult _ _ _ _
  · simp only [hproduct]
    refine .bind (steady_conditionNode h _ _ _ hcondition) fun on => ?_
    exact .bind .pure fun n => steady_makeResult _ _ _ _

/-- **A join that only tests for partners** takes the course. -/
theorem steady_semiJoinResult (h : SteadyQueries C sub sub) {condition : Expr}
    {type : JoinType} {ids : List String} (hids : ∀ id ∈ ids, C.declarable id = true)
    (hcondition : condition.satisfies C.check true = true) (rel : Rel) (x y : Result) :
    Takes C (semiJoinResult env sub condition type ids rel x y) := by
  unfold semiJoinResult
  refine .bind (steady_registerCorrelations hids _) fun _ => ?_
  refine .bind (steady_conditionNode h _ _ _ hcondition) fun on => ?_
  by_cases hneeded : x.neededAlias.isNone = true
  · simp only [hneeded, if_true]
    exact .bind x.steady_asSelect fun select => .bind .lift fun item => steady_makeResult _ _ _ _
  · simp only [hneeded]
    exact .bind x.steady_subSelect fun select => .bind .lift fun item => steady_makeResult _ _ _ _

theorem steady_tableFunctionResult (h : SteadyQueries C sub sub) {call : Expr}
    (hcall : call.satisfies C.check true = true) (rel : Rel) (ns : List Node) :
    Takes C (tableFunctionResult env sub call rel ns) := by
  unfold tableFunctionResult
  exact .bind (steady_scalarNode h _ true call hcall) fun n => steady_makeResult _ _ _ _

theorem steady_namedNodes (h : SteadyQueries C sub sub) (ctx : Context) {entries : List (String × Expr)}
    (hentries : Scalar.namedSatisfy C.check entries = true) : Takes C (namedNodes env sub ctx entries) :=
  .mapM _ fun p hp =>
    .bind (steady_scalarNode h _ true p.2 ((Scalar.namedSatisfy_iff entries).mp hentries p hp)) fun _ => .pure

theorem steady_rowPatternResult (h : SteadyQueries C sub sub) {spec : RowPattern Expr}
    (hspec : Scalar.patternSatisfies C.check spec = true) (rel : Rel) (x : Result) :
    Takes C (rowPatternResult env sub spec rel x) := by
  obtain ⟨pattern, definitions, measures, _, _, _, _, _, _, _, _⟩ := spec
  simp only [Scalar.patternSatisfies, Bool.and_eq_true] at hspec
  unfold rowPatternResult
  refine .bind .lift fun order => .bind .lift fun input => .bind .lift fun partition => ?_
  refine .bind (steady_namedNodes h _ hspec.2) fun ms => ?_
  refine .bind (steady_scalarNode h _ true pattern hspec.1.1) fun p => .bind .lift fun within => ?_
  exact .bind (steady_namedNodes h _ hspec.1.2) fun ds => steady_makeResult _ _ _ _

/-! ## Plans -/

mutual

/-- **`relationResult`** — a plan takes the course. -/
theorem steady_relationResult (h : SteadyQueries C sub sub) (root : Bool) :
    ∀ rel : Rel, rel.satisfies C.check = true → Takes C (relationResult env sub root rel)
  | .scan table fields, _ => by
    rw [relationResult]
    exact .bind .lift fun n => steady_makeResult _ _ _ _
  | .values fields tuples, _ => by
    rw [relationResult]
    exact steady_valuesResult fields tuples _
  | .filter input condition ids, hrel => by
    simp only [Rel.satisfies, Bool.and_eq_true, Course.check_relation_iff] at hrel
    obtain ⟨⟨hids, hinput⟩, hcondition⟩ := hrel
    rw [relationResult]
    refine .bind (steady_relationResult h false input hinput) fun x => ?_
    exact steady_filterResult h hids hcondition _ x
  | .project input projects names distinct ids, hrel => by
    simp only [Rel.satisfies, Bool.and_eq_true, Course.check_relation_iff, Scalar.allSatisfy_iff] at hrel
    obtain ⟨⟨hids, hinput⟩, hprojects⟩ := hrel
    rw [relationResult]
    refine .bind (steady_relationResult h false input hinput) fun x => ?_
    exact steady_projectResult h hids hprojects _ x
  | .aggregate input keys sets calls, hrel => by
    simp only [Rel.satisfies, Bool.and_eq_true] at hrel
    rw [relationResult]
    refine .bind (steady_relationResult h false input hrel.2) fun x => ?_
    exact steady_aggregateResult keys sets calls _ x
  | .join left right condition type ids, hrel => by
    simp only [Rel.satisfies, Bool.and_eq_true, Course.check_relation_iff] at hrel
    obtain ⟨⟨⟨hids, hleft⟩, hright⟩, hcondition⟩ := hrel
    rw [relationResult]
    refine .bind (steady_relationResult h false left hleft) fun x => ?_
    refine .bind (steady_relationResult h false right hright) fun y => ?_
    split
    · exact steady_semiJoinResult h hids hcondition _ _ _
    · exact steady_joinResult h hids hcondition _ _ _
  | .setOp op all inputs, hrel => by
    simp only [Rel.satisfies, Bool.and_eq_true] at hrel
    rw [relationResult]
    refine .bind (steady_relationSelects h inputs hrel.2) fun ns => ?_
    exact steady_setOpResult op all _ ns
  | .sort input collation offset fetch, hrel => by
    simp only [Rel.satisfies, Bool.and_eq_true] at hrel
    obtain ⟨⟨⟨-, hinput⟩, hoffset⟩, hfetch⟩ := hrel
    rw [relationResult]
    refine .bind (steady_relationResult h false input hinput) fun x => ?_
    exact steady_sortResult h hoffset hfetch _ x
  | .window input groups constants names, hrel => by
    simp only [Rel.satisfies, Bool.and_eq_true] at hrel
    obtain ⟨⟨-, hinput⟩, hgroups⟩ := hrel
    rw [relationResult]
    refine .bind (steady_relationResult h false input hinput) fun x => ?_
    exact steady_windowResult h hgroups constants _ x
  | .tableFunction inputs call fields, hrel => by
    simp only [Rel.satisfies, Bool.and_eq_true] at hrel
    obtain ⟨⟨-, hinputs⟩, hcall⟩ := hrel
    rw [relationResult]
    refine .bind (steady_relationSelects h inputs hinputs) fun ns => ?_
    exact steady_tableFunctionResult h hcall _ ns
  | .rowPattern input spec, hrel => by
    simp only [Rel.satisfies, Bool.and_eq_true] at hrel
    obtain ⟨⟨-, hinput⟩, hspec⟩ := hrel
    rw [relationResult]
    refine .bind (steady_relationResult h false input hinput) fun x => ?_
    exact steady_rowPatternResult h hspec _ x

/-- **`relationSelects`** — several plans take the course. -/
theorem steady_relationSelects (h : SteadyQueries C sub sub) :
    ∀ rels : List Rel, Rel.allSatisfy C.check rels = true → Takes C (relationSelects env sub rels)
  | [], _ => by
    rw [relationSelects]
    exact .pure
  | rel :: rels, hrels => by
    simp only [Rel.allSatisfy, Bool.and_eq_true] at hrels
    rw [relationSelects]
    refine .bind (steady_relationResult h false rel hrels.1) fun x => .bind x.steady_asSelect fun n => ?_
    exact .bind (steady_relationSelects h rels hrels.2) fun ns => .pure

end

end Scalars

/-- **`queryAt`** — sub-queries of any depth take the course. -/
theorem steady_queryAt (depth : Nat) (root : Bool) {rel : Rel}
    (hrel : rel.satisfies C.check = true) : Takes C (queryAt env depth root rel) := by
  induction depth generalizing root rel with
  | zero =>
    unfold queryAt
    exact .bind (steady_relationResult (fun _ _ => .pure) root rel hrel) fun x => x.steady_asQuery
  | succ depth ih =>
    unfold queryAt
    refine .bind (steady_relationResult (fun rel hrel => ih false hrel) root rel hrel) fun x => ?_
    exact x.steady_asQuery

end Convert

end AlgebraSql
