import AlgebraSql.Proofs.Names
import AlgebraSql.Proofs.PlanCheck
import AlgebraSql.Proofs.Resolving

/-!
# Expressions, reference by reference — every column of an expression finds what it names.

An expression is converted while the names around it are in use.  `Keeps` is the contract of such a
conversion: names only come into use, and what it gives resolves in every scope in which the fields
of the context do.  Sub-queries keep it because the names that they take are new.
-/

namespace AlgebraSql.Convert

open Sql Node

/-! ## Names around an expression -/

/-- The named items of a frame have names in use. -/
def InUse (used : UsedNames) (F : Sql.Frame) : Prop :=
  ∀ item ∈ F, item.1 ≠ "" → used.has item.1 = true

/-- Names in use stay in use. -/
def Grows (s s' : State) : Prop := ∀ name, s.usedNames.has name = true → s'.usedNames.has name = true

theorem Grows.refl (s : State) : Grows s s := fun _ h => h

theorem Grows.trans {s t u : State} (hst : Grows s t) (htu : Grows t u) : Grows s u :=
  fun name h => htu name (hst name h)

theorem InUse.grow {s s' : State} {F : Sql.Frame} (h : InUse s.usedNames F) (hs : Grows s s') :
    InUse s'.usedNames F := fun item hitem hne => hs _ (h item hitem hne)

/-- A node resolves wherever the names around it are in use. -/
def Closed (schema : Schema) (used : UsedNames) (n : Node) : Prop :=
  ∀ sc : Scope, InUse used sc.visible → n.resolves schema sc = true

variable {α β : Type} {schema : Schema}

/-- **`Keeps`** — the contract of a conversion in the scopes that satisfy `Q`: names in use stay in
use, and where the names of a scope are in use at the start, the value has the property `post`. -/
def Keeps (Q : Scope → Prop) (post : Scope → α → Prop) (c : ConvertM α) : Prop :=
  ∀ s a s', c.Gives s a s' →
    Grows s s' ∧ ∀ sc, Q sc → InUse s.usedNames sc.visible → post sc a

namespace Keeps

variable {Q : Scope → Prop} {post : Scope → α → Prop}

theorem pure {a : α} (h : ∀ sc, Q sc → post sc a) : Keeps Q post (Pure.pure a) := by
  intro s b s' hgives
  obtain ⟨rfl, rfl⟩ := (ConvertM.gives_pure _ _ _ _).mp hgives
  exact ⟨.refl s, fun sc hsc _ => h sc hsc⟩

theorem lift {x : Except Error α} (h : ∀ a, x = .ok a → ∀ sc, Q sc → post sc a) :
    Keeps Q post (liftM x) := by
  intro s a s' hgives
  obtain ⟨hx, rfl⟩ := (ConvertM.gives_lift _ _ _ _).mp hgives
  exact ⟨.refl s, fun sc hsc _ => h a hx sc hsc⟩

theorem throw {e : Error} : Keeps Q post (MonadExcept.throw e) := by
  intro s a s' hgives
  exact absurd hgives (ConvertM.gives_throw _ _ _ _)

/-- In a sequence, the second step may rely on what the first one gave. -/
theorem bind {c : ConvertM α} {f : α → ConvertM β} {post' : Scope → β → Prop} (hc : Keeps Q post c)
    (hf : ∀ a, Keeps (fun sc => Q sc ∧ post sc a) post' (f a)) : Keeps Q post' (c >>= f) := by
  intro s b s'' hgives
  obtain ⟨a, s', hca, hfa⟩ := (ConvertM.gives_bind _ _ _ _ _).mp hgives
  obtain ⟨hgrows, ha⟩ := hc s a s' hca
  obtain ⟨hgrows', hb⟩ := hf a s' b s'' hfa
  exact ⟨hgrows.trans hgrows',
    fun sc hsc huse => hb sc ⟨hsc, ha sc hsc huse⟩ (huse.grow hgrows)⟩

/-- A pure step in front of another one only has to give a value. -/
theorem lift_bind {x : Except Error α} {f : α → ConvertM β} {post' : Scope → β → Prop}
    (hf : ∀ a, x = .ok a → Keeps Q post' (f a)) : Keeps Q post' (liftM x >>= f) := by
  intro s b s' hgives
  obtain ⟨a, t, hgivesx, hfa⟩ := (ConvertM.gives_bind _ _ _ _ _).mp hgives
  obtain ⟨hx, rfl⟩ := (ConvertM.gives_lift _ _ _ _).mp hgivesx
  exact hf a hx s b s' hfa

/-- The contract holds in fewer scopes too. -/
theorem mono {Q' : Scope → Prop} {c : ConvertM α} (hc : Keeps Q post c) (h : ∀ sc, Q' sc → Q sc) :
    Keeps Q' post c := fun s a s' hgives =>
  ⟨(hc s a s' hgives).1, fun sc hsc huse => (hc s a s' hgives).2 sc (h sc hsc) huse⟩

/-- Steps for the elements of a list keep what each of them keeps. -/
theorem mapM {f : α → ConvertM β} {p : Scope → β → Prop} (as : List α)
    (hf : ∀ a ∈ as, Keeps Q p (f a)) :
    Keeps Q (fun sc bs => ∀ b ∈ bs, p sc b) (as.mapM f) := by
  induction as with
  | nil =>
    rw [List.mapM_nil]
    exact .pure fun sc _ b hb => by cases hb
  | cons a as ih =>
    rw [List.mapM_cons]
    refine .bind (hf a (by simp)) fun b => ?_
    refine .bind ((ih fun c hc => hf c (by simp [hc])).mono fun sc hsc => hsc.1) fun bs => ?_
    refine .pure fun sc hsc c hc => ?_
    rcases List.mem_cons.mp hc with rfl | hc
    · exact hsc.1.2
    · exact hsc.2 c hc

end Keeps

/-! ## Contexts -/

/-- A node resolves in a scope. -/
abbrev Resolved (schema : Schema) (sc : Scope) (n : Node) : Prop := n.resolves schema sc = true

/-- Every field of a context resolves. -/
def Context.ReadsAt (env : Env) (schema : Schema) (ctx : Context) (sc : Scope) : Prop :=
  ∀ i n, ctx.field env i = .ok n → n.resolves schema sc = true

/-- Sort keys are fields, texts or positions, so they resolve where fields do. -/
theorem Context.ReadsAt.orderField {env : Env} {ctx : Context} {sc : Scope}
    (h : ctx.ReadsAt env schema sc) {i : Ordinal} {n : Node} (hn : ctx.orderField env i = .ok n) :
    n.resolves schema sc = true := by
  unfold Context.orderField at hn
  split at hn
  · simp only [bind_eq_ok_iff, pure_eq_ok_iff] at hn
    obtain ⟨m, hm, rfl⟩ := hn
    cases hi : i.nat? with
    | none => simpa using h i m hm
    | some k =>
      simp only [Option.map_some, Option.getD_some]
      unfold Context.sortKeyOf
      split
      · exact resolves_string _
      · split
        · exact resolves_number _
        · exact h i m hm
  · exact h i n hn

theorem allResolve_collationsNodes {env : Env} {ctx : Context} {sc : Scope}
    (h : ctx.ReadsAt env schema sc) {cs : List Collation} {ns : List Node}
    (hns : collationsNodes env ctx cs = .ok ns) : AllResolve schema sc ns := by
  simp only [collationsNodes, bind_eq_ok_iff, pure_eq_ok_iff] at hns
  obtain ⟨nss, hnss, rfl⟩ := hns
  refine allResolve_flatten (forall_of_mapM hnss fun c _ ns hns => ?_)
  simp only [collationNodes, bind_eq_ok_iff, pure_eq_ok_iff] at hns
  obtain ⟨tested, htested, key, hkey, rfl⟩ := hns
  exact allResolve_sortKeys (h _ _ htested) (h.orderField hkey)

/-! ## Expressions -/

/-- What the conversion of expressions relies on: a check that lets only references to fields pass,
and a conversion of sub-queries that gives closed queries for plans that satisfy it. -/
structure Setting (k : PlanCheck) (schema : Schema) (sub : Rel → ConvertM Node) : Prop where
  uncorrelated : k.Uncorrelated
  grows : ∀ rel, rel.satisfies k = true → ∀ s n s', (sub rel).Gives s n s' → Grows s s'
  closed : ∀ rel, rel.satisfies k = true → ∀ s n s', (sub rel).Gives s n s' →
    Closed schema s.usedNames n

section Scalars

variable {k : PlanCheck} {env : Env} {sub : Rel → ConvertM Node}

theorem Setting.keeps_sub (h : Setting k schema sub) {rel : Rel} (hrel : rel.satisfies k = true)
    (Q : Scope → Prop) : Keeps Q (Resolved schema) (sub rel) := fun s n s' hgives =>
  ⟨h.grows rel hrel s n s' hgives, fun sc _ huse => h.closed rel hrel s n s' hgives sc huse⟩

/-- A field occurs only where fields are meant to. -/
theorem Setting.fields_of_inputRef (h : Setting k schema sub) {fields : Bool} {i : Ordinal}
    {t : DataType} (he : Scalar.satisfies k fields (.inputRef i t) = true) : fields = true := by
  cases fields with
  | true => rfl
  | false => simp [Scalar.satisfies, h.uncorrelated.inputRef] at he

theorem resolves_cursorNode {ctx : Context} {operand : Expr} {n : Node} {sc : Scope}
    (h : cursorNode env ctx operand = .ok n)
    (hread : ∀ i t, operand = .inputRef i t → ctx.ReadsAt env schema sc) :
    n.resolves schema sc = true := by
  unfold cursorNode at h
  split at h
  · simp only [bind_eq_ok_iff, pure_eq_ok_iff] at h
    obtain ⟨m, hm, rfl⟩ := h
    exact (resolves_wrap rfl m).mpr (hread _ _ rfl _ m hm)
  · cases h

/-- The scopes in which the fields of a context resolve, if fields are meant to occur. -/
def FieldsAt (env : Env) (schema : Schema) (ctx : Context) (fields : Bool) (sc : Scope) : Prop :=
  fields = true → ctx.ReadsAt env schema sc

mutual

/-- **`scalarNode`** — every column of an expression finds what it names, wherever the fields of the
context do. -/
theorem keeps_scalarNode (h : Setting k schema sub) (ctx : Context) (fields : Bool) :
    ∀ e : Expr, e.satisfies k fields = true →
    Keeps (FieldsAt env schema ctx fields) (Resolved schema) (scalarNode env sub ctx e)
  | .inputRef i t, he => by
    rw [scalarNode]
    exact .lift fun n hn sc hsc => hsc (h.fields_of_inputRef he) i n hn
  | .localRef i shared t, he => by
    simp only [Scalar.satisfies, Bool.and_eq_true] at he
    rw [scalarNode]
    split
    · exact keeps_scalarNodeAt h ctx fields i _ shared he.2
    · exact .throw
  | .literal l, _ => by
    rw [scalarNode]
    exact .lift fun n hn sc _ => resolves_literalIn hn
  | .call op operands t, he => by
    simp only [Scalar.satisfies, Bool.and_eq_true] at he
    have hoperands := keeps_scalarNodes h ctx fields operands he.2
    rw [scalarNode.eq_def]
    simp only
    split
    · exact .bind hoperands fun ns => .pure fun sc hsc => (resolves_and ns).mpr hsc.2
    · exact .bind hoperands fun ns => .pure fun sc hsc => (resolves_or ns).mpr hsc.2
    · -- a denial of a denial is what it denies twice
      split
      · exact .throw
      · rename_i inner e es u rest
        simp only [Scalar.allSatisfy, Bool.and_eq_true] at he
        split
        · have hinner := he.2.1
          simp only [Scalar.satisfies, Scalar.allSatisfy, Bool.and_eq_true] at hinner
          exact keeps_scalarNode h ctx fields e hinner.2.1
        · refine .bind (keeps_scalarNode h ctx fields (.call inner (e :: es) u) he.2.1) fun n => ?_
          exact .pure fun sc hsc => resolves_deny _ hsc.2
      · rename_i operand rest _
        simp only [Scalar.allSatisfy, Bool.and_eq_true] at he
        refine .bind (keeps_scalarNode h ctx fields operand he.2.1) fun n => ?_
        exact .pure fun sc hsc => resolves_deny _ hsc.2
    · exact .bind hoperands fun ns => .pure fun sc hsc => resolves_caseNode hsc.2
    · refine .lift_bind fun sarg _ => ?_
      split
      · rename_i operand rest _
        simp only [Scalar.allSatisfy, Bool.and_eq_true] at he
        refine .bind (keeps_scalarNode h ctx fields operand he.2.1) fun n => ?_
        exact .lift fun m hm sc hsc => resolves_sargNode hm hsc.2
      · exact .throw
    · split
      · exact .throw
      · rename_i operand rest
        simp only [Scalar.allSatisfy, Bool.and_eq_true] at he
        split
        · refine .lift fun n hn sc hsc => resolves_cursorNode hn fun i u hoperand => hsc ?_
          subst hoperand
          exact h.fields_of_inputRef he.2.1
        · refine .bind (keeps_scalarNode h ctx fields operand he.2.1) fun n => ?_
          exact .pure fun sc hsc => (Dialect.resolves_castNode _ _ _).mpr hsc.2
    · refine .bind hoperands fun ns => .pure fun sc hsc => ?_
      simpa (disch := decide) [Resolved] using hsc.2
    · refine .bind hoperands fun ns => .pure fun sc hsc => ?_
      simpa (disch := decide) [Resolved] using hsc.2
    · split
      · exact .throw
      · rename_i pattern bounds
        simp only [Scalar.allSatisfy, Bool.and_eq_true] at he
        refine .bind (keeps_scalarNode h ctx fields pattern he.2.1) fun n => ?_
        exact .lift fun m hm sc hsc => resolves_quantifierNode hm hsc.2
    · -- the operands of any other call, without a conversion that the dialect makes by itself
      have hcall : ∀ ns, Keeps (fun sc => FieldsAt env schema ctx fields sc ∧ AllResolve schema sc ns)
          (Resolved schema) (do
            let written ← env.dialect.retarget op (operands.map (·.type))
            operationNode written ns) := by
        refine fun ns => .lift_bind fun written _ => ?_
        exact .lift fun m hm sc hsc => resolves_operationNode hm hsc.2
      split
      · rename_i inner _ u right more _
        simp only [Scalar.allSatisfy, Scalar.satisfies, Bool.and_eq_true] at he
        refine .bind (keeps_scalarNode h ctx fields inner he.2.1.2.1) fun l => ?_
        refine .bind ((keeps_scalarNode h ctx fields right he.2.2.1).mono fun sc hsc => hsc.1)
          fun r => ?_
        refine .bind (.pure fun sc hsc => ?_) fun ns => (hcall ns).mono fun sc hsc => ⟨hsc.1.1.1, hsc.2⟩
        simp [hsc.1.2, hsc.2]
      · rename_i left _ inner _ u more _
        simp only [Scalar.allSatisfy, Scalar.satisfies, Bool.and_eq_true] at he
        refine .bind (keeps_scalarNode h ctx fields left he.2.1) fun l => ?_
        refine .bind ((keeps_scalarNode h ctx fields inner he.2.2.1.2.1).mono fun sc hsc => hsc.1)
          fun r => ?_
        refine .bind (.pure fun sc hsc => ?_) fun ns => (hcall ns).mono fun sc hsc => ⟨hsc.1.1.1, hsc.2⟩
        simp [hsc.1.2, hsc.2]
      · exact .bind hoperands hcall
  | .overWindow op operands ⟨partition, order, frame⟩ distinct t, he => by
    simp only [Scalar.satisfies, Scalar.windowSatisfies, Bool.and_eq_true] at he
    obtain ⟨⟨-, hoperands⟩, ⟨hpartition, horder⟩, hframe⟩ := he
    rw [scalarNode]
    refine .bind (keeps_scalarNodes h ctx fields partition hpartition) fun ps => ?_
    refine .bind ((keeps_sortKeyNodes h ctx fields order horder).mono fun sc hsc => hsc.1) fun os => ?_
    refine .lift_bind fun written _ => ?_
    refine .bind ((keeps_scalarNodes h ctx fields operands hoperands).mono fun sc hsc => hsc.1.1)
      fun as => ?_
    have hwindowed : ∀ f : Option Node, Keeps (fun sc => (((FieldsAt env schema ctx fields sc
        ∧ AllResolve schema sc ps) ∧ AllResolve schema sc os) ∧ AllResolve schema sc as)
        ∧ ∀ n, f = some n → n.resolves schema sc = true) (Resolved schema)
        (pure (windowedNode written as distinct ⟨ps, os, f⟩)) := by
      refine fun f => .pure fun sc hsc => ?_
      obtain ⟨⟨⟨⟨-, hps⟩, hos⟩, has⟩, hf⟩ := hsc
      exact resolves_windowedNode has hps hos hf
    split
    · exact .bind ((keeps_frameNodeOf h ctx fields frame hframe).mono fun sc hsc => hsc.1.1.1)
        hwindowed
    · exact .bind (.pure fun sc _ n hn => by cases hn) hwindowed
  | .fieldAccess row field i t, he => by
    simp only [Scalar.satisfies, Bool.and_eq_true] at he
    rw [scalarNode]
    · refine .bind (keeps_scalarNode h ctx fields row he.2) fun n => .pure fun sc hsc => ?_
      exact (resolves_dot n field).mpr hsc.2
    · rintro id u rfl
      simp [Scalar.satisfies, h.uncorrelated.correlation] at he
  | .correlation id t, he => by
    simp [Scalar.satisfies, h.uncorrelated.correlation] at he
  | .subQuery op operands relation t, he => by
    simp only [Scalar.satisfies, Bool.and_eq_true] at he
    obtain ⟨⟨-, hoperands⟩, hrelation⟩ := he
    rw [scalarNode]
    refine .bind (h.keeps_sub hrelation _) fun query => ?_
    have htest : ∀ o : Option Node, Keeps (fun sc => (FieldsAt env schema ctx fields sc
        ∧ Resolved schema sc query) ∧ ∀ n, o = some n → n.resolves schema sc = true)
        (Resolved schema) (liftM (subQueryNode op o query)) := fun o =>
      .lift fun n hn sc hsc => resolves_subQueryNode hn hsc.2 hsc.1.2
    split
    · split
      · rename_i only
        simp only [Scalar.allSatisfy, Bool.and_eq_true] at hoperands
        refine .bind ((keeps_scalarNode h ctx fields only hoperands.1).mono fun sc hsc => hsc.1)
          fun n => ?_
        refine .bind (.pure fun sc hsc m hm => ?_) fun o => (htest o).mono fun sc hsc => ⟨hsc.1.1, hsc.2⟩
        cases hm
        exact hsc.2
      · refine .bind ((keeps_scalarNodes h ctx fields _ hoperands).mono fun sc hsc => hsc.1)
          fun ns => ?_
        refine .bind (.pure fun sc hsc m hm => ?_) fun o => (htest o).mono fun sc hsc => ⟨hsc.1.1, hsc.2⟩
        cases hm
        simpa using hsc.2
    · exact .bind (.pure fun sc _ n hn => by cases hn) htest
  | .parameter i t, _ => by
    rw [scalarNode]
    exact .pure fun sc _ => by simp (disch := decide) [Resolved]
  | .patternField symbol i t, he => by
    simp [Scalar.satisfies, h.uncorrelated.patternField] at he

/-- The nodes for several expressions resolve. -/
theorem keeps_scalarNodes (h : Setting k schema sub) (ctx : Context) (fields : Bool) :
    ∀ es : List Expr, Scalar.allSatisfy k fields es = true →
    Keeps (FieldsAt env schema ctx fields) (AllResolve schema) (scalarNodes env sub ctx es)
  | [], _ => by
    rw [scalarNodes]
    exact .pure fun sc _ => allResolve_nil
  | e :: es, he => by
    simp only [Scalar.allSatisfy, Bool.and_eq_true] at he
    rw [scalarNodes]
    refine .bind (keeps_scalarNode h ctx fields e he.1) fun n => ?_
    refine .bind ((keeps_scalarNodes h ctx fields es he.2).mono fun sc hsc => hsc.1) fun ns => ?_
    exact .pure fun sc hsc => (allResolve_cons _ _).mpr ⟨hsc.1.2, hsc.2⟩

/-- The node for an entry of a shared list resolves. -/
theorem keeps_scalarNodeAt (h : Setting k schema sub) (ctx : Context) (fields : Bool)
    (index : Ordinal) (n : Nat) :
    ∀ es : List Expr,
    Scalar.allSatisfy k fields es = true →
    Keeps (FieldsAt env schema ctx fields) (Resolved schema) (scalarNodeAt env sub ctx index n es)
  | [], _ => by
    rw [scalarNodeAt]
    exact .throw
  | e :: es, he => by
    simp only [Scalar.allSatisfy, Bool.and_eq_true] at he
    rw [scalarNodeAt]
    split
    · exact keeps_scalarNode h ctx fields e he.1
    · exact keeps_scalarNodeAt h ctx fields index (n - 1) es he.2

/-- The sort keys of a window resolve. -/
theorem keeps_sortKeyNodes (h : Setting k schema sub) (ctx : Context) (fields : Bool) :
    ∀ ks : List (SortKey Expr), Scalar.keysSatisfy k fields ks = true →
    Keeps (FieldsAt env schema ctx fields) (AllResolve schema) (sortKeyNodes env sub ctx ks)
  | [], _ => by
    rw [sortKeyNodes]
    exact .pure fun sc _ => allResolve_nil
  | ⟨e, direction, nulls⟩ :: ks, he => by
    simp only [Scalar.keysSatisfy, Bool.and_eq_true] at he
    rw [sortKeyNodes]
    refine .bind (keeps_scalarNode h ctx fields e he.1) fun n => ?_
    refine .bind ((keeps_sortKeyNodes h ctx fields ks he.2).mono fun sc hsc => hsc.1) fun ns => ?_
    refine .pure fun sc hsc => ?_
    exact (allResolve_append _ _).mpr ⟨allResolve_sortKeys hsc.1.2 hsc.1.2, hsc.2⟩

/-- The offset of a frame's end resolves. -/
theorem keeps_boundOf (h : Setting k schema sub) (ctx : Context) (fields : Bool) :
    ∀ b : Bound Expr, Scalar.boundSatisfies k fields (some b) = true →
    Keeps (FieldsAt env schema ctx fields) (fun sc e => AllResolve schema sc e.offset.children)
      (boundOf env sub ctx b)
  | .unboundedPreceding, _ => by
    rw [boundOf]
    exact .pure fun sc _ => by simp
  | .unboundedFollowing, _ => by
    rw [boundOf]
    exact .pure fun sc _ => by simp
  | .currentRow, _ => by
    rw [boundOf]
    exact .pure fun sc _ => by simp
  | .preceding e, he => by
    rw [boundOf]
    refine .bind (keeps_scalarNode h ctx fields e he) fun n => ?_
    exact .pure fun sc hsc => by simpa using hsc.2
  | .following e, he => by
    rw [boundOf]
    refine .bind (keeps_scalarNode h ctx fields e he) fun n => ?_
    exact .pure fun sc hsc => by simpa using hsc.2

/-- The frame of a window resolves. -/
theorem keeps_frameNodeOf (h : Setting k schema sub) (ctx : Context) (fields : Bool) :
    ∀ f : Frame Expr, Scalar.frameSatisfies k fields f = true →
    Keeps (FieldsAt env schema ctx fields) (fun sc f => ∀ n, f = some n → n.resolves schema sc = true)
      (frameNodeOf env sub ctx f)
  | ⟨rows, none, stop⟩, _ => by
    rw [frameNodeOf]
    exact .pure fun sc _ n hn => by cases hn
  | ⟨rows, some start, none⟩, he => by
    simp only [Scalar.frameSatisfies, Bool.and_eq_true] at he
    rw [frameNodeOf]
    refine .bind (keeps_boundOf h ctx fields start he.1) fun b => ?_
    refine .pure fun sc hsc n hn => ?_
    cases hn
    exact resolves_frameNode hsc.2 fun e he => by cases he
  | ⟨rows, some start, some stop⟩, he => by
    simp only [Scalar.frameSatisfies, Bool.and_eq_true] at he
    rw [frameNodeOf]
    refine .bind (keeps_boundOf h ctx fields start he.1) fun b => ?_
    refine .bind ((keeps_boundOf h ctx fields stop he.2).mono fun sc hsc => hsc.1) fun c => ?_
    refine .pure fun sc hsc n hn => ?_
    cases hn
    exact resolves_frameNode hsc.1.2 fun e he => by cases he; exact hsc.2

end

/-! ## Join conditions -/

/-- A conversion is dropped from an operand only for what it converts. -/
theorem allSatisfy_withoutCast {d : Dialect} {op : Operator} {fields : Bool} {operands : List Expr}
    (he : Scalar.allSatisfy k fields operands = true) :
    Scalar.allSatisfy k fields (withoutCast d op operands) = true := by
  unfold withoutCast
  split
  · simp only [Scalar.allSatisfy, Scalar.satisfies, Bool.and_eq_true] at he ⊢
    exact ⟨he.1.2.1, he.2.1, trivial⟩
  · simp only [Scalar.allSatisfy, Scalar.satisfies, Bool.and_eq_true] at he ⊢
    exact ⟨he.1, he.2.1.2.1, trivial⟩
  · exact he

/-- A comparison that is turned round has the same operands. -/
theorem satisfies_leftFirst (h : k.Uncorrelated) {fields : Bool} {width : Nat} {op : Operator}
    {operands : List Expr} {t : DataType} (he : Scalar.allSatisfy k fields operands = true) :
    (leftFirst width op operands t).satisfies k fields = true := by
  unfold leftFirst
  split
  · simp only [Scalar.allSatisfy, Bool.and_eq_true] at he
    split <;> simp [Scalar.satisfies, Scalar.allSatisfy, h.call] <;>
      simp_all [Scalar.satisfies]
  · simp [Scalar.satisfies, h.call, he]

mutual

/-- **`conditionNode`** — every column of a join condition finds what it names. -/
theorem keeps_conditionNode (h : Setting k schema sub) (left right : Context) :
    ∀ e : Expr, e.satisfies k true = true →
    Keeps (FieldsAt env schema (.join left right) true) (Resolved schema)
      (conditionNode env sub left right e)
  | .literal l, he => by
    rw [conditionNode.eq_def]
    simp only
    split
    · exact .pure fun sc _ => resolves_boolean _
    · exact keeps_scalarNode h _ _ (.literal l) he
  | .call op operands t, he => by
    have hoperands := he
    simp only [Scalar.satisfies, Bool.and_eq_true] at hoperands
    rw [conditionNode.eq_def]
    simp only
    split
    · refine .bind (keeps_conditionNodes h left right operands hoperands.2) fun ns => ?_
      exact .pure fun sc hsc => (resolves_and ns).mpr hsc.2
    · split
      · refine .bind (keeps_conditionNodes h left right operands hoperands.2) fun ns => ?_
        exact .pure fun sc hsc => (resolves_or ns).mpr hsc.2
      · split
        · exact keeps_scalarNode h _ _ _
            (satisfies_leftFirst h.uncorrelated (allSatisfy_withoutCast hoperands.2))
        · exact keeps_scalarNode h _ _ (.call op operands t) he
  | .inputRef i t, he => keeps_scalarNode h _ _ _ he
  | .localRef i shared t, he => keeps_scalarNode h _ _ _ he
  | .overWindow op operands window distinct t, he => keeps_scalarNode h _ _ _ he
  | .fieldAccess row field i t, he => keeps_scalarNode h _ _ _ he
  | .correlation id t, he => keeps_scalarNode h _ _ _ he
  | .subQuery op operands relation t, he => keeps_scalarNode h _ _ _ he
  | .parameter i t, he => keeps_scalarNode h _ _ _ he
  | .patternField symbol i t, he => keeps_scalarNode h _ _ _ he

/-- The nodes for several join conditions resolve. -/
theorem keeps_conditionNodes (h : Setting k schema sub) (left right : Context) :
    ∀ es : List Expr, Scalar.allSatisfy k true es = true →
    Keeps (FieldsAt env schema (.join left right) true) (AllResolve schema)
      (conditionNodes env sub left right es)
  | [], _ => by
    rw [conditionNodes]
    exact .pure fun sc _ => allResolve_nil
  | e :: es, he => by
    simp only [Scalar.allSatisfy, Bool.and_eq_true] at he
    rw [conditionNodes]
    refine .bind (keeps_conditionNode h left right e he.1) fun n => ?_
    refine .bind ((keeps_conditionNodes h left right es he.2).mono fun sc hsc => hsc.1) fun ns => ?_
    exact .pure fun sc hsc => (allResolve_cons _ _).mpr ⟨hsc.1.2, hsc.2⟩

end

end Scalars

end AlgebraSql.Convert
