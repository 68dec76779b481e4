import AlgebraSql.Proofs.Nodes
import AlgebraSql.Proofs.Run

/-!
# Written expressions — which expressions are written as names.

A conversion of an expression gives a column where the expression is a field, and something without
a name of its own otherwise.  A select item for it then has the name that the projection gives it.
-/

namespace AlgebraSql.Convert

open Sql Node

variable {env : Env} {sub : Rel → ConvertM Node}

/-! ## Nodes of expressions -/

/-- What an expression over inputs becomes: a column of one of the inputs, a column of a query
around, or something without a name. -/
inductive Written (names : List String) : Node → Prop
  | field {name : String} (h : name ∈ names) : Written names (Node.column name)
  | qualified (name table : String) : Written names (Node.column name (some table))
  | built {n : Node} (hkind : n.kind ≠ .column) (halias : n.aliasOf? = none) : Written names n

/-- Kinds of nodes that an expression is not, unless it is a field or a sub-query: nodes with names of
their own, and parts of expressions and queries. -/
@[simp]
def partKinds : List Kind :=
  [.column, .aliased, .table, .subquery, .tableFunction, .values, .matchRecognize, .tuple, .branch,
    .group, .order, .ordered, .rollup, .cube, .groupingSets, .where, .having, .qualify, .limit, .offset,
    .filter, .withinGroup]

/-- A property of every operation that is built on nodes. -/
structure Operates (Good : Node → Prop) : Prop where
  of_kind : ∀ {n : Node}, n.kind ∉ Kind.literal :: partKinds → Good n

/-- A property that every node has that is built for an expression. -/
structure Made (Good : Node → Prop) : Prop where
  of_kind : ∀ {n : Node}, n.kind ∉ partKinds → Good n
  subquery : ∀ q, Good (Node.subquery q)

theorem Made.operates {Good : Node → Prop} (h : Made Good) : Operates Good :=
  ⟨fun hkind => h.of_kind fun hpart => hkind (List.mem_cons_of_mem _ hpart)⟩

/-- A property that every node of an expression has, as far as its fields have it. -/
structure Produced (Good : Node → Prop) : Prop extends Made Good where
  qualified : ∀ name table, Good (Node.column name (some table))

/-- A conversion gives only values with a property. -/
def Yields {α : Type} (post : α → Prop) (c : ConvertM α) : Prop := ∀ s a s', c.Gives s a s' → post a

namespace Yields

variable {α β : Type} {post : α → Prop}

theorem pure {a : α} (h : post a) : Yields post (Pure.pure a) := by
  intro s b s' hgives
  obtain ⟨rfl, -⟩ := (ConvertM.gives_pure _ _ _ _).mp hgives
  exact h

theorem lift {x : Except Error α} (h : ∀ a, x = .ok a → post a) : Yields post (liftM x) := by
  intro s a s' hgives
  exact h a ((ConvertM.gives_lift _ _ _ _).mp hgives).1

theorem throw {e : Error} : Yields post (MonadExcept.throw e) := by
  intro s a s' hgives
  exact absurd hgives (ConvertM.gives_throw _ _ _ _)

theorem bind {c : ConvertM α} {f : α → ConvertM β} {post' : β → Prop} (hc : Yields post c)
    (hf : ∀ a, post a → Yields post' (f a)) : Yields post' (c >>= f) := by
  intro s b s'' hgives
  obtain ⟨a, s', hca, hfa⟩ := (ConvertM.gives_bind _ _ _ _ _).mp hgives
  exact hf a (hc s a s' hca) s' b s'' hfa

/-- Any value of the first step will do. -/
theorem bind_any {c : ConvertM α} {f : α → ConvertM β} {post' : β → Prop}
    (hf : ∀ a, Yields post' (f a)) : Yields post' (c >>= f) := by
  intro s b s'' hgives
  obtain ⟨a, s', -, hfa⟩ := (ConvertM.gives_bind _ _ _ _ _).mp hgives
  exact hf a s' b s'' hfa

/-- Steps that give values with a property give only such values, one after the other. -/
theorem mapM {f : α → ConvertM β} {post : β → Prop} {as : List α} (hf : ∀ a ∈ as, Yields post (f a)) :
    Yields (fun bs => ∀ b ∈ bs, post b) (as.mapM f) := by
  intro s bs s' h
  have hall : List.Forall₂ (fun _ b => post b) as bs :=
    ConvertM.forall₂_of_gives_mapM (fun a ha s b s' hb => hf a ha s b s' hb) h
  intro b hb
  obtain ⟨i, hi, rfl⟩ := List.mem_iff_getElem.mp hb
  exact (List.forall₂_iff_get.mp hall).2 i (hall.length_eq ▸ hi) hi

end Yields

/-- Nothing but parts of queries, sub-queries and columns has a name. -/
theorem aliasOf?_of_kind {n : Node} (h : n.kind ∉ partKinds) : n.aliasOf? = none := by
  unfold aliasOf? isFromItem
  cases hk : n.kind <;> simp_all [partKinds]

/-- Nodes of expressions are written in one of these ways. -/
theorem produced_written (names : List String) : Produced (Written names) where
  of_kind h := .built (fun hk => h (by simp [partKinds, hk])) (aliasOf?_of_kind h)
  subquery q := .built (by simp [Node.subquery, Node.wrap])
    (by simp [Node.subquery, Node.wrap, aliasOf?, isFromItem, aliasName, nameUnder])
  qualified name table := .qualified name table

section Expressions

variable {Good : Node → Prop} (hG : Operates Good)

include hG

omit hG in
/-- Connected tests are something new, unless there is one only. -/
theorem produced_connect {kind : Kind} {unit : Node} (hkind : ∀ l r, Good (Node.binary kind l r))
    (hunit : Good unit) {ns : List Node} (h : ∀ n ∈ ns, Good n) :
    Good (Node.connect kind unit ns) := by
  cases ns with
  | nil => exact hunit
  | cons n ns =>
    have hfold : ∀ (ns : List Node) {n : Node}, Good n →
        Good (ns.foldl (Node.binary kind) n) := by
      intro ns
      induction ns with
      | nil => exact fun h => h
      | cons m ns ih => exact fun _ => ih (hkind _ _)
    exact hfold ns (h n (by simp))

theorem produced_and {ns : List Node} (h : ∀ n ∈ ns, Good n) : Good (Node.and ns) :=
  produced_connect (fun _ _ => hG.of_kind (by simp [Node.binary, partKinds])) (hG.of_kind (by simp [Node.boolean, partKinds])) h

theorem produced_or {ns : List Node} (h : ∀ n ∈ ns, Good n) : Good (Node.or ns) :=
  produced_connect (fun _ _ => hG.of_kind (by simp [Node.binary, partKinds])) (hG.of_kind (by simp [Node.boolean, partKinds])) h

theorem produced_operationNode {op : Operator} {ns : List Node} {n : Node}
    (h : operationNode op ns = .ok n) (hns : ∀ m ∈ ns, Good m) : Good n := by
  unfold operationNode at h
  split at h
  · cases h
    refine hG.of_kind ?_
    split <;> simp [Node.aggregate, Node.call]
  · split at h
    · rename_i k hk
      unfold binaryNode at h
      split at h <;> cases h
      refine hG.of_kind ?_
      unfold binaryKind? at hk
      split at hk <;> cases hk <;> simp [Node.binary]
    · cases h
    · unfold specialNode at h
      split at h <;> cases h
      · exact produced_and hG hns
      · exact produced_or hG hns
      all_goals exact hG.of_kind (by simp [Node.not, Node.neg, Node.wrap, Node.isTest, negatable,
        Node.inList, Node.call])

theorem produced_deny (source : Option OperatorKind) {n : Node} : Good (deny source n) := by
  have hnot : Good (Node.not n) := hG.of_kind (by simp [Node.not, Node.wrap])
  unfold deny
  by_cases hdeniable : isDeniable n.kind = true
  · have hflipped : Good (flipped n) := hG.of_kind (by
      rw [flipped, kind_set]
      cases hk : n.kind <;> simp_all [isDeniable])
    split <;> simp [hdeniable, hflipped, hnot]
  · split <;> simp [hdeniable, hnot]

omit hG in
theorem kind_literalNode {d : Dialect} {l : Literal} {n : Node} (h : literalNode d l = .ok n) :
    n.kind ∉ partKinds := by
  obtain ⟨value, type⟩ := l
  cases value with
  | row values =>
    simp only [literalNode, bind_eq_ok_iff, pure_eq_ok_iff] at h
    obtain ⟨ns, -, rfl⟩ := h
    simp [Node.call]
  | sarg _ => simp [literalNode] at h
  | timestamp text =>
    simp only [literalNode] at h
    split at h <;> cases h <;> simp [Dialect.timestampLiteral, Node.typedLiteral]
  | _ =>
    simp only [literalNode, Except.ok.injEq] at h
    subst h
    simp [Dialect.dateLiteral, Dialect.timeLiteral, Node.typedLiteral, Node.null, Node.string,
      Node.number, Node.boolean, Node.word]

theorem produced_rangeNode {d : Dialect} {type : DataType} {operand n : Node} {r : Range}
    (h : rangeNode d type operand r = .ok n) : Good n := by
  have hcompare : ∀ {kind v m}, compareNode d type operand kind v = .ok m →
      kind ∉ Kind.literal :: partKinds →
      Good m := by
    intro kind v m hm hkind
    simp only [compareNode, bind_eq_ok_iff, pure_eq_ok_iff] at hm
    obtain ⟨endpoint, -, rfl⟩ := hm
    exact hG.of_kind hkind
  simp only [rangeNode, bind_eq_ok_iff] at h
  obtain ⟨shape, -, h⟩ := h
  split at h
  · obtain rfl := (pure_eq_ok_iff _ _).mp h
    exact hG.of_kind (by simp [Node.boolean])
  · exact hcompare h (by simp)
  · simp only [bind_eq_ok_iff, pure_eq_ok_iff] at h
    obtain ⟨below, hbelow, above, habove, rfl⟩ := h
    refine produced_and hG fun m hm => ?_
    rcases List.mem_append.mp hm with hm | hm
    · refine forall_of_mapM (p := Good) hbelow (fun e _ k hk => hcompare hk ?_) m hm
      split <;> simp
    · refine forall_of_mapM (p := Good) habove (fun e _ k hk => hcompare hk ?_) m hm
      split <;> simp

theorem produced_sargNode {d : Dialect} {type : DataType} {operand n : Node} {sarg : Sarg}
    (h : sargNode d operand sarg type = .ok n) : Good n := by
  simp only [sargNode, bind_eq_ok_iff, pure_eq_ok_iff] at h
  obtain ⟨tests, htests, rfl⟩ := h
  refine produced_or hG fun m hm => ?_
  rcases List.mem_append.mp hm with hm | hm
  · split at hm
    · obtain rfl : m = Node.isNull operand := by simpa using hm
      exact hG.of_kind (by simp [Node.isNull])
    · cases hm
  · simp only [rangeSetNodes, bind_eq_ok_iff] at htests
    obtain ⟨points, -, htests⟩ := htests
    split at htests
    · simp only [bind_eq_ok_iff] at htests
      obtain ⟨vs, -, htests⟩ := htests
      split at htests
      · obtain rfl := (pure_eq_ok_iff _ _).mp htests
        cases hm
      · simp only [compareNode, bind_eq_ok_iff, pure_eq_ok_iff] at htests
        obtain ⟨test, ⟨endpoint, -, rfl⟩, rfl⟩ := htests
        obtain rfl := List.mem_singleton.mp hm
        exact hG.of_kind (by simp [Node.binary])
      · simp only [bind_eq_ok_iff, pure_eq_ok_iff] at htests
        obtain ⟨endpoints, -, rfl⟩ := htests
        obtain rfl := List.mem_singleton.mp hm
        exact hG.of_kind (by simp [Node.inList])
    · exact forall_of_mapM (p := Good) htests (fun r _ k hk => produced_rangeNode hG hk) m hm

end Expressions

/-- A field of a row around is read, sub-queries aside. -/
def readsOuter (e : Expr) : Bool :=
  e.subterms.any fun t => match t with
    | .correlation .. => true
    | _ => false

theorem subtermsOf_eq (es : List Expr) : Scalar.subtermsOf es = es.flatMap Scalar.subterms := by
  induction es with
  | nil => rfl
  | cons e es ih => rw [Scalar.subtermsOf, List.flatMap_cons, ih]

/-- What is barred from a call is barred from its operands. -/
theorem any_subterms_operands {barred : Expr → Bool} {op : Operator} {operands : List Expr} {t : DataType}
    (h : (Scalar.call op operands t).subterms.any barred = false) :
    ∀ e ∈ operands, e.subterms.any barred = false := by
  intro e he
  simp only [Scalar.subterms, List.any_cons, subtermsOf_eq, List.any_flatMap, Bool.or_eq_false_iff,
    List.any_eq_false] at h
  simpa using h.2 e he

/-- A field of another row than that of the input is read, sub-queries aside: that of a row around, or
that of a pattern variable. -/
def readsElsewhere (e : Expr) : Bool :=
  e.subterms.any fun t => match t with
    | .correlation .. => true
    | .patternField .. => true
    | _ => false

/-- What reads its input only reads no field of a row around. -/
theorem readsOuter_of_readsElsewhere {e : Expr} (h : readsElsewhere e = false) : readsOuter e = false := by
  unfold readsElsewhere at h
  unfold readsOuter
  rw [List.any_eq_false] at h ⊢
  intro t ht
  have := h t ht
  cases t <;> simp_all

section Scalars

variable {Good : Node → Prop} {ctx : Context} {barred : Expr → Bool}

mutual

/-- **An expression** from which rows around are barred is written as a field or as something that is
built, unless it reads a pattern variable. -/
theorem made_scalarNode (hG : Made Good) (hcorrelation : ∀ id t, barred (.correlation id t) = true)
    (hpattern : ∀ symbol i t, barred (.patternField symbol i t) = true
      ∨ ∀ name, Good (Node.column name (some symbol)))
    (hfield : ∀ i n, ctx.field env i = .ok n → Good n) :
    ∀ e : Expr, e.subterms.any barred = false →
    Yields Good (scalarNode env sub ctx e)
  | .inputRef i t, _ => by
    rw [scalarNode]
    exact .lift fun n hn => hfield i n hn
  | .localRef i shared t, he => by
    rw [scalarNode]
    split
    · rename_i k hk
      refine made_scalarNodeAt hG hcorrelation hpattern hfield i k shared ?_
      rw [Scalar.subterms, List.any_cons, Bool.or_eq_false_iff] at he
      simpa only [hk] using he.2
    · exact .throw
  | .literal l, _ => by
    rw [scalarNode]
    refine .lift fun n hn => ?_
    unfold literalIn at hn
    split at hn
    · cases hn
      exact hG.of_kind (by simp [Node.identifier])
    · exact hG.of_kind (kind_literalNode hn)
  | .call op operands t, he => by
    have hread := any_subterms_operands he
    rw [scalarNode.eq_def]
    simp only
    split
    · exact .bind (made_scalarNodes hG hcorrelation hpattern hfield operands hread) fun ns hns => .pure (produced_and hG.operates hns)
    · exact .bind (made_scalarNodes hG hcorrelation hpattern hfield operands hread) fun ns hns => .pure (produced_or hG.operates hns)
    · -- only a denial of a denial is no operation of its own
      split
      · exact .throw
      · rename_i inner e es u rest
        split
        · have hinner := hread (.call inner (e :: es) u) (by simp)
          exact made_scalarNode hG hcorrelation hpattern hfield e (any_subterms_operands hinner e (by simp))
        · exact .bind_any fun n => .pure (produced_deny hG.operates _)
      · exact .bind_any fun n => .pure (produced_deny hG.operates _)
    · exact .bind_any fun ns => .pure (hG.of_kind (by unfold caseNode; split <;> simp))
    · refine .bind_any fun sarg => ?_
      split
      · exact .bind_any fun n => .lift fun m hm => produced_sargNode hG.operates hm
      · exact .throw
    · split
      · exact .throw
      · split
        · refine .lift fun n hn => ?_
          unfold cursorNode at hn
          split at hn
          · simp only [bind_eq_ok_iff, pure_eq_ok_iff] at hn
            obtain ⟨m, -, rfl⟩ := hn
            exact hG.of_kind (by simp [Node.wrap])
          · cases hn
        · exact .bind_any fun n => .pure (hG.of_kind (by simp [Dialect.castNode]))
    · exact .bind_any fun ns => .pure (hG.of_kind (by simp))
    · exact .bind_any fun ns => .pure (hG.of_kind (by simp))
    · split
      · exact .throw
      · refine .bind_any fun n => .lift fun m hm => ?_
        simp only [quantifierNode, bind_eq_ok_iff, pure_eq_ok_iff] at hm
        obtain ⟨min, -, max, -, rfl⟩ := hm
        exact hG.of_kind (by simp)
    · have hcall : ∀ types ns, (∀ n ∈ ns, Good n) → Yields (Good) (do
          let written ← env.dialect.retarget op types
          operationNode written ns) := fun types ns hns =>
        .bind_any fun written => .lift fun m hm => produced_operationNode hG.operates hm hns
      split
      · rename_i op' inner tail u right more _
        have hinner := any_subterms_operands (hread (.call op' (inner :: tail) u) (by simp))
        refine .bind (made_scalarNode hG hcorrelation hpattern hfield inner (hinner inner (by simp))) fun l hl => ?_
        refine .bind (made_scalarNode hG hcorrelation hpattern hfield right (hread right (by simp))) fun r hr => ?_
        exact .bind (.pure (by simpa using ⟨hl, hr⟩)) (hcall _)
      · rename_i left op' inner tail u more _
        have hinner := any_subterms_operands (hread (.call op' (inner :: tail) u) (by simp))
        refine .bind (made_scalarNode hG hcorrelation hpattern hfield left (hread left (by simp))) fun l hl => ?_
        refine .bind (made_scalarNode hG hcorrelation hpattern hfield inner (hinner inner (by simp))) fun r hr => ?_
        exact .bind (.pure (by simpa using ⟨hl, hr⟩)) (hcall _)
      · exact .bind (made_scalarNodes hG hcorrelation hpattern hfield _ hread) (hcall _)
  | .overWindow op operands window distinct t, _ => by
    rw [scalarNode]
    refine .bind_any fun ps => .bind_any fun os => .bind_any fun written => .bind_any fun as => ?_
    have hwindowed : ∀ frame : Option Node, Yields (Good)
        (pure (windowedNode written as distinct ⟨ps, os, frame⟩)) := by
      refine fun frame => .pure (hG.of_kind ?_)
      unfold windowedNode
      split <;> simp [orZero, overNode, Node.call]
    simp only
    split
    · exact .bind_any hwindowed
    · exact .bind_any hwindowed
  | .fieldAccess row field i t, he => by
    rw [scalarNode]
    · exact .bind_any fun n => .pure (hG.of_kind (by simp [Node.dot]))
    · rintro id u rfl
      simp [Scalar.subterms, hcorrelation] at he
  | .correlation id t, he => by simp [Scalar.subterms, hcorrelation] at he
  | .subQuery op operands relation t, _ => by
    rw [scalarNode]
    refine .bind_any fun query => ?_
    have htest : ∀ operand : Option Node, Yields (Good)
        (liftM (subQueryNode op operand query)) := by
      refine fun operand => .lift fun n hn => ?_
      unfold subQueryNode at hn
      split at hn <;> cases hn
      · exact hG.of_kind (by simp [Node.inQuery])
      · exact hG.of_kind (by simp [Node.inQuery])
      · exact hG.of_kind (by simp [Node.wrap])
      · exact hG.subquery _
    simp only
    split
    · split
      · exact .bind_any fun n => .bind_any htest
      · exact .bind_any fun ns => .bind_any htest
    · exact .bind_any htest
  | .parameter i t, _ => by
    rw [scalarNode]
    exact .pure (hG.of_kind (by simp))
  | .patternField symbol i t, he => by
    rw [scalarNode]
    refine .lift fun n hn => ?_
    simp only [patternFieldNode, bind_eq_ok_iff] at hn
    obtain ⟨m, -, hn⟩ := hn
    split at hn
    · obtain rfl := (pure_eq_ok_iff _ _).mp hn
      rcases hpattern symbol i t with hbarred | hgood
      · simp [Scalar.subterms, hbarred] at he
      · exact hgood _
    · cases hn

theorem made_scalarNodes (hG : Made Good) (hcorrelation : ∀ id t, barred (.correlation id t) = true)
    (hpattern : ∀ symbol i t, barred (.patternField symbol i t) = true
      ∨ ∀ name, Good (Node.column name (some symbol)))
    (hfield : ∀ i n, ctx.field env i = .ok n → Good n) :
    ∀ es : List Expr, (∀ e ∈ es, e.subterms.any barred = false) →
    Yields (fun ns => ∀ n ∈ ns, Good n) (scalarNodes env sub ctx es)
  | [], _ => by
    rw [scalarNodes]
    exact .pure (by simp)
  | e :: es, he => by
    rw [scalarNodes]
    refine .bind (made_scalarNode hG hcorrelation hpattern hfield e (he e (by simp))) fun n hn => ?_
    refine .bind (made_scalarNodes hG hcorrelation hpattern hfield es fun e' he' => he e' (by simp [he'])) fun ns hns => .pure ?_
    simpa using ⟨hn, hns⟩

theorem made_scalarNodeAt (hG : Made Good) (hcorrelation : ∀ id t, barred (.correlation id t) = true)
    (hpattern : ∀ symbol i t, barred (.patternField symbol i t) = true
      ∨ ∀ name, Good (Node.column name (some symbol)))
    (hfield : ∀ i n, ctx.field env i = .ok n → Good n)
    (index : Ordinal) (k : Nat) : ∀ es : List Expr, (Scalar.subtermsAt k es).any barred = false →
    Yields Good (scalarNodeAt env sub ctx index k es)
  | [], _ => by
    rw [scalarNodeAt]
    exact .throw
  | e :: es, he => by
    rw [scalarNodeAt]
    rw [Scalar.subtermsAt] at he
    split
    · rename_i hk
      exact made_scalarNode hG hcorrelation hpattern hfield e (by simpa [hk] using he)
    · rename_i hk
      exact made_scalarNodeAt hG hcorrelation hpattern hfield index (k - 1) es (by simpa [hk] using he)

end

/-- An expression that reads no outer fields is written as a field or as something without a name. -/
theorem produced_scalarNode (hG : Produced Good) (hfield : ∀ i n, ctx.field env i = .ok n → Good n)
    (e : Expr) (he : readsOuter e = false) : Yields Good (scalarNode env sub ctx e) :=
  made_scalarNode hG.toMade (fun _ _ => rfl) (fun symbol _ _ => .inr fun name => hG.qualified name symbol)
    hfield e he

/-- An expression that reads nothing but its input is written as a field or as something that is built. -/
theorem made_of_input (hG : Made Good) (hfield : ∀ i n, ctx.field env i = .ok n → Good n) (e : Expr)
    (he : readsElsewhere e = false) : Yields Good (scalarNode env sub ctx e) :=
  made_scalarNode hG (fun _ _ => rfl) (fun _ _ _ => .inl rfl) hfield e he

end Scalars

end AlgebraSql.Convert
