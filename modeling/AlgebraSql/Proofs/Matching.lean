import AlgebraSql.Proofs.Congruence
import AlgebraSql.Proofs.Written

/-!
# Matching — one expression converted in two contexts.

A conversion never looks at the context but for the fields.  From the same memory, an expression that
is computed row by row gives related nodes in two contexts whose fields are related.
-/

namespace AlgebraSql.Convert

open Sql Node

variable {env : Env} {sub : Rel → ConvertM Node} {R : Node → Node → Prop}

/-! ## Conversions that match -/

/-- The second conversion gives something related to what the first one gives, and leaves the same
memory. -/
def Matches {α β : Type} (P : α → β → Prop) (c : ConvertM α) (d : ConvertM β) : Prop :=
  ∀ s a s', c.Gives s a s' → ∃ b, d.Gives s b s' ∧ P a b

namespace Matches

variable {α β α' β' : Type} {P : α → β → Prop} {Q : α' → β' → Prop}

theorem pure {a : α} {b : β} (h : P a b) : Matches P (Pure.pure a) (Pure.pure b) := by
  intro s c s' hc
  obtain ⟨rfl, rfl⟩ := (ConvertM.gives_pure _ _ _ _).mp hc
  exact ⟨b, (ConvertM.gives_pure _ _ _ _).mpr ⟨rfl, rfl⟩, h⟩

theorem lift {x : Except Error α} {y : Except Error β} (h : ∀ a, x = .ok a → ∃ b, y = .ok b ∧ P a b) :
    Matches P (liftM x) (liftM y) := by
  intro s a s' ha
  obtain ⟨hx, rfl⟩ := (ConvertM.gives_lift _ _ _ _).mp ha
  obtain ⟨b, hy, hab⟩ := h a hx
  exact ⟨b, (ConvertM.gives_lift _ _ _ _).mpr ⟨hy, rfl⟩, hab⟩

theorem throw {e : Error} {d : ConvertM β} : Matches P (MonadExcept.throw e) d := by
  intro s a s' ha
  exact absurd ha (ConvertM.gives_throw _ _ _ _)

theorem bind {c : ConvertM α} {d : ConvertM β} {f : α → ConvertM α'} {g : β → ConvertM β'}
    (hc : Matches P c d) (hf : ∀ a b, P a b → Matches Q (f a) (g b)) : Matches Q (c >>= f) (d >>= g) := by
  intro s a s'' ha
  obtain ⟨x, s', hx, ha⟩ := (ConvertM.gives_bind _ _ _ _ _).mp ha
  obtain ⟨y, hy, hxy⟩ := hc s x s' hx
  obtain ⟨b, hb, hab⟩ := hf x y hxy s' a s'' ha
  exact ⟨b, (ConvertM.gives_bind _ _ _ _ _).mpr ⟨y, s', hy, hb⟩, hab⟩

/-- The same step before matching ones. -/
theorem bind_same {c : ConvertM α} {f : α → ConvertM α'} {g : α → ConvertM β'}
    (hf : ∀ s a s', c.Gives s a s' → Matches Q (f a) (g a)) : Matches Q (c >>= f) (c >>= g) := by
  intro s a s'' ha
  obtain ⟨x, s', hx, ha⟩ := (ConvertM.gives_bind _ _ _ _ _).mp ha
  obtain ⟨b, hb, hab⟩ := hf s x s' hx s' a s'' ha
  exact ⟨b, (ConvertM.gives_bind _ _ _ _ _).mpr ⟨x, s', hx, hb⟩, hab⟩

theorem mono {P' : α → β → Prop} {c : ConvertM α} {d : ConvertM β} (h : Matches P c d)
    (hP : ∀ a b, P a b → P' a b) : Matches P' c d := fun s a s' ha =>
  let ⟨b, hb, hab⟩ := h s a s' ha
  ⟨b, hb, hP a b hab⟩

/-- Matching steps for each element match. -/
theorem mapM {γ : Type} {P : β → γ → Prop} {f : α → ConvertM β} {g : α → ConvertM γ} {as : List α}
    (h : ∀ a ∈ as, Matches P (f a) (g a)) : Matches (List.Forall₂ P) (as.mapM f) (as.mapM g) := by
  induction as with
  | nil => exact Matches.pure .nil
  | cons a as ih =>
    rw [List.mapM_cons, List.mapM_cons]
    exact Matches.bind (h a (by simp)) fun b c hbc => Matches.bind (ih fun a ha => h a (by simp [ha])) fun bs cs hrest =>
      Matches.pure (.cons hbc hrest)

end Matches

/-! ## Expressions that are computed row by row -/

/-- A part of an expression reads nothing but fields of the row: it is no windowed call and no call
of an aggregate function, and reads no row around.  Sub-queries have to be among `Q`. -/
def RowwisePart (d : Dialect) (Q : Rel → Prop) : Expr → Prop
  | .overWindow .. | .correlation .. | .patternField .. => False
  | .subQuery _ _ rel _ => Q rel
  | .call op operands _ => ∀ written, d.retarget op (operands.map (·.type)) = .ok written →
    (written.form == .function && written.isAggregate) = false
  | _ => True

/-- **`Rowwise`** — an expression is computed row by row. -/
def Rowwise (d : Dialect) (Q : Rel → Prop) (e : Expr) : Prop := ∀ t ∈ e.subterms, RowwisePart d Q t

namespace Rowwise

variable {d : Dialect} {Q : Rel → Prop} {op : Operator} {operands : List Expr} {t : DataType}

theorem call_operands (h : Rowwise d Q (.call op operands t)) : ∀ e ∈ operands, Rowwise d Q e := by
  intro e he u hu
  refine h u ?_
  rw [Scalar.subterms, subtermsOf_eq]
  exact List.mem_cons_of_mem _ (List.mem_flatMap.mpr ⟨e, he, hu⟩)

theorem subQuery_operands {rel : Rel} (h : Rowwise d Q (.subQuery op operands rel t)) :
    ∀ e ∈ operands, Rowwise d Q e := by
  intro e he u hu
  refine h u ?_
  rw [Scalar.subterms, subtermsOf_eq]
  exact List.mem_cons_of_mem _ (List.mem_flatMap.mpr ⟨e, he, hu⟩)

theorem subQuery {rel : Rel} (h : Rowwise d Q (.subQuery op operands rel t)) : Q rel :=
  h (.subQuery op operands rel t) (by simp [Scalar.subterms])

/-- A call that is computed row by row is no call of an aggregate function. -/
theorem written (h : Rowwise d Q (.call op operands t)) {written : Operator}
    (hwritten : d.retarget op (operands.map (·.type)) = .ok written) :
    (written.form == .function && written.isAggregate) = false :=
  h (.call op operands t) (by simp [Scalar.subterms]) written hwritten

end Rowwise

/-! ## Nodes without fields -/

/-- Tests with the same query are related. -/
structure Queries (R : Node → Node → Prop) (q : Node) : Prop where
  nonempty : R (Node.wrap .exists q) (Node.wrap .exists q)
  value : R (Node.subquery q) (Node.subquery q)
  member : ∀ {m n : Node} (negated : Bool), R m n →
    R (Node.inQuery m (Node.subquery q) negated) (Node.inQuery n (Node.subquery q) negated)

mutual

/-- A constant is related to itself. -/
theorem related_literalNode (hR : Congruent R) {d : Dialect} :
    ∀ {l : Literal} {n : Node}, literalNode d l = .ok n → R n n
  | ⟨value, type⟩, n, h => by
    cases value with
    | row values =>
      simp only [literalNode, bind_eq_ok_iff, pure_eq_ok_iff] at h
      obtain ⟨ns, hns, rfl⟩ := h
      exact hR.call _ (related_literalNodes hR hns)
    | sarg _ => simp [literalNode] at h
    | timestamp text =>
      simp only [literalNode] at h
      split at h <;> cases h <;>
        exact hR.args rfl (.cons ⟨rfl, .node (hR.string _)⟩ (.cons ⟨rfl, .same _ rfl⟩ .nil))
    | _ =>
      simp only [literalNode, Except.ok.injEq] at h
      subst h
      first
        | exact hR.args rfl (.cons ⟨rfl, .node (hR.string _)⟩ (.cons ⟨rfl, .node (hR.word _)⟩
            (.cons ⟨rfl, .same _ rfl⟩ .nil)))
        | exact hR.args rfl (.cons ⟨rfl, .node (hR.string _)⟩ (.cons ⟨rfl, .same _ rfl⟩ .nil))
        | exact hR.leaf rfl (by simp [Arg.children])

theorem related_literalNodes (hR : Congruent R) {d : Dialect} :
    ∀ {ls : List Literal} {ns : List Node}, literalNodes d ls = .ok ns → List.Forall₂ R ns ns
  | [], ns, h => by
    obtain rfl : [] = ns := by simpa [literalNodes] using h
    exact .nil
  | l :: ls, ns, h => by
    simp only [literalNodes, bind_eq_ok_iff, pure_eq_ok_iff] at h
    obtain ⟨n, hn, ns, hns, rfl⟩ := h
    exact .cons (related_literalNode hR hn) (related_literalNodes hR hns)

end

section

variable (hR : Congruent R)

include hR

theorem related_typedNull (d : Dialect) (type : DataType) : R (typedNull d type) (typedNull d type) := by
  unfold typedNull
  split
  · exact hR.null
  · exact hR.castNode d type hR.null

omit hR in
/-- Pure steps that give related values for each element. -/
theorem mapM_related {α : Type} {f g : α → Except Error Node} {as : List α} {ms : List Node}
    (h : ∀ a m, f a = .ok m → ∃ n, g a = .ok n ∧ R m n) (hms : as.mapM f = .ok ms) :
    ∃ ns, as.mapM g = .ok ns ∧ List.Forall₂ R ms ns := by
  rw [mapM_eq_ok_iff] at hms
  induction hms with
  | nil => exact ⟨[], by simp [pure, Except.pure], .nil⟩
  | @cons a m as ms hm _ ih =>
    obtain ⟨n, hn, hmn⟩ := h a m hm
    obtain ⟨ns, hns, hrest⟩ := ih
    refine ⟨n :: ns, ?_, .cons hmn hrest⟩
    rw [mapM_eq_ok_iff] at hns ⊢
    exact .cons hn hns

theorem related_compareNode {d : Dialect} {type : DataType} {m n : Node} (h : R m n) {kind : Kind}
    (hkind : ∀ l r, (Node.binary kind l r).manner = .operation) {v : Value} {x : Node}
    (hx : compareNode d type m kind v = .ok x) : ∃ y, compareNode d type n kind v = .ok y ∧ R x y := by
  simp only [compareNode, bind_eq_ok_iff, pure_eq_ok_iff] at hx ⊢
  obtain ⟨e, he, rfl⟩ := hx
  refine ⟨_, ⟨e, he, rfl⟩, hR.binary hkind h ?_⟩
  simp only [endpointNode, bind_eq_ok_iff] at he
  obtain ⟨l, -, hl⟩ := he
  exact related_literalNode hR hl

theorem related_rangeNode {d : Dialect} {type : DataType} {m n : Node} (h : R m n) {r : Range} {x : Node}
    (hx : rangeNode d type m r = .ok x) : ∃ y, rangeNode d type n r = .ok y ∧ R x y := by
  have hbound : ∀ (lower : Bool) (es : List Endpoint) (xs : List Node),
      es.mapM (if lower then lowerNode d type m else upperNode d type m) = .ok xs →
        ∃ ys, es.mapM (if lower then lowerNode d type n else upperNode d type n) = .ok ys
          ∧ List.Forall₂ R xs ys := by
    intro lower es xs hxs
    refine mapM_related (fun e x hx => ?_) hxs
    cases lower with
    | true => exact related_compareNode hR h (by intro l r; split <;> rfl) hx
    | false => exact related_compareNode hR h (by intro l r; split <;> rfl) hx
  simp only [rangeNode, bind_eq_ok_iff] at hx ⊢
  obtain ⟨shape, hshape, hx⟩ := hx
  have hbounds : ∀ (lower upper : Option Endpoint), (do
      let below ← lower.toList.mapM (lowerNode d type m)
      let above ← upper.toList.mapM (upperNode d type m)
      return Node.and (below ++ above) : Except Error Node) = .ok x → ∃ y, (do
        let below ← lower.toList.mapM (lowerNode d type n)
        let above ← upper.toList.mapM (upperNode d type n)
        return Node.and (below ++ above) : Except Error Node) = .ok y ∧ R x y := by
    intro lower upper hx
    simp only [bind_eq_ok_iff, pure_eq_ok_iff] at hx ⊢
    obtain ⟨below, hbelow, above, habove, rfl⟩ := hx
    obtain ⟨below', hbelow', hrel⟩ := hbound true _ _ hbelow
    obtain ⟨above', habove', hrel'⟩ := hbound false _ _ habove
    exact ⟨_, ⟨below', hbelow', above', habove', rfl⟩, hR.and (List.rel_append hrel hrel')⟩
  generalize r.lower = lower at hx ⊢
  generalize r.upper = upper at hx ⊢
  cases shape with
  | all =>
    obtain rfl := (pure_eq_ok_iff _ _).mp hx
    exact ⟨_, ⟨_, hshape, rfl⟩, hR.boolean true⟩
  | singleton =>
    cases lower with
    | some l =>
      obtain ⟨y, hy, hxy⟩ := related_compareNode hR h (fun _ _ => rfl) hx
      exact ⟨y, ⟨_, hshape, hy⟩, hxy⟩
    | none =>
      obtain ⟨y, hy, hxy⟩ := hbounds _ _ hx
      exact ⟨y, ⟨_, hshape, hy⟩, hxy⟩
  | _ =>
    obtain ⟨y, hy, hxy⟩ := hbounds _ _ hx
    exact ⟨y, ⟨_, hshape, hy⟩, hxy⟩

theorem related_sargNode {d : Dialect} {type : DataType} {m n : Node} (h : R m n) {sarg : Sarg} {x : Node}
    (hx : sargNode d m sarg type = .ok x) : ∃ y, sargNode d n sarg type = .ok y ∧ R x y := by
  simp only [sargNode, bind_eq_ok_iff, pure_eq_ok_iff] at hx ⊢
  obtain ⟨tests, htests, rfl⟩ := hx
  have hmissing : List.Forall₂ R (if sarg.containsNull then [Node.isNull m] else [])
      (if sarg.containsNull then [Node.isNull n] else []) := by
    split
    · exact .cons (hR.isNull h) .nil
    · exact .nil
  obtain ⟨tests', htests', hrel⟩ : ∃ tests', rangeSetNodes d type n sarg.rangeSet = .ok tests'
      ∧ List.Forall₂ R tests tests' := by
    simp only [rangeSetNodes, bind_eq_ok_iff] at htests ⊢
    obtain ⟨points, hpoints, htests⟩ := htests
    cases points with
    | false =>
      obtain ⟨tests', htests', hrel⟩ := mapM_related (fun r x hx => related_rangeNode hR h hx) htests
      exact ⟨tests', ⟨_, hpoints, htests'⟩, hrel⟩
    | true =>
      simp only [if_true, bind_eq_ok_iff] at htests
      obtain ⟨vs, hvs, htests⟩ := htests
      rcases vs with _ | ⟨v, _ | ⟨w, vs⟩⟩
      · obtain rfl := (pure_eq_ok_iff _ _).mp htests
        exact ⟨[], ⟨_, hpoints, by simp [hvs, pure, Except.pure]⟩, .nil⟩
      · simp only [bind_eq_ok_iff, pure_eq_ok_iff] at htests
        obtain ⟨test, htest, rfl⟩ := htests
        obtain ⟨test', htest', hrel⟩ := related_compareNode hR h (fun _ _ => rfl) htest
        exact ⟨[test'], ⟨_, hpoints, by simp [hvs, htest']⟩, .cons hrel .nil⟩
      · simp only [bind_eq_ok_iff, pure_eq_ok_iff] at htests
        obtain ⟨values, hvalues, rfl⟩ := htests
        refine ⟨[Node.inList n values], ⟨_, hpoints, by simp [hvs, hvalues]⟩, .cons ?_ .nil⟩
        refine hR.inList false h (List.forall₂_same.mpr fun value hvalue => ?_)
        refine forall_of_mapM (p := fun n => R n n) hvalues (fun v _ node hnode => ?_) value hvalue
        simp only [endpointNode, bind_eq_ok_iff] at hnode
        obtain ⟨l, -, hl⟩ := hnode
        exact related_literalNode hR hl
  exact ⟨_, ⟨tests', htests', rfl⟩, hR.or (List.rel_append hmissing hrel)⟩

end

/-! ## Expressions -/

/-- Two contexts with related fields, in which constants stand for themselves, for a relation that
operations keep; it also holds between tests with a sub-query from `Q`. -/
structure Alike (env : Env) (sub : Rel → ConvertM Node) (Q : Rel → Prop) (R : Node → Node → Prop)
    (ctx ctx' : Context) : Prop where
  congruent : Congruent R
  queries : ∀ rel, Q rel → ∀ s q s', (sub rel).Gives s q s' → Queries R q
  field : ∀ i m, ctx.field env i = .ok m → ∃ n, ctx'.field env i = .ok n ∧ R m n
  literal : ∀ l, literalIn env ctx l = literalNode env.dialect l
  literal' : ∀ l, literalIn env ctx' l = literalNode env.dialect l

/-- Two nodes for an expression are related, and may be denied in place alike. -/
structure Paired (R : Node → Node → Prop) (e : Expr) (m n : Node) : Prop where
  rel : R m n
  deniable : ∀ op, e.operator? = some op → op.kind ∈ [.in, .notIn, .like, .similar] →
    Congruent.Deniable R m n

/-- An operator that may be denied in place is written as it is. -/
theorem retarget_of_deniable {d : Dialect} {op written : Operator} {types : List DataType}
    (hop : op.kind ∈ [.in, .notIn, .like, .similar]) (h : d.retarget op types = .ok written) :
    written = op := by
  simp only [List.mem_cons, List.not_mem_nil, or_false] at hop
  rcases hop with hkind | hkind | hkind | hkind <;> simpa [Dialect.retarget, hkind, eq_comm] using h

/-- Tests with a query that are related, however they are denied. -/
theorem Queries.deniable {q m n : Node} (hq : Queries R q) (negated : Bool) (h : R m n) :
    Congruent.Deniable R (Node.inQuery m (Node.subquery q) negated)
      (Node.inQuery n (Node.subquery q) negated) := by
  have hflipped : ∀ m : Node, flipped (Node.inQuery m (Node.subquery q) negated)
      = Node.inQuery m (Node.subquery q) !negated := by
    intro m
    simp [flipped, Node.inQuery, Node.flag, Node.set, OrderedMap.put, OrderedMap.get?]
  exact ⟨rfl, fun _ => by rw [hflipped, hflipped]; exact hq.member _ h⟩

variable {Q : Rel → Prop} {ctx ctx' : Context}

/-- A call of an operator on related operands. -/
theorem matches_operation (hR : Congruent R) {op : Operator} {operands : List Expr} {t : DataType}
    (he : Rowwise env.dialect Q (.call op operands t)) {ms ns : List Node} (h : List.Forall₂ R ms ns) :
    Matches (Paired R (.call op operands t))
      (do
        let written ← (env.dialect.retarget op (operands.map (·.type)) : Except Error Operator)
        operationNode written ms : ConvertM Node)
      (do
        let written ← (env.dialect.retarget op (operands.map (·.type)) : Except Error Operator)
        operationNode written ns : ConvertM Node) := by
  refine .bind_same fun s written s' hwritten => .lift fun m hm => ?_
  have hretarget := ((ConvertM.gives_lift _ _ _ _).mp hwritten).1
  obtain ⟨n, hn, hmn⟩ := hR.operationNode (he.written hretarget) h hm
  refine ⟨n, hn, hmn, fun op' hop' hkind => ?_⟩
  obtain rfl : op = op' := by simpa [Scalar.operator?] using hop'
  obtain rfl := retarget_of_deniable hkind hretarget
  exact hR.operationNode_deniable hkind h hm hn

mutual

/-- **An expression** that is computed row by row gives related nodes. -/
theorem matches_scalarNode (h : Alike env sub Q R ctx ctx') : ∀ e : Expr, Rowwise env.dialect Q e →
    Matches (Paired R e) (scalarNode env sub ctx e) (scalarNode env sub ctx' e)
  | .inputRef i t, _ => by
    rw [scalarNode, scalarNode]
    refine .lift fun m hm => ?_
    obtain ⟨n, hn, hmn⟩ := h.field i m hm
    exact ⟨n, hn, hmn, by simp [Scalar.operator?]⟩
  | .localRef i shared t, he => by
    rw [scalarNode, scalarNode]
    split
    · rename_i k hk
      refine (matches_scalarNodeAt h i k shared fun u hu => he u ?_).mono fun m n hmn =>
        ⟨hmn, by simp [Scalar.operator?]⟩
      rw [Scalar.subterms]
      simpa [hk] using Or.inr hu
    · exact .throw
  | .literal l, _ => by
    rw [scalarNode, scalarNode, h.literal, h.literal']
    exact .lift fun m hm => ⟨m, hm, related_literalNode h.congruent hm, by simp [Scalar.operator?]⟩
  | .call op operands t, he => by
    have hoperands := he.call_operands
    have hpaired : ∀ {m n : Node}, op.kind ∉ [.in, .notIn, .like, .similar] → R m n →
        Paired R (.call op operands t) m n := fun hop hmn =>
      ⟨hmn, fun op' hop' hkind => absurd hkind (by
        obtain rfl : op = op' := by simpa [Scalar.operator?] using hop'
        exact hop)⟩
    rw [scalarNode.eq_def, scalarNode.eq_def]
    simp only
    split
    · rename_i hkind
      exact .bind (matches_scalarNodes h operands hoperands) fun ms ns hns =>
        .pure (hpaired (by simp [hkind]) (h.congruent.and hns))
    · rename_i hkind
      exact .bind (matches_scalarNodes h operands hoperands) fun ms ns hns =>
        .pure (hpaired (by simp [hkind]) (h.congruent.or hns))
    · rename_i hkind
      have hdeny : ∀ e : Expr, Matches (Paired R e) (scalarNode env sub ctx e)
          (scalarNode env sub ctx' e) → Matches (Paired R (.call op operands t))
            (do return deny (e.operator?.map (·.kind)) (← scalarNode env sub ctx e))
            (do return deny (e.operator?.map (·.kind)) (← scalarNode env sub ctx' e)) := by
        refine fun e hnodes => .bind hnodes fun m n hmn => .pure (hpaired (by simp [hkind]) ?_)
        refine h.congruent.deny hmn.rel fun kind hsource hdeniable => ?_
        obtain ⟨op', hop', rfl⟩ := Option.map_eq_some_iff.mp hsource
        exact hmn.deniable op' hop' hdeniable
      split
      · exact .throw
      · rename_i inner e es u rest
        have hinner := hoperands (.call inner (e :: es) u) (by simp)
        split
        · exact (matches_scalarNode h e (hinner.call_operands e (by simp))).mono fun m n hmn =>
            hpaired (by simp [hkind]) hmn.rel
        · exact hdeny _ (matches_scalarNode h (.call inner (e :: es) u) hinner)
      · rename_i operand rest _
        exact hdeny _ (matches_scalarNode h operand (hoperands operand (by simp)))
    · rename_i hkind
      exact .bind (matches_scalarNodes h operands hoperands) fun ms ns hns =>
        .pure (hpaired (by simp [hkind]) (h.congruent.caseNode hns))
    · rename_i hkind
      refine .bind_same fun s found s' _ => ?_
      split
      · rename_i operand rest _
        refine .bind (matches_scalarNode h operand (hoperands operand (by simp))) fun m n hmn =>
          .lift fun x hx => ?_
        obtain ⟨y, hy, hxy⟩ := related_sargNode h.congruent hmn.rel hx
        exact ⟨y, hy, hpaired (by simp [hkind]) hxy⟩
      · exact .throw
    · rename_i hkind
      split
      · exact .throw
      · rename_i operand rest
        split
        · refine .lift fun m hm => ?_
          unfold cursorNode at hm ⊢
          split at hm
          · simp only [bind_eq_ok_iff, pure_eq_ok_iff] at hm ⊢
            obtain ⟨m, hm, rfl⟩ := hm
            obtain ⟨n, hn, hmn⟩ := h.field _ m hm
            exact ⟨_, ⟨n, hn, rfl⟩, hpaired (by simp [hkind]) (h.congruent.wrap (fun _ => rfl) hmn)⟩
          · cases hm
        · exact .bind (matches_scalarNode h operand (hoperands operand (by simp))) fun m n hmn =>
            .pure (hpaired (by simp [hkind]) (h.congruent.castNode _ _ hmn.rel))
    · rename_i hkind
      exact .bind (matches_scalarNodes h operands hoperands) fun ms ns hns =>
        .pure (hpaired (by simp [hkind]) (h.congruent.args rfl (.cons ⟨rfl, .nodes hns⟩ .nil)))
    · rename_i hkind
      exact .bind (matches_scalarNodes h operands hoperands) fun ms ns hns =>
        .pure (hpaired (by simp [hkind]) (h.congruent.args rfl (.cons ⟨rfl, .nodes hns⟩ .nil)))
    · rename_i hkind
      split
      · exact .throw
      · rename_i pattern bounds
        refine .bind (matches_scalarNode h pattern (hoperands pattern (by simp))) fun m n hmn =>
          .lift fun x hx => ?_
        simp only [quantifierNode, bind_eq_ok_iff, pure_eq_ok_iff] at hx ⊢
        obtain ⟨min, hmin, max, hmax, rfl⟩ := hx
        refine ⟨_, ⟨min, hmin, max, hmax, rfl⟩, hpaired (by simp [hkind]) ?_⟩
        exact h.congruent.args rfl (.cons ⟨rfl, .node hmn.rel⟩ (.cons ⟨rfl, .same _ rfl⟩
          (.cons ⟨rfl, .same _ rfl⟩ (.cons ⟨rfl, .same _ rfl⟩ .nil))))
    · split
      · rename_i op' inner tail u right more _
        have hinner := (hoperands (.call op' (inner :: tail) u) (by simp)).call_operands
        refine .bind (matches_scalarNode h inner (hinner inner (by simp))) fun m n hmn => ?_
        refine .bind (matches_scalarNode h right (hoperands right (by simp))) fun m' n' hmn' => ?_
        exact .bind (P := List.Forall₂ R) (.pure (.cons hmn.rel (.cons hmn'.rel .nil))) fun ms ns hns =>
          matches_operation h.congruent he hns
      · rename_i left op' inner tail u more _
        have hinner := (hoperands (.call op' (inner :: tail) u) (by simp)).call_operands
        refine .bind (matches_scalarNode h left (hoperands left (by simp))) fun m n hmn => ?_
        refine .bind (matches_scalarNode h inner (hinner inner (by simp))) fun m' n' hmn' => ?_
        exact .bind (P := List.Forall₂ R) (.pure (.cons hmn.rel (.cons hmn'.rel .nil))) fun ms ns hns =>
          matches_operation h.congruent he hns
      · exact .bind (matches_scalarNodes h _ hoperands) fun ms ns hns => matches_operation h.congruent he hns
  | .overWindow op operands window distinct t, he =>
    (he (.overWindow op operands window distinct t) (by simp [Scalar.subterms])).elim
  | .fieldAccess row field i t, he => by
    have hrow : Rowwise env.dialect Q row := fun u hu => he u (by simp [Scalar.subterms, hu])
    have hcorrelation : ∀ id u, row ≠ .correlation id u := by
      rintro id u rfl
      exact hrow (.correlation id u) (by simp [Scalar.subterms])
    rw [scalarNode, scalarNode]
    · exact .bind (matches_scalarNode h row hrow) fun m n hmn =>
        .pure ⟨h.congruent.dot _ hmn.rel, by simp [Scalar.operator?]⟩
    · exact hcorrelation
    · exact hcorrelation
  | .correlation id t, he => (he (.correlation id t) (by simp [Scalar.subterms])).elim
  | .subQuery op operands relation t, he => by
    have hoperands := he.subQuery_operands
    rw [scalarNode, scalarNode]
    refine .bind_same fun s q s' hq => ?_
    have hqueries := h.queries relation he.subQuery s q s' hq
    have hdone : ∀ x y : Option Node, Option.Rel R x y → Matches
        (Paired R (.subQuery op operands relation t)) (liftM (subQueryNode op x q))
          (liftM (subQueryNode op y q)) := by
      refine fun x y hxy => .lift fun m hm => ?_
      unfold subQueryNode at hm ⊢
      split at hm
      · rename_i hkind
        cases hxy with
        | some hxy =>
          cases hm
          exact ⟨_, by simp [hkind], hqueries.member _ hxy, fun _ _ _ => hqueries.deniable _ hxy⟩
      · rename_i hkind
        cases hxy with
        | some hxy =>
          cases hm
          exact ⟨_, by simp [hkind], hqueries.member _ hxy, fun _ _ _ => hqueries.deniable _ hxy⟩
      · rename_i hkind
        cases hm
        refine ⟨_, by simp [hkind], hqueries.nonempty, fun op' hop' hmem => absurd hmem ?_⟩
        obtain rfl : op = op' := by simpa [Scalar.operator?] using hop'
        simp [hkind]
      · rename_i hkind
        cases hm
        refine ⟨_, by simp [hkind], hqueries.value, fun op' hop' hmem => absurd hmem ?_⟩
        obtain rfl : op = op' := by simpa [Scalar.operator?] using hop'
        simp [hkind]
      · cases hm
    simp only
    split
    · split
      · rename_i only
        exact .bind (matches_scalarNode h only (hoperands only (by simp))) fun m n hmn =>
          .bind (P := Option.Rel R) (.pure (.some hmn.rel)) hdone
      · exact .bind (matches_scalarNodes h _ hoperands) fun ms ns hns =>
          .bind (P := Option.Rel R) (.pure (.some (h.congruent.tuple hns))) hdone
    · exact .bind (P := Option.Rel R) (.pure .none) hdone
  | .parameter i t, _ => by
    rw [scalarNode, scalarNode]
    exact .pure ⟨h.congruent.leaf rfl (by simp [Arg.children]), by simp [Scalar.operator?]⟩
  | .patternField symbol i t, he => (he (.patternField symbol i t) (by simp [Scalar.subterms])).elim

theorem matches_scalarNodes (h : Alike env sub Q R ctx ctx') : ∀ es : List Expr, (∀ e ∈ es, Rowwise env.dialect Q e) →
    Matches (List.Forall₂ R) (scalarNodes env sub ctx es) (scalarNodes env sub ctx' es)
  | [], _ => by
    rw [scalarNodes, scalarNodes]
    exact .pure .nil
  | e :: es, he => by
    rw [scalarNodes, scalarNodes]
    refine .bind (matches_scalarNode h e (he e (by simp))) fun m n hmn => ?_
    exact .bind (matches_scalarNodes h es fun e' he' => he e' (by simp [he'])) fun ms ns hns =>
      .pure (.cons hmn.rel hns)

theorem matches_scalarNodeAt (h : Alike env sub Q R ctx ctx') (index : Ordinal) (k : Nat) :
    ∀ es : List Expr,
    (∀ u ∈ Scalar.subtermsAt k es, RowwisePart env.dialect Q u) →
    Matches R (scalarNodeAt env sub ctx index k es) (scalarNodeAt env sub ctx' index k es)
  | [], _ => by
    rw [scalarNodeAt, scalarNodeAt]
    exact .throw
  | e :: es, he => by
    rw [scalarNodeAt, scalarNodeAt]
    rw [Scalar.subtermsAt] at he
    split
    · rename_i hk
      rw [if_pos hk] at he
      exact (matches_scalarNode h e he).mono fun m n hmn => hmn.rel
    · rename_i hk
      exact matches_scalarNodeAt h index (k - 1) es (by simpa [hk] using he)

end

end AlgebraSql.Convert
