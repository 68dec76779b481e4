import AlgebraSql.Proofs.MappedOperators
import AlgebraSql.Proofs.OfferedFunctions

/-!
# Substituted functions — a plan is converted as if it called the functions of the database.

A function that the database lacks is replaced when its call is converted.  So the conversion of a plan goes
step by step as that of the plan in which these functions have been replaced before, until it comes to a
function for which there is no substitute: there it fails with a complaint about that function.
-/

namespace AlgebraSql.Convert

open Sql Node

variable {α β γ δ : Type} {E : Error → Prop} {R : α → β → Prop}

/-! ## Conversions in step -/

/-- **`Follows`** — from every memory, one conversion ends with a complaint of a kind, or both end with the same
complaint, or both give related values; and they leave the same memory. -/
def Follows (E : Error → Prop) (R : α → β → Prop) (c : ConvertM α) (c' : ConvertM β) : Prop :=
  ∀ s, (∃ e, E e ∧ c.Fails s e)
    ∨ (∃ e t, c.outcome s = (.error e, t) ∧ c'.outcome s = (.error e, t))
    ∨ ∃ a b t, R a b ∧ c.Gives s a t ∧ c'.Gives s b t

namespace Follows

theorem refl (c : ConvertM α) : Follows E Eq c c := by
  intro s
  rcases hc : c.outcome s with ⟨e | a, t⟩
  · exact .inr (.inl ⟨e, t, rfl, rfl⟩)
  · exact .inr (.inr ⟨a, a, t, rfl, hc, hc⟩)

theorem of_eq {c c' : ConvertM α} (h : c = c') : Follows E Eq c c' := h ▸ refl c

theorem pure {a : α} {b : β} (h : R a b) : Follows E R (Pure.pure a) (Pure.pure b) := fun _ =>
  .inr (.inr ⟨a, b, _, h, rfl, rfl⟩)

theorem throw (e : Error) : Follows E R (MonadExcept.throw e : ConvertM α) (MonadExcept.throw e : ConvertM β) := fun s =>
  .inr (.inl ⟨e, s, rfl, rfl⟩)

/-- A pure step complains as the other one does, or has a complaint of its own. -/
theorem lift {x : Except Error α} {y : Except Error β}
    (h : (∃ e, E e ∧ x = .error e) ∨ (∃ e, x = .error e ∧ y = .error e) ∨ ∃ a b, R a b ∧ x = .ok a ∧ y = .ok b) :
    Follows E R (liftM x) (liftM y) := by
  intro s
  rcases h with ⟨e, he, rfl⟩ | ⟨e, rfl, rfl⟩ | ⟨a, b, hab, rfl, rfl⟩
  · exact .inl ⟨e, he, rfl⟩
  · exact .inr (.inl ⟨e, s, rfl, rfl⟩)
  · exact .inr (.inr ⟨a, b, s, hab, rfl, rfl⟩)

theorem bind {S : γ → δ → Prop} {c : ConvertM α} {c' : ConvertM β} {f : α → ConvertM γ} {f' : β → ConvertM δ}
    (hc : Follows E R c c') (hf : ∀ a b, R a b → Follows E S (f a) (f' b)) : Follows E S (c >>= f) (c' >>= f') := by
  intro s
  rcases hc s with ⟨e, he, hfails⟩ | ⟨e, t, hc, hc'⟩ | ⟨a, b, t, hab, hc, hc'⟩
  · exact .inl ⟨e, he, (ConvertM.fails_bind _ _ _ _).mpr (.inl hfails)⟩
  · exact .inr (.inl ⟨e, t, by rw [ConvertM.outcome_bind, hc], by rw [ConvertM.outcome_bind, hc']⟩)
  · have hfirst : (c >>= f).outcome s = (f a).outcome t := by rw [ConvertM.outcome_bind, hc]
    have hsecond : (c' >>= f').outcome s = (f' b).outcome t := by rw [ConvertM.outcome_bind, hc']
    rcases hf a b hab t with ⟨e, he, hfails⟩ | ⟨e, u, hx, hy⟩ | ⟨x, y, u, hxy, hx, hy⟩
    · exact .inl ⟨e, he, by rw [ConvertM.Fails, hfirst]; exact hfails⟩
    · exact .inr (.inl ⟨e, u, by rw [hfirst, hx], by rw [hsecond, hy]⟩)
    · exact .inr (.inr ⟨x, y, u, hxy, by rw [ConvertM.Gives, hfirst, hx], by rw [ConvertM.Gives, hsecond, hy]⟩)

/-- A step that both make in the same way. -/
theorem bind_eq {S : γ → δ → Prop} {c c' : ConvertM α} {f : α → ConvertM γ} {f' : α → ConvertM δ}
    (hc : Follows E Eq c c') (hf : ∀ a, Follows E S (f a) (f' a)) : Follows E S (c >>= f) (c' >>= f') :=
  bind hc fun a b hab => by subst hab; exact hf a

/-- A step for every element of a list, and the same steps for the elements in their places. -/
theorem mapM {f : α → ConvertM γ} {f' : β → ConvertM γ} {m : α → β} {as : List α}
    (h : ∀ a ∈ as, Follows E Eq (f a) (f' (m a))) : Follows E Eq (as.mapM f) ((as.map m).mapM f') := by
  induction as with
  | nil => exact of_eq (by simp)
  | cons a as ih =>
    rw [List.map_cons, List.mapM_cons, List.mapM_cons]
    exact bind_eq (h a (by simp)) fun b => bind_eq (ih fun c hc => h c (by simp [hc])) fun bs => pure rfl

end Follows

theorem liftM_bind (x : Except Error α) (f : α → Except Error β) :
    (liftM (x >>= f) : ConvertM β) = liftM x >>= fun a => liftM (f a) := by
  cases x <;> rfl

theorem liftM_mapM (f : α → Except Error β) (as : List α) :
    (liftM (as.mapM f) : ConvertM (List β)) = as.mapM fun a => liftM (f a) := by
  induction as with
  | nil => rfl
  | cons a as ih =>
    rw [List.mapM_cons, List.mapM_cons, liftM_bind]
    simp only [liftM_bind, ih]
    rfl

/-! ## Substitutes -/

/-- The operators in whose place a plan may call others from the beginning: those for which the conversion calls a
substitute anyway, and those without one, for which anything may be called. -/
def settled (library : Library) (other : Operator → Operator) (op : Operator) : Operator :=
  if op.kind == .otherFunction then
    match op.substitute library with
    | some written => { written with allowsFraming := op.allowsFraming }
    | none => { other op with kind := .otherFunction, allowsFraming := op.allowsFraming }
  else op

variable {library : Library} {other : Operator → Operator}

/-- A substitute of an otherwise unknown function is one too. -/
theorem kind_of_substitute {op written : Operator} (hkind : op.kind = .otherFunction)
    (h : op.substitute library = some written) : written.kind = .otherFunction := by
  have hcatalog : Operator.libraryOperators.all (fun op => op.group.isNone || op.kind == .otherFunction) = true := by
    decide +kernel
  obtain ⟨-, rfl | halternative⟩ := Operator.available_of_substitute h
  · exact hkind
  · unfold Operator.alternatives at halternative
    split at halternative
    · cases halternative
    · rename_i group _
      obtain ⟨hmem, hgroup⟩ := List.mem_filter.mp halternative
      have hone := List.all_eq_true.mp hcatalog written hmem
      simp only [Bool.and_eq_true, beq_iff_eq] at hgroup
      simpa [hgroup.1] using hone

@[simp]
theorem kind_settled (op : Operator) : (settled library other op).kind = op.kind := by
  unfold settled
  split
  · rename_i hkind
    have hkind : op.kind = .otherFunction := by simpa using hkind
    split
    · rename_i written hwritten
      exact (kind_of_substitute hkind hwritten).trans hkind.symm
    · exact hkind.symm
  · rfl

@[simp]
theorem allowsFraming_settled (op : Operator) : (settled library other op).allowsFraming = op.allowsFraming := by
  unfold settled
  split
  · split <;> rfl
  · rfl

theorem settled_of_kind {op : Operator} (h : op.kind ≠ .otherFunction) : settled library other op = op := by
  simp [settled, h]

/-- A function that has a substitute is called under its name, whichever of the two is asked for. -/
theorem substitute_settled {op written : Operator} (hkind : op.kind = .otherFunction)
    (h : op.substitute library = some written) :
    (settled library other op).substitute library = some { written with allowsFraming := op.allowsFraming } := by
  obtain ⟨havailable, -⟩ := Operator.available_of_substitute h
  have hsettled : settled library other op = { written with allowsFraming := op.allowsFraming } := by
    simp [settled, hkind, h]
  rw [hsettled, Operator.substitute]
  exact if_pos havailable

/-- **`Unsupported`** — the complaint about a function for which there is no substitute. -/
def Unsupported (d : Dialect) (p : Operator → Bool) (e : Error) : Prop :=
  ∃ op, p op = true ∧ op.substitute d.capabilities.library = none ∧ e = .unsupportedFunction op.name d.name

variable {env : Env} {p : Operator → Bool}

variable (other) in
/-- What is written for an operator and for the one in its place differs in nothing that is written. -/
theorem follows_availableFunction {d : Dialect} {op : Operator} (hop : p op = true) (hkind : op.kind = .otherFunction) :
    (∃ e, Unsupported d p e ∧ d.availableFunction op = .error e)
      ∨ ∃ written, d.availableFunction op = .ok written
        ∧ d.availableFunction (settled d.capabilities.library other op)
          = .ok { written with allowsFraming := op.allowsFraming } := by
  unfold Dialect.availableFunction
  cases h : op.substitute d.capabilities.library with
  | none => exact .inl ⟨_, ⟨op, hop, h, rfl⟩, rfl⟩
  | some written => exact .inr ⟨written, rfl, by rw [substitute_settled hkind h]⟩

/-- Operators that are written in the same way. -/
def SameCall (w w' : Operator) : Prop := ∃ framing, w' = { w with allowsFraming := framing }

theorem SameCall.refl (w : Operator) : SameCall w w := ⟨w.allowsFraming, rfl⟩

theorem follows_retarget {d : Dialect} {op : Operator} (hop : p op = true) (types : List DataType) :
    Follows (Unsupported d p) SameCall (liftM (d.retarget op types))
      (liftM (d.retarget (settled d.capabilities.library other op) types)) := by
  by_cases hkind : op.kind = .otherFunction
  · have hfirst : d.retarget op types = d.availableFunction op := by simp [Dialect.retarget, hkind]
    have hsecond : d.retarget (settled d.capabilities.library other op) types
        = d.availableFunction (settled d.capabilities.library other op) := by
      simp [Dialect.retarget, hkind]
    rw [hfirst, hsecond]
    refine .lift ?_
    rcases follows_availableFunction other hop hkind with hfails | ⟨written, hw, hw'⟩
    · exact .inl hfails
    · exact .inr (.inr ⟨written, _, ⟨op.allowsFraming, rfl⟩, hw, hw'⟩)
  · rw [settled_of_kind hkind]
    refine .lift ?_
    cases h : d.retarget op types with
    | error e => exact .inr (.inl ⟨e, rfl, rfl⟩)
    | ok w => exact .inr (.inr ⟨w, w, .refl w, rfl, rfl⟩)

theorem operationNode_sameCall {w w' : Operator} (h : SameCall w w') (ns : List Node) :
    operationNode w' ns = operationNode w ns := by
  obtain ⟨framing, rfl⟩ := h
  rfl

theorem windowedNode_sameCall {w w' : Operator} (h : SameCall w w') (args : List Node) (distinct : Bool)
    (parts : WindowParts) : windowedNode w' args distinct parts = windowedNode w args distinct parts := by
  obtain ⟨framing, rfl⟩ := h
  rfl

/-! ## Expressions -/

section Scalars

variable {sub sub' : Rel → ConvertM Node}

/-- Sub-queries are converted in step. -/
abbrev FollowsQueries (d : Dialect) (p : Operator → Bool) (other : Operator → Operator) (sub sub' : Rel → ConvertM Node) :
    Prop :=
  ∀ rel, rel.satisfies (operatorsAre p) = true →
    Follows (Unsupported d p) Eq (sub rel) (sub' (rel.mapOperators (settled d.capabilities.library other)))

/-- The operators in place of those of a plan. -/
abbrev settledIn (env : Env) (other : Operator → Operator) : Operator → Operator :=
  settled env.dialect.capabilities.library other

theorem operator?_mapOperators (e : Expr) :
    ((e.mapOperators (settledIn env other)).operator?.map (·.kind)) = e.operator?.map (·.kind) := by
  cases e <;> simp [Scalar.mapOperators, Scalar.operator?]

theorem isCast_mapOperators (e : Expr) : (e.mapOperators (settledIn env other)).isCast = e.isCast := by
  cases e <;> simp [Scalar.mapOperators, Scalar.isCast]

theorem coerces_mapOperators (d : Dialect) (es : List Expr) :
    d.coerces (es.map (·.mapOperators (settledIn env other))) = d.coerces es := by
  cases es <;> simp [Dialect.coerces]

theorem isDroppable_mapOperators (d : Dialect) (e : Expr) :
    isDroppable d (e.mapOperators (settledIn env other)) = isDroppable d e := by
  cases e <;> simp [isDroppable, Scalar.mapOperators, Scalar.mapOperatorsOf_eq, coerces_mapOperators]

theorem castSide_mapOperators (d : Dialect) (kind : OperatorKind) (es : List Expr) :
    castSide d kind (es.map (·.mapOperators (settledIn env other))) = castSide d kind es := by
  rcases es with _ | ⟨left, _ | ⟨right, rest⟩⟩
  · rfl
  · rfl
  · simp [castSide, isCast_mapOperators, isDroppable_mapOperators]

/-- The second operand of a search is a constant. -/
theorem searchArgument_mapOperators (es : List Expr) :
    searchArgument (es.map (·.mapOperators (settledIn env other))) = searchArgument es := by
  rcases es with _ | ⟨left, _ | ⟨right, rest⟩⟩
  · rfl
  · rfl
  · cases right with
    | literal l =>
      obtain ⟨value, type⟩ := l
      cases value <;> rfl
    | _ => rfl

theorem cursorNode_mapOperators (ctx : Context) (e : Expr) :
    cursorNode env ctx (e.mapOperators (settledIn env other)) = cursorNode env ctx e := by
  cases e <;> rfl

theorem quantifierNode_mapOperators (n : Node) (es : List Expr) :
    quantifierNode n (es.map (·.mapOperators (settledIn env other))) = quantifierNode n es := by
  have hcount : ∀ e : Option Expr, countOf (e.map (·.mapOperators (settledIn env other))) = countOf e := by
    intro e
    rcases e with _ | e
    · rfl
    · cases e <;> rfl
  have hthird : ∀ e : Option Expr, (e.map (·.mapOperators (settledIn env other))).any (·.isLiteralTrue)
      = e.any (·.isLiteralTrue) := by
    intro e
    cases e <;> simp
  rw [quantifierNode, quantifierNode, ← List.map_drop, ← List.map_drop, List.head?_map, List.head?_map, List.head?_map,
    hcount, hcount, hthird]

theorem follows_windowedOperator {op : Operator} (hop : p op = true) (es : List Expr) :
    Follows (Unsupported env.dialect p) SameCall (liftM (windowedOperator env.dialect op es))
      (liftM (windowedOperator env.dialect (settledIn env other op)
        (es.map (·.mapOperators (settledIn env other))))) := by
  unfold windowedOperator
  simp only [kind_settled, List.map_map, Function.comp_def, Scalar.type_mapOperators]
  split
  · exact follows_retarget hop _
  · rename_i hkind
    rw [settledIn, settled_of_kind (by simpa using hkind)]
    exact .pure (.refl op)

mutual

/-- **`scalarNode`** — an expression is converted in step with the one that calls the substitutes. -/
theorem follows_scalarNode (h : FollowsQueries env.dialect p other sub sub') (ctx : Context) (fields : Bool) :
    ∀ e : Expr, e.satisfies (operatorsAre p) fields = true →
      Follows (Unsupported env.dialect p) Eq (scalarNode env sub ctx e)
        (scalarNode env sub' ctx (e.mapOperators (settledIn env other)))
  | .inputRef i t, _ => by
    rw [Scalar.mapOperators, scalarNode, scalarNode]
    exact .refl _
  | .localRef i shared t, he => by
    simp only [Scalar.satisfies, Bool.and_eq_true] at he
    rw [Scalar.mapOperators, scalarNode, scalarNode]
    cases i.nat? with
    | none => exact .throw _
    | some n => exact follows_scalarNodeAt h ctx fields i n shared he.2
  | .literal l, _ => by
    rw [Scalar.mapOperators, scalarNode, scalarNode]
    exact .refl _
  | .call op operands t, he => by
    have hop : p op = true := (Bool.and_eq_true_iff.mp he).1
    have hall : Scalar.allSatisfy (operatorsAre p) fields operands = true := (Bool.and_eq_true_iff.mp he).2
    have hoperands := follows_scalarNodes h ctx fields operands hall
    rw [Scalar.mapOperators, scalarNode.eq_def env sub ctx (.call op operands t), scalarNode.eq_def env sub' ctx (.call _ _ t)]
    simp only [kind_settled]
    split
    · exact .bind_eq hoperands fun ns => .refl _
    · exact .bind_eq hoperands fun ns => .refl _
    · rcases operands with _ | ⟨operand, rest⟩
      · exact .throw _
      · simp only [Scalar.allSatisfy, Bool.and_eq_true] at hall
        have hdefault : Follows (Unsupported env.dialect p) Eq
            (do
              let n ← scalarNode env sub ctx operand
              return deny (operand.operator?.map (·.kind)) n)
            (do
              let n ← scalarNode env sub' ctx (operand.mapOperators (settledIn env other))
              return deny ((operand.mapOperators (settledIn env other)).operator?.map (·.kind)) n) :=
          .bind_eq (follows_scalarNode h ctx fields operand hall.1) fun n => .of_eq (by rw [operator?_mapOperators])
        cases operand with
        | call inner es u =>
          rcases es with _ | ⟨e, es⟩
          · exact hdefault
          · have hinner := hall.1
            simp only [Scalar.satisfies, Scalar.allSatisfy, Bool.and_eq_true] at hinner
            simp only [Scalar.mapOperatorsOf, Scalar.mapOperators, kind_settled]
            split
            · exact follows_scalarNode h ctx fields e hinner.2.1
            · exact .bind_eq (follows_scalarNode h ctx fields (.call inner (e :: es) u) hall.1) fun n => .refl _
        | _ => exact hdefault
    · exact .bind_eq hoperands fun ns => .refl _
    · rw [Scalar.mapOperatorsOf_eq, searchArgument_mapOperators]
      refine .bind_eq (.refl _) fun sarg => ?_
      rcases operands with _ | ⟨operand, rest⟩
      · exact .throw _
      · simp only [Scalar.allSatisfy, Bool.and_eq_true] at hall
        exact .bind_eq (follows_scalarNode h ctx fields operand hall.1) fun n => .refl _
    · rcases operands with _ | ⟨operand, rest⟩
      · exact .throw _
      · simp only [Scalar.allSatisfy, Bool.and_eq_true] at hall
        simp only [Scalar.mapOperatorsOf, cursorNode_mapOperators]
        split
        · exact .refl _
        · exact .bind_eq (follows_scalarNode h ctx fields operand hall.1) fun n => .refl _
    · exact .bind_eq hoperands fun ns => .refl _
    · exact .bind_eq hoperands fun ns => .refl _
    · rcases operands with _ | ⟨pattern, bounds⟩
      · exact .throw _
      · simp only [Scalar.allSatisfy, Bool.and_eq_true] at hall
        simp only [Scalar.mapOperatorsOf, Scalar.mapOperatorsOf_eq, quantifierNode_mapOperators]
        exact .bind_eq (follows_scalarNode h ctx fields pattern hall.1) fun n => .refl _
    · -- the operands of any other call, without a conversion that the dialect makes by itself
      have hcall : ∀ ns, Follows (Unsupported env.dialect p) Eq
          (do
            let written ← env.dialect.retarget op (operands.map (·.type))
            operationNode written ns)
          (do
            let written ← env.dialect.retarget (settledIn env other op)
              ((Scalar.mapOperatorsOf (settledIn env other) operands).map (·.type))
            operationNode written ns) := by
        intro ns
        simp only [Scalar.mapOperatorsOf_eq, List.map_map, Function.comp_def, Scalar.type_mapOperators]
        refine .bind (follows_retarget hop _) fun w w' hw => ?_
        rw [operationNode_sameCall hw]
        exact .refl _
      have hside : castSide env.dialect op.kind (Scalar.mapOperatorsOf (settledIn env other) operands)
          = castSide env.dialect op.kind operands := by
        rw [Scalar.mapOperatorsOf_eq, castSide_mapOperators]
      have hdefault := Follows.bind_eq hoperands hcall
      rw [hside]
      rcases operands with _ | ⟨left, _ | ⟨right, rest⟩⟩
      · exact hdefault
      · exact hdefault
      · simp only [Scalar.allSatisfy, Bool.and_eq_true] at hall
        obtain ⟨hleft, hright, -⟩ := hall
        cases castSide env.dialect op.kind (left :: right :: rest) with
        | neither => exact hdefault
        | left =>
          cases left with
          | call op' es u =>
            rcases es with _ | ⟨inner, es⟩
            · exact hdefault
            · simp only [Scalar.satisfies, Scalar.allSatisfy, Bool.and_eq_true] at hleft
              refine .bind_eq (follows_scalarNode h ctx fields inner hleft.2.1) fun l => ?_
              refine .bind_eq (follows_scalarNode h ctx fields right hright) fun r => ?_
              exact .bind_eq (.refl _) hcall
          | _ => exact hdefault
        | right =>
          cases right with
          | call op' es u =>
            rcases es with _ | ⟨inner, es⟩
            · exact hdefault
            · simp only [Scalar.satisfies, Scalar.allSatisfy, Bool.and_eq_true] at hright
              refine .bind_eq (follows_scalarNode h ctx fields left hleft) fun l => ?_
              refine .bind_eq (follows_scalarNode h ctx fields inner hright.2.1) fun r => ?_
              exact .bind_eq (.refl _) hcall
          | _ => exact hdefault
  | .overWindow op operands ⟨partition, order, frame⟩ distinct t, he => by
    simp only [Scalar.satisfies, Scalar.windowSatisfies, Bool.and_eq_true] at he
    obtain ⟨⟨hop, hoperands⟩, ⟨hpartition, horder⟩, hframe⟩ := he
    have hop : p op = true := hop
    rw [Scalar.mapOperators, Scalar.mapOperatorsOfWindow, scalarNode, scalarNode]
    refine .bind_eq (follows_scalarNodes h ctx fields partition hpartition) fun ps => ?_
    refine .bind_eq (follows_sortKeyNodes h ctx fields order horder) fun os => ?_
    rw [Scalar.mapOperatorsOf_eq operands]
    refine .bind (follows_windowedOperator hop operands) fun w w' hw => ?_
    rw [← Scalar.mapOperatorsOf_eq operands]
    refine .bind_eq (follows_scalarNodes h ctx fields operands hoperands) fun as => ?_
    rw [allowsFraming_settled]
    split
    · refine .bind_eq (follows_frameNodeOf h ctx fields frame hframe) fun f => .of_eq ?_
      simp only [windowedNode_sameCall hw]
    · refine .bind_eq (.refl _) fun f => .of_eq ?_
      simp only [windowedNode_sameCall hw]
  | .fieldAccess row field i t, he => by
    simp only [Scalar.satisfies, Bool.and_eq_true] at he
    by_cases hrow : ∃ id u, row = .correlation id u
    · obtain ⟨id, u, rfl⟩ := hrow
      rw [Scalar.mapOperators, Scalar.mapOperators, scalarNode, scalarNode]
      exact .refl _
    · have hother : ∀ id u, row.mapOperators (settledIn env other) = .correlation id u → False := by
        intro id u heq
        cases row <;> simp_all [Scalar.mapOperators]
      rw [Scalar.mapOperators, scalarNode, scalarNode]
      · exact .bind_eq (follows_scalarNode h ctx fields row he.2) fun n => .refl _
      · exact hother
      · exact fun id u heq => hrow ⟨id, u, heq⟩
  | .correlation id t, _ => by
    rw [Scalar.mapOperators, scalarNode, scalarNode]
    exact .throw _
  | .subQuery op operands relation t, he => by
    simp only [Scalar.satisfies, Bool.and_eq_true] at he
    obtain ⟨⟨-, hoperands⟩, hrelation⟩ := he
    rw [Scalar.mapOperators, scalarNode, scalarNode]
    refine .bind_eq (h relation hrelation) fun query => ?_
    split
    · rcases operands with _ | ⟨only, _ | ⟨second, rest⟩⟩
      · exact .refl _
      · simp only [Scalar.allSatisfy, Bool.and_eq_true] at hoperands
        exact .bind_eq (follows_scalarNode h ctx fields only hoperands.1) fun n => .refl _
      · exact .bind_eq (follows_scalarNodes h ctx fields _ hoperands) fun ns => .refl _
    · exact .refl _
  | .parameter i t, _ => by
    rw [Scalar.mapOperators, scalarNode, scalarNode]
    exact .refl _
  | .patternField symbol i t, _ => by
    rw [Scalar.mapOperators, scalarNode, scalarNode]
    exact .refl _

/-- Several expressions are converted in step. -/
theorem follows_scalarNodes (h : FollowsQueries env.dialect p other sub sub') (ctx : Context) (fields : Bool) :
    ∀ es : List Expr, Scalar.allSatisfy (operatorsAre p) fields es = true →
      Follows (Unsupported env.dialect p) Eq (scalarNodes env sub ctx es)
        (scalarNodes env sub' ctx (Scalar.mapOperatorsOf (settledIn env other) es))
  | [], _ => by
    rw [Scalar.mapOperatorsOf, scalarNodes, scalarNodes]
    exact .refl _
  | e :: es, he => by
    simp only [Scalar.allSatisfy, Bool.and_eq_true] at he
    rw [Scalar.mapOperatorsOf, scalarNodes, scalarNodes]
    refine .bind_eq (follows_scalarNode h ctx fields e he.1) fun n => ?_
    exact .bind_eq (follows_scalarNodes h ctx fields es he.2) fun ns => .refl _

/-- An entry of a shared list is converted in step. -/
theorem follows_scalarNodeAt (h : FollowsQueries env.dialect p other sub sub') (ctx : Context) (fields : Bool)
    (index : Ordinal) (n : Nat) :
    ∀ es : List Expr, Scalar.allSatisfy (operatorsAre p) fields es = true →
      Follows (Unsupported env.dialect p) Eq (scalarNodeAt env sub ctx index n es)
        (scalarNodeAt env sub' ctx index n (Scalar.mapOperatorsOf (settledIn env other) es))
  | [], _ => by
    rw [Scalar.mapOperatorsOf, scalarNodeAt, scalarNodeAt]
    exact .throw _
  | e :: es, he => by
    simp only [Scalar.allSatisfy, Bool.and_eq_true] at he
    rw [Scalar.mapOperatorsOf, scalarNodeAt, scalarNodeAt]
    split
    · exact follows_scalarNode h ctx fields e he.1
    · exact follows_scalarNodeAt h ctx fields index (n - 1) es he.2

/-- The sort keys of a window are converted in step. -/
theorem follows_sortKeyNodes (h : FollowsQueries env.dialect p other sub sub') (ctx : Context) (fields : Bool) :
    ∀ ks : List (SortKey Expr), Scalar.keysSatisfy (operatorsAre p) fields ks = true →
      Follows (Unsupported env.dialect p) Eq (sortKeyNodes env sub ctx ks)
        (sortKeyNodes env sub' ctx (Scalar.mapOperatorsOfKeys (settledIn env other) ks))
  | [], _ => by
    rw [Scalar.mapOperatorsOfKeys, sortKeyNodes, sortKeyNodes]
    exact .refl _
  | ⟨e, direction, nulls⟩ :: ks, he => by
    simp only [Scalar.keysSatisfy, Bool.and_eq_true] at he
    rw [Scalar.mapOperatorsOfKeys, sortKeyNodes, sortKeyNodes]
    refine .bind_eq (follows_scalarNode h ctx fields e he.1) fun n => ?_
    exact .bind_eq (follows_sortKeyNodes h ctx fields ks he.2) fun ns => .refl _

/-- The offset of a frame's end is converted in step. -/
theorem follows_boundOf (h : FollowsQueries env.dialect p other sub sub') (ctx : Context) (fields : Bool) :
    ∀ b : Bound Expr, Scalar.boundSatisfies (operatorsAre p) fields (some b) = true →
      ∃ b', Scalar.mapOperatorsOfBound (settledIn env other) (some b) = some b'
        ∧ Follows (Unsupported env.dialect p) Eq (boundOf env sub ctx b) (boundOf env sub' ctx b')
  | .unboundedPreceding, _ | .unboundedFollowing, _ | .currentRow, _ => by
    refine ⟨_, rfl, ?_⟩
    rw [boundOf, boundOf]
    exact .refl _
  | .preceding e, he | .following e, he => by
    refine ⟨_, rfl, ?_⟩
    rw [boundOf, boundOf]
    exact .bind_eq (follows_scalarNode h ctx fields e he) fun n => .refl _

/-- The frame of a window is converted in step. -/
theorem follows_frameNodeOf (h : FollowsQueries env.dialect p other sub sub') (ctx : Context) (fields : Bool) :
    ∀ f : Frame Expr, Scalar.frameSatisfies (operatorsAre p) fields f = true →
      Follows (Unsupported env.dialect p) Eq (frameNodeOf env sub ctx f)
        (frameNodeOf env sub' ctx (Scalar.mapOperatorsOfFrame (settledIn env other) f))
  | ⟨rows, none, stop⟩, _ => by
    rw [Scalar.mapOperatorsOfFrame, Scalar.mapOperatorsOfBound, frameNodeOf, frameNodeOf]
    exact .refl _
  | ⟨rows, some start, none⟩, he => by
    simp only [Scalar.frameSatisfies, Bool.and_eq_true] at he
    obtain ⟨start', hstart', hfollows⟩ := follows_boundOf h ctx fields start he.1
    rw [Scalar.mapOperatorsOfFrame, hstart', Scalar.mapOperatorsOfBound, frameNodeOf, frameNodeOf]
    exact .bind_eq hfollows fun b => .refl _
  | ⟨rows, some start, some stop⟩, he => by
    simp only [Scalar.frameSatisfies, Bool.and_eq_true] at he
    obtain ⟨start', hstart', hstart⟩ := follows_boundOf h ctx fields start he.1
    obtain ⟨stop', hstop', hstop⟩ := follows_boundOf h ctx fields stop he.2
    rw [Scalar.mapOperatorsOfFrame, hstart', hstop', frameNodeOf, frameNodeOf]
    exact .bind_eq hstart fun b => .bind_eq hstop fun c => .refl _

end

/-! ## Join conditions -/

theorem withoutCast_mapOperators (d : Dialect) (op : Operator) (es : List Expr) :
    withoutCast d op (es.map (·.mapOperators (settledIn env other)))
      = (withoutCast d op es).map (·.mapOperators (settledIn env other)) := by
  unfold withoutCast
  rw [castSide_mapOperators]
  rcases es with _ | ⟨left, _ | ⟨right, rest⟩⟩
  · rfl
  · rfl
  · cases castSide d op.kind (left :: right :: rest) with
    | neither => rfl
    | left =>
      cases left with
      | call op' es u => cases es <;> rfl
      | _ => rfl
    | right =>
      cases right with
      | call op' es u => cases es <;> rfl
      | _ => rfl

/-- Comparisons are called as they are. -/
theorem leftFirst_mapOperators (width : Nat) {op : Operator} (hop : isFieldComparison op.kind = true) (es : List Expr)
    (t : DataType) : (leftFirst width op es t).mapOperators (settledIn env other)
      = leftFirst width op (es.map (·.mapOperators (settledIn env other))) t := by
  have hself : settledIn env other op = op := settled_of_kind (by rintro h; rw [h] at hop; cases hop)
  have hreversed : settledIn env other op.reversed = op.reversed := by
    unfold Operator.reversed
    split
    all_goals first
      | exact hself
      | exact settled_of_kind (by simp [Operator.lessThan, Operator.lessThanOrEqual, Operator.greaterThan,
          Operator.greaterThanOrEqual])
  have hplain : (Scalar.call op es t : Expr).mapOperators (settledIn env other)
      = .call op (es.map (·.mapOperators (settledIn env other))) t := by
    rw [Scalar.mapOperators, Scalar.mapOperatorsOf_eq, hself]
  unfold leftFirst
  rcases es with _ | ⟨left, _ | ⟨right, _ | ⟨third, rest⟩⟩⟩
  · exact hplain
  · cases left <;> exact hplain
  · cases left with
    | inputRef a s =>
      cases right with
      | inputRef b u =>
        simp only [List.map_cons, List.map_nil, Scalar.mapOperators]
        split
        · simp only [Scalar.mapOperators, Scalar.mapOperatorsOf, hreversed]
        · exact hplain
      | _ => exact hplain
    | _ => exact hplain
  · cases left with
    | inputRef a s => cases right <;> exact hplain
    | _ => exact hplain

mutual

/-- **`conditionNode`** — a join condition is converted in step. -/
theorem follows_conditionNode (hp : Decided env.dialect p) (h : FollowsQueries env.dialect p other sub sub')
    (left right : Context) :
    ∀ e : Expr, e.satisfies (operatorsAre p) true = true →
      Follows (Unsupported env.dialect p) Eq (conditionNode env sub left right e)
        (conditionNode env sub' left right (e.mapOperators (settledIn env other)))
  | .literal l, he => by
    rw [Scalar.mapOperators, conditionNode.eq_def env sub, conditionNode.eq_def env sub']
    simp only
    split
    · exact .refl _
    · exact follows_scalarNode h _ true (.literal l) he
  | .call op operands t, he => by
    have hoperands : Scalar.allSatisfy (operatorsAre p) true operands = true := (Bool.and_eq_true_iff.mp he).2
    rw [Scalar.mapOperators, conditionNode.eq_def env sub, conditionNode.eq_def env sub']
    simp only [kind_settled]
    split
    · exact .bind_eq (follows_conditionNodes hp h left right operands hoperands) fun ns => .refl _
    · split
      · exact .bind_eq (follows_conditionNodes hp h left right operands hoperands) fun ns => .refl _
      · split
        · rename_i hcomparison
          have hself : settledIn env other op = op :=
            settled_of_kind (by rintro h; rw [h] at hcomparison; cases hcomparison)
          have hfollows := follows_scalarNode h (.join left right) true _ (hp.turning he hcomparison left.fieldCount)
          rw [leftFirst_mapOperators _ hcomparison, ← withoutCast_mapOperators, ← Scalar.mapOperatorsOf_eq] at hfollows
          rwa [hself]
        · exact follows_scalarNode h _ true (.call op operands t) he
  | .inputRef i t, he => follows_scalarNode h _ true _ he
  | .localRef i shared t, he => follows_scalarNode h _ true _ he
  | .overWindow op es window distinct t, he => follows_scalarNode h _ true _ he
  | .fieldAccess row field i t, he => follows_scalarNode h _ true _ he
  | .correlation id t, he => follows_scalarNode h _ true _ he
  | .subQuery op es relation t, he => follows_scalarNode h _ true _ he
  | .parameter i t, he => follows_scalarNode h _ true _ he
  | .patternField symbol i t, he => follows_scalarNode h _ true _ he

/-- Several join conditions are converted in step. -/
theorem follows_conditionNodes (hp : Decided env.dialect p) (h : FollowsQueries env.dialect p other sub sub')
    (left right : Context) :
    ∀ es : List Expr, Scalar.allSatisfy (operatorsAre p) true es = true →
      Follows (Unsupported env.dialect p) Eq (conditionNodes env sub left right es)
        (conditionNodes env sub' left right (Scalar.mapOperatorsOf (settledIn env other) es))
  | [], _ => by
    rw [Scalar.mapOperatorsOf, conditionNodes, conditionNodes]
    exact .refl _
  | e :: es, he => by
    simp only [Scalar.allSatisfy, Bool.and_eq_true] at he
    rw [Scalar.mapOperatorsOf, conditionNodes, conditionNodes]
    refine .bind_eq (follows_conditionNode hp h left right e he.1) fun n => ?_
    exact .bind_eq (follows_conditionNodes hp h left right es he.2) fun ns => .refl _

end

/-! ## Window groups and aggregates -/

/-- A window group is converted in step. -/
theorem follows_windowGroupNodes (h : FollowsQueries env.dialect p other sub sub') (ctx : Context)
    (constants : List Literal) (width : Ordinal) {group : WindowGroup Expr}
    (hops : ∀ c ∈ group.calls, p c.op = true)
    (hframe : Scalar.frameSatisfies (operatorsAre p) true group.frame = true)
    (hcalls : ∀ c ∈ group.calls, ∀ e ∈ c.operands, e.satisfies (operatorsAre p) true = true) :
    Follows (Unsupported env.dialect p) Eq (windowGroupNodes env sub ctx constants width group)
      (windowGroupNodes env sub' ctx constants width
        { group with
          frame := Scalar.mapOperatorsOfFrame (settledIn env other) group.frame
          calls := Scalar.mapOperatorsOfCalls (settledIn env other) group.calls }) := by
  unfold windowGroupNodes
  refine .bind_eq (.refl _) fun partition => .bind_eq (.refl _) fun order => ?_
  simp only [Scalar.mapOperatorsOfCalls_eq]
  refine .mapM fun c hc => ?_
  unfold windowCallNode
  simp only [Scalar.mapOperatorsOf_eq, allowsFraming_settled]
  refine .bind (follows_windowedOperator (hops c hc) c.operands) fun w w' hw => ?_
  refine .bind_eq (.mapM fun e he => ?_) fun args => ?_
  · unfold windowOperand
    have hresolve : resolveConstant constants width (e.mapOperators (settledIn env other))
        = (resolveConstant constants width e).map (·.mapOperators (settledIn env other)) := by
      cases e with
      | inputRef i t =>
        simp only [Scalar.mapOperators, resolveConstant]
        split
        · rfl
        · split <;> rfl
      | _ => rfl
    rw [hresolve]
    cases hresolved : resolveConstant constants width e with
    | error e => exact .throw _
    | ok operand =>
      refine follows_scalarNode h ctx true operand ?_
      unfold resolveConstant at hresolved
      split at hresolved
      · split at hresolved
        · cases hresolved
          exact hcalls c hc _ he
        · split at hresolved <;> cases hresolved
          rfl
      · cases hresolved
        exact hcalls c hc _ he
  · split
    · exact .bind_eq (follows_frameNodeOf h ctx true group.frame hframe) fun f => .of_eq (by
        simp only [windowedNode_sameCall hw])
    · exact .bind_eq (.refl _) fun f => .of_eq (by simp only [windowedNode_sameCall hw])

/-- An aggregate call is converted in step. -/
theorem follows_aggregateNode (ctx : Context) {call : AggregateCall} (hop : p call.op = true) :
    Follows (Unsupported env.dialect p) Eq (liftM (aggregateNode env ctx call))
      (liftM (aggregateNode env ctx { call with op := settledIn env other call.op })) := by
  by_cases hkind : call.op.kind = .otherFunction
  · have hname : Follows (Unsupported env.dialect p) Eq (liftM (aggregateName env.dialect call.op))
        (liftM (aggregateName env.dialect (settledIn env other call.op))) := by
      refine .lift ?_
      simp only [aggregateName, kind_settled, hkind, beq_self_eq_true, if_true]
      rcases follows_availableFunction other hop hkind with ⟨e, he, hfails⟩ | ⟨w, hw, hw'⟩
      · exact .inl ⟨e, he, by rw [hfails]; rfl⟩
      · exact .inr (.inr ⟨w.name, w.name, rfl, by rw [hw]; rfl, by rw [hw']; rfl⟩)
    have hplain : ∀ args, Follows (Unsupported env.dialect p) Eq
        (liftM (plainAggregate env ctx call.op call.distinct args call.filter call.collation))
        (liftM (plainAggregate env ctx (settledIn env other call.op) call.distinct args call.filter call.collation)) := by
      intro args
      unfold plainAggregate
      cases call.filter with
      | none =>
        simp only [pure_bind, liftM_bind, aggregateArgs, kind_settled]
        exact .bind_eq hname fun name => .refl _
      | some i =>
        by_cases hplace : env.dialect.capabilities.aggregateFilter = true
        · simp only [hplace, if_true, pure_bind, liftM_bind, aggregateArgs, kind_settled]
          exact .bind_eq hname fun name => .refl _
        · simp only [hplace, Bool.false_eq_true, if_false, pure_bind, liftM_bind, aggregateArgs, kind_settled]
          exact .bind_eq (.refl _) fun condition => .bind_eq hname fun name => .refl _
    have hzero : (OperatorKind.otherFunction == .sumOrZero) = false := rfl
    simp only [aggregateNode, kind_settled, hkind, liftM_bind, hzero, Bool.false_eq_true, if_false]
    exact .bind_eq (.refl _) hplain
  · rw [settledIn, settled_of_kind hkind]
    exact .refl _

end Scalars

end AlgebraSql.Convert
