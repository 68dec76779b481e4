import AlgebraSql.Proofs.Convertible
import AlgebraSql.Proofs.Parts
import AlgebraSql.Proofs.SubQueries

/-!
# Constants of window groups — positions behind the fields of the input.

The constants of a window group are like further fields: a position behind the fields of the input stands for a
constant.  An operand that is such a position is converted as the constant.  Positions inside an operand or in the
offset of a frame are looked up among the fields of the input alone, and fail.
-/

namespace AlgebraSql.Convert

open Sql Node Scalar

variable {env : Env} {sub : Rel → ConvertM Node} {ctx ctx' : Context} {A : Expr → Prop}

/-! ## One expression in two contexts -/

/-- **`Interchangeable`** — two contexts have the same for all that the expressions of a class read in them. -/
structure Interchangeable (env : Env) (ctx ctx' : Context) (A : Expr → Prop) : Prop where
  closed : PartClosed A
  field : ∀ {i t}, A (.inputRef i t) → ctx.field env i = ctx'.field env i
  patternField : ∀ {v i t}, A (.patternField v i t) → ctx.field env i = ctx'.field env i
  literal : ∀ l, literalIn env ctx l = literalIn env ctx' l

mutual

/-- **`scalarNode`** — an expression is converted alike in interchangeable contexts. -/
theorem scalarNode_interchange (h : Interchangeable env ctx ctx' A) :
    ∀ e : Expr, A e → scalarNode env sub ctx e = scalarNode env sub ctx' e
  | .inputRef i t, he => by rw [scalarNode, scalarNode, h.field he]
  | .localRef i shared t, he => by
    rw [scalarNode, scalarNode]
    split
    · refine scalarNodeAt_interchange h i _ shared fun e hmem => h.closed _ he e ?_
      simp [Scalar.immediate, nth?, *]
    · rfl
  | .literal l, _ => by rw [scalarNode, scalarNode, h.literal]
  | .call op es t, he => by
    have hes : ∀ e ∈ es, A e := h.closed _ he
    have hoperands := scalarNodes_interchange h es hes
    rw [scalarNode.eq_def, scalarNode.eq_def]
    simp only [hoperands]
    split
    · rfl
    · rfl
    · -- a denial of a denial is what it denies twice
      split
      · rfl
      · rename_i inner e more u rest
        have hinner := hes (.call inner (e :: more) u) (by simp)
        rw [scalarNode_interchange h (.call inner (e :: more) u) hinner,
          scalarNode_interchange h e (h.closed _ hinner e (by simp [Scalar.immediate]))]
      · rename_i operand rest _
        rw [scalarNode_interchange h operand (hes operand (by simp))]
    · rfl
    · congr 1
      funext sarg
      split
      · rename_i operand rest
        rw [scalarNode_interchange h operand (hes operand (by simp))]
      · rfl
    · split
      · rfl
      · rename_i operand rest
        have hoperand := hes operand (by simp)
        rw [scalarNode_interchange h operand hoperand]
        have hcursor : cursorNode env ctx operand = cursorNode env ctx' operand := by
          unfold cursorNode
          split
          · rw [h.field hoperand]
          · rfl
        rw [hcursor]
    · rfl
    · rfl
    · split
      · rfl
      · rename_i pattern bounds
        rw [scalarNode_interchange h pattern (hes pattern (by simp))]
    · -- the operands of any other call, without a conversion that the dialect makes by itself
      split
      · rename_i op' inner tail u right more _
        have hinner := h.closed _ (hes (.call op' (inner :: tail) u) (by simp)) inner (by simp [Scalar.immediate])
        rw [scalarNode_interchange h inner hinner, scalarNode_interchange h right (hes right (by simp))]
      · rename_i left op' inner tail u more _
        have hinner := h.closed _ (hes (.call op' (inner :: tail) u) (by simp)) inner (by simp [Scalar.immediate])
        rw [scalarNode_interchange h inner hinner, scalarNode_interchange h left (hes left (by simp))]
      · rw [hoperands]
  | .overWindow op es ⟨partition, order, frame⟩ distinct t, he => by
    have hes : ∀ e ∈ es, A e := fun e hmem => h.closed _ he e (by simp [Scalar.immediate, hmem])
    have hpartition : ∀ e ∈ partition, A e := fun e hmem =>
      h.closed _ he e (by simp [Scalar.immediate, windowExprs, hmem])
    have horder : ∀ k ∈ order, A k.key := fun k hmem => h.closed _ he k.key (by
      simpa [Scalar.immediate, windowExprs] using .inr (.inr (.inl ⟨k, hmem, rfl⟩)))
    have hframe : ∀ e ∈ frameExprs frame, A e := fun e hmem =>
      h.closed _ he e (by simp [Scalar.immediate, windowExprs, hmem])
    rw [scalarNode, scalarNode, scalarNodes_interchange h partition hpartition, sortKeyNodes_interchange h order horder,
      scalarNodes_interchange h es hes, frameNodeOf_interchange h frame hframe]
  | .fieldAccess row field i t, he => by
    rw [scalarNode.eq_def, scalarNode.eq_def]
    split
    any_goals contradiction
    · rfl
    · rename_i row' field' i' t' _ heq
      cases heq
      rw [scalarNode_interchange h row (h.closed _ he row (by simp [Scalar.immediate]))]
  | .correlation id t, _ => by rw [scalarNode, scalarNode]
  | .subQuery op es relation t, he => by
    have hes : ∀ e ∈ es, A e := h.closed _ he
    rw [scalarNode, scalarNode]
    congr 1
    funext query
    split
    · split
      · rename_i only
        rw [scalarNode_interchange h only (hes only (by simp))]
      · rw [scalarNodes_interchange h _ hes]
    · rfl
  | .parameter i t, _ => by rw [scalarNode, scalarNode]
  | .patternField v i t, he => by rw [scalarNode, scalarNode, patternFieldNode, patternFieldNode, h.patternField he]

theorem scalarNodes_interchange (h : Interchangeable env ctx ctx' A) :
    ∀ es : List Expr, (∀ e ∈ es, A e) → scalarNodes env sub ctx es = scalarNodes env sub ctx' es
  | [], _ => by rw [scalarNodes, scalarNodes]
  | e :: es, he => by
    rw [scalarNodes, scalarNodes, scalarNode_interchange h e (he e (by simp)),
      scalarNodes_interchange h es fun e hmem => he e (by simp [hmem])]

theorem scalarNodeAt_interchange (h : Interchangeable env ctx ctx' A) (index : Ordinal) (n : Nat) :
    ∀ es : List Expr, (∀ e, es[n]? = some e → A e) →
      scalarNodeAt env sub ctx index n es = scalarNodeAt env sub ctx' index n es
  | [], _ => by rw [scalarNodeAt, scalarNodeAt]
  | e :: es, he => by
    rw [scalarNodeAt, scalarNodeAt]
    cases n with
    | zero => simpa using scalarNode_interchange h e (he e rfl)
    | succ n => simpa using scalarNodeAt_interchange h index n es fun e hmem => he e (by simpa using hmem)

theorem sortKeyNodes_interchange (h : Interchangeable env ctx ctx' A) :
    ∀ ks : List (SortKey Expr), (∀ k ∈ ks, A k.key) → sortKeyNodes env sub ctx ks = sortKeyNodes env sub ctx' ks
  | [], _ => by rw [sortKeyNodes, sortKeyNodes]
  | ⟨e, direction, nulls⟩ :: ks, hk => by
    have he : A e := hk ⟨e, direction, nulls⟩ List.mem_cons_self
    rw [sortKeyNodes, sortKeyNodes, scalarNode_interchange h e he,
      sortKeyNodes_interchange h ks fun k hmem => hk k (by simp [hmem])]

theorem boundOf_interchange (h : Interchangeable env ctx ctx' A) :
    ∀ b : Bound Expr, (∀ e ∈ boundExprs (some b), A e) → boundOf env sub ctx b = boundOf env sub ctx' b
  | .unboundedPreceding, _ => by rw [boundOf, boundOf]
  | .unboundedFollowing, _ => by rw [boundOf, boundOf]
  | .currentRow, _ => by rw [boundOf, boundOf]
  | .preceding e, he => by rw [boundOf, boundOf, scalarNode_interchange h e (he e (by simp [boundExprs]))]
  | .following e, he => by rw [boundOf, boundOf, scalarNode_interchange h e (he e (by simp [boundExprs]))]

theorem frameNodeOf_interchange (h : Interchangeable env ctx ctx' A) :
    ∀ f : Frame Expr, (∀ e ∈ frameExprs f, A e) → frameNodeOf env sub ctx f = frameNodeOf env sub ctx' f
  | ⟨_, none, _⟩, _ => by rw [frameNodeOf, frameNodeOf]
  | ⟨_, some start, none⟩, hf => by
    rw [frameNodeOf, frameNodeOf, boundOf_interchange h start fun e he => hf e (by simp [frameExprs, he])]
  | ⟨_, some start, some stop⟩, hf => by
    rw [frameNodeOf, frameNodeOf, boundOf_interchange h start fun e he => hf e (by simp [frameExprs, he]),
      boundOf_interchange h stop fun e he => hf e (by simp [frameExprs, he])]

end

/-! ## Conversions that succeed -/

/-- **`Converts`** — from any memory the conversion gives a value. -/
def Converts {α : Type} (c : ConvertM α) : Prop := ∀ s, ∃ a s', c.Gives s a s'

namespace Converts

variable {α β : Type}

theorem pure (a : α) : Converts (Pure.pure a) := fun s => ⟨a, s, (ConvertM.gives_pure _ _ _ _).mpr ⟨rfl, rfl⟩⟩

theorem lift {x : Except Error α} {a : α} (h : x = .ok a) : Converts (liftM x) :=
  fun s => ⟨a, s, (ConvertM.gives_lift _ _ _ _).mpr ⟨h, rfl⟩⟩

theorem bind {c : ConvertM α} {f : α → ConvertM β} (hc : Converts c) (hf : ∀ a, Converts (f a)) :
    Converts (c >>= f) := by
  intro s
  obtain ⟨a, s', ha⟩ := hc s
  obtain ⟨b, s'', hb⟩ := hf a s'
  exact ⟨b, s'', (ConvertM.gives_bind _ _ _ _ _).mpr ⟨a, s', ha, hb⟩⟩

theorem mapM {f : α → ConvertM β} {as : List α} (h : ∀ a ∈ as, Converts (f a)) : Converts (as.mapM f) := by
  induction as with
  | nil => exact .pure []
  | cons a as ih =>
    rw [List.mapM_cons]
    refine .bind (h a List.mem_cons_self) fun b => ?_
    exact .bind (ih fun a ha => h a (List.mem_cons_of_mem _ ha)) fun bs => .pure _

end Converts

theorem scalarNodes_eq_mapM (ctx : Context) (es : List Expr) :
    scalarNodes env sub ctx es = es.mapM (scalarNode env sub ctx) := by
  induction es with
  | nil => rfl
  | cons e es ih => rw [scalarNodes, List.mapM_cons, ih]

/-- A frame is converted if the offsets of its ends are. -/
theorem converts_frameNodeOf {frame : Frame Expr} (h : ∀ e ∈ frameExprs frame, Converts (scalarNode env sub ctx e)) :
    Converts (frameNodeOf env sub ctx frame) := by
  have hbound : ∀ b : Bound Expr, (∀ e ∈ boundExprs (some b), Converts (scalarNode env sub ctx e)) →
      Converts (boundOf env sub ctx b) := by
    intro b hb
    cases b with
    | preceding e | following e =>
      rw [boundOf]
      exact .bind (hb e (by simp [boundExprs])) fun n => .pure _
    | _ =>
      rw [boundOf]
      exact .pure _
  obtain ⟨rows, lower, upper⟩ := frame
  cases lower with
  | none =>
    rw [frameNodeOf]
    exact .pure none
  | some start =>
    have hstart := hbound start fun e he => h e (by simp [frameExprs, he])
    cases upper with
    | none =>
      rw [frameNodeOf]
      exact .bind hstart fun a => .pure _
    | some stop =>
      rw [frameNodeOf]
      exact .bind hstart fun a => .bind (hbound stop fun e he => h e (by simp [frameExprs, he])) fun b => .pure _

/-! ## Fields and constants -/

/-- The fields of a context with constants behind them. -/
def Context.withConstants (ctx : Context) (constants : List Node) : Context := .join ctx (.tableFunction constants)

/-- Positions below the number of fields are fields. -/
theorem Context.field_withConstants_of_lt {constants : List Node} {i : Nat} (hi : i < ctx.fieldCount) :
    (ctx.withConstants constants).field env (i : Nat) = ctx.field env (i : Nat) := by
  simp [Context.withConstants, Context.field, hi]

/-- The positions behind them are constants. -/
theorem Context.field_withConstants_of_le {constants : List Node} {i : Nat} (hi : ctx.fieldCount ≤ i) {n : Node}
    (hn : constants[i - ctx.fieldCount]? = some n) : (ctx.withConstants constants).field env (i : Nat) = .ok n := by
  have hlength : i - ctx.fieldCount < constants.length := (List.getElem?_eq_some_iff.mp hn).1
  have hbelow : i < ctx.fieldCount + constants.length := by omega
  simp [Context.withConstants, Context.field, Context.fieldCount, Nat.not_lt.mpr hi, hbelow, hn]

/-- The expression is a position before a bound. -/
def isPosition (bound : Nat) : Expr → Bool
  | .inputRef i _ => i.nat?.any fun j => decide (j < bound)
  | _ => false

/-- What the part reads of a row is before a bound. -/
def readsBelow (bound : Nat) : Expr → Bool
  | .inputRef i _ => i.nat?.any fun j => decide (j < bound)
  | .patternField _ i _ => i.nat?.any fun j => decide (j < bound)
  | _ => true

/-- **`OverFields`** — an expression reads nothing of a row behind its fields. -/
def OverFields (width : Nat) (e : Expr) : Prop := ∀ p ∈ e.parts, readsBelow width p = true

instance (width : Nat) (e : Expr) : Decidable (OverFields width e) := inferInstanceAs (Decidable (∀ p ∈ e.parts, _))

/-- **`NamesConstants`** — the constants of a window group stand for whole operands. -/
structure NamesConstants (width count : Nat) (group : WindowGroup Expr) : Prop where
  operands : ∀ call ∈ group.calls, ∀ e ∈ call.operands, isPosition (width + count) e = true ∨ OverFields width e
  frame : ∀ e ∈ frameExprs group.frame, OverFields width e

theorem any_lt_iff {i : Ordinal} {bound : Nat} :
    (i.nat?.any fun j => decide (j < bound)) = true ↔ ∃ j < bound, i = .whole j := by
  rw [Option.any_eq_true]
  simp only [decide_eq_true_eq, Ordinal.nat?_eq_some_iff]
  exact ⟨fun ⟨j, hi, hj⟩ => ⟨j, hj, hi⟩, fun ⟨j, hj, hi⟩ => ⟨j, hi, hj⟩⟩

/-- What reads fields only is converted alike whether or not there are constants behind them. -/
theorem interchangeable_withConstants (hctx : ∀ l, literalIn env ctx l = literalNode env.dialect l) (ns : List Node) :
    Interchangeable env ctx (ctx.withConstants ns) (OverFields ctx.fieldCount) where
  closed := partClosed_parts _
  field {i t} he := by
    obtain ⟨j, hj, rfl⟩ := any_lt_iff.mp (he _ (mem_parts_self (.inputRef i t)))
    exact (Context.field_withConstants_of_lt hj).symm
  patternField {v i t} he := by
    obtain ⟨j, hj, rfl⟩ := any_lt_iff.mp (he _ (mem_parts_self (.patternField v i t)))
    exact (Context.field_withConstants_of_lt hj).symm
  literal l := by
    rw [hctx]
    simp [Context.withConstants, literalIn]

/-! ## Window groups -/

/-- The node for a call of a window group whose operands and frame are read in one context. -/
def windowCallIn (env : Env) (sub : Rel → ConvertM Node) (ctx : Context) (frame : Frame Expr)
    (partition order : List Node) (call : WindowCall Expr) : ConvertM Node := do
  let written ← windowedOperator env.dialect call.op call.operands
  let args ← scalarNodes env sub ctx call.operands
  let frame ← if call.op.allowsFraming then frameNodeOf env sub ctx frame else pure none
  return windowedNode written args call.distinct ⟨partition, order, frame⟩

/-- **`windowGroupIn`** — the nodes for the calls of a window group whose keys are fields of one context and whose
operands and frame are read in another one. -/
def windowGroupIn (env : Env) (sub : Rel → ConvertM Node) (ctx ctx' : Context) (group : WindowGroup Expr) :
    ConvertM (List Node) := do
  let partition ← group.keys.mapM fun k => (ctx.field env k : Except Error Node)
  let order ← (collationsNodes env ctx group.order : Except Error (List Node))
  group.calls.mapM (windowCallIn env sub ctx' group.frame partition order)

variable {constants : List Literal} {ns : List Node} {group : WindowGroup Expr}

/-- A position of a field is no constant. -/
theorem resolveConstant_of_lt {width j : Nat} (h : j < width) (t : DataType) :
    resolveConstant constants width (Scalar.inputRef (ρ := Rel) j t) = .ok (Scalar.inputRef j t) := by
  simp [resolveConstant, Ordinal.lt, h]

/-- A position behind the fields is a constant. -/
theorem resolveConstant_of_le {width j : Nat} (h : width ≤ j) {l : Literal} (hl : constants[j - width]? = some l)
    (t : DataType) : resolveConstant constants width (Scalar.inputRef (ρ := Rel) j t) = .ok (Scalar.literal l) := by
  have hbehind : Ordinal.lt j width = false := by simp [Ordinal.lt, h]
  have hdistance : Ordinal.minus? j width = some ((j - width : Nat) : Ordinal) :=
    congrArg (fun i => some (Ordinal.whole i)) (Int.ofNat_sub h).symm
  simp only [resolveConstant, hbehind, hdistance, Option.bind_some, nth?_whole, hl, Bool.false_eq_true, if_false]

/-- An operand that is a position is the field or the constant that stands there. -/
theorem windowOperand_position (hctx : ∀ l, literalIn env ctx l = literalNode env.dialect l)
    (hns : constants.mapM (literalNode env.dialect) = .ok ns) {e : Expr}
    (he : isPosition (ctx.fieldCount + constants.length) e = true) :
    windowOperand env sub ctx constants ctx.fieldCount e = scalarNode env sub (ctx.withConstants ns) e := by
  cases e with
  | inputRef i t =>
    obtain ⟨j, hj, rfl⟩ := any_lt_iff.mp he
    by_cases hfield : j < ctx.fieldCount
    · rw [windowOperand, resolveConstant_of_lt hfield, scalarNode, Context.field_withConstants_of_lt hfield]
      rfl
    · have hle : ctx.fieldCount ≤ j := Nat.not_lt.mp hfield
      have hlength : j - ctx.fieldCount < constants.length := by omega
      obtain ⟨l, hl⟩ : ∃ l, constants[j - ctx.fieldCount]? = some l := ⟨_, List.getElem?_eq_getElem hlength⟩
      obtain ⟨n, hn, hliteral⟩ := getElem?_of_mapM hns hl
      rw [windowOperand, resolveConstant_of_le hle hl, scalarNode, Context.field_withConstants_of_le hle hn]
      show scalarNode env sub ctx (.literal l) = _
      rw [scalarNode, hctx, hliteral]
  | _ => cases he

/-- An operand is converted as if the constants were fields behind those of the input. -/
theorem windowOperand_eq (hctx : ∀ l, literalIn env ctx l = literalNode env.dialect l)
    (hns : constants.mapM (literalNode env.dialect) = .ok ns) {e : Expr}
    (he : isPosition (ctx.fieldCount + constants.length) e = true ∨ OverFields ctx.fieldCount e) :
    windowOperand env sub ctx constants ctx.fieldCount e = scalarNode env sub (ctx.withConstants ns) e := by
  by_cases hposition : isPosition (ctx.fieldCount + constants.length) e = true
  · exact windowOperand_position hctx hns hposition
  · have hfields : OverFields ctx.fieldCount e := he.resolve_left hposition
    have hresolve : resolveConstant constants ctx.fieldCount e = .ok e := by
      cases e with
      | inputRef i t =>
        obtain ⟨j, hj, rfl⟩ := any_lt_iff.mp (hfields _ (mem_parts_self _))
        exact absurd (any_lt_iff.mpr ⟨j, by omega, rfl⟩) hposition
      | _ => rfl
    rw [windowOperand, hresolve]
    exact scalarNode_interchange (interchangeable_withConstants hctx ns) e hfields

/-- A call of a window group is converted as if the constants were fields behind those of the input. -/
theorem windowCallNode_eq (hctx : ∀ l, literalIn env ctx l = literalNode env.dialect l)
    (hns : constants.mapM (literalNode env.dialect) = .ok ns)
    (hgroup : NamesConstants ctx.fieldCount constants.length group) (partition order : List Node)
    {call : WindowCall Expr} (hcall : call ∈ group.calls) :
    windowCallNode env sub ctx group.frame constants ctx.fieldCount partition order call
      = windowCallIn env sub (ctx.withConstants ns) group.frame partition order call := by
  have hargs : call.operands.mapM (windowOperand env sub ctx constants ctx.fieldCount)
      = scalarNodes env sub (ctx.withConstants ns) call.operands := by
    rw [scalarNodes_eq_mapM]
    exact mapM_congr_left fun e he => windowOperand_eq hctx hns (hgroup.operands call hcall e he)
  rw [windowCallNode, windowCallIn, hargs,
    frameNodeOf_interchange (interchangeable_withConstants hctx ns) group.frame hgroup.frame]

/-- The group is converted as if the constants were fields behind those of the input. -/
theorem windowGroupNodes_eq (hctx : ∀ l, literalIn env ctx l = literalNode env.dialect l)
    (hns : constants.mapM (literalNode env.dialect) = .ok ns)
    (hgroup : NamesConstants ctx.fieldCount constants.length group) :
    windowGroupNodes env sub ctx constants ctx.fieldCount group
      = windowGroupIn env sub ctx (ctx.withConstants ns) group := by
  unfold windowGroupNodes windowGroupIn
  congr 1
  funext partition
  congr 1
  funext order
  exact mapM_congr_left fun call hcall => windowCallNode_eq hctx hns hgroup partition order hcall

/-- A position stands for a node: that of the field, or that of the constant. -/
theorem converts_position (hns : constants.mapM (literalNode env.dialect) = .ok ns)
    (hfields : ∀ i < ctx.fieldCount, ∃ n, ctx.field env (i : Nat) = .ok n) {e : Expr}
    (he : isPosition (ctx.fieldCount + constants.length) e = true) :
    Converts (scalarNode env sub (ctx.withConstants ns) e) := by
  cases e with
  | inputRef i t =>
    obtain ⟨j, hj, rfl⟩ := any_lt_iff.mp he
    rw [scalarNode]
    by_cases hfield : j < ctx.fieldCount
    · obtain ⟨n, hn⟩ := hfields j hfield
      exact .lift ((Context.field_withConstants_of_lt hfield).trans hn)
    · have hlength : j - ctx.fieldCount < ns.length := by
        rw [length_of_mapM hns]
        omega
      exact .lift (Context.field_withConstants_of_le (Nat.not_lt.mp hfield) (List.getElem?_eq_getElem hlength))
  | _ => cases he

/-- The group is converted if its keys are fields, its functions are offered and what it computes is converted.
Nothing is asked of the constants. -/
theorem converts_windowGroupNodes (hctx : ∀ l, literalIn env ctx l = literalNode env.dialect l)
    (hns : constants.mapM (literalNode env.dialect) = .ok ns)
    (hgroup : NamesConstants ctx.fieldCount constants.length group)
    (hfields : ∀ i < ctx.fieldCount, ∃ n, ctx.field env (i : Nat) = .ok n)
    (hkeys : ∀ k ∈ group.keys ++ group.order.map (·.key), ∃ i < ctx.fieldCount, k = (i : Nat))
    (hfunctions : ∀ call ∈ group.calls, ∃ written, windowedOperator env.dialect call.op call.operands = .ok written)
    (hexprs : ∀ e ∈ group.calls.flatMap (·.operands) ++ frameExprs group.frame,
      OverFields ctx.fieldCount e → Converts (scalarNode env sub ctx e)) :
    Converts (windowGroupNodes env sub ctx constants ctx.fieldCount group) := by
  have hkey : ∀ k ∈ group.keys ++ group.order.map (·.key), ∃ n, ctx.field env k = .ok n := by
    intro k hk
    obtain ⟨i, hi, rfl⟩ := hkeys k hk
    exact hfields i hi
  obtain ⟨order, horder⟩ : ∃ items, collationsNodes env ctx group.order = .ok items :=
    exists_collationsNodes fun k hk => hkey k (List.mem_append_right _ hk)
  have hoperand : ∀ call ∈ group.calls, ∀ e ∈ call.operands,
      Converts (windowOperand env sub ctx constants ctx.fieldCount e) := by
    intro call hcall e he
    have hmem : e ∈ group.calls.flatMap (·.operands) ++ frameExprs group.frame :=
      List.mem_append_left _ (List.mem_flatMap.mpr ⟨call, hcall, he⟩)
    rw [windowOperand_eq hctx hns (hgroup.operands call hcall e he)]
    rcases hgroup.operands call hcall e he with hposition | hover
    · exact converts_position hns hfields hposition
    · rw [← scalarNode_interchange (interchangeable_withConstants hctx ns) e hover]
      exact hexprs e hmem hover
  unfold windowGroupNodes
  have hpartition : Converts (group.keys.mapM fun k => (liftM (ctx.field env k) : ConvertM Node)) := by
    refine .mapM fun k hk => ?_
    obtain ⟨n, hn⟩ := hkey k (List.mem_append_left _ hk)
    exact .lift hn
  refine .bind hpartition fun partition => .bind (.lift horder) fun order => .mapM fun call hcall => ?_
  obtain ⟨written, hwritten⟩ := hfunctions call hcall
  unfold windowCallNode
  refine .bind (.lift hwritten) fun written => .bind (.mapM (hoperand call hcall)) fun args => ?_
  split
  · have hframe : Converts (frameNodeOf env sub ctx group.frame) :=
      converts_frameNodeOf fun e he => hexprs e (List.mem_append_right _ he) (hgroup.frame e he)
    exact .bind hframe fun frame => .pure _
  · exact .bind (.pure none) fun frame => .pure _

/-- **`windowGroupNodes`** — constants that stand for whole operands are like further fields: the positions of a
window group below the number of fields are the fields, those behind them the constants, and the group is converted
whenever its keys, its functions and its other operands and offsets are. -/
theorem windowGroupNodes_resolved (env : Env) (sub : Rel → ConvertM Node) {ctx : Context}
    (hctx : ∀ l, literalIn env ctx l = literalNode env.dialect l) {constants : List Literal} {ns : List Node}
    (hns : constants.mapM (literalNode env.dialect) = .ok ns) {group : WindowGroup Expr}
    (hgroup : NamesConstants ctx.fieldCount constants.length group) :
    windowGroupNodes env sub ctx constants ctx.fieldCount group
        = windowGroupIn env sub ctx (ctx.withConstants ns) group
      ∧ (∀ i < ctx.fieldCount, (ctx.withConstants ns).field env (i : Nat) = ctx.field env (i : Nat))
      ∧ (∀ j n, ns[j]? = some n → (ctx.withConstants ns).field env (ctx.fieldCount + j : Nat) = .ok n)
      ∧ ((∀ i < ctx.fieldCount, ∃ n, ctx.field env (i : Nat) = .ok n) →
        (∀ k ∈ group.keys ++ group.order.map (·.key), ∃ i < ctx.fieldCount, k = (i : Nat)) →
        (∀ call ∈ group.calls, ∃ written, windowedOperator env.dialect call.op call.operands = .ok written) →
        (∀ e ∈ group.calls.flatMap (·.operands) ++ frameExprs group.frame, OverFields ctx.fieldCount e →
          Converts (scalarNode env sub ctx e)) →
        Converts (windowGroupNodes env sub ctx constants ctx.fieldCount group)) := by
  refine ⟨windowGroupNodes_eq hctx hns hgroup, fun i hi => Context.field_withConstants_of_lt hi, fun j n hn => ?_,
    converts_windowGroupNodes hctx hns hgroup⟩
  exact Context.field_withConstants_of_le (Nat.le_add_right _ _) (by rwa [Nat.add_sub_cancel_left])

/-- Columns of two numbers. -/
def twoNumbers : Context := .aliases [("t", [⟨"a", .integer⟩, ⟨"b", .integer⟩])] false

/-- `LAG(a + b, 1, 0)` and the running sum over two rows, with the constants behind `a` and `b`. -/
def laggedSums : WindowGroup Expr where
  keys := [(0 : Nat)]
  order := [⟨(1 : Nat), .ascending, .last⟩]
  frame := { rows := true, lower := some (.preceding (.literal ⟨.exact "1", .integer⟩)), upper := some .currentRow }
  calls :=
    [⟨Operator.lag, [.call Operator.plus [.inputRef (0 : Nat) .integer, .inputRef (1 : Nat) .integer] .integer,
        .inputRef (2 : Nat) .integer, .inputRef (3 : Nat) .integer], false, .integer⟩,
      ⟨Operator.sum, [.inputRef (2 : Nat) .integer], false, .integer⟩]

/-- Its operands are the sum and the two constants. -/
theorem windowGroupNodes_resolved_laggedSums :
    let env : Env := ⟨.ansi, []⟩
    let sub : Rel → ConvertM Node := fun _ => pure Node.null
    let constants : List Literal := [⟨.exact "1", .integer⟩, ⟨.exact "0", .integer⟩]
    let ns := [Node.number "1", Node.number "0"]
    (constants.mapM (literalNode env.dialect) = .ok ns
        ∧ NamesConstants twoNumbers.fieldCount constants.length laggedSums)
      ∧ windowGroupNodes env sub twoNumbers constants twoNumbers.fieldCount laggedSums
        = windowGroupIn env sub twoNumbers (twoNumbers.withConstants ns) laggedSums
      ∧ Converts (windowGroupNodes env sub twoNumbers constants twoNumbers.fieldCount laggedSums)
      ∧ (windowGroupNodes env sub twoNumbers constants twoNumbers.fieldCount laggedSums).value.toOption.map
        (fun calls => calls.map fun call => (call.this?.map fun c => (c.list "expressions").map kind))
          = some [some [Kind.add, .literal, .literal], some [.literal]] := by
  intro env sub constants ns
  have hns : constants.mapM (literalNode env.dialect) = .ok ns := rfl
  have hgroup : NamesConstants twoNumbers.fieldCount constants.length laggedSums := ⟨by decide, by decide⟩
  have hliteral : ∀ l, literalIn env twoNumbers l = literalNode env.dialect l := fun l => by
    simp [literalIn, twoNumbers]
  have hresolved := windowGroupNodes_resolved env sub hliteral hns hgroup
  refine ⟨⟨hns, hgroup⟩, hresolved.1, hresolved.2.2.2 ?_ (by decide) ?_ ?_, by decide +kernel⟩
  · intro i (hi : i < 2)
    obtain rfl | rfl : i = 0 ∨ i = 1 := by omega
    · exact ⟨_, rfl⟩
    · exact ⟨_, rfl⟩
  · intro call hcall
    simp only [laggedSums, List.mem_cons, List.not_mem_nil, or_false] at hcall
    rcases hcall with rfl | rfl <;> exact ⟨_, rfl⟩
  · intro e he hover s
    simp only [laggedSums, List.flatMap_cons, List.flatMap_nil, frameExprs, boundExprs,
      List.cons_append, List.nil_append, List.append_nil, List.mem_cons, List.not_mem_nil, or_false] at he
    rcases he with rfl | rfl | rfl | rfl | rfl
    · exact ⟨_, s, rfl⟩
    · exact absurd hover (by decide)
    · exact absurd hover (by decide)
    · exact absurd hover (by decide)
    · exact ⟨_, s, rfl⟩

/-- The sum of `a + 5`, with the constant behind `a`. -/
def shiftedSum : WindowGroup Expr where
  keys := []
  order := []
  frame := {}
  calls := [⟨Operator.sum, [.call Operator.plus [.inputRef (0 : Nat) .integer, .inputRef (1 : Nat) .integer] .integer],
    false, .integer⟩]

/-- A constant inside an operand is not found. -/
theorem windowGroupNodes_shiftedSum :
    let env : Env := ⟨.ansi, []⟩
    let sub : Rel → ConvertM Node := fun _ => pure Node.null
    let ctx : Context := .aliases [("t", [⟨"a", .integer⟩])] false
    (windowGroupNodes env sub ctx [⟨.exact "5", .integer⟩] ctx.fieldCount shiftedSum).value
        = .error (.ordinalOutOfRange (1 : Nat) 1)
      ∧ ∃ calls, (windowGroupIn env sub ctx (ctx.withConstants [Node.number "5"]) shiftedSum).value = .ok calls :=
  ⟨rfl, _, rfl⟩

end AlgebraSql.Convert
