import AlgebraSql.Proofs.CallNesting

/-!
# Column shapes — where a windowed call may stand in what computes a column.

The rule that keeps windowed calls out of aggregates looks at a select item from outside: it sees a windowed
call that is the whole item, and windowed calls in the conditions of a case distinction.  A column of a plan
is *clear* if no windowed call computes it, *seen* if the rule finds any call there is, and *hidden* otherwise.
The shape of a column follows from the plan, and what is written for the column agrees with it.
-/

namespace AlgebraSql

/-! ## Shapes -/

/-- What is known about the windowed calls that compute a column. -/
inductive ColumnShape where
  /-- There are none. -/
  | clear
  /-- If there are any, they can be told from outside. -/
  | seen
  | hidden
  deriving Repr, DecidableEq

/-- The shape of the column that an ordinal means. -/
def ColumnShape.at (shapes : Nat → ColumnShape) (i : Ordinal) : ColumnShape :=
  match i.nat? with
  | some n => shapes n
  | none => .hidden

/-- The values of pairs of conditions and values. -/
def pairValues {α : Type} : List α → List α
  | _ :: value :: rest => value :: pairValues rest
  | _ => []

/-- The operands of a case distinction that are no conditions. -/
def caseValues {α : Type} (operands : List α) : List α :=
  let inner := operands.take (operands.length - 1)
  (if operands.length % 2 = 0 then inner.take 1 ++ pairValues (inner.drop 1) else pairValues inner)
    ++ operands.drop (operands.length - 1)

namespace Scalar

/-- An expression is no windowed call and no column that windowed calls compute. -/
def isClearPart {ρ : Type} (shapes : Nat → ColumnShape) : Scalar ρ → Bool
  | .overWindow .. => false
  | .inputRef i _ => ColumnShape.at shapes i == .clear
  | _ => true

/-- No windowed call computes the value of an expression over columns of these shapes. -/
def isClear {ρ : Type} (shapes : Nat → ColumnShape) (e : Scalar ρ) : Bool := e.parts.all (isClearPart shapes)

/-- The shape of an expression over columns of these shapes. -/
def shape {ρ : Type} (shapes : Nat → ColumnShape) (e : Scalar ρ) : ColumnShape :=
  if e.isClear shapes then .clear
  else
    match e with
    | .inputRef i _ => ColumnShape.at shapes i
    | .overWindow op _ _ _ _ => if op.kind == .sumOrZero then .hidden else .seen
    | .call op operands _ =>
      if op.kind == .case && (caseValues operands).all (·.isClear shapes) then .seen else .hidden
    | _ => .hidden

end Scalar

theorem ColumnShape.at_nat (shapes : Nat → ColumnShape) (i : Nat) : ColumnShape.at shapes (i : Nat) = shapes i := by
  simp [ColumnShape.at]

/-- A column of the input has the shape that it has there. -/
theorem Scalar.shape_inputRef {ρ : Type} (shapes : Nat → ColumnShape) (i : Ordinal) (t : DataType) :
    (Scalar.inputRef i t : Scalar ρ).shape shapes = ColumnShape.at shapes i := by
  unfold Scalar.shape
  split
  · rename_i hclear
    have hshape : ColumnShape.at shapes i = .clear := by
      simpa [Scalar.isClear, Scalar.parts, Scalar.isClearPart] using hclear
    exact hshape.symm
  · rfl

/-- The shapes of the columns of a plan. -/
def Rel.shapes : Rel → Nat → ColumnShape
  | .scan .., _ => .clear
  | .filter input _ _, i => input.shapes i
  | .project input projects _ _ _, i => (projects[i]?.map (·.shape input.shapes)).getD .hidden
  | .aggregate input keys _ calls, i =>
    match keys[i]? with
    | some key => ColumnShape.at input.shapes key
    | none =>
      match calls[i - keys.length]? with
      | some call =>
        if call.collation.all (fun c => ColumnShape.at input.shapes c.key == .clear) then .clear else .hidden
      | none => .hidden
  | _, _ => .hidden

namespace Convert

open Sql Node

/-! ## Nodes of a shape -/

/-- What is written for an expression of a shape. -/
def HasShape (s : ColumnShape) (n : Node) : Prop :=
  match s with
  | .clear => Unwindowed n
  | .seen => Unwindowed n ∨ WrapCheck.isWindowedOrCase n = true
  | .hidden => True

/-- A select item of a shape. -/
def ItemHasShape (s : ColumnShape) (item : Node) : Prop :=
  match s with
  | .clear => Unwindowed item
  | .seen => Unwindowed item
      ∨ (item.kind = .aliased ∧ ∃ n, item.this? = some n ∧ WrapCheck.isWindowedOrCase n = true)
  | .hidden => True

theorem HasShape.of_unwindowed {n : Node} (h : Unwindowed n) (s : ColumnShape) : HasShape s n := by
  cases s with
  | clear => exact h
  | seen => exact .inl h
  | hidden => trivial

theorem ItemHasShape.of_unwindowed {n : Node} (h : Unwindowed n) (s : ColumnShape) : ItemHasShape s n := by
  cases s with
  | clear => exact h
  | seen => exact .inl h
  | hidden => trivial

/-- A windowed call and a case distinction have no names of their own. -/
theorem aliasOf?_of_isWindowedOrCase {n : Node} (h : WrapCheck.isWindowedOrCase n = true) : n.aliasOf? = none := by
  have hkind : n.kind = .window ∨ n.kind = .case := by
    simp only [WrapCheck.isWindowedOrCase, Bool.or_eq_true, Bool.and_eq_true, is_eq_true_iff] at h
    exact h.imp_right And.left
  rcases hkind with hkind | hkind <;> simp [aliasOf?, isFromItem, hkind]

/-- An expression under the name of a column keeps its shape. -/
theorem HasShape.namedItem {s : ColumnShape} {n : Node} (h : HasShape s n) (name : String) :
    ItemHasShape s (namedItem n name) := by
  have hunwindowed : Unwindowed n → Unwindowed (Convert.namedItem n name) := by
    intro hn
    unfold Convert.namedItem
    split
    · exact hn
    · exact inherited_aliased inherited_unwindowed hn name
  cases s with
  | clear => exact hunwindowed h
  | hidden => trivial
  | seen =>
    rcases h with hn | hseen
    · exact .inl (hunwindowed hn)
    · refine .inr ?_
      unfold Convert.namedItem
      rw [aliasOf?_of_isWindowedOrCase hseen]
      exact ⟨rfl, n, rfl, hseen⟩

/-- The fields of a context have the shapes of the columns of a plan. -/
def FieldsShaped (shapes : Nat → ColumnShape) (env : Env) (ctx : Context) : Prop :=
  ∀ i n, ctx.field env i = .ok n → HasShape (ColumnShape.at shapes i) n

/-- The items of a select list have the shapes of the columns of a plan. -/
def ListShaped (shapes : Nat → ColumnShape) (n : Node) : Prop :=
  ∀ items, n.selectList? = some items → ∀ (i : Nat) item, items[i]? = some item → ItemHasShape (shapes i) item

/-- An item of a select list is read as an expression of its shape. -/
theorem ItemHasShape.field {s : ColumnShape} {item : Node} (h : ItemHasShape s item) {byName : Bool} {i : Ordinal}
    {n : Node} (hn : Context.itemField byName i item = .ok n) : HasShape s n := by
  have hunwindowed : Unwindowed item → Unwindowed n := by
    intro hitem
    unfold Context.itemField at hn
    split at hn
    · rename_i hkind
      split at hn
      · cases hn
        exact hasColumns_unwindowed _ _
      · split at hn
        · rename_i inner hinner
          cases hn
          exact hitem.inner ((is_eq_true_iff _ _).mp hkind) hinner
        · cases hn
    · cases hn
      exact hitem
  cases s with
  | clear => exact hunwindowed h
  | hidden => trivial
  | seen =>
    rcases h with hitem | ⟨hkind, inner, hinner, hseen⟩
    · exact .inl (hunwindowed hitem)
    · unfold Context.itemField at hn
      rw [if_pos ((is_eq_true_iff _ _).mpr hkind)] at hn
      split at hn
      · cases hn
        exact .inl (hasColumns_unwindowed _ _)
      · rw [hinner] at hn
        cases hn
        exact .inr hseen

/-- The items of a list in front of a context. -/
theorem FieldsShaped.selectList {shapes : Nat → ColumnShape} {env : Env} {items : List Node}
    (h : ∀ (i : Nat) item, items[i]? = some item → ItemHasShape (shapes i) item) (byName grouped : Bool) :
    FieldsShaped shapes env (.selectList items byName grouped) := by
  intro i n hn
  simp only [Context.field] at hn
  split at hn
  · rename_i item hitem
    unfold ColumnShape.at
    unfold nth? at hitem
    cases hk : i.nat? with
    | none => simp [hk] at hitem
    | some k =>
      rw [hk] at hitem
      exact (h k item hitem).field hn
  · cases hn

/-- The fields of an opened result have the shapes that its items have. -/
theorem OpenedAs.fieldsShaped {env : Env} {x : Result} {rel : Rel} {b : Builder} {shapes : Nat → ColumnShape}
    (henv : env.fieldMap = []) (hb : OpenedAs env x rel b) (hx : ListShaped shapes x.node) :
    FieldsShaped shapes env b.context := by
  rcases hb.context with ⟨items, byName, grouped, -, -, -, hlist, hctx⟩ | ⟨-, inputs, qualified, hctx⟩
  · rw [hctx]
    exact .selectList (hx items hlist) byName grouped
  · rw [hctx]
    exact fun i n hn => .of_unwindowed (hasColumns_unwindowed.aliasField henv inputs qualified i n hn) _

/-- The items for some nodes have their shapes. -/
theorem itemHasShape_namedItems {shapes : Nat → ColumnShape} {ns : List Node} {fields : RowType}
    (h : ∀ (i : Nat) n, ns[i]? = some n → HasShape (shapes i) n) {i : Nat} {item : Node}
    (hitem : (namedItems ns fields)[i]? = some item) : ItemHasShape (shapes i) item := by
  rw [namedItems, List.getElem?_zipWith] at hitem
  split at hitem
  · rename_i n f hn hf
    cases hitem
    exact (h i n hn).namedItem f.name
  · cases hitem

/-! ## Case distinctions -/

/-- What is related to elements with a property, one by one. -/
theorem forall_of_forall₂ {α β : Type} {p : α → Prop} {q : β → Prop} {as : List α} {bs : List β}
    (h : List.Forall₂ (fun a b => p a → q b) as bs) (hp : ∀ a ∈ as, p a) : ∀ b ∈ bs, q b := by
  induction h with
  | nil => simp
  | cons hab _ ih =>
    simp only [List.forall_mem_cons] at hp ⊢
    exact ⟨hab hp.1, ih hp.2⟩

theorem forall₂_caseValues {α β : Type} {R : α → β → Prop} {as : List α} {bs : List β} (h : List.Forall₂ R as bs) :
    List.Forall₂ R (caseValues as) (caseValues bs) := by
  have hpairs : ∀ {as : List α} {bs : List β}, List.Forall₂ R as bs → List.Forall₂ R (pairValues as) (pairValues bs) := by
    intro as
    induction as using pairValues.induct with
    | case1 a value rest ih =>
      rintro _ (_ | ⟨-, _ | ⟨hvalue, hrest⟩⟩)
      exact .cons hvalue (ih hrest)
    | case2 as hshort =>
      intro bs hbs
      rcases hbs with _ | ⟨h, _ | ⟨h', h''⟩⟩
      · exact .nil
      · exact .nil
      · exact absurd rfl (hshort _ _ _)
  unfold caseValues
  rw [← h.length_eq]
  have hinner := List.forall₂_take (as.length - 1) h
  refine List.rel_append ?_ (List.forall₂_drop (as.length - 1) h)
  split
  · exact List.rel_append (List.forall₂_take 1 hinner) (hpairs (List.forall₂_drop 1 hinner))
  · exact hpairs hinner

theorem scopeBelow_subset_inScope (n : Node) : scopeBelow n ⊆ n.inScope := by
  obtain ⟨kind, args⟩ := n
  rw [scopeBelow, inScope]
  refine List.cons_subset_cons _ ?_
  split
  · exact List.nil_subset _
  · exact List.Subset.refl _

/-- Pairs of conditions and values as branches. -/
theorem branches_of_pairs {ns : List Node} (hvalues : ∀ n ∈ pairValues ns, Unwindowed n) :
    (∀ b ∈ branches ns, Unwindowed b)
      ∨ ∃ b ∈ branches ns, b.is .branch = true ∧ b.this?.any WrapCheck.containsWindow = true := by
  induction ns using branches.induct with
  | case1 condition value rest ih =>
    simp only [pairValues, List.forall_mem_cons] at hvalues
    obtain ⟨hvalue, hrest⟩ := hvalues
    simp only [branches, List.forall_mem_cons, List.exists_mem_cons_iff]
    by_cases hcondition : Unwindowed condition
    · rcases ih hrest with hplain | hfound
      · exact .inl ⟨inherited_unwindowed.of_args rfl (by simpa using ⟨hcondition, hvalue⟩), hplain⟩
      · exact .inr (.inr hfound)
    · refine .inr (.inl ⟨rfl, ?_⟩)
      have hthis : (Node.branch condition value).this? = some condition := rfl
      rw [hthis, Option.any_some, WrapCheck.containsWindow]
      simp only [Unwindowed, not_forall, Bool.not_eq_false] at hcondition
      obtain ⟨w, hw, hwindow⟩ := hcondition
      exact List.any_eq_true.mpr ⟨w, scopeBelow_subset_inScope condition hw, hwindow⟩
  | case2 ns hshort =>
    left
    rcases ns with _ | ⟨n, _ | ⟨m, ns⟩⟩
    · simp [branches]
    · simp [branches]
    · exact absurd rfl (hshort _ _ _)

/-- **A case distinction** between values without windowed calls shows whether it has any. -/
theorem seen_caseNode {ns : List Node} (h : ∀ n ∈ caseValues ns, Unwindowed n) : HasShape .seen (caseNode ns) := by
  have hlast : ∀ n, ns.getLast? = some n → Unwindowed n := by
    intro n hn
    refine h n (List.mem_append_right _ (List.mem_of_getElem? (i := 0) ?_))
    rw [List.getElem?_drop, Nat.add_zero, ← List.getLast?_eq_getElem?, hn]
  have hmarked : ∀ {subject : Option Node} {pairs : List Node},
      (∀ n, subject = some n → Unwindowed n) → (∀ n ∈ pairValues pairs, Unwindowed n) →
      HasShape .seen (.mk .case (Node.optional "this" subject ++ [("ifs", .nodes (branches pairs))]
        ++ Node.optional "default" ns.getLast?)) := by
    intro subject pairs hsubject hpairs
    rcases branches_of_pairs hpairs with hbranches | ⟨b, hb, hbranch, hcondition⟩
    · refine .inl (inherited_unwindowed.of_args rfl fun c hc => ?_)
      simp only [List.flatMap_append, flatMap_optional, List.flatMap_cons, children_nodes, List.flatMap_nil,
        List.append_nil, List.mem_append, Option.mem_toList] at hc
      rcases hc with (hc | hc) | hc
      · exact hsubject c hc
      · exact hbranches c hc
      · exact hlast c hc
    · refine .inr ?_
      have hlist : ∀ rest, (Node.mk .case (Node.optional "this" subject ++ [("ifs", .nodes (branches pairs))]
          ++ Node.optional "default" rest)).list "ifs" = branches pairs := by
        intro rest
        cases subject <;> cases rest <;> simp [Node.optional, list, list?, arg?]
      unfold WrapCheck.isWindowedOrCase
      rw [hlist]
      refine Bool.or_eq_true_iff.mpr (.inr (Bool.and_eq_true_iff.mpr ⟨rfl, ?_⟩))
      exact List.any_eq_true.mpr ⟨b, List.mem_filter.mpr ⟨hb, hbranch⟩, hcondition⟩
  unfold caseValues at h
  unfold caseNode
  simp only [List.dropLast_eq_take] at h ⊢
  split
  · rename_i heven
    rw [if_pos heven] at h
    refine hmarked (fun n hn => h n ?_) fun n hn => h n ?_
    · cases hinner : ns.take (ns.length - 1) with
      | nil => simp [hinner] at hn
      | cons m rest =>
        rw [hinner] at hn
        simp [Option.some.inj hn]
    · exact List.mem_append_left _ (List.mem_append_right _ hn)
  · rename_i hodd
    rw [if_neg hodd] at h
    exact hmarked (by simp) fun n hn => h n (List.mem_append_left _ hn)

/-! ## Expressions -/

section Expressions

variable {env : Env} {ctx : Context} {sub : Rel → ConvertM Node} {shapes : Nat → ColumnShape} {relation : Rel → Bool}
  {Good : Node → Prop}

/-- A property of whatever a conversion gives, beside what is maintained. -/
theorem Maintains.and_gives {α : Type} {I : State → Prop} {p q : α → Prop} {c : ConvertM α} (hp : Maintains I p c)
    (hq : ∀ s a s', c.Gives s a s' → q a) : Maintains I q c := fun s a s' hs hgives =>
  ⟨(hp s a s' hs hgives).1, hq s a s' hgives⟩

/-- No library function is the sum that is zero without rows. -/
theorem kind_of_windowedOperator {d : Dialect} {op written : Operator} {es : List Expr} (hop : op.kind ≠ .sumOrZero)
    (h : windowedOperator d op es = .ok written) : written.kind ≠ .sumOrZero := by
  have hlibrary : ∀ c ∈ op.alternatives, c.kind ≠ .sumOrZero := by
    have hnone : ∀ c ∈ Operator.libraryOperators, c.kind ≠ .sumOrZero := by decide +kernel
    intro c hc
    unfold Operator.alternatives at hc
    split at hc
    · cases hc
    · exact hnone c (List.mem_filter.mp hc).1
  unfold windowedOperator at h
  split at h
  · rename_i hother
    rw [Dialect.retarget, eq_of_beq hother] at h
    rcases mem_alternatives_of_availableFunction h with rfl | halternative
    · exact hop
    · exact hlibrary _ halternative
  · cases h
    exact hop

/-- A windowed call is written as one, unless it is a sum that is zero without rows. -/
theorem is_window_of_gives {op : Operator} {es : List Expr} {window : Window Expr} {distinct : Bool} {t : DataType}
    (hop : op.kind ≠ .sumOrZero) {s s' : State} {n : Node}
    (h : (scalarNode env sub ctx (.overWindow op es window distinct t)).Gives s n s') : n.is .window = true := by
  obtain ⟨partition, order, frame⟩ := window
  rw [scalarNode] at h
  simp only [ConvertM.gives_bind, ConvertM.gives_lift] at h
  obtain ⟨ps, s₁, -, os, s₂, -, written, s₃, ⟨hwritten, -⟩, as, s₄, -, h⟩ := h
  have hkind := kind_of_windowedOperator hop hwritten
  have hwindow : ∀ parts, (windowedNode written as distinct parts).is .window = true := by
    intro parts
    unfold windowedNode
    rw [if_neg (by simpa using hkind)]
    rfl
  split at h
  all_goals
    simp only [ConvertM.gives_bind, ConvertM.gives_pure] at h
    obtain ⟨f, s₅, -, rfl, -⟩ := h
    exact hwindow _

variable (henv : env.fieldMap = []) (hfields : FieldsShaped shapes env ctx)
  (hsub : ∀ rel, rel.satisfies (.ofRelations relation) = true → Maintains OnlyColumns Unwindowed (sub rel))

include henv hfields hsub

/-- Expressions that no windowed call computes. -/
theorem unwindowed_of_isClear {fields : Bool} {e : Expr} (hclear : e.isClear shapes = true)
    (he : e.satisfies (.ofRelations relation) fields = true) : Maintains OnlyColumns Unwindowed (scalarNode env sub ctx e) := by
  have hadmits : Admits env sub OnlyColumns Unwindowed ctx (fun e => (∀ p ∈ e.parts, p.isClearPart shapes = true)
      ∧ e.satisfies (.ofRelations relation) fields = true) := by
    refine admits_unwindowed ((partClosed_parts _).and (partClosed_satisfies _ _)) henv (fun e he => ?_)
      (fun {i t n} he hn => ?_) fun he => hsub _ (satisfies_of_subQuery he.2)
    · have := he.1 e e.mem_parts_self
      cases e <;> simp_all [Scalar.isOver, Scalar.isClearPart]
    · have hshape := he.1 _ (Scalar.mem_parts_self _)
      have := hfields i n hn
      rw [eq_of_beq hshape] at this
      exact this
  exact inherited_scalarNode hadmits e ⟨List.all_eq_true.mp hclear, he⟩

/-- **`scalarNode`** — what is written for an expression has its shape. -/
theorem hasShape_scalarNode (hgood : Admits env sub OnlyColumns Good ctx (fun e => e.satisfies (.ofRelations relation) true = true))
    {e : Expr} (he : e.satisfies (.ofRelations relation) true = true) :
    Maintains OnlyColumns (HasShape (e.shape shapes)) (scalarNode env sub ctx e) := by
  have hany : ∀ e : Expr, e.satisfies (.ofRelations relation) true = true →
      Maintains OnlyColumns Good (scalarNode env sub ctx e) := inherited_scalarNode hgood
  unfold Scalar.shape
  split
  · exact unwindowed_of_isClear henv hfields hsub ‹_› he
  split
  · rename_i i t _
    rw [scalarNode]
    exact .lift fun n hn => hfields i n hn
  · rename_i op es window distinct t _
    split
    · exact (hany _ he).mono fun _ _ => trivial
    · rename_i hop
      refine (hany _ he).and_gives fun s n s' h => .inr ?_
      rw [WrapCheck.isWindowedOrCase, is_window_of_gives (by simpa using hop) h, Bool.true_or]
  · rename_i op es t _
    split
    · rename_i hcase
      simp only [Bool.and_eq_true, beq_iff_eq, List.all_eq_true] at hcase
      obtain ⟨hkind, hvalues⟩ := hcase
      have hoperands : ∀ e ∈ es, e.satisfies (.ofRelations relation) true = true := partClosed_satisfies _ _ _ he
      have hlist : ∀ {es : List Expr}, (∀ e ∈ es, e.satisfies (.ofRelations relation) true = true) →
          Maintains OnlyColumns (List.Forall₂ (fun (e : Expr) n => e.isClear shapes = true → Unwindowed n) es)
            (scalarNodes env sub ctx es) := by
        intro es hes
        induction es with
        | nil =>
          rw [scalarNodes]
          exact .pure .nil
        | cons e es ih =>
          rw [scalarNodes]
          have hfirst := (hany e (hes e (by simp))).and_imp fun hclear : e.isClear shapes = true =>
            unwindowed_of_isClear henv hfields hsub hclear (hes e (by simp))
          exact .bind hfirst fun n hn => .bind (ih fun e hmem => hes e (by simp [hmem])) fun ns hns =>
            .pure (.cons hn.2 hns)
      rw [scalarNode.eq_def]
      simp only [hkind]
      refine .bind (hlist hoperands) fun ns hns => .pure (seen_caseNode ?_)
      exact forall_of_forall₂ (forall₂_caseValues hns) hvalues
    · exact (hany _ he).mono fun _ _ => trivial
  · exact (hany _ he).mono fun _ _ => trivial

end Expressions

end Convert

end AlgebraSql
