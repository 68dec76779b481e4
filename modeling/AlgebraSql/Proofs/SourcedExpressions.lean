import AlgebraSql.Proofs.AssembledOperators
import AlgebraSql.Proofs.SourceLevels

/-!
# Sources in expressions — where the names of sources in an expression come from.

The node for an expression has sources because its fields stand for nodes that have some, or because a query in
it brought them.  A query brings names that come into use while it is converted.  These are new, but for the
names of tables that were taken before; so they differ from all names that were in use before the expression,
as long as the queries in it read tables with other names.
-/

namespace AlgebraSql.Convert

open Sql Node

variable {α : Type} {env : Env} {sub sub' : Rel → ConvertM Node} {s s' t : State}

/-! ## Names in use -/

/-- **`Brought`** — a name that is in use after a conversion and was not before, unless, if `B` holds, it is an
admissible one. -/
def Brought (B : Prop) (ok : String → Bool) (s s' : State) (v : String) : Prop :=
  v ∈ s'.usedNames ∧ (B → v ∉ s.usedNames ∨ ok v = true)

/-- The course of every conversion: names in use stay in use, and the fields of rows around stay columns. -/
def growing (bound : UsedNames) : Course where
  leads s s' := s.usedNames ⊆ s'.usedNames ∧ (OnlyColumns s → OnlyColumns s')
  bounded s := s.usedNames ⊆ bound
  declarable _ := true
  refl _ := ⟨List.Subset.refl _, id⟩
  trans h h' := ⟨List.Subset.trans h.1 h'.1, h'.2 ∘ h.2⟩
  recording s name := ⟨fun v hv => List.mem_append_left _ hv, id⟩
  comparing _ _ := ⟨List.Subset.refl _, id⟩
  declaring s ids inputs _ := by
    refine ⟨List.Subset.refl _, fun hs => ?_⟩
    exact (maintains_registerCorrelations ids inputs s ⟨⟩ _ hs ((ConvertM.gives_registerCorrelations _ _ _ _ _).mpr rfl)).1
  bounded_of_leads h h' := List.Subset.trans h.1 h'

/-- Every plan takes the course. -/
theorem trivial_growing (bound : UsedNames) : (growing bound).check.Trivial where
  relation rel := by simp [Course.check, growing]
  expression _ _ := rfl

/-- A conversion takes the course. -/
abbrev Grow (c : ConvertM α) : Prop := ∀ bound, Takes (growing bound) c

theorem Grow.subset {c : ConvertM α} (hc : Grow c) {a : α} (h : c.Gives s a s') : s.usedNames ⊆ s'.usedNames :=
  (hc [] s a s' h).1.1

theorem Grow.onlyColumns {c : ConvertM α} (hc : Grow c) {a : α} (h : c.Gives s a s') (hs : OnlyColumns s) :
    OnlyColumns s' := (hc [] s a s' h).1.2 hs

theorem Brought.mono {B : Prop} {ok : String → Bool} {s₀ s₁ : State} {v : String} (h : Brought B ok s s' v)
    (hbefore : s₀.usedNames ⊆ s.usedNames) (hafter : s'.usedNames ⊆ s₁.usedNames) : Brought B ok s₀ s₁ v :=
  ⟨hafter h.1, fun hB => (h.2 hB).imp_left fun hnew hold => hnew (hbefore hold)⟩

/-! ## Bounded sub-queries -/

/-- Sub-queries whose names stay below a bound; others are refused. -/
def below (bound : UsedNames) (sub : Rel → ConvertM Node) (rel : Rel) : ConvertM Node := do
  let n ← sub rel
  if (← get).usedNames ⊆ bound then return n else throw .emptyTableName

theorem gives_below {bound : UsedNames} {rel : Rel} {n : Node} :
    (below bound sub rel).Gives s n s' ↔ (sub rel).Gives s n s' ∧ s'.usedNames ⊆ bound := by
  simp only [below, ConvertM.gives_bind, ConvertM.gives_get]
  constructor
  · rintro ⟨m, t, hm, u, t', ⟨rfl, rfl⟩, h⟩
    split at h
    · rename_i hbound
      obtain ⟨rfl, rfl⟩ := (ConvertM.gives_pure _ _ _ _).mp h
      exact ⟨hm, hbound⟩
    · exact absurd h (ConvertM.gives_throw _ _ _ _)
  · rintro ⟨hn, hbound⟩
    exact ⟨n, s', hn, s', s', ⟨rfl, rfl⟩, by rw [if_pos hbound]; exact (ConvertM.gives_pure _ _ _ _).mpr ⟨rfl, rfl⟩⟩

/-- An expression that takes names below a bound is converted as if the queries in it had to. -/
theorem steady_below (h : ∀ rel, Grow (sub rel)) (bound : UsedNames) : SteadyQueries (growing bound) sub (below bound sub) :=
  fun rel _ s n s' hn => ⟨(h rel bound s n s' hn).1, fun hbound => gives_below.mpr ⟨hn, hbound⟩⟩

theorem steadyQueries_of_grow (h : ∀ rel, Grow (sub rel)) (bound : UsedNames) : SteadyQueries (growing bound) sub sub :=
  fun rel _ => h rel bound

theorem grow_lift {x : Except Error α} : Grow (liftM x : ConvertM α) := fun _ => .lift

theorem grow_scalarNode (hsub : ∀ rel, Grow (sub rel)) (ctx : Context) (e : Expr) : Grow (scalarNode env sub ctx e) :=
  fun bound => steady_scalarNode (steadyQueries_of_grow hsub bound) ctx true e
    (Scalar.satisfies_trivial (trivial_growing bound) true e)

theorem grow_builder (x : Result) (rel : Rel) : Grow (x.builder env rel) := fun _ => x.steady_builder rel

/-! ## Sources of expressions -/

/-- The queries of plans that satisfy a condition have sound sources, and bring their names. -/
def QueriesSourced (B : Prop) (required : Bool) (sub : Rel → ConvertM Node) : Prop :=
  ∀ rel ok s n s', (B → rel.allClear = true ∧ rel.satisfies (readsOnly ok) = true) → OnlyColumns s →
    (sub rel).Gives s n s' → Sourced B required (Brought B ok s s') n

/-- **`ClearExpr`** — the queries of an expression are clear and read only tables with admissible names, and with
names that differ from those of some levels. -/
structure ClearExpr (ok : String → Bool) (levels : List (List String)) (fields : Bool) (e : Expr) : Prop where
  clear : e.satisfies levelsClear fields = true
  reads : e.satisfies (readsOnly ok) fields = true
  avoids : ∀ tables ∈ levels, e.satisfies (queriesRead (clearName tables)) fields = true

section Admitted

variable {B : Prop} {required fields : Bool} {ok : String → Bool} {levels : List (List String)} {P : String → Prop}
  {ctx : Context}

theorem partClosed_clearExpr : PartClosed fun e => B → ClearExpr ok levels fields e := fun e he c hc hB =>
  ⟨partClosed_satisfies _ _ e (he hB).clear c hc, partClosed_satisfies _ _ e (he hB).reads c hc,
    fun tables htables => partClosed_satisfies _ _ e ((he hB).avoids tables htables) c hc⟩

theorem clearExpr_call {op : Operator} {es : List Expr} {t : DataType}
    (h : ∀ e ∈ es, B → ClearExpr ok levels fields e) (hB : B) : ClearExpr ok levels fields (.call op es t) := by
  constructor
  · simp only [Scalar.satisfies, Bool.and_eq_true, Scalar.allSatisfy_iff]
    exact ⟨rfl, fun e he => (h e he hB).clear⟩
  · simp only [Scalar.satisfies, Bool.and_eq_true, Scalar.allSatisfy_iff]
    exact ⟨rfl, fun e he => (h e he hB).reads⟩
  · intro tables htables
    simp only [Scalar.satisfies, Bool.and_eq_true, Scalar.allSatisfy_iff]
    exact ⟨rfl, fun e he => (h e he hB).avoids tables htables⟩

theorem turning_clearExpr (d : Dialect) : ClosedUnderTurning d fun e => B → ClearExpr ok levels fields e :=
  closedUnderTurning (C := fun _ => True) partClosed_clearExpr (fun _ h => clearExpr_call h) fun _ => ⟨trivial, trivial⟩

/-- A windowed call has the sources of its arguments and of its window. -/
theorem sourced_windowedNode {op : Operator} {args : List Node} {distinct : Bool} {parts : WindowParts}
    (hargs : ∀ n ∈ args, Sourced B required P n) (hpartition : ∀ n ∈ parts.partition, Sourced B required P n)
    (horder : ∀ n ∈ parts.order, Sourced B required P n)
    (hframe : ∀ n, parts.frame = some n → Sourced B required P n) :
    Sourced B required P (windowedNode op args distinct parts) := by
  have hover : ∀ name, Sourced B required P (overNode name args distinct parts) := by
    intro name
    refine (sourced_iff rfl).mpr fun c hc => ?_
    simp only [overNode, children, args_mk, List.flatMap_append, List.flatMap_cons, List.flatMap_nil, children_node,
      children_nodes, flatMap_optional, List.append_nil, List.mem_append, List.mem_singleton, Option.mem_toList] at hc
    rcases hc with ((rfl | hc) | hc) | hc
    · exact (sourced_iff rfl).mpr (by simpa [Node.aggregate, children, Arg.children] using hargs)
    · exact hpartition c hc
    · split at hc
      · cases hc
      · obtain rfl : c = Node.order parts.order := by simpa using hc
        exact inherited_order inherited_sourced horder
    · exact hframe c hc
  unfold windowedNode
  split
  · refine (sourced_iff rfl).mpr ?_
    simpa [orZero, Node.call, children, Arg.children] using ⟨hover _, inherited_number inherited_sourced "0"⟩
  · exact hover _

/-- **`admits_sourced`** — between two memories, the names of sources in an expression have a property that those of
fields have and those that queries bring. -/
theorem admits_sourced (henv : env.fieldMap = []) (hgrow : ∀ rel, Grow (sub rel)) (hsub : QueriesSourced B required sub)
    (hfields : FieldsHave (Sourced B required P) env ctx)
    (hP : ∀ v, Brought B ok s s' v → (∀ tables ∈ levels, Brought B (clearName tables) s s' v) → P v) :
    Admits env (below s'.usedNames sub) (fun t => OnlyColumns t ∧ s.usedNames ⊆ t.usedNames)
      (Sourced B required P) ctx (fun e => B → ClearExpr ok levels fields e) where
  inherited := inherited_sourced
  closed := partClosed_clearExpr
  field _ hn := hfields _ _ hn
  correlated := by
    rintro _ _ _ _ _ - t n t' ⟨ht, hsubset⟩ hn
    obtain ⟨ht', hgood⟩ := maintains_correlatedField hasColumns_sourced henv _ _ t n t' ht hn
    have hgrows : t.usedNames ⊆ t'.usedNames := Grow.subset (fun _ => steady_correlatedField _ _) hn
    exact ⟨⟨ht', List.Subset.trans hsubset hgrows⟩, hgood⟩
  patternField := fun _ => hasColumns_sourced.patternField
  query := by
    rintro op es rel u he t n t' ⟨ht, hsubset⟩ hn
    obtain ⟨hn, hbound⟩ := gives_below.mp hn
    refine ⟨⟨(hgrow rel).onlyColumns hn ht, List.Subset.trans hsubset ((hgrow rel).subset hn)⟩, ?_⟩
    have hclear : B → rel.allClear = true ∧ rel.satisfies (readsOnly ok) = true
        ∧ ∀ tables ∈ levels, rel.satisfies (readsOnly (clearName tables)) = true := by
      intro hB
      obtain ⟨hclear, hreads, havoids⟩ := he hB
      simp only [Scalar.satisfies, Bool.and_eq_true] at hclear hreads havoids
      exact ⟨Bool.and_eq_true_iff.mpr ⟨hclear.1.1, hclear.2⟩, hreads.2, fun tables htables => (havoids tables htables).1.1⟩
    have hbrought := hsub rel ok t n t' (fun hB => ⟨(hclear hB).1, (hclear hB).2.1⟩) ht hn
    refine ⟨hbrought.sound, fun v hv => hP v ((hbrought.all v hv).mono hsubset hbound) fun tables htables => ?_⟩
    have havoided := hsub rel _ t n t' (fun hB => ⟨(hclear hB).1, (hclear hB).2.2 tables htables⟩) ht hn
    exact (havoided.all v hv).mono hsubset hbound
  call := by
    intro op es t written ns _ _ _ hns
    split <;> exact (sourced_iff rfl).mpr (by simpa [Node.aggregate, Node.call, children, Arg.children] using hns)
  windowed := by
    intro op es window distinct t written args partition order frame _ _ _ hargs _ hpartition _ horder hframe
    exact sourced_windowedNode hargs hpartition horder fun n hn => (hframe n hn).2

/-- What such a conversion gives from one memory to the other. -/
theorem post_of_steady {post : α → Prop} {c c' : ConvertM α} (hsteady : Steady (growing s'.usedNames) c c')
    (hc : Maintains (fun t => OnlyColumns t ∧ s.usedNames ⊆ t.usedNames) post c') (hs : OnlyColumns s) {a : α}
    (h : c.Gives s a s') : post a :=
  (hc s a s' ⟨hs, List.Subset.refl _⟩ ((hsteady s a s' h).2 (List.Subset.refl _))).2

end Admitted

end AlgebraSql.Convert
