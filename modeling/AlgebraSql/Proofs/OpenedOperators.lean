import AlgebraSql.Proofs.AssembledOperators
import AlgebraSql.Proofs.Steps

/-!
# Opened operators — what an operator puts into the opened query of its input.

An operator on one input opens the query of the input, converts its expressions in the context that it opens, and
records a query with more clauses.  There is one lemma for each operator that takes a run apart into these parts, for
any result of the input and any dialect.
-/

namespace AlgebraSql.Convert

open Sql Node

variable {env : Env} {sub : Rel → ConvertM Node} {s s' : State} {rel input : Rel} {x r : Result}

/-- The query of a result is opened for a relation once the names of its inputs are known to inner queries. -/
def OpensKnown (env : Env) (x : Result) (rel : Rel) (ids : List String) (s : State) (b : Builder) (s' : State) : Prop :=
  ∃ s₁, (registerCorrelations ids x.aliases).Gives s ⟨⟩ s₁ ∧ (x.builder env rel).Gives s₁ b s'

namespace OpensKnown

variable {ids : List String} {b : Builder}

theorem openedAs (h : OpensKnown env x rel ids s b s') : OpenedAs env x rel b :=
  h.elim fun _ h => openedAs_builder h.2

theorem onlyColumns (h : OpensKnown env x rel ids s b s') (hs : OnlyColumns s) : OnlyColumns s' := by
  obtain ⟨s₁, hids, hb⟩ := h
  exact (maintains_builder x rel s₁ b s' (maintains_registerCorrelations ids x.aliases s _ s₁ hs hids).1 hb).1

end OpensKnown

theorem Closes.onlyColumns {b : Builder} {n : Node} (h : Closes env b n s r s') (hs : OnlyColumns s) : OnlyColumns s' :=
  (maintains_makeResult _ _ _ _ s r s' hs h).1

/-! ## Select lists -/

@[simp]
theorem selectList?_withCondition (clause : Clause) (m condition : Node) :
    (withCondition clause m condition).selectList? = m.selectList? := by
  unfold withCondition
  split <;> exact selectList?_set (by decide) _

@[simp]
theorem selectList?_withList (m : Node) (items : List Node) : (withList m items).selectList? = some items :=
  selectList?_setSelect m items

@[simp]
theorem selectList?_aggregated (m : Node) (items groups : List Node) (hasCalls : Bool) :
    (aggregated m items groups hasCalls).selectList? = some (if items.isEmpty then [Node.number "1"] else items) := by
  unfold aggregated
  dsimp only
  split
  · exact selectList?_withList _ _
  · rw [selectList?_set (by decide), selectList?_withList]

/-! ## Operators -/

/-- **A filter** puts its condition into one clause. -/
theorem opened_filterResult {condition : Expr} {ids : List String}
    (h : (filterResult env sub input condition ids rel x).Gives s r s') :
    ∃ b s₁ c s₂, OpensKnown env (x.expecting [filterClause env input condition] (ignoresClauses rel)) rel ids s b s₁
      ∧ (scalarNode env sub b.context condition).Gives s₁ c s₂
      ∧ Closes env b (withCondition (filterClause env input condition) b.select c) s₂ r s' := by
  simp only [filterResult, ConvertM.gives_bind, ConvertM.gives_lift] at h
  obtain ⟨u, s₁, hids, b, s₂, hb, c, s₃, hc, b', s₄, ⟨hput, rfl⟩, hresult⟩ := h
  refine ⟨b, s₂, c, _, ⟨s₁, hids, hb⟩, hc, ?_⟩
  rcases filterClause_three env input condition with hclause | hclause | hclause <;>
    simp only [hclause] at hput ⊢ <;> obtain rfl := put_eq_ok hput <;> exact hresult

/-- **A projection** sets the select list, unless it changes nothing, and makes rows distinct. -/
theorem opened_projectResult {projects : List Expr} {distinct : Bool} {ids : List String}
    (h : (projectResult env sub input projects distinct ids rel x).Gives s r s') :
    ∃ b s₁ n s₂, OpensKnown env (x.expecting [.select]) rel ids s b s₁
      ∧ ((isIdentity input projects rel.fields = true ∧ n = b.select ∧ s₂ = s₁)
        ∨ (isIdentity input projects rel.fields = false
          ∧ ∃ ns, (projects.mapM (projectedNode env sub b.context)).Gives s₁ ns s₂
            ∧ ns.length ≤ rel.fields.length ∧ n = withList b.select (namedItems ns rel.fields)))
      ∧ Closes env b (if distinct then n.set "distinct" (some (.flag true)) else n) s₂ r s' := by
  simp only [projectResult, ConvertM.gives_bind] at h
  obtain ⟨u, s₁, hids, b, s₂, hb, h⟩ := h
  have hcloses : ∀ {n : Node} {t : State}, (Builder.result env
      (if distinct then Builder.setDistinct { b with select := n } else { b with select := n })).Gives t r s' →
      Closes env b (if distinct then n.set "distinct" (some (.flag true)) else n) t r s' := by
    intro n t ht
    cases distinct <;> exact ht
  cases hidentity : isIdentity input projects rel.fields with
  | true =>
    simp only [hidentity, if_true, ConvertM.gives_bind, ConvertM.gives_pure] at h
    obtain ⟨b', s₃, ⟨rfl, rfl⟩, hresult⟩ := h
    exact ⟨b, _, b.select, _, ⟨s₁, hids, hb⟩, .inl ⟨rfl, rfl, rfl⟩, hcloses hresult⟩
  | false =>
    simp only [hidentity, Bool.false_eq_true, if_false, ConvertM.gives_bind, ConvertM.gives_lift,
      ConvertM.gives_pure] at h
    obtain ⟨ns, s₄, hns, items, s₅, ⟨hitems, rfl⟩, b', s₃, ⟨rfl, rfl⟩, hresult⟩ := h
    obtain ⟨hlength, rfl⟩ := addSelects_eq_ok (by simp) hitems
    simp only [List.length_nil, List.drop_zero, List.nil_append, Nat.zero_add] at hresult hlength
    exact ⟨b, _, _, _, ⟨s₁, hids, hb⟩, .inr ⟨rfl, ns, hns, hlength, rfl⟩, hcloses hresult⟩

/-- **An aggregation** sets the select list, and groups. -/
theorem opened_aggregateResult {keys : List Ordinal} {sets : List (List Ordinal)} {calls : List AggregateCall}
    (h : (aggregateResult env keys sets calls rel x).Gives s r s') :
    ∃ b s₁ ks gs ns, ((x.expecting [.groupBy] (ignoresClauses rel)).builder env rel).Gives s b s₁
      ∧ keys.mapM (b.context.field env) = .ok ks ∧ groupByNodes env b.context keys sets = .ok gs
      ∧ calls.mapM (aggregateNode env b.context) = .ok ns ∧ ks.length + ns.length ≤ rel.fields.length
      ∧ Closes env b (aggregated b.select (namedItems (ks ++ ns) rel.fields) gs !calls.isEmpty) s₁ r s' := by
  simp only [aggregateResult, ConvertM.gives_bind, ConvertM.gives_lift] at h
  obtain ⟨b, s₁, hb, ks, s₂, ⟨hks, rfl⟩, named, s₃, ⟨hnamed, rfl⟩, gs, s₄, ⟨hgs, rfl⟩, ns, s₅, ⟨hns, rfl⟩,
    items, s₆, ⟨hitems, rfl⟩, h⟩ := h
  obtain ⟨hlength, rfl⟩ := addSelects_twice hnamed hitems
  refine ⟨b, _, ks, gs, ns, hb, hks, hgs, hns, hlength, ?_⟩
  unfold aggregated
  split at h
  · rename_i hplain
    simp only [ConvertM.gives_bind, ConvertM.gives_pure] at h
    obtain ⟨b', s₇, ⟨rfl, rfl⟩, hresult⟩ := h
    rw [if_pos hplain]
    exact hresult
  · rename_i hgroups
    simp only [ConvertM.gives_bind, ConvertM.gives_lift] at h
    obtain ⟨b', s₇, ⟨hput, rfl⟩, hresult⟩ := h
    obtain rfl := put_eq_ok hput
    rw [if_neg hgroups]
    exact hresult

end AlgebraSql.Convert
