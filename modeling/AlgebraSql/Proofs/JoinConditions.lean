import AlgebraSql.Proofs.ScalarValues

/-!
# Join conditions — they are converted like any other condition.

A condition is taken apart along its conjunctions and disjunctions.  What they connect is converted in the context
of both inputs; only a comparison of two plain fields has the field of the left input first.  A comparison from
which the conversion of a text has been dropped is converted like one that never had it, so nothing else may be
dropped from it: a conversion below the dropped one stays as it is only if the database does not make it by itself.
-/

namespace AlgebraSql

namespace Scalar

variable {ρ : Type}

/-- A call that connects conditions. -/
def isConnective (op : Operator) : Bool := op.kind == .and || op.kind == .or

/-! ## Connected conditions -/

mutual

/-- What the conjunctions and disjunctions of a condition connect, from left to right. -/
def terms : Scalar ρ → List (Scalar ρ)
  | .call op es t => if isConnective op then termsOf es else [.call op es t]
  | e => [e]

/-- What the conjunctions and disjunctions of several conditions connect. -/
def termsOf : List (Scalar ρ) → List (Scalar ρ)
  | [] => []
  | e :: es => terms e ++ termsOf es

end

mutual

/-- A condition with something else in the place of each term. -/
def mapTerms (f : Scalar ρ → Scalar ρ) : Scalar ρ → Scalar ρ
  | .call op es t => if isConnective op then .call op (mapTermsOf f es) t else f (.call op es t)
  | e => f e

/-- Conditions with something else in the place of each term. -/
def mapTermsOf (f : Scalar ρ → Scalar ρ) : List (Scalar ρ) → List (Scalar ρ)
  | [] => []
  | e :: es => mapTerms f e :: mapTermsOf f es

end

mutual

/-- A condition whose terms stay as they are stays as it is. -/
theorem mapTerms_eq_self {f : Scalar ρ → Scalar ρ} : ∀ e : Scalar ρ, (∀ c ∈ e.terms, f c = c) → e.mapTerms f = e
  | .call op es t, h => by
    rw [terms] at h
    rw [mapTerms]
    split
    · rename_i hop
      rw [if_pos hop] at h
      rw [mapTermsOf_eq_self es h]
    · rename_i hop
      rw [if_neg hop] at h
      exact h _ (List.mem_singleton_self _)
  | .inputRef i t, h => h _ (List.mem_singleton_self _)
  | .localRef i shared t, h => h _ (List.mem_singleton_self _)
  | .literal l, h => h _ (List.mem_singleton_self _)
  | .overWindow op es window distinct t, h => h _ (List.mem_singleton_self _)
  | .fieldAccess row field i t, h => h _ (List.mem_singleton_self _)
  | .correlation id t, h => h _ (List.mem_singleton_self _)
  | .subQuery op es relation t, h => h _ (List.mem_singleton_self _)
  | .parameter i t, h => h _ (List.mem_singleton_self _)
  | .patternField symbol i t, h => h _ (List.mem_singleton_self _)

theorem mapTermsOf_eq_self {f : Scalar ρ → Scalar ρ} :
    ∀ es : List (Scalar ρ), (∀ c ∈ termsOf es, f c = c) → mapTermsOf f es = es
  | [], _ => rfl
  | e :: es, h => by
    rw [termsOf] at h
    rw [mapTermsOf, mapTerms_eq_self e fun c hc => h c (List.mem_append_left _ hc),
      mapTermsOf_eq_self es fun c hc => h c (List.mem_append_right _ hc)]

end

end Scalar

namespace Convert

open Sql Node Scalar

variable {ρ : Type} {env : Env} {sub : ρ → ConvertM Node} {ctx left right : Context}

/-! ## Comparisons -/

/-- Two plain fields of which the second one alone is among the first `width`. -/
def isRightFirst (width : Nat) : List (Scalar ρ) → Bool
  | [.inputRef a _, .inputRef b _] => b.lt width && !a.lt width
  | _ => false

/-- A comparison of two plain fields, without the conversion that the database makes by itself, that has the right
field first. -/
def comparesRightFirst (d : Dialect) (width : Nat) : Scalar ρ → Bool
  | .call op es _ => isFieldComparison op.kind && isRightFirst width (withoutCast d op es)
  | _ => false

/-- **`turned`** — such a comparison with the left field first.  Any other condition stays as it is. -/
def turned (d : Dialect) (width : Nat) (e : Scalar ρ) : Scalar ρ :=
  match e with
  | .call op es t =>
    if comparesRightFirst d width e then .call op.reversed (withoutCast d op es).reverse t else .call op es t
  | e => e

theorem turned_eq_self {d : Dialect} {width : Nat} {e : Scalar ρ} (h : comparesRightFirst d width e = false) :
    turned d width e = e := by
  unfold turned
  split
  · rw [h]
    rfl
  · rfl

/-- A comparison from which a conversion has been dropped would lose another one. -/
def losesTwice (d : Dialect) : Scalar ρ → Bool
  | .call op es _ => isFieldComparison op.kind && castSide d op.kind (withoutCast d op es) != .neither
  | _ => false

theorem withoutCast_of_neither {d : Dialect} {op : Operator} {es : List (Scalar ρ)}
    (h : castSide d op.kind es = .neither) : withoutCast d op es = es := by
  unfold withoutCast
  rw [h]

/-- A comparison is turned round exactly where the right field stands first. -/
theorem leftFirst_eq (width : Nat) (op : Operator) (es : List (Scalar ρ)) (t : DataType) :
    leftFirst width op es t = if isRightFirst width es then .call op.reversed es.reverse t else .call op es t := by
  unfold leftFirst
  split
  · rfl
  · rename_i hother
    rw [if_neg]
    unfold isRightFirst
    split
    · exact absurd rfl (hother _ _ _ _)
    · exact Bool.false_ne_true

/-- A conjunction or disjunction connects what its operands are written as. -/
theorem scalarNode_connective {op : Operator} (hop : isConnective op = true) (es : List (Scalar ρ)) (t : DataType) :
    scalarNode env sub ctx (.call op es t)
      = (do
        let ns ← scalarNodes env sub ctx es
        return if op.kind == .and then Node.and ns else Node.or ns) := by
  simp only [isConnective, Bool.or_eq_true, beq_iff_eq] at hop
  rw [scalarNode.eq_def]
  rcases hop with hop | hop <;> simp [hop]

/-- **A comparison** is an operation on its operands, without the conversion that the database makes by itself. -/
theorem scalarNode_comparison {op : Operator} (hop : isFieldComparison op.kind = true) (es : List (Scalar ρ))
    (t : DataType) : scalarNode env sub ctx (.call op es t)
      = (do operationNode op (← scalarNodes env sub ctx (withoutCast env.dialect op es))) := by
  have hwritten : ∀ types, env.dialect.retarget op types = .ok op := by
    intro types
    unfold Dialect.retarget
    split <;> simp_all [isFieldComparison, OperatorKind.isComparison]
  -- the kinds with a form of their own are no comparisons
  rw [scalarNode.eq_def]
  simp only
  split
  case h_10 =>
    rw [hwritten]
    unfold withoutCast
    split
    · simp only [scalarNodes, bind_assoc, pure_bind]
      rfl
    · simp only [scalarNodes, bind_assoc, pure_bind]
      rfl
    · rfl
  all_goals simp_all [isFieldComparison, OperatorKind.isComparison]

/-! ## Conditions -/

/-- A comparison as the condition of a join is the comparison with the left field first. -/
theorem conditionNode_comparison {op : Operator} (hop : isFieldComparison op.kind = true) {es : List (Scalar ρ)}
    {t : DataType} (h : losesTwice env.dialect (.call op es t) = false) :
    conditionNode env sub left right (.call op es t)
      = scalarNode env sub (.join left right) (turned env.dialect left.fieldCount (.call op es t)) := by
  have hneither : castSide env.dialect op.kind (withoutCast env.dialect op es) = .neither := by
    simpa [losesTwice, hop] using h
  have hand : (op.kind == .and) = false := by
    cases hkind : op.kind <;> simp_all [isFieldComparison, OperatorKind.isComparison]
  have hor : (op.kind == .or) = false := by
    cases hkind : op.kind <;> simp_all [isFieldComparison, OperatorKind.isComparison]
  rw [conditionNode, hand, hor, hop, leftFirst_eq, turned, comparesRightFirst, hop, Bool.true_and]
  simp only [Bool.false_eq_true, if_false, if_true]
  split
  · rfl
  · -- nothing else is dropped from a comparison that stays as it is
    rw [scalarNode_comparison hop, scalarNode_comparison hop, withoutCast_of_neither hneither]

mutual

/-- **`conditionNode`** — the condition of a join is the condition in the context of both inputs, whose comparisons
have the left field first. -/
theorem conditionNode_eq (left right : Context) : ∀ e : Scalar ρ, (∀ c ∈ e.terms, losesTwice env.dialect c = false) →
    conditionNode env sub left right e
      = scalarNode env sub (.join left right) (e.mapTerms (turned env.dialect left.fieldCount))
  | .call op es t, h => by
    rw [terms] at h
    rw [mapTerms]
    by_cases hop : isConnective op = true
    · rw [if_pos hop] at h ⊢
      rw [scalarNode_connective hop, conditionNode, conditionNodes_eq left right es h]
      simp only [isConnective, Bool.or_eq_true, beq_iff_eq] at hop
      rcases hop with hop | hop <;> simp [hop]
    · rw [if_neg hop] at h ⊢
      have hkeeps : losesTwice env.dialect (.call op es t) = false := h _ (List.mem_singleton_self _)
      by_cases hcompares : isFieldComparison op.kind = true
      · exact conditionNode_comparison hcompares hkeeps
      · simp only [isConnective, Bool.or_eq_true, not_or] at hop
        rw [conditionNode, if_neg hop.1, if_neg hop.2, if_neg hcompares, turned_eq_self]
        simp [comparesRightFirst, hcompares]
  | .literal ⟨value, type⟩, h => by
    cases value with
    | boolean b => rfl
    | _ => rfl
  | .inputRef i t, h => rfl
  | .localRef i shared t, h => rfl
  | .overWindow op es window distinct t, h => rfl
  | .fieldAccess row field i t, h => rfl
  | .correlation id t, h => rfl
  | .subQuery op es relation t, h => rfl
  | .parameter i t, h => rfl
  | .patternField symbol i t, h => rfl

theorem conditionNodes_eq (left right : Context) : ∀ es : List (Scalar ρ),
    (∀ c ∈ termsOf es, losesTwice env.dialect c = false) →
    conditionNodes env sub left right es
      = scalarNodes env sub (.join left right) (mapTermsOf (turned env.dialect left.fieldCount) es)
  | [], _ => rfl
  | e :: es, h => by
    rw [termsOf] at h
    rw [conditionNodes, mapTermsOf, scalarNodes,
      conditionNode_eq left right e fun c hc => h c (List.mem_append_left _ hc),
      conditionNodes_eq left right es fun c hc => h c (List.mem_append_right _ hc)]

end

/-- **`conditionNode`** — the condition of a join is converted as the context of both inputs converts it, with the
left field first in each comparison that has the right field first, if no comparison loses two conversions. -/
theorem conditionNode_translated (env : Env) (sub : ρ → ConvertM Node) (left right : Context) (e : Scalar ρ)
    (h : ∀ c ∈ e.terms, losesTwice env.dialect c = false) :
    conditionNode env sub left right e
        = scalarNode env sub (.join left right) (e.mapTerms (turned env.dialect left.fieldCount))
      ∧ ((∀ c ∈ e.terms, comparesRightFirst env.dialect left.fieldCount c = false) →
        conditionNode env sub left right e = scalarNode env sub (.join left right) e) := by
  have heq : conditionNode env sub left right e
      = scalarNode env sub (.join left right) (e.mapTerms (turned env.dialect left.fieldCount)) :=
    conditionNode_eq left right e h
  refine ⟨heq, fun hfirst => ?_⟩
  rw [heq, mapTerms_eq_self e fun c hc => turned_eq_self (hfirst c hc)]

/-- People with a number and a name. -/
def peopleContext : Context := .aliases [("p", [⟨"id", .integer⟩, ⟨"name", .varchar⟩])] true

/-- Orders with the number of a person. -/
def ordersContext : Context := .aliases [("o", [⟨"person", .integer⟩])] true

/-- `(CAST(name AS INTEGER) = 1 OR person >= id) AND id IS DISTINCT FROM person`. -/
def namedOrOwned : Expr :=
  .call Operator.and
    [.call Operator.or
      [.call Operator.equals
        [.call Operator.cast [.inputRef (1 : Nat) .varchar] .integer, .literal ⟨.exact "1", .integer⟩] .boolean,
        .call Operator.greaterThanOrEqual [.inputRef (2 : Nat) .integer, .inputRef (0 : Nat) .integer] .boolean]
        .boolean,
      .call Operator.isDistinctFrom [.inputRef (0 : Nat) .integer, .inputRef (2 : Nat) .integer] .boolean]
    .boolean

/-- A conversion is dropped from it, and the comparison of two fields is turned round. -/
theorem conditionNode_translated_namedOrOwned :
    let env : Env := ⟨.ansi, []⟩
    let sub : Rel → ConvertM Node := fun _ => pure Node.null
    (∀ c ∈ namedOrOwned.terms, losesTwice env.dialect c = false)
      ∧ conditionNode env sub peopleContext ordersContext namedOrOwned
        = scalarNode env sub (.join peopleContext ordersContext) (namedOrOwned.mapTerms (turned env.dialect 2))
      ∧ conditionNode env sub peopleContext ordersContext namedOrOwned
        = pure (Node.and
          [Node.or [Node.binary .eq (Node.column "name" (some "p")) (Node.number "1"),
            Node.binary .lte (Node.column "id" (some "p")) (Node.column "person" (some "o"))],
          negatable .isDistinctFrom (Node.column "id" (some "p")) [Node.column "person" (some "o")] false false]) := by
  intro env sub
  have h : ∀ c ∈ namedOrOwned.terms, losesTwice env.dialect c = false := by decide
  exact ⟨h, (conditionNode_translated env sub peopleContext ordersContext namedOrOwned h).1, rfl⟩

/-- `CAST(CAST(name AS VARCHAR) AS INTEGER) = person`. -/
def convertedTwice : Expr :=
  .call Operator.equals
    [.call Operator.cast [.call Operator.cast [.inputRef (1 : Nat) .varchar] .varchar] .integer,
      .inputRef (2 : Nat) .integer] .boolean

/-- It loses both conversions in the condition of a join, and one of them anywhere else. -/
theorem conditionNode_convertedTwice :
    let env : Env := ⟨.ansi, []⟩
    let sub : Rel → ConvertM Node := fun _ => pure Node.null
    conditionNode env sub peopleContext ordersContext convertedTwice
        ≠ scalarNode env sub (.join peopleContext ordersContext) (convertedTwice.mapTerms (turned env.dialect 2)) := by
  intro env sub h
  have hkinds : (conditionNode env sub peopleContext ordersContext convertedTwice).value.toOption.bind
      (fun n => n.this?.map kind) = some Kind.column := rfl
  rw [h] at hkinds
  exact absurd hkinds (by decide +kernel)

end Convert

end AlgebraSql
