import AlgebraSql.Proofs.Matching
import AlgebraSql.Proofs.Surroundings

/-!
# Agreement — expressions that have the same values in two contexts.

What an expression computes depends on what its fields stand for, and on nothing else of the query in
which it is written.  Two readings of nodes, each at its own points, agree on the nodes of an expression
if they agree on the nodes of its fields.
-/

namespace AlgebraSql

open Sql Node

/-! ## Readings -/

/-- A way to read values from nodes at points, by which an operation computes from its children. -/
structure Reading (E : Engine) (α : Type) where
  value : Node → Option (α → List Datum)
  operation : ∀ n : Node, n.manner = .operation →
    value n = (together (n.children.map value)).map fun vs a => operate E n.bare (vs a)

variable {E : Engine} {db : Database}

/-- The values of expressions without windowed calls, under some names. -/
def Reading.scalar (E : Engine) (db : Database) (names : Names) : Reading E Focus where
  value := Node.scalar E db names
  operation _ h := scalar_of_operation h

/-- The values of expressions, under some names. -/
def Reading.analytic (E : Engine) (db : Database) (names : Names) : Reading E Spot where
  value := Node.analytic E db names
  operation _ h := analytic_of_operation h

/-- Two nodes have values that agree at corresponding points. -/
def Agrees {α β : Type} (V : Reading E α) (W : Reading E β) (P : α → β → Prop) (m n : Node) : Prop :=
  ∃ v w, V.value m = some v ∧ W.value n = some w ∧ ∀ a b, P a b → v a = w b

theorem together_agree {α β : Type} {V : Reading E α} {W : Reading E β} {P : α → β → Prop}
    {ms ns : List Node} (h : List.Forall₂ (Agrees V W P) ms ns) :
    ∃ v w, together (ms.map V.value) = some v ∧ together (ns.map W.value) = some w
      ∧ ∀ a b, P a b → v a = w b := by
  induction h with
  | nil => exact ⟨_, _, rfl, rfl, fun _ _ _ => rfl⟩
  | @cons m n ms ns hmn _ ih =>
    obtain ⟨v, w, hv, hw, hvw⟩ := hmn
    obtain ⟨vs, ws, hvs, hws, hrest⟩ := ih
    refine ⟨fun a => v a :: vs a, fun b => w b :: ws b, ?_, ?_, fun a b hab => ?_⟩
    · simp only [List.map_cons, hv, together, hvs, Option.map_some]
    · simp only [List.map_cons, hw, together, hws, Option.map_some]
    · simp only [hvw a b hab, hrest a b hab]

/-- **Agreement** is kept by operations. -/
theorem congruent_agrees {α β : Type} (V : Reading E α) (W : Reading E β) (P : α → β → Prop) :
    Congruent (Agrees V W P) where
  args {k as bs} hk h := by
    have hk' : (Node.mk k bs).manner = .operation := by
      have hquery : ((Node.mk k as).arg? "query").isSome = ((Node.mk k bs).arg? "query").isSome := by
        have hrel := Congruent.rel_get? h "query"
        rw [arg?_mk, arg?_mk]
        generalize as.get? "query" = a at hrel
        generalize bs.get? "query" = b at hrel
        cases hrel with
        | none => rfl
        | some hab => cases hab <;> rfl
      unfold manner at hk ⊢
      simp only [kind_mk, hquery] at hk ⊢
      exact hk
    obtain ⟨vs, ws, hvs, hws, hagree⟩ := together_agree (children_rel h (k := k))
    refine ⟨_, _, by rw [V.operation _ hk, hvs]; rfl, by rw [W.operation _ hk', hws]; rfl, ?_⟩
    intro a b hab
    simp only [bare_eq h, hagree a b hab]

/-! ## Sub-queries -/

/-- The rows of a query by itself. -/
def Alone (E : Engine) (db : Database) (q : Node) : Prop := (q.rows E db Names.none).isSome

/-- **Tests with a query** that stands alone agree wherever they are read. -/
theorem Convert.queries_agree {names names' : Names} (P : Focus → Focus → Prop) {q : Node}
    (h : Alone E db q) :
    Convert.Queries (Agrees (Reading.scalar E db names) (Reading.scalar E db names') P) q := by
  obtain ⟨v, hv⟩ := Option.isSome_iff_exists.mp h
  have hrows : ∀ names : Names, q.rows E db names = some fun _ => v [] := by
    intro names
    obtain ⟨v', hv', hsame⟩ := rows_of_alone hv names
    rw [hv']
    exact congrArg some (funext hsame)
  have hexists : ∀ names : Names, (Node.wrap .exists q).scalar E db names
      = some fun _ => [.bool !(v []).isEmpty] := by
    intro names
    have hthis : (Node.wrap .exists q).child? "this" = some q := by simp [Node.wrap, child?]
    rw [scalar_eq, scalarStep, show (Node.wrap .exists q).manner = .exists from rfl]
    simp only [only_partsOf hthis]
    rw [show (q.meaning E db).rows names = _ from hrows names]
    rfl
  have hsub : ∀ names : Names, (Node.subquery q).rows E db names = some fun _ => v [] := by
    intro names
    have hthis : (Node.subquery q).child? "this" = some q := by simp [Node.subquery, Node.wrap, child?]
    rw [rows_eq, rowsStep, show (Node.subquery q).kind = .subquery from rfl]
    simp only [only_partsOf hthis]
    exact hrows names
  have hvalue : ∀ names : Names, (Node.subquery q).scalar E db names
      = some fun _ => [firstValue (v [])] := by
    intro names
    rw [scalar_eq, scalarStep, show (Node.subquery q).manner = .query from rfl]
    simp only
    rw [← rows_eq, hsub]
    rfl
  refine ⟨⟨_, _, hexists names, hexists names', fun _ _ _ => rfl⟩,
    ⟨_, _, hvalue names, hvalue names', fun _ _ _ => rfl⟩, ?_⟩
  rintro m n negated ⟨x, y, hx, hy, hxy⟩
  have hmember : ∀ (names : Names) (m : Node) (x : Focus → List Datum), m.scalar E db names = some x →
      (Node.inQuery m (Node.subquery q) negated).scalar E db names
        = some fun f => [Datum.member negated (x f) (v [])] := by
    intro names m x hx
    have hthis : (Node.inQuery m (Node.subquery q) negated).child? "this" = some m := by
      simp [Node.inQuery, child?]
    have hquery : (Node.inQuery m (Node.subquery q) negated).child? "query" = some (Node.subquery q) := by
      simp [Node.inQuery, child?]
    have hmanner : (Node.inQuery m (Node.subquery q) negated).manner = .membership := rfl
    have hflag : (Node.inQuery m (Node.subquery q) negated).flag "negated" = negated := by
      simp [Node.inQuery, Node.flag]
    rw [scalar_eq, scalarStep, hmanner]
    simp only [only_partsOf hthis, only_partsOf hquery, hflag]
    rw [show (m.meaning E db).scalar names = _ from hx,
      show ((Node.subquery q).meaning E db).rows names = _ from hsub names]
    rfl
  exact ⟨_, _, hmember names m x hx, hmember names' n y hy, fun a b hab => by rw [hxy a b hab]⟩

end AlgebraSql
