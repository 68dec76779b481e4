import AlgebraSql.Proofs.FaithfulPlans

/-!
# Bags of joins — which rows a join denotes, and what its condition says about a pair of them.

A join pairs the rows of its inputs for which its condition is true.  An outer join keeps the rows without a partner
beside missing values; a semi join or an anti join keeps the left rows with or without a partner, each as often as it
occurs.  Conditions compare fields and constants; what a constant of any type is worth is up to the engine that
reads its literal.
-/

namespace AlgebraSql

open Sql Node

/-! ## Joins of bags -/

namespace JoinType

/-- Left rows without a partner are kept. -/
def keepsLeft : JoinType → Bool
  | .left | .full => true
  | _ => false

/-- Right rows without a partner are kept. -/
def keepsRight : JoinType → Bool
  | .right | .full => true
  | _ => false

/-- A bag has a row that passes a test. -/
def hasRow (test : Row → Bool) (rows : Multiset Row) : Bool := 0 < rows.countP fun r => test r

theorem hasRow_coe (test : Row → Bool) (rows : List Row) : hasRow test rows = rows.any test := by
  rw [Bool.eq_iff_iff, hasRow, decide_eq_true_iff, Multiset.countP_pos, List.any_eq_true]
  rfl

/-- The pairs of rows that belong together. -/
def pairs (partners : Row → Row → Bool) (ls rs : Multiset Row) : Multiset Row :=
  ls.bind fun l => (rs.filter fun r => partners l r).map (l ++ ·)

/-- **`onBags`** — a join of bags of rows of two widths. -/
def onBags (type : JoinType) (partners : Row → Row → Bool) (leftWidth rightWidth : Nat) (ls rs : Multiset Row) :
    Multiset Row :=
  match type with
  | .semi => ls.filter fun l => hasRow (partners l) rs
  | .anti => ls.filter fun l => ¬hasRow (partners l) rs
  | _ =>
    pairs partners ls rs
      + (if type.keepsLeft then (ls.filter fun l => ¬hasRow (partners l) rs).map (· ++ nulls rightWidth) else 0)
      + (if type.keepsRight then (rs.filter fun r => ¬hasRow (partners · r) ls).map (nulls leftWidth ++ ·) else 0)

variable {partners : Row → Row → Bool} {leftWidth rightWidth : Nat}

/-- A semi join and an anti join share out the rows of the left input. -/
theorem onBags_semi_add_anti (ls rs : Multiset Row) :
    semi.onBags partners leftWidth rightWidth ls rs + anti.onBags partners leftWidth rightWidth ls rs = ls :=
  Multiset.filter_add_not _ ls

/-- **The full product**: every pair of rows, if all belong together. -/
theorem onBags_inner_of_forall (h : ∀ l r, partners l r = true) (ls rs : Multiset Row) :
    inner.onBags partners leftWidth rightWidth ls rs = (ls ×ˢ rs).map fun p => p.1 ++ p.2 := by
  have hpairs : pairs partners ls rs = ls.bind fun l => rs.map (l ++ ·) := by
    simp only [pairs, h, Multiset.filter_true]
  show pairs partners ls rs + 0 + 0 = _
  rw [add_zero, add_zero, hpairs]
  simp [SProd.sprod, Multiset.product, Multiset.map_bind]

/-- The rows of a list without a partner in another one, kept or not. -/
theorem bag_unmatched (keep : Bool) (test : Row → Row → Bool) (widen : Row → Row) (rows others : List Row) :
    ((if keep then (rows.filter fun r => !others.any (test r)).map widen else [] : List Row) : Multiset Row)
      = if keep then ((rows : Multiset Row).filter fun r => ¬hasRow (test r) others).map widen else 0 := by
  cases keep with
  | false => rfl
  | true =>
    simp only [if_true, Multiset.filter_coe, Multiset.map_coe, hasRow_coe, Bool.not_eq_true, Bool.decide_eq_false]

/-- Rows of lists are joined as their bags are. -/
theorem bag_joinRows (left right : Bool) (ls rs : List Row) :
    ((joinRows left right leftWidth rightWidth partners ls rs : List Row) : Multiset Row)
      = pairs partners ls rs
        + (if left then ((ls : Multiset Row).filter fun l => ¬hasRow (partners l) rs).map (· ++ nulls rightWidth) else 0)
        + (if right then ((rs : Multiset Row).filter fun r => ¬hasRow (partners · r) ls).map (nulls leftWidth ++ ·)
            else 0) := by
  have hpairs : ((ls.flatMap fun l => (rs.filter (partners l)).map (l ++ ·) : List Row) : Multiset Row)
      = pairs partners ls rs := by
    simp only [pairs, Multiset.filter_coe, Multiset.map_coe, Bool.decide_eq_true]
    exact (Multiset.coe_bind ls _).symm
  rw [joinRows, ← Multiset.coe_add, ← Multiset.coe_add, hpairs]
  exact congrArg₂ (· + ·) (congrArg _ (bag_unmatched left partners _ ls rs))
    (bag_unmatched right (fun r l => partners l r) _ rs ls)

end JoinType

/-! ## Conditions -/

/-- The operators of a condition that compare two values, missing ones included or not. -/
def Operator.comparisons : List Operator :=
  [.equals, .notEquals, .greaterThan, .greaterThanOrEqual, .lessThan, .lessThanOrEqual, .isDistinctFrom,
    .isNotDistinctFrom]

namespace Scalar

variable {ρ : Type}

mutual

/-- The value of an expression for a row where constants have given values. -/
def valueWith (P : Patterns) (constant : Literal → Datum) (row : Row) : Scalar ρ → Datum
  | .inputRef i _ => (nth? row i).getD .null
  | .literal l => constant l
  | .call op operands _ => op.compute P (valuesWith P constant row operands)
  | _ => .null

/-- The values of several expressions where constants have given values. -/
def valuesWith (P : Patterns) (constant : Literal → Datum) (row : Row) : List (Scalar ρ) → List Datum
  | [] => []
  | e :: es => valueWith P constant row e :: valuesWith P constant row es

end

/-- **`partners`** — two rows for which a condition on both is true, and not only not false. -/
def partners (P : Patterns) (constant : Literal → Datum) (condition : Scalar ρ) (l r : Row) : Bool :=
  condition.valueWith P constant (l ++ r) == .bool true

theorem valuesWith_eq_map (P : Patterns) (constant : Literal → Datum) (row : Row) (es : List (Scalar ρ)) :
    valuesWith P constant row es = es.map (valueWith P constant row) := by
  induction es with
  | nil => rfl
  | cons e es ih => rw [valuesWith, ih, List.map_cons]

/-- **`Criterion`** — a condition over the fields of a row: fields, constants that can be written, comparisons, with
missing values or without, AND, OR and NOT. -/
inductive Criterion (width : Nat) : Scalar ρ → Prop
  | field {i : Nat} (h : i < width) (t : DataType) : Criterion width (.inputRef i t)
  | constant {l : Literal} (h : ∀ d, ∃ n, Convert.literalNode d l = .ok n) : Criterion width (.literal l)
  | comparison {op : Operator} {x y : Scalar ρ} (h : op ∈ Operator.comparisons) (hx : Criterion width x)
      (hy : Criterion width y) (t : DataType) : Criterion width (.call op [x, y] t)
  | connective {op : Operator} {es : List (Scalar ρ)} (h : op ∈ [Operator.and, Operator.or])
      (hes : ∀ e ∈ es, Criterion width e) (t : DataType) : Criterion width (.call op es t)
  | denial {e : Scalar ρ} (he : Criterion width e) (t : DataType) : Criterion width (.call Operator.not [e] t)

variable {width : Nat} {e : Scalar ρ}

/-- The operators of conditions. -/
theorem Criterion.operator_mem (he : e.Criterion width) {op : Operator} (h : e.operator? = some op) :
    op ∈ Operator.comparisons ++ [Operator.and, Operator.or, Operator.not] := by
  cases he with
  | field | constant => cases h
  | comparison hop => exact Option.some.inj h ▸ List.mem_append_left _ hop
  | connective hop =>
    obtain rfl := Option.some.inj h
    exact List.mem_append_right _ (List.mem_append_left [Operator.not] hop)
  | denial =>
    obtain rfl := Option.some.inj h
    decide

/-- Nothing is converted to another type in a condition. -/
theorem Criterion.isCast_eq_false (he : e.Criterion width) : e.isCast = false := by
  cases e with
  | call op es t =>
    have hop := he.operator_mem rfl
    have hkinds : ∀ op ∈ Operator.comparisons ++ [Operator.and, Operator.or, Operator.not],
        (op.kind == .cast) = false := by decide
    exact hkinds op hop
  | _ => rfl

end Scalar

end AlgebraSql
