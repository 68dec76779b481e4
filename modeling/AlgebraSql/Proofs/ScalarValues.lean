import AlgebraSql.Proofs.Contexts
import AlgebraSql.Proofs.ItemNames
import AlgebraSql.Proofs.Values

/-!
# Expressions of the algebra — what they mean for a row, and that their SQL means the same.

An expression is evaluated on a row of its input: truth values with UNKNOWN, a missing value in every
comparison that it takes part in, numbers, lists of values, patterns and case distinctions.  The
conversion writes an operation as the node that has the same value.  Only NOT is written in a way of
its own: two of them cancel, and one in front of a test that carries its own denial turns the test over.
-/

namespace AlgebraSql

open Sql Node

/-! ## Operators -/

namespace Datum

/-- The value behind the first condition that holds, among conditions with values and one more value
behind them. -/
def decided (holds : Datum → Bool) : List Datum → Datum
  | condition :: value :: rest => if holds condition then value else decided holds rest
  | [d] => d
  | [] => .null

/-- A case distinction: conditions with values and one more value; of an even number of values, the
first one is what the conditions are compared with. -/
def cases : List Datum → Datum
  | [] => .null
  | d :: ds =>
    if ds.length % 2 = 0 then decided (· == .bool true) (d :: ds)
    else decided (fun e => d.equal e == .bool true) ds

theorem isTest_false (d e : Datum) : d.isTest e false = .bool (decide (d = e)) := by simp [isTest]

theorem isTest_true (d e : Datum) : d.isTest e true = .bool (decide (d ≠ e)) := by simp [isTest]

theorem decided_append (holds : Datum → Bool) :
    ∀ (ds : List Datum), ds.length % 2 = 0 → ∀ d, decided holds (ds ++ [d]) = choose holds d ds
  | [], _, _ => rfl
  | [_], h, _ => by cases h
  | condition :: value :: rest, h, d => by
    have hrest : rest.length % 2 = 0 := by
      simp only [List.length_cons] at h
      omega
    rw [List.cons_append, List.cons_append, decided, choose, decided_append holds rest hrest d]

end Datum

namespace Operator

/-- **`compute`** — what an operator computes from the values of its operands. -/
def compute (P : Patterns) (op : Operator) (ds : List Datum) : Datum :=
  match op.kind, ds with
  | .and, ds => Datum.connect Datum.and (.bool true) ds
  | .or, ds => Datum.connect Datum.or (.bool false) ds
  | .not, [d] => d.not
  | .equals, [d, e] => d.compare (· == .eq) e
  | .notEquals, [d, e] => d.compare (· != .eq) e
  | .greaterThan, [d, e] => d.compare (· == .gt) e
  | .greaterThanOrEqual, [d, e] => d.compare (· != .lt) e
  | .lessThan, [d, e] => d.compare (· == .lt) e
  | .lessThanOrEqual, [d, e] => d.compare (· != .gt) e
  | .isNull, [d] => .bool (decide (d = .null))
  | .isNotNull, [d] => .bool (decide (d ≠ .null))
  | .isTrue, [d] => .bool (decide (d = .bool true))
  | .isNotTrue, [d] => .bool (decide (d ≠ .bool true))
  | .isFalse, [d] => .bool (decide (d = .bool false))
  | .isNotFalse, [d] => .bool (decide (d ≠ .bool false))
  | .isDistinctFrom, [d, e] => .bool (decide (d ≠ e))
  | .isNotDistinctFrom, [d, e] => .bool (decide (d = e))
  | .plus, [d, e] => d.arithmetic (· + ·) e
  | .minus, [d, e] => d.arithmetic (· - ·) e
  | .times, [d, e] => d.arithmetic (· * ·) e
  | .negate, [d] => d.negate
  | .in, d :: ds => d.among ds
  | .notIn, d :: ds => (d.among ds).not
  | .like, ds => Datum.tested P.like op.negated ds
  | .similar, ds => Datum.tested P.similar op.negated ds
  | .coalesce, ds => Datum.firstPresent ds
  | .case, ds => Datum.cases ds
  | _, _ => .null

/-- Operators with the types of operands that they take here. -/
inductive Takes : Operator → List DataType → Prop where
  | connective {op : Operator} (h : op ∈ [and, or]) (ts : List DataType) : Takes op ts
  | denial (t : DataType) : Takes not [t]
  | comparison {op : Operator} (h : op ∈ [equals, notEquals, greaterThan, greaterThanOrEqual, lessThan,
      lessThanOrEqual]) (s t : DataType) : Takes op [s, t]
  | distinction {op : Operator} (h : op ∈ [isDistinctFrom, isNotDistinctFrom]) (s t : DataType) :
      Takes op [s, t]
  | test {op : Operator} (h : op ∈ [isNull, isNotNull, isTrue, isNotTrue, isFalse, isNotFalse])
      (t : DataType) : Takes op [t]
  | arithmetic {op : Operator} (h : op ∈ [plus, minus, multiply]) {s t : DataType}
      (hleft : s.family ∈ [.numeric, .null]) (hright : t.family ∈ [.numeric, .null]) : Takes op [s, t]
  | sign {t : DataType} (ht : t.family ∈ [.numeric, .null]) : Takes negate [t]
  | membership {op : Operator} (h : op ∈ [«in», notIn]) (s t : DataType) (ts : List DataType) :
      Takes op (s :: t :: ts)
  | pattern {op : Operator} (h : op ∈ [like, notLike, similarTo, notSimilarTo]) {ts : List DataType}
      (hts : ts.length = 2 ∨ ts.length = 3) : Takes op ts
  | coalesce (ts : List DataType) : Takes coalesce ts
  | case {ts : List DataType} (hts : 3 ≤ ts.length) : Takes case ts

end Operator

/-! ## Expressions -/

/-- The value of a constant that is missing, a text, an exact number or a truth value. -/
def LiteralValue.datum? : LiteralValue → Option Datum
  | .null => some .null
  | .character s => some (.text s)
  | .exact s => some (Datum.ofDigits s)
  | .boolean b => some (.bool b)
  | _ => none

namespace Scalar

variable {ρ : Type}

mutual

/-- **`value`** — the value of an expression for a row. -/
def value (P : Patterns) (row : Row) : Scalar ρ → Datum
  | .inputRef i _ => (nth? row i).getD .null
  | .localRef i shared _ =>
    match i.nat? with
    | some n => valueAt P row n shared
    | none => .null
  | .literal l => l.value.datum?.getD .null
  | .call op operands _ => op.compute P (values P row operands)
  | _ => .null

/-- The values of several expressions. -/
def values (P : Patterns) (row : Row) : List (Scalar ρ) → List Datum
  | [] => []
  | e :: es => value P row e :: values P row es

/-- The value of the expression with `n` others before it. -/
def valueAt (P : Patterns) (row : Row) (n : Nat) : List (Scalar ρ) → Datum
  | [] => .null
  | e :: es => if n = 0 then value P row e else valueAt P row (n - 1) es

end

/-- **`Plain`** — expressions over the fields of a row that are built from constants and the operators
above. -/
inductive Plain (width : Nat) : Scalar ρ → Prop where
  | inputRef {i : Nat} (h : i < width) (t : DataType) : Plain width (.inputRef i t)
  | localRef {i : Nat} {shared : List (Scalar ρ)} {e : Scalar ρ} (h : shared[i]? = some e)
      (he : Plain width e) (t : DataType) : Plain width (.localRef i shared t)
  | literal {l : Literal} (h : l.value.datum?.isSome) : Plain width (.literal l)
  | call {op : Operator} {operands : List (Scalar ρ)} (h : op.Takes (operands.map type))
      (hoperands : ∀ e ∈ operands, Plain width e) (t : DataType) : Plain width (.call op operands t)

end Scalar

/-! ## Nodes of operators -/

section

variable {E : Engine} {P : Patterns} {α : Type} {V : Reading (E.withOperators P) α} {ns : List Node}
  {vs : List (α → Datum)} {op : Operator} {ts : List DataType}

/-- A test that carries its own denial, and shows the opposite when it is turned over. -/
structure Turnable (V : Reading E α) (n : Node) (v : α → Datum) : Prop where
  deniable : Convert.isDeniable n.kind = true
  flipped : V.Shows (Convert.flipped n) fun a => (v a).not

theorem turnable_inList {n : Node} {v : α → Datum} (negated : Bool) (h : V.Shows n v)
    (hs : List.Forall₂ V.Shows ns vs) :
    Turnable V (Node.inList n ns negated) fun a => if negated then ((v a).among (vs.map fun w => w a)).not
      else (v a).among (vs.map fun w => w a) where
  deniable := rfl
  flipped := by
    have hflipped : Convert.flipped (Node.inList n ns negated) = Node.inList n ns !negated := by
      simp [Convert.flipped, Node.inList, Node.flag, Node.set, OrderedMap.put, OrderedMap.get?]
    rw [hflipped]
    cases negated with
    | false => exact Reading.shows_inList true h hs
    | true => simpa using Reading.shows_inList false h hs

theorem turnable_negatable {kind : Kind} {n : Node} {v : α → Datum} (negated : Bool) (h : V.Shows n v)
    (hs : List.Forall₂ V.Shows ns vs) (hlength : ns.length = 1 ∨ ns.length = 2) {test : List Datum → Bool}
    (hkind : kind = .like ∧ test = P.like ∨ kind = .similarTo ∧ test = P.similar) :
    Turnable V (Convert.negatable kind n ns negated true) fun a =>
      Datum.tested test negated ((v :: vs).map fun w => w a) where
  deniable := by rcases hkind with ⟨rfl, -⟩ | ⟨rfl, -⟩ <;> rfl
  flipped := by
    have hflipped : Convert.flipped (Convert.negatable kind n ns negated true)
        = Convert.negatable kind n ns (!negated) true := by
      rcases hlength with hlength | hlength
      · obtain ⟨m, rfl⟩ := List.length_eq_one_iff.mp hlength
        simp [Convert.flipped, Convert.negatable, Node.optional, Node.flag, Node.set, OrderedMap.put, OrderedMap.get?]
      · obtain ⟨m, k, rfl⟩ := List.length_eq_two.mp hlength
        simp [Convert.flipped, Convert.negatable, Node.optional, Node.flag, Node.set, OrderedMap.put, OrderedMap.get?]
    rw [hflipped]
    simp only [Datum.not_tested]
    exact Reading.shows_negatable (!negated) h hs hlength hkind

/-- What the operators of tests that may be denied in place write. -/
abbrev Denies (op : Operator) : Prop := op.kind ∈ [.in, .notIn, .like, .similar]

/-- **`operationNode`** — a call of an operator is written as a node that computes the same, and that may
be turned over if its operator says so. -/
theorem operationNode_shows (h : op.Takes ts) (hkind : op.kind ∉ [.and, .or, .not, .case])
    (hlength : ns.length = ts.length) (hs : List.Forall₂ V.Shows ns vs) :
    ∃ n, Convert.operationNode op ns = .ok n ∧ V.Shows n (fun a => op.compute P (vs.map fun v => v a))
      ∧ (Denies op → Turnable V n fun a => op.compute P (vs.map fun v => v a)) := by
  cases h with
  | connective h ts =>
    simp only [List.mem_cons, List.not_mem_nil, or_false] at h
    rcases h with rfl | rfl <;> exact absurd (by decide) hkind
  | denial t => exact absurd (by decide) hkind
  | case hts => exact absurd (by decide) hkind
  | comparison h s t =>
    obtain ⟨l, r, rfl⟩ := List.length_eq_two.mp hlength
    obtain _ | @⟨_, v, _, _, hl, _ | @⟨_, w, _, _, hr, _ | _⟩⟩ := hs
    simp only [List.mem_cons, List.not_mem_nil, or_false] at h
    rcases h with rfl | rfl | rfl | rfl | rfl | rfl <;>
      exact ⟨_, rfl, Reading.shows_comparison rfl hl hr, fun h => absurd h (by decide)⟩
  | distinction h s t =>
    obtain ⟨l, r, rfl⟩ := List.length_eq_two.mp hlength
    obtain _ | @⟨_, v, _, _, hl, _ | @⟨_, w, _, _, hr, _ | _⟩⟩ := hs
    simp only [List.mem_cons, List.not_mem_nil, or_false] at h
    rcases h with rfl | rfl
    · exact ⟨_, rfl, (Reading.shows_distinct false hl hr).congr fun a => Datum.isTest_true _ _,
        fun h => absurd h (by decide)⟩
    · exact ⟨_, rfl, (Reading.shows_distinct true hl hr).congr fun a => Datum.isTest_false _ _,
        fun h => absurd h (by decide)⟩
  | test h t =>
    obtain ⟨n, rfl⟩ := List.length_eq_one_iff.mp hlength
    obtain _ | @⟨_, v, _, _, hn, _ | _⟩ := hs
    have htest : ∀ {m : Node} {d : Datum} (negated : Bool), V.Shows m (fun _ => d) → ∀ {w : α → Datum},
        (∀ a, (v a).isTest d negated = w a) → V.Shows (Node.isTest n m negated) w :=
      fun negated hm w hw => (Reading.shows_isTest negated hn hm).congr hw
    simp only [List.mem_cons, List.not_mem_nil, or_false] at h
    rcases h with rfl | rfl | rfl | rfl | rfl | rfl <;>
      refine ⟨_, rfl, ?_, fun h => absurd h (by decide)⟩
    · exact htest false Reading.shows_null fun a => Datum.isTest_false _ _
    · exact htest true Reading.shows_null fun a => Datum.isTest_true _ _
    · exact htest false (Reading.shows_boolean true) fun a => Datum.isTest_false _ _
    · exact htest true (Reading.shows_boolean true) fun a => Datum.isTest_true _ _
    · exact htest false (Reading.shows_boolean false) fun a => Datum.isTest_false _ _
    · exact htest true (Reading.shows_boolean false) fun a => Datum.isTest_true _ _
  | arithmetic h _ _ =>
    obtain ⟨l, r, rfl⟩ := List.length_eq_two.mp hlength
    obtain _ | @⟨_, v, _, _, hl, _ | @⟨_, w, _, _, hr, _ | _⟩⟩ := hs
    simp only [List.mem_cons, List.not_mem_nil, or_false] at h
    rcases h with rfl | rfl | rfl
    · exact ⟨_, rfl, Reading.shows_add hl hr, fun h => absurd h (by decide)⟩
    · exact ⟨_, rfl, Reading.shows_sub hl hr, fun h => absurd h (by decide)⟩
    · exact ⟨_, rfl, Reading.shows_mul hl hr, fun h => absurd h (by decide)⟩
  | sign ht =>
    obtain ⟨n, rfl⟩ := List.length_eq_one_iff.mp hlength
    obtain _ | @⟨_, v, _, _, hn, _ | _⟩ := hs
    exact ⟨_, rfl, Reading.shows_neg hn, fun h => absurd h (by decide)⟩
  | membership h s t ts =>
    obtain _ | ⟨n, ns⟩ := ns
    · cases hlength
    obtain _ | @⟨_, v, _, vs, hn, hns⟩ := hs
    simp only [List.mem_cons, List.not_mem_nil, or_false] at h
    rcases h with rfl | rfl
    · exact ⟨_, rfl, Reading.shows_inList false hn hns, fun _ => turnable_inList false hn hns⟩
    · exact ⟨_, rfl, Reading.shows_inList true hn hns, fun _ => turnable_inList true hn hns⟩
  | pattern h hts =>
    obtain _ | ⟨n, ns⟩ := ns
    · simp only [List.length_nil] at hlength
      omega
    obtain _ | @⟨_, v, _, vs, hn, hns⟩ := hs
    have hrest : ns.length = 1 ∨ ns.length = 2 := by
      simp only [List.length_cons] at hlength
      omega
    simp only [List.mem_cons, List.not_mem_nil, or_false] at h
    rcases h with rfl | rfl | rfl | rfl
    · exact ⟨_, rfl, Reading.shows_negatable false hn hns hrest (.inl ⟨rfl, rfl⟩),
        fun _ => turnable_negatable false hn hns hrest (.inl ⟨rfl, rfl⟩)⟩
    · exact ⟨_, rfl, Reading.shows_negatable true hn hns hrest (.inl ⟨rfl, rfl⟩),
        fun _ => turnable_negatable true hn hns hrest (.inl ⟨rfl, rfl⟩)⟩
    · exact ⟨_, rfl, Reading.shows_negatable false hn hns hrest (.inr ⟨rfl, rfl⟩),
        fun _ => turnable_negatable false hn hns hrest (.inr ⟨rfl, rfl⟩)⟩
    · exact ⟨_, rfl, Reading.shows_negatable true hn hns hrest (.inr ⟨rfl, rfl⟩),
        fun _ => turnable_negatable true hn hns hrest (.inr ⟨rfl, rfl⟩)⟩
  | coalesce ts => exact ⟨_, rfl, Reading.shows_coalesce hs, fun h => absurd h (by decide)⟩

theorem forall₂_concat {β γ : Type} {R : β → γ → Prop} {front : List β} {b : β} {cs : List γ}
    (h : List.Forall₂ R (front ++ [b]) cs) : ∃ ds c, cs = ds ++ [c] ∧ List.Forall₂ R front ds ∧ R b c := by
  have hreverse := List.forall₂_reverse_iff.mpr h
  rw [List.reverse_append, List.reverse_singleton, List.singleton_append] at hreverse
  generalize hds : cs.reverse = ds at hreverse
  obtain _ | ⟨hb, hrest⟩ := hreverse
  refine ⟨_, _, by rw [← List.reverse_reverse cs, hds, List.reverse_cons], ?_, hb⟩
  rw [← List.forall₂_reverse_iff, List.reverse_reverse]
  exact hrest

/-- **`caseNode`** — a case distinction is written in the form that the number of its operands says. -/
theorem caseNode_shows (hlength : 3 ≤ ns.length) (hs : List.Forall₂ V.Shows ns vs) :
    V.Shows (Convert.caseNode ns) fun a => Datum.cases (vs.map fun v => v a) := by
  obtain ⟨front, m, rfl⟩ : ∃ front m, ns = front ++ [m] :=
    ⟨ns.dropLast, ns.getLast (List.ne_nil_of_length_pos (by omega)), (List.dropLast_append_getLast _).symm⟩
  obtain ⟨ds, d, rfl, hfront, hm⟩ := forall₂_concat hs
  have hcount := hfront.length_eq
  rw [List.length_append, List.length_singleton] at hlength
  obtain _ | @⟨subject, s, pairs, ds, hsubject, hpairs⟩ := hfront
  · simp at hlength
  have hpaired := hpairs.length_eq
  have hmap : ∀ a, ((s :: ds ++ [d]).map fun v => v a) = s a :: (ds.map (fun v => v a) ++ [d a]) := fun a => by simp
  unfold Convert.caseNode
  rw [List.dropLast_concat, List.getLast?_concat, List.length_append, List.length_singleton]
  split
  · rename_i heven
    have hrest : pairs.length % 2 = 0 := by
      simp only [List.length_cons] at heven
      omega
    refine (Reading.shows_case (.some hsubject) hpairs hrest hm).congr fun a => ?_
    rw [hmap, Datum.cases, if_neg (by simp; omega), Datum.decided_append _ _ (by simp; omega)]
    rfl
  · rename_i hodd
    have hrest : (subject :: pairs).length % 2 = 0 := by omega
    refine (Reading.shows_case .none (.cons hsubject hpairs) hrest hm).congr fun a => ?_
    have hwhole := Datum.decided_append (· == .bool true) (s a :: ds.map fun v => v a)
      (by simp only [List.length_cons, List.length_map] at hrest ⊢; omega) (d a)
    rw [hmap, Datum.cases, if_pos (by simp at hrest ⊢; omega)]
    exact hwhole.symm

end

/-! ## Expressions in a context -/

namespace Dialect

/-- Sums and differences are written as functions only if an interval is added or taken away. -/
abbrev AddsNumbers (d : Dialect) : Prop := ∀ f ∈ d.targetFunctions, f.right = .interval

theorem addsNumbers {d : Dialect} (hd : d ∈ Dialect.all) : d.AddsNumbers := by
  revert hd
  revert d
  decide

theorem targetFunction_eq {d : Dialect} (hd : d.AddsNumbers) (op : Operator) (s : DataType) {t : DataType}
    (ht : t.family ∈ [.numeric, .null]) : d.targetFunction op [s, t] = op := by
  have hnone : d.targetFunctions.find? (fun f => f.kind == op.kind && f.left == s.family && f.right == t.family)
      = none := by
    refine List.find?_eq_none.mpr fun f hf => ?_
    rw [hd f hf]
    simp only [List.mem_cons, List.not_mem_nil, or_false] at ht
    rcases ht with ht | ht <;> simp [ht]
  simp [targetFunction, hnone]

end Dialect

namespace Operator.Takes

variable {op : Operator} {ts : List DataType}

/-- The operators are these, and none of them is written otherwise but for its operands. -/
theorem kind_traits (h : op.Takes ts) :
    op.kind ∉ [.cast, .search, .patternConcat, .patternAlter, .patternQuantifier, .sumOrZero, .otherFunction] := by
  cases h with
  | connective h | comparison h | distinction h | test h | arithmetic h | membership h | pattern h =>
    revert h
    revert op
    decide
  | denial | sign | coalesce | case => decide

/-- Only NOT denies. -/
theorem eq_not (h : op.Takes ts) (hkind : op.kind = .not) : op = Operator.not ∧ ∃ t, ts = [t] := by
  cases h with
  | connective h | comparison h | distinction h | test h | arithmetic h | membership h | pattern h =>
    refine absurd hkind ?_
    clear hkind
    revert h
    revert op
    decide
  | denial t => exact ⟨rfl, t, rfl⟩
  | sign | coalesce | case => cases hkind

/-- Only CASE distinguishes cases. -/
theorem eq_case (h : op.Takes ts) (hkind : op.kind = .case) : 3 ≤ ts.length := by
  cases h with
  | connective h | comparison h | distinction h | test h | arithmetic h | membership h | pattern h =>
    refine absurd hkind ?_
    clear hkind
    revert h
    revert op
    decide
  | case h => exact h
  | denial | sign | coalesce => cases hkind

/-- The operators are written as they are. -/
theorem retarget (h : op.Takes ts) {d : Dialect} (hd : d.AddsNumbers) : d.retarget op ts = .ok op := by
  have hother : op.kind ∉ [.plus, .minus, .sumOrZero, .otherFunction] → d.retarget op ts = .ok op := by
    intro hkind
    simp only [List.mem_cons, List.not_mem_nil, or_false, not_or] at hkind
    unfold Dialect.retarget
    split <;> simp_all
  cases h with
  | arithmetic h hleft hright =>
    simp only [List.mem_cons, List.not_mem_nil, or_false] at h
    rcases h with rfl | rfl | rfl
    · exact congrArg Except.ok (Dialect.targetFunction_eq hd plus _ hright)
    · exact congrArg Except.ok (Dialect.targetFunction_eq hd minus _ hright)
    · rfl
  | connective h | comparison h | distinction h | test h | membership h | pattern h =>
    refine hother ?_
    clear hother
    revert h
    revert op
    decide
  | denial | sign | coalesce | case => rfl

end Operator.Takes

namespace Convert

variable {E : Engine} {P : Patterns} {α ρ : Type} {V : Reading (E.withOperators P) α} {row : α → Row}
  {width : Nat} {env : Env} {ctx : Context} {sub : ρ → ConvertM Node}

/-- **`ShowsRow`** — the fields of a context show the places of a row, and constants stand for themselves. -/
structure Context.ShowsRow (env : Env) (ctx : Context) (V : Reading E α) (width : Nat) (row : α → Row) : Prop where
  field : ∀ i < width, ∃ n, ctx.field env (i : Nat) = .ok n ∧ V.Shows n fun a => ((row a)[i]?).getD .null
  literal : ∀ l, literalIn env ctx l = literalNode env.dialect l

/-- **`Means`** — a node shows the value of an expression, and the denial of a test that it turns over. -/
structure Means (V : Reading E α) (P : Patterns) (row : α → Row) (e : Scalar ρ) (n : Node) : Prop where
  shows : V.Shows n fun a => e.value P (row a)
  turnable : ∀ op, e.operator? = some op → Denies op → Turnable V n fun a => e.value P (row a)

/-- Denied in place or not, a denial shows the opposite. -/
theorem Means.deny {e : Scalar ρ} {n : Node} (h : Means V P row e n) :
    V.Shows (deny (e.operator?.map (·.kind)) n) fun a => (e.value P (row a)).not := by
  have hnot := Reading.shows_not h.shows
  cases hop : e.operator? with
  | none => exact hnot
  | some op =>
    by_cases hdenies : Denies op
    · obtain ⟨hdeniable, hflipped⟩ := h.turnable op hop hdenies
      simp only [List.mem_cons, List.not_mem_nil, or_false] at hdenies
      rcases hdenies with hkind | hkind | hkind | hkind <;> simpa [Convert.deny, hkind, hdeniable] using hflipped
    · simp only [List.mem_cons, List.not_mem_nil, or_false, not_or] at hdenies
      have hplain : Convert.deny (some op.kind) n = Node.not n := by
        unfold Convert.deny
        split <;> simp_all
      simpa [hplain] using hnot

theorem literalNode_shows {l : Literal} (h : l.value.datum?.isSome) :
    ∃ n, literalNode env.dialect l = .ok n ∧ V.Shows n fun _ => l.value.datum?.getD .null := by
  obtain ⟨value, type⟩ := l
  cases value with
  | null => exact ⟨_, by simp [literalNode], Reading.shows_null⟩
  | character s => exact ⟨_, by simp [literalNode], Reading.shows_string s⟩
  | exact s => exact ⟨_, by simp [literalNode], Reading.shows_number s⟩
  | boolean b => exact ⟨_, by simp [literalNode], Reading.shows_boolean b⟩
  | _ => cases h

theorem castSide_of_plain {d : Dialect} {kind : OperatorKind} {operands : List (Scalar ρ)}
    (h : ∀ e ∈ operands, e.isCast = false) : castSide d kind operands = .neither := by
  rcases operands with _ | ⟨l, _ | ⟨r, rest⟩⟩
  · rfl
  · rfl
  · have hl := h l (by simp)
    have hr := h r (by simp)
    simp [castSide, hl, hr]

theorem isCast_of_plain {e : Scalar ρ} (h : e.Plain width) : e.isCast = false := by
  cases h with
  | call htakes _ =>
    have hkind := htakes.kind_traits
    simp only [List.mem_cons, not_or] at hkind
    simpa [Scalar.isCast] using hkind.1
  | _ => rfl

/-- A call that is written as an operation of its operands, perhaps of another operator. -/
theorem gives_operation {op written : Operator} {operands : List (Scalar ρ)}
    (hkind : op.kind ∉ [.and, .or, .not, .case, .search, .cast, .patternConcat, .patternAlter, .patternQuantifier])
    (hcasts : ∀ e ∈ operands, e.isCast = false)
    (hwritten : env.dialect.retarget op (operands.map (·.type)) = .ok written) {ns : List Node}
    (hns : ∀ s, (scalarNodes env sub ctx operands).Gives s ns s) {n : Node} (hn : operationNode written ns = .ok n)
    (t : DataType) (s : State) : (scalarNode env sub ctx (.call op operands t)).Gives s n s := by
  simp only [List.mem_cons, List.not_mem_nil, or_false, not_or] at hkind
  rw [scalarNode.eq_def]
  simp only
  split
  case h_10 =>
    rw [castSide_of_plain hcasts]
    simp only [ConvertM.gives_bind, ConvertM.gives_lift]
    exact ⟨ns, s, hns s, written, s, ⟨hwritten, rfl⟩, hn, rfl⟩
  all_goals simp_all

/-- A call that is written as an operation of its operands. -/
theorem gives_call {op : Operator} {operands : List (Scalar ρ)} (htakes : op.Takes (operands.map (·.type)))
    (hkind : op.kind ∉ [.and, .or, .not, .case]) (hd : env.dialect.AddsNumbers)
    (hcasts : ∀ e ∈ operands, e.isCast = false) {ns : List Node}
    (hns : ∀ s, (scalarNodes env sub ctx operands).Gives s ns s) {n : Node} (hn : operationNode op ns = .ok n)
    (t : DataType) (s : State) : (scalarNode env sub ctx (.call op operands t)).Gives s n s := by
  have htraits := htakes.kind_traits
  refine gives_operation ?_ hcasts (htakes.retarget hd) hns hn t s
  simp only [List.mem_cons, List.not_mem_nil, or_false, not_or] at hkind htraits ⊢
  simp [hkind, htraits]

/-- Two denials cancel. -/
theorem scalarNode_not_not (x : Scalar ρ) (t u : DataType) :
    scalarNode env sub ctx (.call Operator.not [.call Operator.not [x] u] t) = scalarNode env sub ctx x := by
  rw [scalarNode.eq_def]
  rfl

/-- Any other denial denies the node of its operand. -/
theorem scalarNode_not {e : Scalar ρ} (he : ∀ inner x xs u, e = .call inner (x :: xs) u → inner.kind ≠ .not)
    (t : DataType) : scalarNode env sub ctx (.call Operator.not [e] t) = (do
      return deny (e.operator?.map (·.kind)) (← scalarNode env sub ctx e)) := by
  rw [scalarNode.eq_def]
  have hkind : Operator.not.kind = .not := rfl
  simp only [hkind]
  split
  · rename_i hnil
    cases hnil
  · rename_i inner x xs u rest hcons
    cases hcons
    rw [if_neg (by simpa using he inner x xs u rfl)]
    rfl
  · rename_i operand rest _ hcons
    cases hcons
    rfl

/-- A denial of a plain expression denies another denial or something else. -/
theorem not_cases {e : Scalar ρ} (he : e.Plain width) :
    (∃ x u, e = .call Operator.not [x] u) ∨ ∀ inner x xs u, e = .call inner (x :: xs) u → inner.kind ≠ .not := by
  cases he with
  | @call op operands htakes _ t =>
    by_cases hkind : op.kind = .not
    · obtain ⟨rfl, u, htypes⟩ := htakes.eq_not hkind
      obtain ⟨x, rfl, -⟩ := List.map_eq_singleton_iff.mp htypes
      exact .inl ⟨x, t, rfl⟩
    · refine .inr fun inner x xs u heq => ?_
      cases heq
      exact hkind
  | _ => exact .inr fun inner x xs u heq => by cases heq

mutual

/-- **`scalarNode`** — the node of an expression means what the expression means. -/
theorem scalarNode_means (h : ctx.ShowsRow env V width row) (hd : env.dialect.AddsNumbers) :
    ∀ e : Scalar ρ, e.Plain width →
      ∃ n, (∀ s, (scalarNode env sub ctx e).Gives s n s) ∧ Means V P row e n
  | .inputRef i t, he => by
    cases he with
    | inputRef hi =>
      obtain ⟨n, hn, hshows⟩ := h.field _ hi
      refine ⟨n, fun s => ?_, hshows, by simp [Scalar.operator?]⟩
      rw [scalarNode, ConvertM.gives_lift]
      exact ⟨hn, rfl⟩
  | .localRef i shared t, he => by
    cases he with
    | @localRef i _ e hentry hplain =>
      obtain ⟨n, hn, hshows⟩ := scalarNodeAt_means h hd shared i e hentry hplain
      refine ⟨n, fun s => ?_, hshows, by simp [Scalar.operator?]⟩
      rw [scalarNode]
      exact hn i s
  | .literal l, he => by
    cases he with
    | literal hl =>
      obtain ⟨n, hn, hshows⟩ : ∃ n, literalNode env.dialect l = .ok n
          ∧ V.Shows n fun _ => l.value.datum?.getD .null := literalNode_shows hl
      refine ⟨n, fun s => ?_, hshows, by simp [Scalar.operator?]⟩
      rw [scalarNode, h.literal, ConvertM.gives_lift]
      exact ⟨hn, rfl⟩
  | .call op operands t, he => by
    cases he with
    | call htakes hoperands =>
      have hvalue : ∀ a, Scalar.value P (row a) (.call op operands t) = op.compute P (Scalar.values P (row a) operands) :=
        fun a => by rw [Scalar.value]
      obtain ⟨ns, vs, hns, hlength, hshows, hvalues⟩ := scalarNodes_mean h hd operands hoperands
      have hplain : ¬Denies op → ∀ {n : Node}, (V.Shows n fun a => op.compute P (vs.map fun v => v a)) →
          Means V P row (.call op operands t) n := fun hop n hn =>
        ⟨hn.congr fun a => by rw [hvalue, hvalues], fun op' hop' hdenies => absurd hdenies (by
          obtain rfl : op = op' := by simpa [Scalar.operator?] using hop'
          exact hop)⟩
      by_cases hkind : op.kind ∈ [.and, .or, .not, .case]
      · simp only [List.mem_cons, List.not_mem_nil, or_false] at hkind
        rcases hkind with hkind | hkind | hkind | hkind
        · refine ⟨Node.and ns, fun s => ?_, hplain (by simp [Denies, hkind]) ?_⟩
          · rw [scalarNode.eq_def]
            simp only [hkind, ConvertM.gives_bind, ConvertM.gives_pure]
            exact ⟨ns, s, hns s, rfl, rfl⟩
          · simpa only [Operator.compute, hkind] using Reading.shows_and hshows
        · refine ⟨Node.or ns, fun s => ?_, hplain (by simp [Denies, hkind]) ?_⟩
          · rw [scalarNode.eq_def]
            simp only [hkind, ConvertM.gives_bind, ConvertM.gives_pure]
            exact ⟨ns, s, hns s, rfl, rfl⟩
          · simpa only [Operator.compute, hkind] using Reading.shows_or hshows
        · obtain ⟨rfl, u, htypes⟩ := htakes.eq_not hkind
          obtain ⟨e, rfl, -⟩ := List.map_eq_singleton_iff.mp htypes
          have hnot : ∀ a, Scalar.value P (row a) (.call Operator.not [e] t) = (e.value P (row a)).not := fun a => by
            rw [hvalue]
            rfl
          rcases not_cases (hoperands e (by simp)) with ⟨x, u, rfl⟩ | hother
          · have hx : x.Plain width := by
              cases hoperands _ (List.mem_singleton.mpr rfl) with
              | call _ hxs => exact hxs x (by simp)
            obtain ⟨n, hn, hmeans⟩ := scalarNode_means h hd x hx
            refine ⟨n, fun s => by rw [scalarNode_not_not]; exact hn s, hmeans.shows.congr fun a => ?_, ?_⟩
            · have hinner : Scalar.value P (row a) (.call Operator.not [x] u) = (x.value P (row a)).not := by
                rw [Scalar.value, Scalar.values, Scalar.values]
                rfl
              rw [hnot, hinner, Datum.not_not]
            · intro op hop hdenies
              obtain rfl : Operator.not = op := by simpa [Scalar.operator?] using hop
              exact absurd hdenies (by decide)
          · obtain ⟨n, hn, hmeans⟩ := scalarNode_means h hd e (hoperands e (by simp))
            refine ⟨_, fun s => ?_, hmeans.deny.congr fun a => (hnot a).symm, ?_⟩
            · rw [scalarNode_not hother, ConvertM.gives_bind]
              exact ⟨n, s, hn s, rfl⟩
            · intro op hop hdenies
              obtain rfl : Operator.not = op := by simpa [Scalar.operator?] using hop
              exact absurd hdenies (by decide)
        · have hcount : 3 ≤ ns.length := by simpa [hlength] using htakes.eq_case hkind
          refine ⟨caseNode ns, fun s => ?_, hplain (by simp [Denies, hkind]) ?_⟩
          · rw [scalarNode.eq_def]
            simp only [hkind, ConvertM.gives_bind, ConvertM.gives_pure]
            exact ⟨ns, s, hns s, rfl, rfl⟩
          · simpa only [Operator.compute, hkind] using caseNode_shows hcount hshows
      · obtain ⟨n, hn, hshow, hturn⟩ := operationNode_shows htakes hkind (by simpa using hlength) hshows
        have hcasts : ∀ e ∈ operands, e.isCast = false := fun e he => isCast_of_plain (hoperands e he)
        refine ⟨n, gives_call htakes hkind hd hcasts hns hn t, hshow.congr fun a => ?_, ?_⟩
        · rw [hvalue, hvalues]
        · intro op' hop' hdenies
          obtain rfl : op = op' := by simpa [Scalar.operator?] using hop'
          simpa only [hvalue, hvalues] using hturn hdenies
  | .overWindow .., he | .fieldAccess .., he | .correlation .., he | .subQuery .., he | .parameter .., he
  | .patternField .., he => nomatch he

theorem scalarNodes_mean (h : ctx.ShowsRow env V width row) (hd : env.dialect.AddsNumbers) :
    ∀ es : List (Scalar ρ), (∀ e ∈ es, e.Plain width) →
      ∃ ns vs, (∀ s, (scalarNodes env sub ctx es).Gives s ns s) ∧ ns.length = es.length
        ∧ List.Forall₂ V.Shows ns vs ∧ ∀ a, (vs.map fun v => v a) = Scalar.values P (row a) es
  | [], _ => ⟨[], [], fun s => by simp [scalarNodes], rfl, .nil, fun _ => rfl⟩
  | e :: es, he => by
    obtain ⟨n, hn, hmeans⟩ := scalarNode_means h hd e (he e (by simp))
    obtain ⟨ns, vs, hns, hlength, hshows, hvalues⟩ := scalarNodes_mean h hd es fun e' he' => he e' (by simp [he'])
    refine ⟨n :: ns, _ :: vs, fun s => ?_, congrArg (· + 1) hlength, .cons hmeans.shows hshows, fun a => ?_⟩
    · simp only [scalarNodes, ConvertM.gives_bind, ConvertM.gives_pure]
      exact ⟨n, s, hn s, ns, s, hns s, rfl, rfl⟩
    · rw [List.map_cons, hvalues, Scalar.values]

theorem scalarNodeAt_means (h : ctx.ShowsRow env V width row) (hd : env.dialect.AddsNumbers) :
    ∀ (es : List (Scalar ρ)) (i : Nat) (e : Scalar ρ), es[i]? = some e → e.Plain width →
      ∃ n, (∀ index s, (scalarNodeAt env sub ctx index i es).Gives s n s)
        ∧ V.Shows n fun a => Scalar.valueAt P (row a) i es
  | [], _, _, hentry, _ => by simp at hentry
  | e' :: es, 0, e, hentry, he => by
    obtain rfl : e' = e := by simpa using hentry
    obtain ⟨n, hn, hmeans⟩ := scalarNode_means h hd e' he
    exact ⟨n, fun index s => by rw [scalarNodeAt, if_pos rfl]; exact hn s, by
      simpa [Scalar.valueAt] using hmeans.shows⟩
  | e' :: es, i + 1, e, hentry, he => by
    obtain ⟨n, hn, hshows⟩ := scalarNodeAt_means h hd es i e (by simpa using hentry) he
    exact ⟨n, fun index s => by rw [scalarNodeAt, if_neg (by simp)]; exact hn index s, by
      simpa [Scalar.valueAt] using hshows⟩

end

/-! ## Columns of named inputs -/

namespace Context

/-- The columns of named inputs, as a FROM clause shows them. -/
def frame (inputs : Aliases) : Sql.Frame := inputs.map fun p => (p.1, p.2.map (·.name))

/-- What a column is called by: its name, with the name of its input in front if `qualified`. -/
def calledBy (qualified : Bool) (cell : String × String) : Option String × String :=
  (if qualified then some cell.1 else none, cell.2)

/-- No two fields of named inputs are called by the same name. -/
abbrev Distinct (inputs : Aliases) (qualified : Bool) : Prop := ((frame inputs).cells.map (calledBy qualified)).Nodup

/-- A field of named inputs is a column of their frame. -/
theorem cells_frame (inputs : Aliases) (i : Nat) :
    (frame inputs).cells[i]? = (owner? inputs i).map fun p => (p.1, p.2.name) := by
  induction inputs generalizing i with
  | nil => simp [frame, Frame.cells, owner?]
  | cons p rest ih =>
    obtain ⟨name, fields⟩ := p
    have hcells : (frame ((name, fields) :: rest)).cells
        = (fields.map fun f => (name, f.name)) ++ (frame rest).cells := by
      simp [frame, Frame.cells]
    rw [hcells, owner?]
    cases hfield : fields[i]? with
    | some f =>
      have hlt := (List.getElem?_eq_some_iff.mp hfield).1
      rw [List.getElem?_append_left (by simpa using hlt)]
      simp [hfield]
    | none =>
      have hle := List.getElem?_eq_none_iff.mp hfield
      rw [List.getElem?_append_right (by simpa using hle), List.length_map, ih]

/-- A name that one column only is called by stands for the value at its place. -/
theorem within_frame {inputs : Aliases} {qualified : Bool} (h : Distinct inputs qualified) (outer : Names)
    {i : Nat} {table name : String} (hi : (frame inputs).cells[i]? = some (table, name)) :
    Names.within (frame inputs) outer (calledBy qualified (table, name)).1 name = some fun f => f.row.getD i .null := by
  have hplaces : (frame inputs).places (calledBy qualified (table, name)).1 name = [i] := by
    have hcalled : ∀ c : String × String, (c.2 == name && (calledBy qualified (table, name)).1.all (· == c.1)) = true
        ↔ calledBy qualified c = calledBy qualified (table, name) := by
      rintro ⟨table', name'⟩
      cases qualified <;> simp [calledBy, and_comm, @eq_comm _ table]
    have hcount : (frame inputs).cells.countP
        (fun c => c.2 == name && (calledBy qualified (table, name)).1.all (· == c.1)) ≤ 1 := by
      have hone := List.nodup_iff_count_le_one.mp h (calledBy qualified (table, name))
      rw [List.count_eq_countP, List.countP_map] at hone
      refine le_trans (List.countP_mono_left fun c _ hc => ?_) hone
      simpa using (hcalled c).mp hc
    have hplace := zipIdx_filter_of_countP (p := fun c : String × String =>
      c.2 == name && (calledBy qualified (table, name)).1.all (· == c.1)) hi ((hcalled _).mpr rfl) hcount 0
    rw [Nat.zero_add] at hplace
    exact hplace
  unfold Names.within
  rw [hplaces]

/-- A column that is called by such a name has the value at its place. -/
theorem scalar_column_frame {inputs : Aliases} {qualified : Bool} (h : Distinct inputs qualified) (E : Engine)
    (db : Database) (outer : Names) {i : Nat} {table : String} {f : Field}
    (hi : owner? inputs i = some (table, f)) :
    (Node.column f.name (if qualified then some table else none)).scalar E db (Names.within (frame inputs) outer)
      = some fun focus => [focus.row.getD i .null] := by
  have hcell : (frame inputs).cells[i]? = some (table, f.name) := by rw [cells_frame, hi, Option.map_some]
  have hcolumn : ∀ table : Option String, (Node.column f.name table).qualifier? = table
      ∧ (Node.column f.name table).name = f.name := by
    rintro (_ | table) <;>
      simp [Node.qualifier?, Node.column, Node.kept, Node.child?, Node.name, Node.table, Node.text,
        Node.innerText, Node.identifier]
  have hvalue := @Node.scalar_of_column E db (Names.within (frame inputs) outer)
    (Node.column f.name (calledBy qualified (table, f.name)).1) rfl
  rw [(hcolumn _).1, (hcolumn _).2, within_frame h outer hcell] at hvalue
  exact hvalue

/-- Named inputs show the places of the rows of their frame. -/
theorem showsRow_aliases {d : Dialect} {inputs : Aliases} {qualified : Bool} (h : Distinct inputs qualified)
    (E : Engine) (db : Database) (outer : Names) :
    (Context.aliases inputs qualified).ShowsRow ⟨d, []⟩
      (Reading.scalar E db (Names.within (frame inputs) outer)) (Context.width inputs) Focus.row where
  field i hi := by
    obtain ⟨⟨table, f⟩, howner⟩ := Option.isSome_iff_exists.mp ((owner?_isSome_iff inputs i).mpr hi)
    refine ⟨_, field_aliases rfl qualified howner, ?_⟩
    have hvalue := scalar_column_frame h E db outer howner
    simp only [List.getD_eq_getElem?_getD] at hvalue
    exact hvalue
  literal l := by simp [literalIn]

end Context

instance : Nonempty Engine :=
  ⟨⟨fun _ _ => .null, fun _ _ => .null, fun _ _ _ => .null, fun _ _ => true, fun _ _ => [], false, false⟩⟩

instance : Nonempty Database := ⟨⟨fun _ => [], fun _ => [], by simp⟩⟩

/-- **`scalarNode`** — over named inputs whose fields are called by different names, an expression becomes
a node whose value is the value of the expression, in every dialect and for every row. -/
theorem scalarNode_exact {d : Dialect} (hd : d ∈ Dialect.all) (caps : Capabilities) {inputs : Aliases}
    {qualified : Bool} (hnames : Context.Distinct inputs qualified) (sub : ρ → ConvertM Node) {e : Scalar ρ}
    (he : e.Plain (Context.width inputs)) :
    ∃ n, (∀ s, (scalarNode ⟨{ d with capabilities := caps }, []⟩ sub (.aliases inputs qualified) e).Gives s n s)
      ∧ ∀ (E : Engine) (P : Patterns) (db : Database) (outer : Names),
        n.scalar (E.withOperators P) db (Names.within (Context.frame inputs) outer)
          = some fun f => [e.value P f.row] := by
  have hadds : Dialect.AddsNumbers { d with capabilities := caps } :=
    fun f hf => Dialect.addsNumbers hd f hf
  generalize { d with capabilities := caps } = d' at hadds
  have hmeans : ∀ (E : Engine) (P : Patterns) (db : Database) (outer : Names),
      ∃ n, (∀ s, (scalarNode ⟨d', []⟩ sub (.aliases inputs qualified) e).Gives s n s)
        ∧ Means (Reading.scalar (E.withOperators P) db (Names.within (Context.frame inputs) outer)) P Focus.row e n :=
    fun E P db outer => scalarNode_means (Context.showsRow_aliases hnames _ db outer) hadds e he
  obtain ⟨E⟩ := (inferInstance : Nonempty Engine)
  obtain ⟨db⟩ := (inferInstance : Nonempty Database)
  obtain ⟨n, hn, -⟩ := hmeans E ⟨fun _ => true, fun _ => true⟩ db Names.none
  refine ⟨n, hn, fun E P db outer => ?_⟩
  obtain ⟨m, hm, hshows⟩ := hmeans E P db outer
  obtain rfl : m = n := ((hm {}).unique (hn {})).1
  exact hshows.shows

/-- `NOT NOT NOT (a IN (1, NULL))` over `t(a)`. -/
def threeDenials : Scalar ρ :=
  let one := Scalar.literal ⟨.exact "1", .integer⟩
  let missing := Scalar.literal ⟨.null, .integer⟩
  let member := Scalar.call .in [.inputRef (0 : Nat) .integer, one, missing] .boolean
  .call .not [.call .not [.call .not [member] .boolean] .boolean] .boolean

theorem scalarNode_exact_threeDenials : Dialect.mysql ∈ Dialect.all
    ∧ Context.Distinct [("t", [⟨"a", DataType.integer⟩])] true ∧ (threeDenials : Scalar Empty).Plain 1
    ∧ ∃ n, (∀ s, (scalarNode ⟨Dialect.mysql, []⟩ (fun r : Empty => nomatch r)
        (.aliases [("t", [⟨"a", DataType.integer⟩])] true) threeDenials).Gives s n s)
      ∧ ∀ (E : Engine) (P : Patterns) (db : Database) (outer : Names),
        n.scalar (E.withOperators P) db (Names.within [("t", ["a"])] outer)
          = some fun f => [(threeDenials : Scalar Empty).value P f.row] := by
  have hd : Dialect.mysql ∈ Dialect.all := by simp [Dialect.all]
  have hnames : Context.Distinct [("t", [⟨"a", DataType.integer⟩])] true := by decide
  have he : (threeDenials : Scalar Empty).Plain 1 := by
    have hmember : (Scalar.call .in [.inputRef (0 : Nat) .integer, .literal ⟨.exact "1", .integer⟩,
        .literal ⟨.null, .integer⟩] .boolean : Scalar Empty).Plain 1 := by
      refine .call (.membership (by simp) _ _ _) (fun e he => ?_) _
      simp only [List.mem_cons, List.not_mem_nil, or_false] at he
      rcases he with rfl | rfl | rfl
      · exact .inputRef (by decide) _
      · exact .literal (by decide)
      · exact .literal (by decide)
    have hdeny : ∀ {e : Scalar Empty}, e.Plain 1 → (Scalar.call .not [e] .boolean).Plain 1 := fun he =>
      .call (.denial _) (fun e' he' => by rwa [List.mem_singleton.mp he']) _
    exact hdeny (hdeny (hdeny hmember))
  exact ⟨hd, hnames, he, scalarNode_exact hd Dialect.mysql.capabilities hnames _ he⟩

end Convert

end AlgebraSql
