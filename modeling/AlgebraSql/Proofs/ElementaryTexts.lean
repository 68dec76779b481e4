import AlgebraSql.Proofs.Comments
import AlgebraSql.Proofs.ScalarValues

/-!
# Elementary expressions — when the text of an expression opens a comment.

The text of a negative number begins with a minus sign of its own, and an atom is written without parentheses
behind a sign.  Changing the sign of a negative number is the one way for an expression without functions and
sub-queries to open a comment.
-/

namespace AlgebraSql

open Sql Render

/-! ## Expressions -/

namespace Scalar

variable {ρ : Type}

/-- The operators between two operands. -/
def binaryOperators : List Operator :=
  [.equals, .notEquals, .greaterThan, .greaterThanOrEqual, .lessThan, .lessThanOrEqual, .plus, .minus, .multiply,
    .divide, .concat]

/-- **`Elementary`** — expressions built from columns, texts, exact numbers, comparisons, `AND`, `OR`, `NOT`,
arithmetic, a sign before an operand, `||` and `CASE`. -/
inductive Elementary (env : Convert.Env) (ctx : Convert.Context) : Scalar ρ → Prop where
  | field {i : Ordinal} {name : String} {table : Option String} (h : ctx.field env i = .ok (Node.column name table))
      (t : DataType) : Elementary env ctx (.inputRef i t)
  | text (v : String) (t : DataType) : Elementary env ctx (.literal ⟨.character v, t⟩)
  | number {digits : String} (h : IsSignedNumeral digits.toList) (t : DataType) :
      Elementary env ctx (.literal ⟨.exact digits, t⟩)
  | binary {op : Operator} (hop : op ∈ binaryOperators) {left right : Scalar ρ} (hleft : Elementary env ctx left)
      (hright : Elementary env ctx right) (t : DataType) : Elementary env ctx (.call op [left, right] t)
  | distinct {op : Operator} (hop : op = .isDistinctFrom ∨ op = .isNotDistinctFrom) {left right : Scalar ρ}
      (hleft : Elementary env ctx left) (hright : Elementary env ctx right) (t : DataType) :
      Elementary env ctx (.call op [left, right] t)
  | chain {op : Operator} (hop : op = .and ∨ op = .or) {operands : List (Scalar ρ)}
      (h : ∀ e ∈ operands, Elementary env ctx e) (t : DataType) : Elementary env ctx (.call op operands t)
  | not {e : Scalar ρ} (h : Elementary env ctx e) (t : DataType) : Elementary env ctx (.call .not [e] t)
  | negate {e : Scalar ρ} (h : Elementary env ctx e) (t : DataType) : Elementary env ctx (.call .negate [e] t)
  | case {operands : List (Scalar ρ)} (h : ∀ e ∈ operands, Elementary env ctx e) (t : DataType) :
      Elementary env ctx (.call .case operands t)

/-- **`IsNegativeNumber`** — a negative number, perhaps denied twice or alone in a chain: nothing is written for
either. -/
inductive IsNegativeNumber : Scalar ρ → Prop where
  | number {digits : String} (h : digits.toList.head? = some '-') (t : DataType) :
      IsNegativeNumber (.literal ⟨.exact digits, t⟩)
  | denied {e : Scalar ρ} (h : IsNegativeNumber e) (t u : DataType) :
      IsNegativeNumber (.call .not [.call .not [e] u] t)
  | only {op : Operator} (hop : op = .and ∨ op = .or) {e : Scalar ρ} (h : IsNegativeNumber e) (t : DataType) :
      IsNegativeNumber (.call op [e] t)

/-- **`DoublesMinus`** — somewhere in the expression the sign of a negative number is changed. -/
inductive DoublesMinus : Scalar ρ → Prop where
  | here {e : Scalar ρ} (h : IsNegativeNumber e) (t : DataType) : DoublesMinus (.call .negate [e] t)
  | operand {op : Operator} {operands : List (Scalar ρ)} {e : Scalar ρ} (he : e ∈ operands) (h : DoublesMinus e)
      (t : DataType) : DoublesMinus (.call op operands t)

/-- A call of another operator doubles a sign only in its operands. -/
theorem doublesMinus_call {op : Operator} (hop : op ≠ .negate) (operands : List (Scalar ρ)) (t : DataType) :
    DoublesMinus (.call op operands t) ↔ AnyOf (operands.map DoublesMinus) := by
  constructor
  · intro h
    cases h with
    | here h t => exact absurd rfl hop
    | operand he h t => exact ⟨_, List.mem_map_of_mem he, h⟩
  · rintro ⟨_, hmem, h⟩
    obtain ⟨e, he, rfl⟩ := List.mem_map.mp hmem
    exact .operand he h t

theorem doublesMinus_negate (e : Scalar ρ) (t : DataType) :
    DoublesMinus (.call .negate [e] t) ↔ e.IsNegativeNumber ∨ e.DoublesMinus := by
  constructor
  · intro h
    cases h with
    | here h t => exact Or.inl h
    | operand he h t =>
      obtain rfl := List.mem_singleton.mp he
      exact Or.inr h
  · rintro (h | h)
    · exact .here h t
    · exact .operand (List.mem_singleton.mpr rfl) h t

/-- A chain of one operand begins as the operand does. -/
theorem isNegativeNumber_only {op : Operator} (hop : op = .and ∨ op = .or) (e : Scalar ρ) (t : DataType) :
    IsNegativeNumber (.call op [e] t) ↔ e.IsNegativeNumber := by
  refine ⟨fun h => ?_, fun h => .only hop h t⟩
  cases h with
  | denied _ _ _ => exact absurd hop (by decide)
  | only _ h _ => exact h

theorem isNegativeNumber_not (e : Scalar ρ) (t : DataType) :
    IsNegativeNumber (.call .not [e] t) ↔ ∃ y u, e = .call .not [y] u ∧ y.IsNegativeNumber := by
  constructor
  · intro h
    cases h with
    | denied h _ u => exact ⟨_, u, rfl, h⟩
    | only hop _ _ => exact absurd hop (by decide)
  · rintro ⟨y, u, rfl, h⟩
    exact .denied h t u

/-- What a chain of several operands, or another operation, is written as does not begin with a minus sign. -/
theorem not_isNegativeNumber {op : Operator} (hop : op ≠ .not) {operands : List (Scalar ρ)}
    (h : (op = .and ∨ op = .or) → operands.length ≠ 1) (t : DataType) :
    ¬ IsNegativeNumber (.call op operands t) := by
  intro hneg
  cases hneg with
  | denied _ _ _ => exact hop rfl
  | only hchain _ _ => exact h hchain rfl

end Scalar

/-! ## Exact numbers -/

theorem isPlainNumeral_digits {ds : List Char} (h : Digits ds) (hne : ds ≠ []) : IsPlainNumeral ds :=
  ⟨hne, fun c hc => Or.inl (h c hc)⟩

/-- Digits with a point between them. -/
theorem isPlainNumeral_point {ds es : List Char} (hds : Digits ds) (hes : Digits es) :
    IsPlainNumeral (ds ++ '.' :: es) := by
  refine ⟨by simp, fun c hc => ?_⟩
  rcases List.mem_append.mp hc with hc | hc
  · exact Or.inl (hds c hc)
  · rcases List.mem_cons.mp hc with rfl | hc
    · exact Or.inr rfl
    · exact Or.inl (hes c hc)

theorem trimZeros_ne_nil (ds : List Char) : Scientific.trimZeros ds ≠ [] := by
  unfold Scientific.trimZeros
  split
  · simp
  · assumption

theorem isPlainNumeral_pointed {ds : List Char} (h : Digits ds) (point : Int) :
    IsPlainNumeral (Scientific.pointed ds point) := by
  have hall : ∀ {es : List Char} (n : Nat), Digits es → IsPlainNumeral (if es.length ≤ n then
      Scientific.trimZeros (es ++ List.replicate (n - es.length) '0')
      else Scientific.trimZeros (es.take n) ++ '.' :: es.drop n) := by
    intro es n hes
    split
    · exact isPlainNumeral_digits (trimZeros_traits (hes.append (digits_zeros _))).2 (trimZeros_ne_nil _)
    · exact isPlainNumeral_point (trimZeros_traits (hes.take n)).2 (hes.drop n)
  unfold Scientific.pointed
  by_cases hpoint : point ≤ 0
  · simp only [hpoint, if_true]
    exact hall 1 ((digits_zeros _).append h)
  · simp only [hpoint, if_false]
    exact hall point.toNat h

/-- A numeral read with its power of ten is written out without it. -/
theorem isSignedNumeral_plain {n : Scientific} (hwhole : Digits n.whole) (hfraction : Digits n.fraction) :
    IsSignedNumeral n.plain := by
  have hbody := isPlainNumeral_pointed (hwhole.append hfraction) (n.whole.length + n.exponent)
  unfold Scientific.plain
  cases n.negative with
  | false => exact Or.inl hbody
  | true => exact Or.inr ⟨'-', _, rfl, Or.inl rfl, hbody⟩

/-- A decimal number behind its sign is plain already or has a power of ten. -/
theorem placePoint_cases {ds : List Char} (h : Digits ds) (hne : ds ≠ []) (point : Int) :
    IsPlainNumeral (Decimal.placePoint ds point).toList
      ∨ ∀ negative, (Scientific.readBody negative (Decimal.placePoint ds point).toList).isSome := by
  by_cases hbehind : (ds.length : Int) ≤ point ∧ point ≤ 21
  · left
    simp only [Decimal.placePoint, if_pos hbehind, String.toList_ofList]
    exact isPlainNumeral_digits (h.append (digits_zeros _)) (by simp [hne])
  by_cases hinside : 0 < point ∧ point ≤ 21
  · left
    simp only [Decimal.placePoint, if_neg hbehind, if_pos hinside, String.toList_ofList]
    exact isPlainNumeral_point (h.take _) (h.drop _)
  by_cases hbefore : -6 < point ∧ point ≤ 0
  · left
    have htext : (Decimal.placePoint ds point).toList = ['0'] ++ '.' :: (List.replicate (-point).toNat '0' ++ ds) := by
      simp [Decimal.placePoint, hbehind, hinside, hbefore]
    rw [htext]
    exact isPlainNumeral_point (digits_zeros 1) ((digits_zeros _).append h)
  · right
    intro negative
    obtain ⟨d, es, rfl⟩ := List.exists_cons_of_ne_nil hne
    have hes : Digits es := fun c hc => h c (by simp [hc])
    rw [Datum.toList_placePoint_power hbehind hinside hbefore]
    simp only [Scientific.readBody, Datum.splitMantissa_power (h d (by simp)) hes,
      Datum.readPower_power (digits_toDigits _) Nat.toDigits_ne_nil]
    rfl

/-- A text with its sign is written out as a numeral with its sign. -/
theorem isSignedNumeral_plainText (negative : Bool) {body : List Char}
    (hhead : ∀ c, body.head? = some c → c ≠ '-' ∧ c ≠ '+')
    (h : IsPlainNumeral body ∨ ∀ negative, (Scientific.readBody negative body).isSome) :
    IsSignedNumeral (plainText (String.ofList ((if negative then ['-'] else []) ++ body))).toList := by
  have hread : Scientific.read? ((if negative then ['-'] else []) ++ body) = Scientific.readBody negative body := by
    cases negative with
    | true => rfl
    | false =>
      cases body with
      | nil => rfl
      | cons c cs =>
        obtain ⟨hminus, hplus⟩ := hhead c rfl
        simp [Scientific.read?, hminus, hplus]
  unfold plainText
  rw [String.toList_ofList, hread]
  cases hn : Scientific.readBody negative body with
  | some n =>
    obtain ⟨hwhole, hfraction, -⟩ := Scientific.readBody_traits hn
    rw [String.toList_ofList]
    exact isSignedNumeral_plain hwhole hfraction
  | none =>
    have hplain : IsPlainNumeral body := by
      rcases h with h | h
      · exact h
      · have hsome := h negative
        rw [hn] at hsome
        cases hsome
    rw [String.toList_ofList]
    cases negative with
    | false => exact Or.inl hplain
    | true => exact Or.inr ⟨'-', body, rfl, Or.inl rfl, hplain⟩

/-- A decimal number is written as a numeral with or without a sign. -/
theorem isSignedNumeral_decimal (a : Decimal) : IsSignedNumeral (plainText a.toText).toList := by
  by_cases hzero : a.mantissa = 0
  · have htext : a.toText = String.ofList ((if false then ['-'] else []) ++ ['0']) := by
      simp [Decimal.toText, hzero]
    rw [htext]
    exact isSignedNumeral_plainText false (by simp) (Or.inl (isPlainNumeral_digits (digits_zeros 1) (by simp)))
  · have hdigits := Decimal.digits_significant a.mantissa.natAbs
    have hne := Decimal.significant_ne_nil (Int.natAbs_ne_zero.mpr hzero)
    rw [Decimal.toText_of_ne hzero]
    exact isSignedNumeral_plainText _ (Decimal.head_placePoint hdigits hne _) (placePoint_cases hdigits hne _)

/-- An exact number is written as a numeral with or without a sign. -/
theorem isSignedNumeral_exact {v : Value} (h : v.rational?.isSome) : IsSignedNumeral (plainText v.toText).toList := by
  cases v with
  | text _ | flag _ => cases h
  | integer n =>
    have hdigits := isPlainNumeral_digits (digits_toDigits n.natAbs) Nat.toDigits_ne_nil
    rw [Value.toText, Value.toString_signed]
    exact isSignedNumeral_plainText _ (Value.head_toDigits _) (Or.inl hdigits)
  | number x =>
    cases x with
    | finite negative size held => exact isSignedNumeral_decimal _
    | infinite negative => cases negative <;> cases h
    | undefined => cases h

namespace Dialect

/-- Functions that a dialect writes for sums and differences are named by words. -/
theorem targetFunctions_words {d : Dialect} (hd : d ∈ Dialect.all) : ∀ f ∈ d.targetFunctions,
    isWord f.operator.name.toList = true ∧ f.operator.form = .function ∧ f.operator.isAggregate = false := by
  revert hd
  revert d
  decide

/-- A sum or a difference stays what it is or is written as a function. -/
theorem targetFunction_cases {d : Dialect} (hd : d ∈ Dialect.all) (op : Operator) (types : List DataType) :
    d.targetFunction op types = op ∨ isWord (d.targetFunction op types).name.toList = true
      ∧ (d.targetFunction op types).form = .function ∧ (d.targetFunction op types).isAggregate = false := by
  unfold targetFunction
  split
  · split
    · rename_i f hf
      exact Or.inr (targetFunctions_words hd f (List.mem_of_find?_eq_some hf))
    · exact Or.inl rfl
  · exact Or.inl rfl

end Dialect

namespace Convert

variable {ρ : Type} {env : Env} {ctx : Context} {sub : ρ → ConvertM Node} {x : Lexis} {s : Render.Setting}

theorem binaryKind?_of_mem {op : Operator} (h : op ∈ Scalar.binaryOperators) :
    (∃ kind, binaryKind? op.kind = some kind) ∧ op.form ≠ .function ∧ op ≠ .negate ∧ op ≠ .not
      ∧ ¬ (op = .and ∨ op = .or)
      ∧ op.kind ∉ [.and, .or, .not, .case, .search, .cast, .patternConcat, .patternAlter, .patternQuantifier]
      ∧ op.kind ≠ .sumOrZero ∧ op.kind ≠ .otherFunction := by
  simp only [Scalar.binaryOperators, List.mem_cons, List.not_mem_nil, or_false] at h
  rcases h with rfl | rfl | rfl | rfl | rfl | rfl | rfl | rfl | rfl | rfl | rfl <;>
    exact ⟨⟨_, rfl⟩, by decide, by decide, by decide, by decide, by decide, by decide, by decide⟩

/-- A call between two operands is written as an operation or as a function. -/
theorem operationNode_shown (hx : x.MarksNames) {d : Dialect} (hd : d ∈ Dialect.all) {op : Operator}
    (hop : op ∈ Scalar.binaryOperators) (types : List DataType) {l r : Node} {p q : Prop} (hl : Shown x s l p)
    (hr : Shown x s r q) : ∃ written n, d.retarget op types = .ok written ∧ operationNode written [l, r] = .ok n
      ∧ ShownSigned x s n (p ∨ q) False := by
  obtain ⟨⟨kind, hkind⟩, hform, -, -, -, -, hsum, hother⟩ := binaryKind?_of_mem hop
  have hplain : operationNode op [l, r] = .ok (Node.binary kind l r) := by
    simp [operationNode, hform, hkind, binaryNode]
  have hshown := shown_binaryKind hx hkind hl hr
  by_cases hsigned : op.kind = .plus ∨ op.kind = .minus
  · have hretarget : d.retarget op types = .ok (d.targetFunction op types) := by
      rcases hsigned with h | h <;> simp [Dialect.retarget, h]
    rcases Dialect.targetFunction_cases hd op types with hsame | ⟨hname, hfunction, haggregate⟩
    · exact ⟨_, _, hretarget, by rw [hsame]; exact hplain, hshown⟩
    · refine ⟨_, Node.call (d.targetFunction op types).name [l, r], hretarget, ?_, ?_⟩
      · simp [operationNode, hfunction, haggregate]
      · exact (Shown.call hx hname (.cons hl (.cons hr .nil))).congr (by simp) Iff.rfl
  · have hretarget : d.retarget op types = .ok op := by
      rw [not_or] at hsigned
      unfold Dialect.retarget
      split <;> first | rfl | (exfalso; simp_all)
    exact ⟨op, _, hretarget, hplain, hshown⟩

/-- A conversion is no elementary expression. -/
theorem isCast_of_elementary {e : Scalar ρ} (h : e.Elementary env ctx) : e.isCast = false := by
  cases h with
  | binary hop _ _ _ =>
    have hkind := (binaryKind?_of_mem hop).2.2.2.2.2.1
    simp only [List.mem_cons, not_or] at hkind
    simpa [Scalar.isCast] using hkind.2.2.2.2.2.1
  | distinct hop _ _ _ | chain hop _ _ => rcases hop with rfl | rfl <;> rfl
  | _ => rfl

/-- A denial of an elementary expression denies another denial or something else, which is not turned over. -/
theorem deny_of_elementary {e : Scalar ρ} (h : e.Elementary env ctx) (n : Node) :
    deny (e.operator?.map (·.kind)) n = Node.not n := by
  cases h with
  | binary hop _ _ _ =>
    simp only [Scalar.binaryOperators, List.mem_cons, List.not_mem_nil, or_false] at hop
    rcases hop with rfl | rfl | rfl | rfl | rfl | rfl | rfl | rfl | rfl | rfl | rfl <;> rfl
  | distinct hop _ _ _ | chain hop _ _ => rcases hop with rfl | rfl <;> rfl
  | _ => rfl

theorem not_cases_of_elementary {e : Scalar ρ} (h : e.Elementary env ctx) :
    (∃ y u, e = .call .not [y] u ∧ y.Elementary env ctx)
      ∨ ∀ inner y ys u, e = .call inner (y :: ys) u → inner.kind ≠ .not := by
  cases h with
  | not h u => exact Or.inl ⟨_, u, rfl, h⟩
  | binary hop _ _ _ =>
    have hkind := (binaryKind?_of_mem hop).2.2.2.2.2.1
    refine Or.inr fun inner y ys u heq => ?_
    cases heq
    simp only [List.mem_cons, not_or] at hkind
    exact hkind.2.2.1
  | distinct hop _ _ _ | chain hop _ _ =>
    refine Or.inr fun inner y ys u heq => ?_
    cases heq
    rcases hop with rfl | rfl <;> decide
  | negate _ _ | case _ _ =>
    refine Or.inr fun inner y ys u heq => ?_
    cases heq
    decide
  | _ => exact Or.inr fun inner y ys u heq => by cases heq

/-- **`Exposed`** — the expression has a node, which is written as a text that opens a comment exactly if the
expression doubles a sign. -/
def Exposed (env : Env) (sub : ρ → ConvertM Node) (ctx : Context) (x : Lexis) (s : Render.Setting) (e : Scalar ρ) :
    Prop :=
  ∃ n, (∀ st, (scalarNode env sub ctx e).Gives st n st) ∧ ShownSigned x s n e.DoublesMinus e.IsNegativeNumber

/-- The same for several expressions. -/
def ExposedAll (env : Env) (sub : ρ → ConvertM Node) (ctx : Context) (x : Lexis) (s : Render.Setting)
    (es : List (Scalar ρ)) : Prop :=
  ∃ ns, (∀ st, (scalarNodes env sub ctx es).Gives st ns st)
    ∧ List.Forall₂ (fun n e => ShownSigned x s n e.DoublesMinus e.IsNegativeNumber) ns es

theorem exposedAll_nil : ExposedAll env sub ctx x s [] := ⟨[], fun st => by simp [scalarNodes], .nil⟩

theorem Exposed.cons {e : Scalar ρ} {es : List (Scalar ρ)} (h : Exposed env sub ctx x s e)
    (hrest : ExposedAll env sub ctx x s es) : ExposedAll env sub ctx x s (e :: es) := by
  obtain ⟨n, hn, hshown⟩ := h
  obtain ⟨ns, hns, hall⟩ := hrest
  refine ⟨n :: ns, fun st => ?_, .cons hshown hall⟩
  simp only [scalarNodes, ConvertM.gives_bind, ConvertM.gives_pure]
  exact ⟨n, st, hn st, ns, st, hns st, rfl, rfl⟩

theorem shown_all {ns : List Node} {es : List (Scalar ρ)}
    (h : List.Forall₂ (fun n e => ShownSigned x s n e.DoublesMinus e.IsNegativeNumber) ns es) :
    List.Forall₂ (Shown x s) ns (es.map Scalar.DoublesMinus) :=
  List.forall₂_map_right_iff.mpr (h.imp fun _ _ hsigned => hsigned.shown)

/-- A literal is exposed by the node for it. -/
theorem exposed_literal {l : Literal} {n : Node} (hn : literalIn env ctx l = .ok n) {negative : Prop}
    (hshown : ShownSigned x s n False negative)
    (hnegative : negative ↔ Scalar.IsNegativeNumber (.literal l : Scalar ρ)) : Exposed env sub ctx x s (.literal l) := by
  refine ⟨n, fun st => ?_, hshown.congr (iff_of_false id nofun) hnegative⟩
  rw [scalarNode, ConvertM.gives_lift]
  exact ⟨hn, rfl⟩

theorem exposed_text (hfits : x.Fits s.style) (hstyle : s.style.MarksNames) (v : String) (t : DataType) :
    Exposed env sub ctx x s (.literal ⟨.character v, t⟩) := by
  have hnegative : False ↔ Scalar.IsNegativeNumber (.literal ⟨.character v, t⟩ : Scalar ρ) := iff_of_false id nofun
  -- in a row pattern the text is the name of a variable
  cases ctx with
  | rowPattern _ _ => exact exposed_literal rfl (Shown.identifier hfits hstyle v) hnegative
  | _ => exact exposed_literal rfl (Shown.text hfits v) hnegative

theorem exposed_number (hx : x.MarksNames) {digits : String} (h : IsSignedNumeral digits.toList) (t : DataType) :
    Exposed env sub ctx x s (.literal ⟨.exact digits, t⟩) := by
  have hn : literalIn env ctx ⟨.exact digits, t⟩ = .ok (Node.number digits) := by cases ctx <;> rfl
  refine exposed_literal hn (Shown.number hx h) ⟨fun hhead => .number hhead t, fun hneg => ?_⟩
  cases hneg with
  | number hhead _ => exact hhead

theorem exposed_binary (hx : x.MarksNames) (hd : env.dialect ∈ Dialect.all) {op : Operator}
    (hop : op ∈ Scalar.binaryOperators) {left right : Scalar ρ} (hcasts : ∀ e ∈ [left, right], e.isCast = false)
    (hleft : Exposed env sub ctx x s left) (hright : Exposed env sub ctx x s right) (t : DataType) :
    Exposed env sub ctx x s (.call op [left, right] t) := by
  obtain ⟨_, hgives, hall⟩ := hleft.cons (hright.cons exposedAll_nil)
  obtain ⟨-, -, hsign, hnot, hchain, hkind, -, -⟩ := binaryKind?_of_mem hop
  cases hall with | cons hl hall =>
  cases hall with | cons hr hall =>
  cases hall
  obtain ⟨written, n, hwritten, hn, hshown⟩ := operationNode_shown hx hd hop [left.type, right.type] hl.shown hr.shown
  refine ⟨n, gives_operation hkind hcasts hwritten hgives hn t, hshown.congr ?_ ?_⟩
  · simp [Scalar.doublesMinus_call hsign]
  · exact iff_of_false id (Scalar.not_isNegativeNumber hnot (fun h => absurd h hchain) t)

theorem exposed_distinct (hx : x.MarksNames) {op : Operator} (hop : op = .isDistinctFrom ∨ op = .isNotDistinctFrom)
    {left right : Scalar ρ} (hcasts : ∀ e ∈ [left, right], e.isCast = false) (hleft : Exposed env sub ctx x s left)
    (hright : Exposed env sub ctx x s right) (t : DataType) :
    Exposed env sub ctx x s (.call op [left, right] t) := by
  obtain ⟨_, hgives, hall⟩ := hleft.cons (hright.cons exposedAll_nil)
  cases hall with | cons hl hall =>
  cases hall with | cons hr hall =>
  cases hall
  have hdoubles : ∀ {op : Operator}, op ≠ .negate →
      (left.DoublesMinus ∨ right.DoublesMinus ↔ Scalar.DoublesMinus (.call op [left, right] t)) := fun hop => by
    simp [Scalar.doublesMinus_call hop]
  have hnone : ∀ {op : Operator}, op ≠ .not → (False ↔ Scalar.IsNegativeNumber (.call op [left, right] t)) :=
    fun hop => iff_of_false id (Scalar.not_isNegativeNumber hop (fun _ => by simp) t)
  rcases hop with rfl | rfl
  · exact ⟨_, gives_operation (by decide) hcasts rfl hgives rfl t,
      (Shown.distinct hx false hl.shown hr.shown).congr (hdoubles (by decide)) (hnone (by decide))⟩
  · exact ⟨_, gives_operation (by decide) hcasts rfl hgives rfl t,
      (Shown.distinct hx true hl.shown hr.shown).congr (hdoubles (by decide)) (hnone (by decide))⟩

/-- Nothing is written for a chain of one operand, so it begins as the operand does. -/
theorem exposed_chain (hx : x.MarksNames) {op : Operator} (hop : op = .and ∨ op = .or) {operands : List (Scalar ρ)}
    (h : ExposedAll env sub ctx x s operands) (t : DataType) : Exposed env sub ctx x s (.call op operands t) := by
  obtain ⟨ns, hns, hall⟩ := h
  have hne : op ≠ .negate ∧ op ≠ .not := by rcases hop with rfl | rfl <;> decide
  have hshown : ∀ {kind : Kind} (unit : Bool), kind = .and ∨ kind = .or →
      ShownSigned x s (Node.connect kind (Node.boolean unit) ns) (Scalar.DoublesMinus (.call op operands t))
        (Scalar.IsNegativeNumber (.call op operands t)) := by
    intro kind unit hkind
    refine shown_connect hx hkind unit (shown_all hall) (fun m hm => ?_) (Scalar.doublesMinus_call hne.1 _ t)
      fun hneg => ?_
    · subst hm
      obtain ⟨e, _, hm, hnil, rfl⟩ := List.forall₂_cons_left_iff.mp hall
      cases hnil
      refine hm.congr ?_ (Scalar.isNegativeNumber_only hop e t).symm
      simp [Scalar.doublesMinus_call hne.1]
    · rw [hall.length_eq]
      by_contra hlength
      exact Scalar.not_isNegativeNumber hne.2 (fun _ => hlength) t hneg
  rcases hop with rfl | rfl
  · refine ⟨Node.and ns, fun st => ?_, hshown true (Or.inl rfl)⟩
    rw [scalarNode.eq_def]
    simp only [show Operator.and.kind = .and from rfl, ConvertM.gives_bind, ConvertM.gives_pure]
    exact ⟨ns, st, hns st, rfl, rfl⟩
  · refine ⟨Node.or ns, fun st => ?_, hshown false (Or.inr rfl)⟩
    rw [scalarNode.eq_def]
    simp only [show Operator.or.kind = .or from rfl, ConvertM.gives_bind, ConvertM.gives_pure]
    exact ⟨ns, st, hns st, rfl, rfl⟩

/-- Nothing is written for two denials. -/
theorem exposed_not_not {e : Scalar ρ} (h : Exposed env sub ctx x s e) (t u : DataType) :
    Exposed env sub ctx x s (.call .not [.call .not [e] u] t) := by
  obtain ⟨n, hn, hshown⟩ := h
  refine ⟨n, fun st => by rw [scalarNode_not_not]; exact hn st, hshown.congr ?_ ?_⟩
  · simp [Scalar.doublesMinus_call (show Operator.not ≠ .negate by decide)]
  · rw [Scalar.isNegativeNumber_not]
    exact ⟨fun h => ⟨e, u, rfl, h⟩, by rintro ⟨_, _, heq, h⟩; cases heq; exact h⟩

theorem exposed_not (hx : x.MarksNames) {e : Scalar ρ} (he : e.Elementary env ctx)
    (hother : ∀ inner y ys u, e = .call inner (y :: ys) u → inner.kind ≠ .not) (h : Exposed env sub ctx x s e)
    (t : DataType) : Exposed env sub ctx x s (.call .not [e] t) := by
  obtain ⟨n, hn, hshown⟩ := h
  refine ⟨Node.not n, fun st => ?_, (Shown.not hx hshown.shown).congr ?_ (iff_of_false id ?_)⟩
  · rw [scalarNode_not hother, ConvertM.gives_bind]
    exact ⟨n, st, hn st, by rw [deny_of_elementary he]; rfl⟩
  · simp [Scalar.doublesMinus_call (show Operator.not ≠ .negate by decide)]
  · rw [Scalar.isNegativeNumber_not]
    rintro ⟨y, u, rfl, -⟩
    exact hother _ _ _ _ rfl rfl

/-- A sign before a negative number is the one place where two minus signs meet. -/
theorem exposed_negate (hx : x.MarksNames) {e : Scalar ρ} (hcasts : ∀ e' ∈ [e], e'.isCast = false)
    (h : Exposed env sub ctx x s e) (t : DataType) : Exposed env sub ctx x s (.call .negate [e] t) := by
  obtain ⟨_, hgives, hall⟩ := h.cons exposedAll_nil
  cases hall with | cons hn hall =>
  cases hall
  refine ⟨_, gives_operation (by decide) hcasts rfl hgives rfl t, (hn.neg hx).congr ?_ ?_⟩
  · exact (Scalar.doublesMinus_negate e t).symm
  · exact iff_of_false id (Scalar.not_isNegativeNumber (by decide) (fun h => absurd h (by decide)) t)

theorem exposed_case (hx : x.MarksNames) {operands : List (Scalar ρ)} (h : ExposedAll env sub ctx x s operands)
    (t : DataType) : Exposed env sub ctx x s (.call .case operands t) := by
  obtain ⟨ns, hns, hall⟩ := h
  refine ⟨caseNode ns, fun st => ?_, (shown_case hx (shown_all hall)).congr ?_ ?_⟩
  · rw [scalarNode.eq_def]
    simp only [show Operator.case.kind = .case from rfl, ConvertM.gives_bind, ConvertM.gives_pure]
    exact ⟨ns, st, hns st, rfl, rfl⟩
  · exact (Scalar.doublesMinus_call (by decide) operands t).symm
  · exact iff_of_false id (Scalar.not_isNegativeNumber (by decide) (fun h => absurd h (by decide)) t)

mutual

/-- Elementary expressions are exposed. -/
theorem scalarNode_shown (hfits : x.Fits s.style) (hstyle : s.style.MarksNames) (hd : env.dialect ∈ Dialect.all) :
    ∀ e : Scalar ρ, e.Elementary env ctx → Exposed env sub ctx x s e
  | .inputRef i t, he => by
    cases he with
    | @field _ name table h t =>
      have hcolumn := Shown.column hfits hstyle name table
      refine ⟨_, fun st => ?_, hcolumn.congr (iff_of_false id nofun) (iff_of_false id nofun)⟩
      rw [scalarNode, ConvertM.gives_lift]
      exact ⟨h, rfl⟩
  | .literal l, he => by
    cases he with
    | text v t => exact exposed_text hfits hstyle v t
    | number h t => exact exposed_number (hfits.marksNames hstyle) h t
  | .call op operands t, he => by
    have hx := hfits.marksNames hstyle
    cases he with
    | @binary _ hop left right hleft hright t =>
      have hcasts : ∀ e ∈ [left, right], e.isCast = false := by
        simp [isCast_of_elementary hleft, isCast_of_elementary hright]
      exact exposed_binary hx hd hop hcasts (scalarNode_shown hfits hstyle hd left hleft)
        (scalarNode_shown hfits hstyle hd right hright) t
    | @distinct _ hop left right hleft hright t =>
      have hcasts : ∀ e ∈ [left, right], e.isCast = false := by
        simp [isCast_of_elementary hleft, isCast_of_elementary hright]
      exact exposed_distinct hx hop hcasts (scalarNode_shown hfits hstyle hd left hleft)
        (scalarNode_shown hfits hstyle hd right hright) t
    | chain hop hoperands t => exact exposed_chain hx hop (scalarNodes_shown hfits hstyle hd operands hoperands) t
    | @not e he t =>
      rcases not_cases_of_elementary he with ⟨y, u, rfl, hy⟩ | hother
      · exact exposed_not_not (scalarNode_shown hfits hstyle hd y hy) t u
      · exact exposed_not hx he hother (scalarNode_shown hfits hstyle hd e he) t
    | @negate e he t =>
      have hcasts : ∀ e' ∈ [e], e'.isCast = false := by simp [isCast_of_elementary he]
      exact exposed_negate hx hcasts (scalarNode_shown hfits hstyle hd e he) t
    | case hoperands t => exact exposed_case hx (scalarNodes_shown hfits hstyle hd operands hoperands) t
  | .localRef .., he | .overWindow .., he | .fieldAccess .., he | .correlation .., he | .subQuery .., he
  | .parameter .., he | .patternField .., he => nomatch he

theorem scalarNodes_shown (hfits : x.Fits s.style) (hstyle : s.style.MarksNames) (hd : env.dialect ∈ Dialect.all) :
    ∀ es : List (Scalar ρ), (∀ e ∈ es, e.Elementary env ctx) → ExposedAll env sub ctx x s es
  | [], _ => exposedAll_nil
  | e :: es, he =>
    (scalarNode_shown hfits hstyle hd e (he e List.mem_cons_self)).cons
      (scalarNodes_shown hfits hstyle hd es fun e' he' => he e' (List.mem_cons_of_mem _ he'))

end

/-- An exact number is an elementary expression, whatever its sign. -/
theorem elementary_exact {v : Value} (h : v.rational?.isSome) (t : DataType) :
    Scalar.Elementary (ρ := ρ) env ctx (.literal (Literal.exact v t)) :=
  .number (isSignedNumeral_exact h) t

/-- The fields of named inputs are columns, unless something else is written for a field. -/
theorem elementary_field {inputs : Aliases} {qualified : Bool} (hmap : env.fieldMap = []) {i : Nat}
    (hi : i < Context.width inputs) (t : DataType) :
    Scalar.Elementary (ρ := ρ) env (.aliases inputs qualified) (.inputRef i t) := by
  have howner := (Context.owner?_isSome_iff inputs i).mpr hi
  obtain ⟨⟨name, f⟩, hp⟩ := Option.isSome_iff_exists.mp howner
  exact .field (Context.field_aliases hmap qualified hp) t

/-- **Comments** — an elementary expression over columns has a node in every known dialect, which is written
without a notice.  Outside texts and names in quotes the text holds two minus signs next to each other, or a slash
before a star, exactly if the expression changes the sign of a negative number somewhere. -/
theorem opensComment_run {env : Env} (hd : env.dialect ∈ Dialect.all) (options : Options) (ctx : Context)
    (sub : ρ → ConvertM Node) {e : Scalar ρ} (he : e.Elementary env ctx) :
    ∃ n text fs, (∀ st, (scalarNode env sub ctx e).Gives st n st)
      ∧ run (env.dialect.setting options) n = (.ok text, [])
      ∧ (Lexis.of env.dialect).fragments text.toList = some fs
      ∧ (opensComment fs = true ↔ e.DoublesMinus) := by
  have hfits : (Lexis.of env.dialect).Fits (env.dialect.setting options).style := fits_of_mem hd
  have hstyle : (env.dialect.setting options).style.MarksNames := marksNames_of_mem hd
  obtain ⟨n, hn, text, htext, ⟨fs, hfalls, hopens⟩, -⟩ := scalarNode_shown hfits hstyle hd e he
  refine ⟨n, text, fs, hn, ?_, hfalls.alone, hopens⟩
  rw [run, render, htext]
  rfl

/-- `a - 1 < -2 AND -a = 3` opens no comment. -/
theorem opensComment_run_difference :
    let env : Env := { dialect := Dialect.ansi }
    let ctx := Context.aliases [("t", [⟨"a", DataType.integer⟩])] false
    let a : Scalar Unit := .inputRef (0 : Nat) DataType.integer
    let number (n : Int) : Scalar Unit := .literal (Literal.exact (.integer n))
    let less := Scalar.call .lessThan [.call .minus [a, number 1] DataType.integer, number (-2)] DataType.boolean
    let equal := Scalar.call .equals [.call .negate [a] DataType.integer, number 3] DataType.boolean
    let e := Scalar.call .and [less, equal] DataType.boolean
    (env.dialect ∈ Dialect.all ∧ e.Elementary env ctx)
      ∧ ∃ n text fs, (∀ st, (scalarNode env (fun _ => throw .searchOperands) ctx e).Gives st n st)
        ∧ run (env.dialect.setting {}) n = (.ok text, [])
        ∧ (Lexis.of env.dialect).fragments text.toList = some fs
        ∧ (opensComment fs = true ↔ e.DoublesMinus) := by
  intro env ctx a number less equal e
  have ha : a.Elementary env ctx := elementary_field rfl (by decide) _
  have hnumber : ∀ n, (number n).Elementary env ctx := fun n => elementary_exact rfl _
  have hless : less.Elementary env ctx :=
    .binary (by decide) (.binary (by decide) ha (hnumber 1) _) (hnumber (-2)) _
  have hequal : equal.Elementary env ctx := .binary (by decide) (.negate ha _) (hnumber 3) _
  have he : e.Elementary env ctx := .chain (Or.inl rfl) (by simp [hless, hequal]) _
  have hd : env.dialect ∈ Dialect.all := List.mem_cons_self
  exact ⟨⟨hd, he⟩, opensComment_run hd {} ctx _ he⟩

/-- The changed sign of minus one is written as two minus signs. -/
theorem opensComment_doubled :
    let env : Env := { dialect := Dialect.ansi }
    let ctx := Context.aliases [("t", [⟨"a", DataType.integer⟩])] false
    let e : Scalar Unit := .call .negate [.literal (Literal.exact (.integer (-1)))] DataType.integer
    e.Elementary env ctx
      ∧ ∃ n fs, (∀ st, (scalarNode env (fun _ => throw .searchOperands) ctx e).Gives st n st)
        ∧ run (env.dialect.setting {}) n = (.ok "--1", [])
        ∧ (Lexis.of env.dialect).fragments "--1".toList = some fs ∧ opensComment fs = true := by
  intro env ctx e
  have hx : (Lexis.of env.dialect).MarksNames := Or.inl rfl
  have hsigns : ("--1".toList.any (Lexis.of env.dialect).opens) = false := by decide
  refine ⟨.negate (elementary_exact rfl _) _, Node.neg (Node.number "-1"), _, fun st => ?_, rfl,
    (falls_signs fun c hc => by simpa using List.any_eq_false.mp hsigns c hc).alone, rfl⟩
  rfl

end Convert

end AlgebraSql
