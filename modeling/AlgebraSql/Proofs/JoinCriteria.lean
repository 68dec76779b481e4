import AlgebraSql.Proofs.JoinBags

/-!
# Join criteria — the condition of a join is written as a node with its value.

Whether a condition is written as an operand of other conditions or as the condition of a join, its node has the
value of the condition wherever the fields of both inputs show a row.  They do in the condition of a join, whose
FROM items are both inputs; and inside EXISTS, where the left input stands in the query around.
-/

namespace AlgebraSql

open Sql Node

/-! ## Comparisons turned round -/

theorem Text.compare16_swap (s t : String) : (Text.compare16 s t).swap = Text.compare16 t s := by
  rw [Text.compare16, Text.compare16, Text.compareChars_eq, Text.compareChars_eq, cmp_swap]

namespace Datum

/-- Values in the other order. -/
theorem order?_swap (d e : Datum) : e.order? d = (d.order? e).map Ordering.swap := by
  cases d <;> cases e <;> simp only [order?, Option.map_some, Option.map_none, cmp_swap, Text.compare16_swap]

/-- A comparison of values in the other order. -/
theorem compare_swap (test : Ordering → Bool) (d e : Datum) : e.compare test d = d.compare (fun o => test o.swap) e := by
  rw [compare, compare, order?_swap]
  cases d.order? e <;> rfl

end Datum

namespace Operator

variable {op : Operator}

/-- **`reversed`** — a comparison turned round computes the same. -/
theorem compute_reversed (h : op ∈ comparisons) (P : Patterns) (d e : Datum) :
    op.reversed.compute P [e, d] = op.compute P [d, e] := by
  simp only [comparisons, List.mem_cons, List.not_mem_nil, or_false] at h
  rcases h with rfl | rfl | rfl | rfl | rfl | rfl | rfl | rfl
  iterate 6
    exact (Datum.compare_swap _ d e).trans (congrArg (d.compare · e) (funext fun o => by cases o <;> rfl))
  · exact congrArg Datum.bool (decide_eq_decide.mpr ne_comm)
  · exact congrArg Datum.bool (decide_eq_decide.mpr eq_comm)

theorem reversed_mem (h : op ∈ comparisons) : op.reversed ∈ comparisons := by
  revert op
  decide

/-- Comparisons take any two operands. -/
theorem takes_of_mem_comparisons (h : op ∈ comparisons) (s t : DataType) : op.Takes [s, t] := by
  simp only [comparisons, List.mem_cons, List.not_mem_nil, or_false] at h
  rcases h with rfl | rfl | rfl | rfl | rfl | rfl | rfl | rfl
  iterate 6 exact .comparison (by simp) s t
  iterate 2 exact .distinction (by simp) s t

end Operator

namespace Convert

variable {ρ : Type} {E : Engine} {α : Type} {V : Reading E α} {env : Env} {ctx : Context} {sub : ρ → ConvertM Node}

/-- A comparison is written as a node that compares what its operands show. -/
theorem comparisonNode_shows {op : Operator} (h : op ∈ Operator.comparisons) (P : Patterns) (l r : Node) :
    ∃ n, operationNode op [l, r] = .ok n ∧ ∀ {E : Engine} {α : Type} {V : Reading E α} {v w : α → Datum},
      V.Shows l v → V.Shows r w → V.Shows n fun a => op.compute P [v a, w a] := by
  simp only [Operator.comparisons, List.mem_cons, List.not_mem_nil, or_false] at h
  rcases h with rfl | rfl | rfl | rfl | rfl | rfl | rfl | rfl
  iterate 6 exact ⟨_, rfl, Reading.shows_comparison rfl⟩
  · exact ⟨_, rfl, fun hl hr => (Reading.shows_distinct false hl hr).congr fun a => Datum.isTest_true _ _⟩
  · exact ⟨_, rfl, fun hl hr => (Reading.shows_distinct true hl hr).congr fun a => Datum.isTest_false _ _⟩

/-! ## Constants -/

/-- A database without tables. -/
def noTables : Database := ⟨fun _ => [], fun _ => [], by simp⟩

/-- **`constantValue`** — what a constant is worth: its value if that is missing, a text, an exact number or a truth
value, and what an engine makes of its literal otherwise. -/
def constantValue (E : Engine) (d : Dialect) (l : Literal) : Datum :=
  l.value.datum?.getD <| match literalNode d l with
    | .ok n => single (((n.scalar E noTables Names.none).map fun v => v []).getD [])
    | .error _ => .null

/-- A node has the same values in every database, under all names and on every row. -/
def Fixed (E : Engine) (n : Node) : Prop := ∃ ds, ∀ db names, n.scalar E db names = some fun _ => ds

/-- Operations on the same values have the same values. -/
theorem congruent_fixed (E : Engine) : Congruent fun m _ => Fixed E m where
  args {k as bs} hk h := by
    have hchildren : ∀ c ∈ (Node.mk k as).children, Fixed E c := fun c hc => by
      obtain ⟨i, hi, rfl⟩ := List.mem_iff_getElem.mp hc
      have hrel := children_rel h (k := k)
      exact (List.forall₂_iff_get.mp hrel).2 i hi (hrel.length_eq ▸ hi)
    obtain ⟨dss, hdss⟩ : ∃ dss, ∀ db names,
        together ((Node.mk k as).children.map (scalar E db names)) = some fun _ => dss := by
      generalize (Node.mk k as).children = cs at hchildren
      induction cs with
      | nil => exact ⟨[], fun _ _ => rfl⟩
      | cons c cs ih =>
        obtain ⟨ds, hds⟩ := hchildren c List.mem_cons_self
        obtain ⟨dss, hdss⟩ := ih fun c hc => hchildren c (List.mem_cons_of_mem _ hc)
        exact ⟨ds :: dss, fun db names => by rw [List.map_cons, hds, together, hdss]; rfl⟩
    exact ⟨_, fun db names => by rw [scalar_of_operation hk, hdss]; rfl⟩

/-- A constant that is missing, a text, an exact number or a truth value shows itself. -/
theorem shows_datum {d : Dialect} {l : Literal} {n : Node} (h : literalNode d l = .ok n) {v : Datum}
    (hv : l.value.datum? = some v) : V.Shows n fun _ => v := by
  obtain ⟨value, type⟩ := l
  cases value with
  | null =>
    obtain rfl : Node.null = n := by simpa [literalNode] using h
    obtain rfl : Datum.null = v := by simpa [LiteralValue.datum?] using hv
    exact Reading.shows_null
  | character s =>
    obtain rfl : Node.string s = n := by simpa [literalNode] using h
    obtain rfl : Datum.text s = v := by simpa [LiteralValue.datum?] using hv
    exact Reading.shows_string s
  | exact s =>
    obtain rfl : Node.number s = n := by simpa [literalNode] using h
    obtain rfl : Datum.ofDigits s = v := by simpa [LiteralValue.datum?] using hv
    exact Reading.shows_number s
  | boolean b =>
    obtain rfl : Node.boolean b = n := by simpa [literalNode] using h
    obtain rfl : Datum.bool b = v := by simpa [LiteralValue.datum?] using hv
    exact Reading.shows_boolean b
  | _ => cases hv

/-- **Constants** are written as nodes that show what they are worth. -/
theorem shows_constant {d : Dialect} {l : Literal} {n : Node} (h : literalNode d l = .ok n) (E : Engine) (db : Database)
    (names : Names) : (Reading.scalar E db names).Shows n fun _ => constantValue E d l := by
  cases hdatum : l.value.datum? with
  | some v =>
    rw [constantValue, hdatum]
    exact shows_datum h hdatum
  | none =>
    have hfixed : Fixed E n := related_literalNode (congruent_fixed E) h
    obtain ⟨ds, hds⟩ := hfixed
    have hone : ds = [single ds] :=
      (produced_oneValued.of_kind (kind_literalNode h)).scalar (hds noTables Names.none) []
    have hworth : constantValue E d l = single ds := by
      simp only [constantValue, hdatum, h, hds, Option.map_some, Option.getD_some, Option.getD_none]
    show n.scalar E db names = _
    rw [hds, hworth]
    exact congrArg some (funext fun _ => hone)

/-! ## Conditions -/

/-- **`Weighs`** — a node has the value of an expression wherever the fields of a context show a row. -/
def Weighs (env : Env) (ctx : Context) (width : Nat) (e : Scalar ρ) (n : Node) : Prop :=
  ∀ {E : Engine} {α : Type} {V : Reading E α} {row : α → Row} (P : Patterns) {constant : Literal → Datum},
    ctx.ShowsRow env V width row → (∀ l m, literalNode env.dialect l = .ok m → V.Shows m fun _ => constant l) →
    V.Shows n fun a => e.valueWith P constant (row a)

variable {width : Nat}

/-- Several conditions. -/
theorem exists_conditions (c : Scalar ρ → ConvertM Node) (cs : List (Scalar ρ) → ConvertM (List Node))
    (hnil : cs [] = pure []) (hcons : ∀ e es, cs (e :: es) = do
      let n ← c e
      return n :: (← cs es)) {es : List (Scalar ρ)}
    (h : ∀ e ∈ es, ∃ n, (∀ s, (c e).Gives s n s) ∧ Weighs env ctx width e n) :
    ∃ ns, (∀ s, (cs es).Gives s ns s) ∧ List.Forall₂ (Weighs env ctx width) es ns := by
  induction es with
  | nil => exact ⟨[], fun s => by rw [hnil, ConvertM.gives_pure]; exact ⟨rfl, rfl⟩, .nil⟩
  | cons e es ih =>
    obtain ⟨n, hn, hweighs⟩ := h e List.mem_cons_self
    obtain ⟨ns, hns, hall⟩ := ih fun e he => h e (List.mem_cons_of_mem _ he)
    refine ⟨n :: ns, fun s => ?_, .cons hweighs hall⟩
    simp only [hcons, ConvertM.gives_bind, ConvertM.gives_pure]
    exact ⟨n, s, hn s, ns, s, hns s, rfl, rfl⟩

/-- Where several nodes weigh expressions, they show the values of the expressions. -/
theorem shows_of_weighs {es : List (Scalar ρ)} {ns : List Node} (h : List.Forall₂ (Weighs env ctx width) es ns)
    {row : α → Row} (P : Patterns) {constant : Literal → Datum} (hrow : ctx.ShowsRow env V width row)
    (hconstant : ∀ l m, literalNode env.dialect l = .ok m → V.Shows m fun _ => constant l) :
    List.Forall₂ V.Shows ns (es.map fun e a => e.valueWith P constant (row a)) := by
  induction h with
  | nil => exact .nil
  | cons hn _ ih => exact .cons (hn P hrow hconstant) ih

/-- AND and OR of nodes weigh conditions as they do. -/
theorem weighs_connective {op : Operator} (hop : op ∈ [Operator.and, Operator.or]) {es : List (Scalar ρ)}
    {ns : List Node} (h : List.Forall₂ (Weighs env ctx width) es ns) (t : DataType) :
    Weighs env ctx width (.call op es t) (if op.kind == .and then Node.and ns else Node.or ns) := by
  intro E α V row P constant hrow hconstant
  have hshows := shows_of_weighs h P hrow hconstant
  have hvalues : ∀ a, (es.map fun e a => Scalar.valueWith P constant (row a) e).map (fun v => v a)
      = Scalar.valuesWith P constant (row a) es := fun a => by
    rw [Scalar.valuesWith_eq_map, List.map_map]
    rfl
  simp only [List.mem_cons, List.not_mem_nil, or_false] at hop
  rcases hop with rfl | rfl
  · exact (Reading.shows_and hshows).congr fun a => by rw [hvalues, Scalar.valueWith]; rfl
  · exact (Reading.shows_or hshows).congr fun a => by rw [hvalues, Scalar.valueWith]; rfl

/-- A comparison of conditions. -/
theorem exists_comparisonNode (hd : env.dialect.AddsNumbers) {op : Operator} (hop : op ∈ Operator.comparisons)
    {x y : Scalar ρ} (hx : x.Criterion width) (hy : y.Criterion width) {l r : Node}
    (hl : (∀ s, (scalarNode env sub ctx x).Gives s l s) ∧ Weighs env ctx width x l)
    (hr : (∀ s, (scalarNode env sub ctx y).Gives s r s) ∧ Weighs env ctx width y r) (t : DataType) :
    ∃ n, (∀ s, (scalarNode env sub ctx (.call op [x, y] t)).Gives s n s)
      ∧ Weighs env ctx width (.call op [x, y] t) n := by
  have hnodes : ∀ s, (scalarNodes env sub ctx [x, y]).Gives s [l, r] s := fun s => by
    simp only [scalarNodes, ConvertM.gives_bind, ConvertM.gives_pure]
    exact ⟨l, s, hl.1 s, [r], s, ⟨r, s, hr.1 s, [], s, ⟨rfl, rfl⟩, rfl, rfl⟩, rfl, rfl⟩
  have hcasts : ∀ e ∈ [x, y], e.isCast = false := fun e he => by
    simp only [List.mem_cons, List.not_mem_nil, or_false] at he
    rcases he with rfl | rfl
    · exact hx.isCast_eq_false
    · exact hy.isCast_eq_false
  have hkind : op.kind ∉ [.and, .or, .not, .case] := by
    revert op
    decide
  obtain ⟨n, hn, -⟩ := comparisonNode_shows hop ⟨fun _ => true, fun _ => true⟩ l r
  refine ⟨n, gives_call (Operator.takes_of_mem_comparisons hop x.type y.type) hkind hd hcasts hnodes hn t,
    fun P constant hrow hconstant => ?_⟩
  obtain ⟨m, hm, hshows⟩ := comparisonNode_shows hop P l r
  obtain rfl : n = m := Except.ok.inj (hn.symm.trans hm)
  exact hshows (hl.2 P hrow hconstant) (hr.2 P hrow hconstant)

/-- A condition is denied by NOT in front. -/
theorem Weighs.deny {e : Scalar ρ} (he : e.Criterion width) {n : Node} (h : Weighs env ctx width e n) (t : DataType) :
    Weighs env ctx width (.call Operator.not [e] t) (Convert.deny (e.operator?.map (·.kind)) n) := by
  have hplain : Convert.deny (e.operator?.map (·.kind)) n = Node.not n := by
    cases hop : e.operator? with
    | none => rfl
    | some op =>
      have hkinds : ∀ op ∈ Operator.comparisons ++ [Operator.and, Operator.or, Operator.not],
          op.kind ∉ [.in, .notIn, .like, .similar] := by decide
      have hkind := hkinds op (he.operator_mem hop)
      simp only [List.mem_cons, List.not_mem_nil, or_false, not_or] at hkind
      simp only [Option.map_some, Convert.deny]
      split <;> simp_all
  intro E α V row P constant hrow hconstant
  rw [hplain]
  exact Reading.shows_not (h P hrow hconstant)

/-- A denial denies a denial, or something that is none. -/
theorem not_denial {e : Scalar ρ} (he : e.Criterion width) (hother : ¬∃ x u, e = .call Operator.not [x] u) :
    ∀ inner x xs u, e = .call inner (x :: xs) u → inner.kind ≠ .not := by
  rintro inner x xs u rfl hkind
  have hkinds : ∀ op ∈ Operator.comparisons ++ [Operator.and, Operator.or, Operator.not],
      op.kind = .not → op = Operator.not := by decide
  obtain rfl := hkinds inner (he.operator_mem rfl) hkind
  cases he with
  | comparison hop | connective hop => exact absurd hop (by decide)
  | denial => exact hother ⟨_, _, rfl⟩

/-- **`scalarNode`** — a condition inside another one is written as a node that weighs it. -/
theorem exists_criterionNode (sub : ρ → ConvertM Node) (hd : env.dialect.AddsNumbers)
    (hfield : ∀ i < width, ∃ n, ctx.field env (i : Nat) = .ok n)
    (hliteral : ∀ l, literalIn env ctx l = literalNode env.dialect l) {e : Scalar ρ} (he : e.Criterion width) :
    ∃ n, (∀ s, (scalarNode env sub ctx e).Gives s n s) ∧ Weighs env ctx width e n := by
  -- two denials cancel, so what is denied twice is needed as well
  suffices hboth : (∃ n, (∀ s, (scalarNode env sub ctx e).Gives s n s) ∧ Weighs env ctx width e n)
      ∧ ∀ x t, e = .call Operator.not [x] t → ∃ n, (∀ s, (scalarNode env sub ctx x).Gives s n s)
        ∧ Weighs env ctx width x n from hboth.1
  induction he with
  | @field i hi t =>
    obtain ⟨n, hn⟩ := hfield i hi
    refine ⟨⟨n, fun s => ?_, fun P constant hrow hconstant => ?_⟩, fun x t hnot => by cases hnot⟩
    · rw [scalarNode, ConvertM.gives_lift]
      exact ⟨hn, rfl⟩
    · obtain ⟨m, hm, hshows⟩ := hrow.field i hi
      obtain rfl : n = m := Except.ok.inj (hn.symm.trans hm)
      exact hshows
  | @constant l hl =>
    obtain ⟨n, hn⟩ := hl env.dialect
    refine ⟨⟨n, fun s => ?_, fun P constant hrow hconstant => hconstant l n hn⟩, fun x t hnot => by cases hnot⟩
    rw [scalarNode, hliteral, ConvertM.gives_lift]
    exact ⟨hn, rfl⟩
  | @comparison op x y hop hx hy t ihx ihy =>
    obtain ⟨l, hl⟩ := ihx.1
    obtain ⟨r, hr⟩ := ihy.1
    exact ⟨exists_comparisonNode hd hop hx hy hl hr t, fun x' t' hnot => by cases hnot⟩
  | @connective op es hop hes t ih =>
    obtain ⟨ns, hns, hweighs⟩ := exists_conditions (scalarNode env sub ctx) (scalarNodes env sub ctx) rfl
      (fun _ _ => rfl) fun e he => (ih e he).1
    refine ⟨⟨_, fun s => ?_, weighs_connective hop hweighs t⟩, fun x t' hnot => ?_⟩
    · simp only [List.mem_cons, List.not_mem_nil, or_false] at hop
      rw [scalarNode.eq_def]
      rcases hop with rfl | rfl
      · exact (ConvertM.gives_bind _ _ _ _ _).mpr ⟨ns, s, hns s, (ConvertM.gives_pure _ _ _ _).mpr ⟨rfl, rfl⟩⟩
      · exact (ConvertM.gives_bind _ _ _ _ _).mpr ⟨ns, s, hns s, (ConvertM.gives_pure _ _ _ _).mpr ⟨rfl, rfl⟩⟩
    · cases hnot
      exact absurd hop (by decide)
  | @denial e he t ih =>
    refine ⟨?_, fun x t' hnot => by cases hnot; exact ih.1⟩
    by_cases hnot : ∃ x u, e = .call Operator.not [x] u
    · obtain ⟨x, u, rfl⟩ := hnot
      obtain ⟨n, hn, hweighs⟩ := ih.2 x u rfl
      refine ⟨n, fun s => by rw [scalarNode_not_not]; exact hn s, fun P constant hrow hconstant => ?_⟩
      exact (hweighs P hrow hconstant).congr fun a => (Datum.not_not _).symm
    · obtain ⟨n, hn, hweighs⟩ := ih.1
      refine ⟨_, fun s => ?_, hweighs.deny he t⟩
      rw [scalarNode_not (not_denial he hnot), ConvertM.gives_bind]
      exact ⟨n, s, hn s, rfl⟩

/-! ## Join conditions -/

/-- Without conversions between types nothing is taken off a comparison. -/
theorem withoutCast_eq {d : Dialect} {op : Operator} {es : List (Scalar ρ)} (h : ∀ e ∈ es, e.isCast = false) :
    withoutCast d op es = es := by
  unfold withoutCast
  rw [castSide_of_plain h]

/-- A comparison with the field of the left input first is a comparison, and compares the same. -/
theorem leftFirst_criterion {op : Operator} (hop : op ∈ Operator.comparisons) {x y : Scalar ρ} (hx : x.Criterion width)
    (hy : y.Criterion width) (leftWidth : Nat) (t : DataType) :
    ∃ op' x' y', leftFirst leftWidth op [x, y] t = .call op' [x', y'] t ∧ op' ∈ Operator.comparisons
      ∧ x'.Criterion width ∧ y'.Criterion width ∧ ∀ P constant row,
        (Scalar.call op' [x', y'] t).valueWith P constant row = (Scalar.call op [x, y] t).valueWith P constant row := by
  have hsame : ∃ op' x' y', Scalar.call op [x, y] t = .call op' [x', y'] t ∧ op' ∈ Operator.comparisons
      ∧ x'.Criterion width ∧ y'.Criterion width ∧ ∀ P constant row,
        (Scalar.call op' [x', y'] t).valueWith P constant row = (Scalar.call op [x, y] t).valueWith P constant row :=
    ⟨op, x, y, rfl, hop, hx, hy, fun _ _ _ => rfl⟩
  unfold leftFirst
  split
  · rename_i a s b u hfields
    cases hfields
    split
    · refine ⟨op.reversed, .inputRef b u, .inputRef a s, rfl, Operator.reversed_mem hop, hy, hx, fun P constant row => ?_⟩
      simp only [Scalar.valueWith, Scalar.valuesWith, Operator.compute_reversed hop]
    · exact hsame
  · exact hsame

/-- **`conditionNode`** — the condition of a join is written as a node that weighs it. -/
theorem exists_conditionNode {left right : Context} (hd : env.dialect.AddsNumbers)
    (hfield : ∀ i < width, ∃ n, (Context.join left right).field env (i : Nat) = .ok n) {e : Scalar ρ}
    (he : e.Criterion width) :
    ∃ n, (∀ s, (conditionNode env sub left right e).Gives s n s) ∧ Weighs env (.join left right) width e n := by
  have hliteral : ∀ l, literalIn env (.join left right) l = literalNode env.dialect l := fun l => by simp [literalIn]
  induction he with
  | @field i hi t =>
    exact exists_criterionNode sub hd hfield hliteral (.field hi t)
  | @constant l hl =>
    have hinside : ∃ n, (∀ s, (scalarNode env sub (.join left right) (.literal l)).Gives s n s)
        ∧ Weighs env (.join left right) width (.literal l : Scalar ρ) n :=
      exists_criterionNode sub hd hfield hliteral (.constant hl)
    obtain ⟨value, type⟩ := l
    cases value with
    | boolean b =>
      refine ⟨Node.boolean b, fun s => (ConvertM.gives_pure _ _ _ _).mpr ⟨rfl, rfl⟩, fun P constant hrow hconstant => ?_⟩
      exact hconstant _ _ (by simp [literalNode])
    | _ => exact hinside
  | @comparison op x y hop hx hy t ihx ihy =>
    have hcasts : ∀ e ∈ [x, y], e.isCast = false := fun e he => by
      simp only [List.mem_cons, List.not_mem_nil, or_false] at he
      rcases he with rfl | rfl
      · exact hx.isCast_eq_false
      · exact hy.isCast_eq_false
    have hkinds : ∀ op ∈ Operator.comparisons, (op.kind == .and) = false ∧ (op.kind == .or) = false
        ∧ isFieldComparison op.kind = true := by decide
    obtain ⟨hand, hor, hcompares⟩ := hkinds op hop
    obtain ⟨op', x', y', hfirst, hop', hx', hy', hvalue⟩ := leftFirst_criterion hop hx hy left.fieldCount t
    obtain ⟨n, hn, hweighs⟩ := exists_criterionNode sub hd hfield hliteral (.comparison hop' hx' hy' t)
    refine ⟨n, fun s => ?_, fun P constant hrow hconstant => (hweighs P hrow hconstant).congr fun a => hvalue _ _ _⟩
    rw [conditionNode, hand, hor, hcompares, withoutCast_eq hcasts, hfirst]
    exact hn s
  | @connective op es hop hes t ih =>
    obtain ⟨ns, hns, hweighs⟩ := exists_conditions (conditionNode env sub left right)
      (conditionNodes env sub left right) rfl (fun _ _ => rfl) ih
    refine ⟨_, fun s => ?_, weighs_connective hop hweighs t⟩
    simp only [List.mem_cons, List.not_mem_nil, or_false] at hop
    rw [conditionNode]
    rcases hop with rfl | rfl
    · exact (ConvertM.gives_bind _ _ _ _ _).mpr ⟨ns, s, hns s, (ConvertM.gives_pure _ _ _ _).mpr ⟨rfl, rfl⟩⟩
    · exact (ConvertM.gives_bind _ _ _ _ _).mpr ⟨ns, s, hns s, (ConvertM.gives_pure _ _ _ _).mpr ⟨rfl, rfl⟩⟩
  | @denial e he t ih =>
    obtain ⟨n, hn, hweighs⟩ := exists_criterionNode sub hd hfield hliteral (.denial he t)
    exact ⟨n, fun s => by rw [conditionNode]; exact hn s, hweighs⟩

/-! ## Rows of both inputs -/

/-- The row of the query around, of a width, and the own row behind it. -/
def behindOuter (width : Nat) (f : Focus) : Row :=
  (List.range width).map (fun i => (Focus.row f.tail).getD i .null) ++ f.row

theorem behindOuter_cons {width : Nat} {l : Sql.Level} (h : l.row.length = width) (r : Sql.Level) (f : Focus) :
    behindOuter width (r :: l :: f) = l.row ++ r.row := by
  subst h
  refine congrArg (· ++ r.row) (List.ext_getElem (by simp) fun i hi hi' => ?_)
  simp [List.getD_eq_getElem?_getD, hi']

namespace Context

variable {l r : Aliases}

theorem exists_field_join (hmap : env.fieldMap = []) {i : Nat} (hi : i < Context.width (l ++ r)) :
    ∃ n, (Context.join (.aliases l true) (.aliases r true)).field env (i : Nat) = .ok n := by
  obtain ⟨⟨table, f⟩, howner⟩ := Option.isSome_iff_exists.mp ((owner?_isSome_iff (l ++ r) i).mpr hi)
  exact ⟨_, field_join hmap howner⟩

/-- **In the condition of a join**, the fields of both inputs are the places of a row of the FROM clause. -/
theorem showsRow_join (hmap : env.fieldMap = []) (h : Context.Distinct (l ++ r) true) (E : Engine) (db : Database)
    (outer : Names) : (Context.join (.aliases l true) (.aliases r true)).ShowsRow env
      (Reading.scalar E db (Names.within (Context.frame (l ++ r)) outer)) (Context.width (l ++ r)) Focus.row where
  field i hi := by
    obtain ⟨⟨table, f⟩, howner⟩ := Option.isSome_iff_exists.mp ((owner?_isSome_iff (l ++ r) i).mpr hi)
    refine ⟨_, field_join hmap howner, ?_⟩
    have hvalue := scalar_column_frame h E db outer howner
    simp only [List.getD_eq_getElem?_getD] at hvalue
    exact hvalue
  literal l := by simp [literalIn]

/-- A qualified column has the value that its name stands for. -/
theorem scalar_column {E : Engine} {db : Database} {names : Names} (name table : String) :
    (Node.column name (some table)).scalar E db names = (names (some table) name).map fun v f => [v f] := by
  have hcolumn : (Node.column name (some table)).qualifier? = some table
      ∧ (Node.column name (some table)).name = name := by
    simp [Node.qualifier?, Node.column, Node.kept, Node.child?, Node.name, Node.table, Node.text, Node.innerText,
      Node.identifier]
  rw [scalar_of_column rfl, hcolumn.1, hcolumn.2]

/-- A column of one input is none of the other. -/
theorem places_eq_nil_of_distinct (h : Context.Distinct (l ++ r) true) {i : Nat} {table name : String}
    (hcell : (Context.frame l).cells[i]? = some (table, name)) : (Context.frame r).places (some table) name = [] := by
  have hnodup : ((Context.frame l).cells.map (Context.calledBy true)
      ++ (Context.frame r).cells.map (Context.calledBy true)).Nodup := by
    simpa [Context.Distinct, Context.frame, Frame.cells] using h
  rw [Frame.places, List.map_eq_nil_iff, List.filter_eq_nil_iff]
  rintro ⟨⟨table', name'⟩, j⟩ hmem hcalled
  obtain ⟨rfl, rfl⟩ : name' = name ∧ table = table' := by simpa using hcalled
  have hother : (table, name') ∈ (Context.frame r).cells := List.fst_mem_of_mem_zipIdx hmem
  exact (List.nodup_append.mp hnodup).2.2 _ (List.mem_map_of_mem (List.mem_of_getElem? hcell)) _
    (List.mem_map_of_mem hother) rfl

/-- **Inside EXISTS**, the fields of the left input are the places of a row of the query around, and those of the
right input the places of a row of the own FROM clause. -/
theorem showsRow_exists (hmap : env.fieldMap = []) (h : Context.Distinct (l ++ r) true) (E : Engine) (db : Database)
    (outer : Names) : (Context.join (.aliases l true) (.aliases r true)).ShowsRow env
      (Reading.scalar E db (Names.within (Context.frame r) (Names.within (Context.frame l) outer)))
      (Context.width (l ++ r))
      (behindOuter (Context.width l)) where
  field i hi := by
    obtain ⟨⟨table, f⟩, howner⟩ := Option.isSome_iff_exists.mp ((owner?_isSome_iff (l ++ r) i).mpr hi)
    refine ⟨_, field_join hmap howner, ?_⟩
    have hnodup : ((Context.frame l).cells.map (Context.calledBy true)
        ++ (Context.frame r).cells.map (Context.calledBy true)).Nodup := by
      simpa [Context.Distinct, Context.frame, Frame.cells] using h
    rw [owner?_append] at howner
    show (Node.column f.name (some table)).scalar E db _ = _
    by_cases hleft : i < Context.width l
    · rw [if_pos hleft] at howner
      have hcell : (Context.frame l).cells[i]? = some (table, f.name) := by rw [cells_frame, howner, Option.map_some]
      have hname : Names.within (Context.frame l) outer (some table) f.name = some fun f => f.row.getD i .null :=
        within_frame (show Distinct l true from (List.nodup_append.mp hnodup).1) outer hcell
      rw [scalar_column, Names.within, places_eq_nil_of_distinct h hcell]
      simp only [hname, Option.map_some]
      refine congrArg some (funext fun g => ?_)
      rw [behindOuter, List.getElem?_append_left (by simpa using hleft)]
      simp [hleft]
    · rw [if_neg hleft] at howner
      have hvalue := scalar_column_frame (show Distinct r true from (List.nodup_append.mp hnodup).2.1) E db
        (Names.within (Context.frame l) outer) howner
      refine hvalue.trans (congrArg some (funext fun g => ?_))
      simp only [behindOuter]
      rw [List.getElem?_append_right (by simp; omega)]
      simp
  literal l := by simp [literalIn]

end Context

end Convert

end AlgebraSql
