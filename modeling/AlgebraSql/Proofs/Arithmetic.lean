import AlgebraSql.Proofs.OperatorText

/-!
# Arithmetic texts — sums, differences, products and quotients of integers.

A sum on the right of a sum and a product on the right of a product are written without parentheses,
and with them everything on their left edge.  A text of arithmetic is therefore read as the tree with
such operands hung on to the left edge.  For sums and differences this changes no value.  For products
and quotients it changes none as long as no quotient stands on the left edge of a product that is
itself on the right of a product: a quotient there is cut off before the outer product is taken in the
tree, but after it in the text.
-/

namespace AlgebraSql.Render

open AlgebraSql.Sql

/-! ## Values -/

/-- The value of an operation, if it has one: quotients are cut off towards zero, and nothing is
divided by zero. -/
def Operation.onValues? (op : Operation) (a b : Int) : Option Int :=
  match op with
  | .add => some (a + b)
  | .sub => some (a - b)
  | .mul => some (a * b)
  | .div => if b = 0 then none else some (a.tdiv b)
  | _ => none

/-- The operation is one of the four of arithmetic. -/
def Operation.isArithmetic : Operation → Bool
  | .add | .sub | .mul | .div => true
  | _ => false

namespace Term

/-- The value of a tree node by node, for given values of the columns. -/
def value? (columns : Option String → String → Int) : Term → Option Int
  | .column table name => some (columns table name)
  | .number digits => some (Decimal.digitsValue digits.toList)
  | .operation op left right => do
    let a ← left.value? columns
    let b ← right.value? columns
    op.onValues? a b
  | _ => none

/-- A tree of the four operations over columns and unsigned integers. -/
def Arithmetic : Term → Prop
  | .column _ _ => True
  | .number digits => digits.toList ≠ [] ∧ Digits digits.toList
  | .operation op left right => op.isArithmetic = true ∧ left.Arithmetic ∧ right.Arithmetic
  | _ => False

/-! ## Regrouping -/

/-- `left op right` with `left` put in at the left edge of the chain on the right. -/
def hang (op : Operation) (left : Term) : Term → Term
  | .operation inner l r =>
    if inner.strength = op.strength then .operation inner (hang op left l) r
    else .operation op left (.operation inner l r)
  | right => .operation op left right

/-- The right operand goes on with the chain before it: it is written without parentheses though it
is as strong as the operation. -/
def goesOn (op : Operation) (right : Term) : Bool := right.isOperation op && isAssociative op.kind

/-- The tree as its text is grouped. -/
def regrouped : Term → Term
  | .operation op left right =>
    if goesOn op right then hang op left.regrouped right.regrouped
    else .operation op left.regrouped right.regrouped
  | t => t

/-- At the left edge of the products stands another operation of their level. -/
def startsWithQuotient : Term → Bool
  | .operation op left _ => if op = .mul then left.startsWithQuotient else op.strength == .multiplicative
  | _ => false

/-- No product has on its right a product that starts with a quotient. -/
def KeepsQuotients : Term → Prop
  | .operation op left right =>
    (op = .mul → right.isOperation .mul = true → right.startsWithQuotient = false)
      ∧ left.KeepsQuotients ∧ right.KeepsQuotients
  | _ => True

theorem strength_hang (op : Operation) (left right : Term) : (hang op left right).strength = op.strength := by
  cases right with
  | operation inner l r =>
    by_cases h : inner.strength = op.strength
    · rw [hang, if_pos h]
      exact h
    · rw [hang, if_neg h]
      rfl
  | _ => rfl

theorem strength_regrouped (t : Term) : t.regrouped.strength = t.strength := by
  cases t with
  | operation op left right =>
    rw [regrouped]
    split
    · exact strength_hang ..
    · rfl
  | _ => rfl

/-- An operand of another level is put on the right. -/
theorem hang_of_ne {op : Operation} {right : Term} (h : right.strength ≠ op.strength) (left : Term) :
    hang op left right = .operation op left right := by
  cases right with
  | operation inner l r => exact if_neg h
  | _ => rfl

/-- A chain of the same level is hung on at its left edge. -/
theorem hang_operation {op inner : Operation} (h : inner.strength = op.strength) (left l r : Term) :
    hang op left (.operation inner l r) = .operation inner (hang op left l) r := if_pos h

/-- Two chains of a level can be hung on in either order. -/
theorem hang_hang {op inner : Operation} (h : inner.strength = op.strength) (a b c : Term) :
    hang op a (hang inner b c) = hang inner (hang op a b) c := by
  match c with
  | .operation last l r =>
    by_cases hlast : last.strength = inner.strength
    · have hrest := hang_hang h a b l
      have hlevel : last.strength = op.strength := hlast.trans h
      rw [hang_operation hlast, hang_operation hlevel, hang_operation hlast, hrest]
    · have hother : (Term.operation last l r).strength ≠ inner.strength := hlast
      rw [hang_of_ne hother, hang_of_ne hother, hang_operation h]
  | .column _ _ | .text _ | .number _ | .call _ _ _ | .compare _ _ _ | .escaped _ _ _ _
  | .isConstant _ _ _ | .inList _ _ _ | .not _ | .neg _ => exact if_pos h

end Term

/-! ## Reading -/

/-- Behind the operation the tokens go on with the chain before it. -/
def GoesOn (op : Operation) (ts : List Token) (f : Term → Term) : Prop :=
  ∀ left rest, Stops op.strength.next rest →
    op.strength.readMore left (op.token :: (ts ++ rest)) = op.strength.readMore (f left) rest

/-- A tree of a stronger level is the right operand of what stands before it. -/
theorem Parses.goesOn {op : Operation} {ts : List Token} {t : Term} (h : Parses op.strength.next ts t) :
    GoesOn op ts (Term.operation op · t) := by
  intro left rest hrest
  rw [readMore_token, h rest hrest]
  rfl

namespace Term

/-- The tokens of a tree are read as its regrouped form: alone, at the beginning of a chain of its
level and further on in one. -/
structure ReadsGrouped (t : Term) : Prop where
  parses : Parses t.strength t.tokens t.regrouped
  begins : ∀ op : Operation, t.strength = op.strength → Begins op.strength t.tokens t.regrouped
  goesOn : ∀ op : Operation, t.strength = op.strength → GoesOn op t.tokens (hang op · t.regrouped)

/-- An operand of another level is read at the next one. -/
theorem ReadsGrouped.stronger {t : Term} (h : t.ReadsGrouped) {level : Strength} (hne : t.strength ≠ level) :
    Parses level.next (enclosed (t.strength.below level) t.tokens) t.regrouped := by
  have hopens := opens_tokens t
  cases hneeded : t.strength.below level with
  | true =>
    have hany := h.parses.weaken hopens .or (by cases t.strength <;> decide)
    exact hany.parenthesized.weaken ⟨_, _, rfl, le_rfl⟩ level.next level.next.rank_le_atom
  | false =>
    have hle := (t.strength.below_eq_false_iff level).mp hneeded
    have hlt := lt_of_le_of_ne hle fun heq => hne (Strength.rank_injective heq.symm)
    exact h.parses.weaken hopens level.next (Strength.next_rank_le hlt)

/-- The left operand begins the chain. -/
theorem ReadsGrouped.left {t : Term} (h : t.ReadsGrouped) (op : Operation) :
    Begins op.strength (enclosed (t.strength.below op.strength) t.tokens) t.regrouped := by
  by_cases heq : t.strength = op.strength
  · rw [heq, (Strength.below_eq_false_iff _ _).mpr le_rfl]
    exact h.begins op heq
  · exact (h.stronger heq).begins

/-- The left operand goes on with a chain that stands before it. -/
theorem ReadsGrouped.leftGoesOn {t : Term} (h : t.ReadsGrouped) {op inner : Operation}
    (hlevel : inner.strength = op.strength) :
    GoesOn op (enclosed (t.strength.below inner.strength) t.tokens) (hang op · t.regrouped) := by
  rw [hlevel]
  by_cases heq : t.strength = op.strength
  · rw [heq, (Strength.below_eq_false_iff _ _).mpr le_rfl]
    exact h.goesOn op heq
  · have hplain : (hang op · t.regrouped) = (Term.operation op · t.regrouped) :=
      funext (hang_of_ne (by rwa [strength_regrouped]))
    rw [hplain]
    exact (h.stronger heq).goesOn

/-- What the right operand makes of the chain before it. -/
def joined (op : Operation) (right left : Term) : Term :=
  if goesOn op right then hang op left right.regrouped else .operation op left right.regrouped

theorem ReadsGrouped.right {t : Term} (h : t.ReadsGrouped) (op : Operation) :
    GoesOn op (enclosed (wrapsRight op t) t.tokens) (joined op t) := by
  cases hchain : t.isOperation op && isAssociative op.kind with
  | true =>
    have hsame := strength_of_isOperation (Bool.and_eq_true_iff.mp hchain).1
    have hjoined : joined op t = (hang op · t.regrouped) := funext fun left => if_pos hchain
    rw [wrapsRight, hchain, hjoined]
    exact h.goesOn op hsame
  | false =>
    have hjoined : joined op t = (Term.operation op · t.regrouped) :=
      funext fun left => if_neg (Bool.eq_false_iff.mp hchain)
    rw [wrapsRight, hchain, hjoined]
    exact (h.parses.operand (opens_tokens t) op.strength.next).goesOn

theorem ReadsGrouped.operation {left right : Term} (hl : left.ReadsGrouped) (hr : right.ReadsGrouped)
    (op : Operation) : (Term.operation op left right).ReadsGrouped := by
  have hgrouped : (Term.operation op left right).regrouped = joined op right left.regrouped := rfl
  have hbegins : Begins op.strength (tokens (.operation op left right)) (regrouped (.operation op left right)) := by
    intro rest hrest
    rw [tokens, List.append_assoc, List.cons_append, hl.left op _ (stops_cons (joins_token op) _),
      hr.right op _ rest hrest, hgrouped]
  refine ⟨hbegins.parses, fun outer hlevel => ?_, fun outer hlevel => ?_⟩
  · exact hlevel ▸ hbegins
  · -- the chain before takes in the left operand first, then what the right operand makes of it
    have hlevel : op.strength = outer.strength := hlevel
    intro before rest hrest
    rw [tokens, List.append_assoc, List.cons_append,
      hl.leftGoesOn hlevel before _ (stops_cons (hlevel ▸ joins_token op) _), ← hlevel,
      hr.right op _ rest (hlevel ▸ hrest), hgrouped]
    refine congrArg (fun t => op.strength.readMore t rest) ?_
    unfold joined
    split
    · exact (hang_hang hlevel before left.regrouped right.regrouped).symm
    · exact (hang_operation hlevel before left.regrouped right.regrouped).symm

/-- An atom is read by itself and never part of a chain. -/
theorem ReadsGrouped.of_atom {t : Term} (hatom : t.strength = .atom) (h : Parses .atom t.tokens t.regrouped) :
    t.ReadsGrouped := by
  have hnone : ∀ op : Operation, t.strength ≠ op.strength := fun op => by
    rw [hatom]
    cases op <;> decide
  refine ⟨?_, fun op hop => absurd hop (hnone op), fun op hop => absurd hop (hnone op)⟩
  rw [hatom]
  exact h

/-- The tokens of a tree of arithmetic are read as its regrouped form. -/
theorem readsGrouped : ∀ t : Term, t.Arithmetic → t.ReadsGrouped
  | .column none name, _ => .of_atom rfl fun rest hrest => (readAt_atom _).trans (readAtom_name hrest name)
  | .column (some table) name, _ => .of_atom rfl fun rest _ => by
    rw [readAt_atom, Strength.readAtom.eq_def]
    rfl
  | .number digits, _ => .of_atom rfl fun rest _ => by
    rw [readAt_atom, Strength.readAtom.eq_def]
    rfl
  | .operation op left right, h =>
    (readsGrouped left h.2.1).operation (readsGrouped right h.2.2) op

/-! ## Values of regrouped trees -/

section

variable {columns : Option String → String → Int}

theorem value?_operation (op : Operation) (left right : Term) :
    (Term.operation op left right).value? columns
      = (left.value? columns).bind fun a => (right.value? columns).bind fun b => op.onValues? a b := rfl

/-- Two operations after each other may change places with a grouping if their values do. -/
theorem value?_regroup {op inner : Operation} (h : ∀ a b c, (op.onValues? a b).bind (inner.onValues? · c)
      = (inner.onValues? b c).bind (op.onValues? a ·)) (left l r : Term) :
    (Term.operation inner (.operation op left l) r).value? columns
      = (Term.operation op left (.operation inner l r)).value? columns := by
  simp only [value?_operation]
  cases left.value? columns with
  | none => rfl
  | some a =>
    cases l.value? columns with
    | none => rfl
    | some b =>
      -- without a value on the right there is none, whatever the operation on the left gives
      cases r.value? columns with
      | none =>
        show (op.onValues? a b).bind (fun _ => none) = none
        exact Option.bind_fun_none _
      | some c => exact h a b c

theorem value?_congr_left {op : Operation} {left left' : Term} (h : left.value? columns = left'.value? columns)
    (right : Term) :
    (Term.operation op left right).value? columns = (Term.operation op left' right).value? columns := by
  rw [value?_operation, value?_operation, h]

/-- A sum may be hung on to any chain of sums and differences. -/
theorem value?_hang_add (left : Term) :
    ∀ right : Term, (hang .add left right).value? columns = (Term.operation .add left right).value? columns
  | .operation inner l r => by
    by_cases hlevel : inner.strength = Operation.add.strength
    · have hrest := value?_hang_add left l
      rw [hang, if_pos hlevel, value?_congr_left hrest r]
      refine value?_regroup (fun a b c => ?_) left l r
      cases inner with
      | add => exact congrArg some (add_assoc a b c)
      | sub => exact congrArg some (add_sub_assoc a b c)
      | _ => cases hlevel
    · rw [hang, if_neg hlevel]
  | .column _ _ | .text _ | .number _ | .call _ _ _ | .compare _ _ _ | .escaped _ _ _ _
  | .isConstant _ _ _ | .inList _ _ _ | .not _ | .neg _ => rfl

/-- A product may be hung on to a chain of products alone. -/
theorem value?_hang_mul (left : Term) :
    ∀ right : Term, right.startsWithQuotient = false →
      (hang .mul left right).value? columns = (Term.operation .mul left right).value? columns
  | .operation inner l r, h => by
    by_cases hmul : inner = .mul
    · subst hmul
      have hrest := value?_hang_mul left l h
      rw [hang, if_pos rfl, value?_congr_left hrest r]
      refine value?_regroup (fun a b c => ?_) left l r
      exact congrArg some (mul_assoc a b c)
    · have hlevel : inner.strength ≠ Operation.mul.strength := by
        simpa [startsWithQuotient, hmul, Operation.strength] using h
      rw [hang, if_neg hlevel]
  | .column _ _, _ | .text _, _ | .number _, _ | .call _ _ _, _ | .compare _ _ _, _ | .escaped _ _ _ _, _
  | .isConstant _ _ _, _ | .inList _ _ _, _ | .not _, _ | .neg _, _ => rfl

/-- What stands at the left edge stays there when products are hung on. -/
theorem startsWithQuotient_hang (left : Term) :
    ∀ right : Term, right.startsWithQuotient = false →
      (hang .mul left right).startsWithQuotient = left.startsWithQuotient
  | .operation inner l r, h => by
    by_cases hmul : inner = .mul
    · subst hmul
      exact startsWithQuotient_hang left l h
    · have hlevel : inner.strength ≠ Operation.mul.strength := by
        simpa [startsWithQuotient, hmul, Operation.strength] using h
      rw [hang, if_neg hlevel]
      rfl
  | .column _ _, _ | .text _, _ | .number _, _ | .call _ _ _, _ | .compare _ _ _, _ | .escaped _ _ _ _, _
  | .isConstant _ _ _, _ | .inList _ _ _, _ | .not _, _ | .neg _, _ => rfl

/-- A tree of another level than that of the products does not start with a quotient. -/
theorem startsWithQuotient_of_ne {t : Term} (h : t.strength ≠ .multiplicative) : t.startsWithQuotient = false := by
  cases t with
  | operation op left right =>
    have hlevel : op.strength ≠ .multiplicative := h
    have hmul : op ≠ .mul := by
      rintro rfl
      exact hlevel rfl
    simpa [startsWithQuotient, hmul] using hlevel
  | _ => rfl

theorem startsWithQuotient_regrouped :
    ∀ t : Term, t.KeepsQuotients → t.regrouped.startsWithQuotient = t.startsWithQuotient
  | .operation op left right, h => by
    have hleft := startsWithQuotient_regrouped left h.2.1
    have hright := startsWithQuotient_regrouped right h.2.2
    by_cases hmul : op = .mul
    · subst hmul
      rw [regrouped]
      split
      · rename_i hchain
        have hplain := h.1 rfl (Bool.and_eq_true_iff.mp hchain).1
        rw [startsWithQuotient_hang _ _ (hright.trans hplain)]
        exact hleft
      · exact hleft
    · rw [regrouped]
      split
      · rename_i hchain
        -- what else goes on with its chain is of another level, and stays there
        have hadd : op.strength ≠ .multiplicative := by
          have hassociative := (Bool.and_eq_true_iff.mp hchain).2
          cases op <;> first | decide | (exact absurd rfl hmul) | cases hassociative
        have htree : (Term.operation op left right).strength ≠ .multiplicative := hadd
        rw [startsWithQuotient_of_ne (by rwa [strength_hang]), startsWithQuotient_of_ne htree]
      · simp [startsWithQuotient, hmul]
  | .column _ _, _ | .text _, _ | .number _, _ | .call _ _ _, _ | .compare _ _ _, _ | .escaped _ _ _ _, _
  | .isConstant _ _ _, _ | .inList _ _ _, _ | .not _, _ | .neg _, _ => rfl

/-- A tree of arithmetic that keeps its quotients has the value of its regrouped form. -/
theorem value?_regrouped :
    ∀ t : Term, t.Arithmetic → t.KeepsQuotients → t.regrouped.value? columns = t.value? columns
  | .operation op left right, ha, hk => by
    have hleft := value?_regrouped left ha.2.1 hk.2.1
    have hright := value?_regrouped right ha.2.2 hk.2.2
    have hparts : (Term.operation op left.regrouped right.regrouped).value? columns
        = (Term.operation op left right).value? columns := by
      rw [value?_operation, value?_operation, hleft, hright]
    rw [regrouped]
    split
    · rename_i hchain
      obtain ⟨hsame, hassociative⟩ := Bool.and_eq_true_iff.mp hchain
      refine Eq.trans ?_ hparts
      -- a quotient or a difference never goes on with what stands before it
      cases op with
      | add => exact value?_hang_add ..
      | mul =>
        have hplain := hk.1 rfl hsame
        exact value?_hang_mul _ _ ((startsWithQuotient_regrouped right hk.2.2).trans hplain)
      | sub | div | mod => cases hassociative
      | or | and | concat => cases ha.1
    · exact hparts
  | .column _ _, _, _ | .number _, _, _ => rfl

end

end Term

/-! ## Writing -/

/-- Digits are a numeral. -/
theorem isNumeral_of_digits {cs : List Char} (hne : cs ≠ []) (h : Digits cs) : IsNumeral cs := by
  obtain ⟨c, rest, rfl⟩ := List.exists_cons_of_ne_nil hne
  have hc : c.isDigit = true := h c (List.mem_cons_self ..)
  have hpoint : c ≠ '.' := by
    rintro rfl
    cases hc
  refine ⟨?_, c :: rest, [], [], by simp, h, Or.inl rfl, Or.inl rfl⟩
  simp [beginsNumeral, hpoint, hc]

/-- The node of a tree of arithmetic is written as the tokens of the tree. -/
theorem writes_arithmetic {s : Setting} (hstyle : s.style.MarksNames) :
    ∀ (t : Term) (n : Node), t.Of n → t.Arithmetic → Writes s n t.tokens
  | .column _ _, _, h, _ => Writes.column hstyle h
  | .number _, _, h, ha => Writes.number hstyle h (isNumeral_of_digits ha.1 ha.2)
  | .operation _ left right, _, ⟨hkind, ⟨l, hl, hlof⟩, r, hr, hrof⟩, ⟨_, hla, hra⟩ =>
    Writes.operation hstyle hkind hl hr hlof hrof (writes_arithmetic hstyle left l hlof hla)
      (writes_arithmetic hstyle right r hrof hra)

/-- A tree of arithmetic is written without a notice as a text that is read as its regrouped form. -/
theorem read_run_arithmetic {s : Setting} (hstyle : s.style.MarksNames) {t : Term} {n : Node} (h : t.Of n)
    (ha : t.Arithmetic) : ∃ text, run s n = (.ok text, []) ∧ read s.style text = some t.regrouped := by
  obtain ⟨text, htext, hspells⟩ := writes_arithmetic hstyle t n h ha
  refine ⟨text, ?_, ?_⟩
  · rw [run, render, htext]
    rfl
  · have htokens := hspells [] fun c hc => by cases hc
    have hany := (Term.readsGrouped t ha).parses.weaken (opens_tokens t) .or (by cases t.strength <;> decide)
    have hread := hany [] fun c hc => by cases hc
    rw [tokens_nil, List.append_nil, Option.map_some, List.append_nil] at htokens
    rw [List.append_nil] at hread
    simp [read, htokens, hread]

/-- **Arithmetic texts** — a tree of sums, differences, products and quotients over integer columns and
unsigned integers is written without a notice, and its text is read as the tree with the sums on the
right of sums and the products on the right of products hung on to the left.  If no product has on its
right a product that starts with a quotient, text and tree have the same value for all values of the
columns, or both divide by zero. -/
theorem value?_run {s : Setting} (hstyle : s.style.MarksNames) {t : Term} {n : Node} (h : t.Of n)
    (ha : t.Arithmetic) :
    ∃ text, run s n = (.ok text, []) ∧ read s.style text = some t.regrouped
      ∧ (t.KeepsQuotients → ∀ columns, t.regrouped.value? columns = t.value? columns) := by
  obtain ⟨text, hrun, hread⟩ := read_run_arithmetic hstyle h ha
  exact ⟨text, hrun, hread, fun hk columns => Term.value?_regrouped t ha hk⟩

section

/-- An operation between two nodes. -/
def operationNode (op : Operation) (l r : Node) : Node := .mk op.kind [("this", .node l), ("expression", .node r)]

theorem of_column (name : String) : (Term.column none name).Of (.column name) :=
  ⟨rfl, ⟨_, rfl, rfl, rfl⟩, by simp [Absent, Node.column, Node.kept]⟩

theorem of_operationNode {op : Operation} {a b : Term} {l r : Node} (ha : a.Of l) (hb : b.Of r) :
    (Term.operation op a b).Of (operationNode op l r) :=
  ⟨rfl, ⟨l, rfl, ha⟩, r, rfl, hb⟩

/-- `a - b / (c * (d + 2))` keeps its quotient. -/
theorem value?_run_quotient :
    let sum (a : Term) := Term.operation .add a (.number "2")
    let t := Term.operation .sub (.column none "a") (.operation .div (.column none "b")
      (.operation .mul (.column none "c") (sum (.column none "d"))))
    let n := operationNode .sub (.column "a") (operationNode .div (.column "b")
      (operationNode .mul (.column "c") (operationNode .add (.column "d") (.number "2"))))
    (Dialect.ansi.style.MarksNames ∧ t.Of n ∧ t.Arithmetic ∧ t.KeepsQuotients)
      ∧ ∃ text, run (Dialect.ansi.setting {}) n = (.ok text, [])
        ∧ read Dialect.ansi.style text = some t.regrouped
        ∧ (t.KeepsQuotients → ∀ columns, t.regrouped.value? columns = t.value? columns) := by
  intro sum t n
  have hof : t.Of n := of_operationNode (of_column "a") (of_operationNode (of_column "b")
    (of_operationNode (of_column "c") (of_operationNode (of_column "d") ⟨rfl, rfl, rfl⟩)))
  have ha : t.Arithmetic := by
    refine ⟨rfl, trivial, rfl, trivial, rfl, trivial, rfl, trivial, by decide, ?_⟩
    simp [Digits]
  have hk : t.KeepsQuotients := by simp [t, sum, Term.KeepsQuotients, Term.isOperation]
  have hstyle : (Dialect.ansi.setting {}).style.MarksNames := Or.inl rfl
  exact ⟨⟨hstyle, hof, ha, hk⟩, value?_run hstyle hof ha⟩

/-- `a * (b / c * d)` is written as `a * b / c * d`: with one for `b` and two for the others the tree
has the value 0 and its text has the value 2. -/
theorem value?_product_of_quotient :
    let t := Term.operation .mul (.column none "a") (.operation .mul
      (.operation .div (.column none "b") (.column none "c")) (.column none "d"))
    let n := operationNode .mul (.column "a")
      (operationNode .mul (operationNode .div (.column "b") (.column "c")) (.column "d"))
    let columns (_ : Option String) (name : String) : Int := if name = "b" then 1 else 2
    t.Of n ∧ t.Arithmetic ∧ t.value? columns = some 0
      ∧ ∃ text found, run (Dialect.ansi.setting {}) n = (.ok text, [])
        ∧ read Dialect.ansi.style text = some found ∧ found.value? columns = some 2 := by
  intro t n columns
  have hof : t.Of n := of_operationNode (of_column "a")
    (of_operationNode (of_operationNode (of_column "b") (of_column "c")) (of_column "d"))
  have ha : t.Arithmetic := ⟨rfl, trivial, rfl, ⟨rfl, trivial, trivial⟩, trivial⟩
  have hstyle : (Dialect.ansi.setting {}).style.MarksNames := Or.inl rfl
  obtain ⟨text, hrun, hread⟩ := read_run_arithmetic hstyle hof ha
  exact ⟨hof, ha, by decide, text, t.regrouped, hrun, hread, by decide⟩

end

end AlgebraSql.Render
