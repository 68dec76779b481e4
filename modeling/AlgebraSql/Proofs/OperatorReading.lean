import AlgebraSql.Proofs.OperatorGrammar

/-!
# Reading operations — the tokens of a tree are read as the tree.

`Term.tokens` writes a tree down with parentheses around the operands that bind too weakly.  Reading
gives the tree back with its chains of `OR`, of `AND` and of `||` nested to the left: such a chain is
written without parentheses on its right, so its grouping is not in the text.
-/

namespace AlgebraSql.Render

open AlgebraSql.Sql

/-! ## Regrouping -/

/-- `left op right`, where the operands of a chain of `op` on the right are put one after the other
behind `left`. -/
def attach (op : Operation) (left : Term) : Term → Term
  | .operation inner l r =>
    if inner = op ∧ op.regroups = true then .operation op (attach op left l) r
    else .operation op left (.operation inner l r)
  | right => .operation op left right

namespace Term

mutual

/-- The tree with its chains of `OR`, of `AND` and of `||` nested to the left. -/
def leftNested : Term → Term
  | .column table name => .column table name
  | .text s => .text s
  | .number s => .number s
  | .call name distinct args => .call name distinct (leftNestedAll args)
  | .operation op left right => attach op (leftNested left) (leftNested right)
  | .compare c left right => .compare c (leftNested left) (leftNested right)
  | .escaped p left right escape => .escaped p (leftNested left) (leftNested right) (leftNested escape)
  | .isConstant c negated operand => .isConstant c negated (leftNested operand)
  | .inList negated operand items => .inList negated (leftNested operand) (leftNestedAll items)
  | .not operand => .not (leftNested operand)
  | .neg operand => .neg (leftNested operand)

/-- A list of trees with their chains nested to the left. -/
def leftNestedAll : List Term → List Term
  | [] => []
  | t :: ts => leftNested t :: leftNestedAll ts

end

/-! ## Writing -/

/-- How strongly a tree binds. -/
def strength : Term → Strength
  | .operation op _ _ => op.strength
  | .compare _ _ _ | .escaped _ _ _ _ | .isConstant _ _ _ | .inList _ _ _ => .comparison
  | .not _ => .not
  | .neg _ => .unary
  | _ => .atom

/-- The tree is an operation of this sort. -/
def isOperation (t : Term) (op : Operation) : Bool :=
  match t with
  | .operation inner _ _ => inner == op
  | _ => false

/-- The right operand of an operation is put in parentheses. -/
def wrapsRight (op : Operation) (right : Term) : Bool :=
  !(right.isOperation op && isAssociative op.kind) && right.strength.below op.strength.next

/-- Tokens in parentheses if they are needed. -/
def enclosed (needed : Bool) (ts : List Token) : List Token :=
  if needed then .symbol .opening :: (ts ++ [.symbol .closing]) else ts

mutual

/-- The tokens of a tree. -/
def tokens : Term → List Token
  | .column none name => [.name name]
  | .column (some table) name => [.name table, .symbol .dot, .name name]
  | .text s => [.text s]
  | .number s => [.number s]
  | .call name distinct args =>
    .name name :: .symbol .opening :: ((if distinct then [.keyword .distinct] else [])
      ++ (listTokens args ++ [.symbol .closing]))
  | .operation op left right =>
    enclosed (left.strength.below op.strength) (tokens left)
      ++ op.token :: enclosed (wrapsRight op right) (tokens right)
  | .compare c left right =>
    enclosed (left.strength.below .concat) (tokens left)
      ++ (c.tokens ++ enclosed (right.strength.below .concat) (tokens right))
  | .escaped p left right escape =>
    enclosed (left.strength.below .concat) (tokens left)
      ++ (p.tokens ++ (enclosed (right.strength.below .concat) (tokens right)
        ++ .keyword .escape :: tokens escape))
  | .isConstant c negated operand =>
    enclosed (operand.strength.below .concat) (tokens operand) ++ (Test.isConstant c negated).tokens
  | .inList negated operand items =>
    enclosed (operand.strength.below .concat) (tokens operand)
      ++ ((Test.inList negated).tokens ++ (listTokens items ++ [.symbol .closing]))
  | .not operand => .keyword .not :: enclosed (operand.strength.below .concat) (tokens operand)
  | .neg operand => .symbol .minus :: enclosed (operand.strength.below .atom) (tokens operand)

/-- The tokens of a list of trees, with commas between them. -/
def listTokens : List Term → List Token
  | [] => []
  | t :: ts => tokens t ++ furtherTokens ts

/-- The tokens of the further trees of a list. -/
def furtherTokens : List Term → List Token
  | [] => []
  | t :: ts => .symbol .comma :: (tokens t ++ furtherTokens ts)

end

mutual

/-- A tree that can be read back: no sum stands on the right of a sum and no product on the right of
a product, names of functions are words that the grammar does not use, numbers are numerals, and an
escape character binds stronger than a comparison. -/
def WellFormed : Term → Prop
  | .column _ _ => True
  | .text _ => True
  | .number s => IsNumeral s.toList
  | .call name _ args =>
    isWord name.toList = true ∧ Keyword.ofWord? name = none ∧ WellFormedAll args
  | .operation op left right =>
    (op = .add ∨ op = .mul → right.isOperation op = false) ∧ WellFormed left ∧ WellFormed right
  | .compare _ left right => WellFormed left ∧ WellFormed right
  | .escaped _ left right escape =>
    escape.strength.below .concat = false ∧ WellFormed left ∧ WellFormed right ∧ WellFormed escape
  | .isConstant _ _ operand => WellFormed operand
  | .inList _ operand items => WellFormed operand ∧ WellFormedAll items
  | .not operand => WellFormed operand
  | .neg operand => WellFormed operand

/-- All trees of a list can be read back. -/
def WellFormedAll : List Term → Prop
  | [] => True
  | t :: ts => WellFormed t ∧ WellFormedAll ts

end

end Term

/-! ## Regrouping keeps the operation -/

/-- An operand on the right that is no chain of the operation is put on the right. -/
theorem attach_of_not {op : Operation} {right : Term} (left : Term)
    (h : right.isOperation op = false ∨ op.regroups = false) :
    attach op left right = .operation op left right := by
  cases right with
  | operation inner l r =>
    have hkeep : ¬ (inner = op ∧ op.regroups = true) := by
      rintro ⟨rfl, hregroups⟩
      rcases h with h | h
      · simp [Term.isOperation] at h
      · rw [h] at hregroups
        cases hregroups
    rw [attach, if_neg hkeep]
  | _ => rfl

/-- The operation on top stays. -/
theorem isOperation_attach (op other : Operation) (left right : Term) :
    (attach op left right).isOperation other = (op == other) := by
  cases right with
  | operation inner l r =>
    unfold attach
    split <;> rfl
  | _ => rfl

/-- Putting a chain behind a tree and another one behind the chain can be done in either order. -/
theorem attach_attach {op : Operation} (h : op.regroups = true) (a b c : Term) :
    attach op a (attach op b c) = attach op (attach op a b) c := by
  have hplain : attach op a (.operation op b c) = .operation op (attach op a b) c := by
    rw [attach, if_pos ⟨rfl, h⟩]
  match c with
  | .operation inner l r =>
    by_cases hinner : inner = op
    · -- the chain on the right goes on: its last operand stays the last one
      have hchain : ∀ t, attach op t (.operation inner l r) = .operation op (attach op t l) r :=
        fun t => by rw [attach, if_pos ⟨hinner, h⟩]
      have hlast : attach op a (.operation op (attach op b l) r)
          = .operation op (attach op a (attach op b l)) r := by rw [attach, if_pos ⟨rfl, h⟩]
      rw [hchain, hchain, hlast, attach_attach h a b l]
    · have hother : ∀ t, attach op t (.operation inner l r)
          = .operation op t (.operation inner l r) :=
        fun t => by rw [attach, if_neg (fun hpair => hinner hpair.1)]
      rw [hother, hother, hplain]
  | .column _ _ | .text _ | .number _ | .call _ _ _ | .compare _ _ _ | .escaped _ _ _ _
  | .isConstant _ _ _ | .inList _ _ _ | .not _ | .neg _ => exact hplain

/-- A tree is an operation of a sort exactly when its regrouped form is. -/
theorem isOperation_leftNested (t : Term) (op : Operation) :
    t.leftNested.isOperation op = t.isOperation op := by
  cases t with
  | operation inner l r =>
    rw [Term.leftNested, isOperation_attach]
    rfl
  | _ => rfl

/-! ## What may stand around a tree -/

/-- The rank of the level at which a token goes on with a tree, zero if it ends the tree. -/
def Token.joins (t : Token) : Nat :=
  match Operation.ofToken? t with
  | some op => op.strength.rank
  | none =>
    match t with
    | .keyword .is | .keyword .not | .keyword .like | .keyword .similar | .keyword .in
    | .keyword .escape | .symbol .eq | .symbol .neq | .symbol .gt | .symbol .gte | .symbol .lt
    | .symbol .lte => Strength.comparison.rank
    | .symbol .dot | .symbol .opening => Strength.atom.rank
    | _ => 0

/-- The rank of the strongest level at which a tree may begin with a token. -/
def Token.opens : Token → Nat
  | .keyword .not => Strength.not.rank
  | .symbol .minus => Strength.unary.rank
  | .symbol .opening | .name _ | .text _ | .number _ => Strength.atom.rank
  | _ => 0

/-- Nothing of a level or a stronger one goes on. -/
def Stops (level : Strength) (rest : List Token) : Prop :=
  ∀ t, rest.head? = some t → t.joins < level.rank

/-- A tree of a level may begin so. -/
def Opens (level : Strength) (ts : List Token) : Prop :=
  ∃ t rest, ts = t :: rest ∧ level.rank ≤ t.opens

/-- The tokens are read as the tree at a level, whatever stops that level behind them. -/
def Parses (level : Strength) (ts : List Token) (t : Term) : Prop :=
  ∀ rest, Stops level rest → level.readAt (ts ++ rest) = some (t, rest)

/-- The tokens are read as the beginning of a chain of a level. -/
def Begins (level : Strength) (ts : List Token) (t : Term) : Prop :=
  ∀ rest, Stops level.next rest → level.readAt (ts ++ rest) = level.readMore t rest

/-- Behind an operation the tokens are read as the next part of its chain. -/
def Continues (op : Operation) (ts : List Token) (t : Term) : Prop :=
  ∀ left rest, Stops op.strength.next rest →
    op.strength.readMore left (op.token :: (ts ++ rest)) = op.strength.readMore (attach op left t) rest

namespace Strength

theorem rank_le_next (level : Strength) : level.rank ≤ level.next.rank := by
  cases level <;> decide

theorem rank_le_atom (level : Strength) : level.rank ≤ Strength.atom.rank := by
  cases level <;> decide

theorem rank_injective {a b : Strength} (h : a.rank = b.rank) : a = b := by
  cases a <;> cases b <;> first | rfl | cases h

theorem next_rank_le {a b : Strength} (h : a.rank < b.rank) : a.next.rank ≤ b.rank := by
  cases a <;> cases b <;> revert h <;> decide

theorem below_eq_false_iff (a b : Strength) : a.below b = false ↔ b.rank ≤ a.rank := by
  simp [below]

end Strength

theorem Stops.mono {a b : Strength} {rest : List Token} (h : Stops a rest) (hle : a.rank ≤ b.rank) :
    Stops b rest := fun t ht => (h t ht).trans_le hle

theorem stops_cons {level : Strength} {t : Token} (h : t.joins < level.rank) (rest : List Token) :
    Stops level (t :: rest) := fun u hu => by
  cases hu
  exact h

theorem Opens.mono {a b : Strength} {ts : List Token} (h : Opens a ts) (hle : b.rank ≤ a.rank) :
    Opens b ts := by
  obtain ⟨t, rest, rfl, ht⟩ := h
  exact ⟨t, rest, rfl, hle.trans ht⟩

theorem Opens.append {level : Strength} {ts : List Token} (h : Opens level ts) (us : List Token) :
    Opens level (ts ++ us) := by
  obtain ⟨t, rest, rfl, ht⟩ := h
  exact ⟨t, rest ++ us, rfl, ht⟩

/-! ## Equations of the reader -/

/-- At the level of an operation, a chain is read. -/
theorem readAt_operation (op : Operation) (ts : List Token) :
    op.strength.readAt ts
      = (op.strength.next.readAt ts).bind fun p => op.strength.readMore p.1 p.2 := by
  rw [Strength.readAt.eq_def]
  cases op <;> rfl

theorem readAt_comparison (ts : List Token) :
    Strength.comparison.readAt ts = (Strength.concat.readAt ts).bind fun p => p.1.readTest p.2 := by
  rw [Strength.readAt.eq_def]
  rfl

theorem readAt_not (ts : List Token) :
    Strength.not.readAt (.keyword .not :: ts) = (Strength.not.readAt ts).map fun p => (.not p.1, p.2) := by
  rw [Strength.readAt.eq_def]
  show (Strength.not.readAt ts).bind (fun p => some (Term.not p.1, p.2)) = _
  cases Strength.not.readAt ts <;> rfl

theorem readAt_minus (ts : List Token) :
    Strength.unary.readAt (.symbol .minus :: ts) = (Strength.unary.readAt ts).map fun p => (.neg p.1, p.2) := by
  rw [Strength.readAt.eq_def]
  show (Strength.unary.readAt ts).bind (fun p => some (Term.neg p.1, p.2)) = _
  cases Strength.unary.readAt ts <;> rfl

theorem readAt_atom (ts : List Token) : Strength.atom.readAt ts = Strength.or.readAtom ts := by
  rw [Strength.readAt.eq_def]

/-- A level without an operation of its own falls through to the next one. -/
theorem readAt_not_of_opens {ts : List Token} (h : Opens .comparison ts) :
    Strength.not.readAt ts = Strength.comparison.readAt ts := by
  obtain ⟨t, rest, rfl, ht⟩ := h
  have hhead : t ≠ .keyword .not := by
    rintro rfl
    exact absurd ht (by decide)
  rw [Strength.readAt.eq_def]
  simp [hhead]

theorem readAt_unary_of_opens {ts : List Token} (h : Opens .atom ts) :
    Strength.unary.readAt ts = Strength.atom.readAt ts := by
  obtain ⟨t, rest, rfl, ht⟩ := h
  have hhead : t ≠ .symbol .minus := by
    rintro rfl
    exact absurd ht (by decide)
  rw [Strength.readAt.eq_def, readAt_atom]
  simp [hhead]

theorem splitOperation_token (op : Operation) (rest : List Token) :
    splitOperation op.strength (op.token :: rest) = some (op, rest) := by
  cases op <;> rfl

theorem splitOperation_of_stops {level : Strength} {rest : List Token} (h : Stops level rest) :
    splitOperation level rest = none := by
  cases rest with
  | nil => rfl
  | cons t ts =>
    have hjoins := h t rfl
    cases hop : Operation.ofToken? t with
    | none => simp [splitOperation, hop]
    | some op =>
      simp only [Token.joins, hop] at hjoins
      have hne : op.strength ≠ level := by
        rintro rfl
        exact lt_irrefl _ hjoins
      simp [splitOperation, hop, hne]

theorem readMore_of_stops {level : Strength} {rest : List Token} (h : Stops level rest) (left : Term) :
    level.readMore left rest = some (left, rest) := by
  rw [Strength.readMore.eq_def, splitOperation_of_stops h]

theorem readMore_token (op : Operation) (left : Term) (ts : List Token) :
    op.strength.readMore left (op.token :: ts)
      = (op.strength.next.readAt ts).bind fun p => op.strength.readMore (.operation op left p.1) p.2 := by
  rw [Strength.readMore.eq_def, splitOperation_token]
  rfl

/-- Where no test follows, the operand stands alone. -/
theorem readTest_of_stops {rest : List Token} (h : Stops .comparison rest) (left : Term) :
    left.readTest rest = some (left, rest) := by
  have hsplit : Test.split rest = none := by
    cases rest with
    | nil => rfl
    | cons t ts =>
      have hjoins := h t rfl
      cases t with
      | keyword k => cases k <;> first | rfl | exact absurd hjoins (by decide)
      | symbol s => cases s <;> first | rfl | exact absurd hjoins (by decide)
      | _ => rfl
  rw [Term.readTest.eq_def, hsplit]

/-! ## One level after the other -/

/-- What is read at the next level is read at a level, if that level does not begin with a sign of
its own. -/
theorem Parses.step {level : Strength} {ts : List Token} {t : Term} (h : Parses level.next ts t)
    (hopens : Opens level.next ts) : Parses level ts t := by
  intro rest hrest
  have hread := h rest (hrest.mono level.rank_le_next)
  have hchain : ∀ op : Operation, op.strength = level → level.readAt (ts ++ rest) = some (t, rest) := by
    rintro op rfl
    rw [readAt_operation, hread]
    exact readMore_of_stops hrest t
  cases level with
  | or => exact hchain .or rfl
  | and => exact hchain .and rfl
  | concat => exact hchain .concat rfl
  | additive => exact hchain .add rfl
  | multiplicative => exact hchain .mul rfl
  | not => exact (readAt_not_of_opens (hopens.append rest)).trans hread
  | comparison =>
    rw [readAt_comparison]
    exact (congrArg (Option.bind · _) hread).trans (readTest_of_stops hrest t)
  | unary => exact (readAt_unary_of_opens (hopens.append rest)).trans hread
  | atom => exact hread

/-- What is read at a level is read at every weaker one. -/
theorem Parses.weaken {strong : Strength} {ts : List Token} {t : Term} (h : Parses strong ts t)
    (hopens : Opens strong ts) (level : Strength) (hle : level.rank ≤ strong.rank) : Parses level ts t := by
  by_cases heq : level.rank = strong.rank
  · rw [Strength.rank_injective heq]
    exact h
  · -- the levels between are stepped over one after the other
    have hnext := Strength.next_rank_le (lt_of_le_of_ne hle heq)
    exact (h.weaken hopens level.next hnext).step (hopens.mono hnext)
termination_by Strength.atom.rank - level.rank
decreasing_by
  have hgrows : level.rank < level.next.rank := by
    have hlt := lt_of_le_of_ne hle heq
    have hbound := strong.rank_le_atom
    cases level <;> first | decide | (exact absurd hlt (by omega))
  have hbound := level.next.rank_le_atom
  omega

/-- A tree of a stronger level begins a chain. -/
theorem Parses.begins {op : Operation} {ts : List Token} {t : Term} (h : Parses op.strength.next ts t) :
    Begins op.strength ts t := by
  intro rest hrest
  rw [readAt_operation, h rest hrest]
  rfl

/-- A chain that stops is a tree of its level. -/
theorem Begins.parses {level : Strength} {ts : List Token} {t : Term} (h : Begins level ts t) :
    Parses level ts t := by
  intro rest hrest
  rw [h rest (hrest.mono level.rank_le_next)]
  exact readMore_of_stops hrest t

/-- A tree of a stronger level continues a chain, unless it is put in as a chain itself. -/
theorem Parses.continues {op : Operation} {ts : List Token} {t : Term} (h : Parses op.strength.next ts t)
    (hplain : t.isOperation op = false ∨ op.regroups = false) : Continues op ts t := by
  intro left rest hrest
  rw [readMore_token, h rest hrest, attach_of_not left hplain]
  rfl

theorem joins_token (op : Operation) : op.token.joins < op.strength.next.rank := by
  cases op <;> decide

/-- A chain that goes on is a chain. -/
theorem Begins.operation {op : Operation} {as bs : List Token} {a b : Term} (ha : Begins op.strength as a)
    (hb : Continues op bs b) : Begins op.strength (as ++ op.token :: bs) (attach op a b) := by
  intro rest hrest
  rw [List.append_assoc, List.cons_append, ha _ (stops_cons (joins_token op) _)]
  exact hb a rest hrest

/-- A chain is continued by all its parts, one after the other. -/
theorem Continues.operation {op : Operation} (hregroups : op.regroups = true) {as bs : List Token}
    {a b : Term} (ha : Continues op as a) (hb : Continues op bs b) :
    Continues op (as ++ op.token :: bs) (attach op a b) := by
  intro left rest hrest
  rw [List.append_assoc, List.cons_append, ha left _ (stops_cons (joins_token op) _), hb _ rest hrest,
    attach_attach hregroups]

/-! ## Parentheses -/

/-- In parentheses anything is an atom. -/
theorem Parses.parenthesized {ts : List Token} {t : Term} (h : Parses .or ts t) :
    Parses .atom (.symbol .opening :: (ts ++ [.symbol .closing])) t := by
  intro rest _
  have hstops : Stops .or (.symbol .closing :: rest) := stops_cons (by decide) rest
  have hread := h _ hstops
  rw [readAt_atom, List.cons_append, List.append_assoc, Strength.readAtom.eq_def]
  show (Strength.or.readAt (ts ++ .symbol .closing :: rest)).bind _ = _
  rw [hread]
  rfl

/-- An operand is read at the level for which it was put in parentheses, if it had to be. -/
theorem Parses.operand {strength : Strength} {ts : List Token} {t : Term} (h : Parses strength ts t)
    (hopens : Opens strength ts) (level : Strength) :
    Parses level (Term.enclosed (strength.below level) ts) t := by
  cases hneeded : strength.below level with
  | true =>
    have hweakest : Strength.or.rank ≤ strength.rank := by cases strength <;> decide
    have hatom := (h.weaken hopens .or hweakest).parenthesized
    exact hatom.weaken ⟨_, _, rfl, le_rfl⟩ level level.rank_le_atom
  | false => exact h.weaken hopens level ((strength.below_eq_false_iff level).mp hneeded)

/-- An operand begins as a tree of the level for which it was put in parentheses. -/
theorem Opens.operand {strength : Strength} {ts : List Token} (h : Opens strength ts) (level : Strength) :
    Opens level (Term.enclosed (strength.below level) ts) := by
  cases hneeded : strength.below level with
  | true => exact ⟨_, _, rfl, level.rank_le_atom⟩
  | false => exact h.mono ((strength.below_eq_false_iff level).mp hneeded)

/-- The tokens of a tree begin as a tree of its strength. -/
theorem opens_tokens (t : Term) : Opens t.strength t.tokens := by
  match t with
  | .column none _ | .column (some _) _ | .text _ | .number _ | .call _ _ _ => exact ⟨_, _, rfl, le_rfl⟩
  | .not _ | .neg _ => exact ⟨_, _, rfl, le_rfl⟩
  | .operation op left _ => exact ((opens_tokens left).operand op.strength).append _
  | .compare _ left _ | .escaped _ left _ _ | .isConstant _ _ left | .inList _ left _ =>
    exact (((opens_tokens left).operand .concat).mono (Strength.rank_le_next .comparison)).append _

/-! ## Signs before an operand -/

theorem Parses.not {ts : List Token} {t : Term} (h : Parses .not ts t) :
    Parses .not (.keyword .not :: ts) (.not t) := by
  intro rest hrest
  rw [List.cons_append, readAt_not, h rest hrest]
  rfl

theorem Parses.neg {ts : List Token} {t : Term} (h : Parses .unary ts t) :
    Parses .unary (.symbol .minus :: ts) (.neg t) := by
  intro rest hrest
  rw [List.cons_append, readAt_minus, h rest hrest]
  rfl

/-! ## Tests -/

/-- A test ends its operand. -/
theorem stops_test (test : Test) (rest : List Token) : Stops .concat (test.tokens ++ rest) := by
  rcases test with c | ⟨c, negated⟩ | negated
  · rcases c with _ | _ | _ | _ | _ | _ | negated | ⟨similar, negated⟩ <;> try exact stops_cons (by decide) _
    cases similar <;> cases negated <;> exact stops_cons (by decide) _
  · exact stops_cons (by decide) _
  · cases negated <;> exact stops_cons (by decide) _

/-- Behind an operand, a test is read with what belongs to it. -/
theorem readAt_test {as : List Token} {a : Term} (ha : Parses .concat as a) (test : Test) (rest : List Token) :
    Strength.comparison.readAt (as ++ (test.tokens ++ rest)) = a.readTest (test.tokens ++ rest) := by
  rw [readAt_comparison, ha _ (stops_test test rest)]
  rfl

theorem Parses.compare {as bs : List Token} {a b : Term} (ha : Parses .concat as a)
    (hb : Parses .concat bs b) (c : Comparison) :
    Parses .comparison (as ++ (c.tokens ++ bs)) (.compare c a b) := by
  intro rest hrest
  have hread := hb rest (hrest.mono (by decide))
  have hescape : ∀ ts, rest ≠ .keyword .escape :: ts := by
    rintro ts rfl
    exact absurd (hrest _ rfl) (by decide)
  rw [List.append_assoc, List.append_assoc]
  refine (readAt_test ha (.compare c) (bs ++ rest)).trans ?_
  rw [Term.readTest.eq_def, Test.split_tokens]
  show (Strength.concat.readAt (bs ++ rest)).bind _ = _
  rw [hread, Option.bind_some]
  dsimp only
  split
  · exact absurd rfl (hescape _)
  · rfl

theorem Parses.escaped {as bs cs : List Token} {a b c : Term} (ha : Parses .concat as a)
    (hb : Parses .concat bs b) (hc : Parses .concat cs c) (p : Pattern) :
    Parses .comparison (as ++ (p.tokens ++ (bs ++ .keyword .escape :: cs))) (.escaped p a b c) := by
  intro rest hrest
  have hread := hb (.keyword .escape :: (cs ++ rest)) (stops_cons (by decide) _)
  have hescape := hc rest (hrest.mono (by decide))
  have htest := readAt_test ha (.compare (.pattern p)) (bs ++ .keyword .escape :: (cs ++ rest))
  simp only [List.append_assoc, List.cons_append]
  refine htest.trans ?_
  rw [Term.readTest.eq_def, Test.split_tokens]
  show (Strength.concat.readAt (bs ++ .keyword .escape :: (cs ++ rest))).bind _ = _
  rw [hread, Option.bind_some]
  show (Strength.concat.readAt (cs ++ rest)).bind _ = _
  rw [hescape]
  rfl

theorem Parses.isConstant {as : List Token} {a : Term} (ha : Parses .concat as a) (c : Constant)
    (negated : Bool) :
    Parses .comparison (as ++ (Test.isConstant c negated).tokens) (.isConstant c negated a) := by
  intro rest _
  rw [List.append_assoc, readAt_test ha, Term.readTest.eq_def, Test.split_tokens]

/-! ## Lists -/

/-- The tokens are read as the list, up to its closing parenthesis. -/
def ParsesItems (ts : List Token) (items : List Term) : Prop :=
  ∀ rest, Strength.or.readItems (ts ++ .symbol .closing :: rest) = some (items, rest)

/-- The tokens are read as the rest of a list, up to its closing parenthesis. -/
def ParsesFurther (ts : List Token) (items : List Term) : Prop :=
  ∀ rest, Strength.or.readMoreItems (ts ++ .symbol .closing :: rest) = some (items, rest)

theorem parsesItems_nil : ParsesItems [] [] := fun rest => by
  rw [List.nil_append, Strength.readItems.eq_def]

theorem parsesFurther_nil : ParsesFurther [] [] := fun rest => by
  rw [List.nil_append, Strength.readMoreItems.eq_def]

/-- The rest of a list ends the tree before it. -/
theorem stops_further (items : List Term) (rest : List Token) :
    Stops .or (Term.furtherTokens items ++ .symbol .closing :: rest) := by
  cases items <;> exact stops_cons (by decide) _

theorem Parses.consFurther {as : List Token} {a : Term} {items found : List Term} (ha : Parses .or as a)
    (h : ParsesFurther (Term.furtherTokens items) found) :
    ParsesFurther (.symbol .comma :: (as ++ Term.furtherTokens items)) (a :: found) := by
  intro rest
  rw [List.cons_append, List.append_assoc, Strength.readMoreItems.eq_def]
  show (Strength.or.readAt _).bind _ = _
  rw [ha _ (stops_further items rest), Option.bind_some]
  show (Strength.or.readMoreItems _).bind _ = _
  rw [h rest]
  rfl

theorem Parses.consItems {as : List Token} {a : Term} {items found : List Term} (ha : Parses .or as a)
    (hopens : Opens .or as) (h : ParsesFurther (Term.furtherTokens items) found) :
    ParsesItems (as ++ Term.furtherTokens items) (a :: found) := by
  intro rest
  have hread := ha _ (stops_further items rest)
  have hfirst : ∀ ts, as ++ (Term.furtherTokens items ++ .symbol .closing :: rest) ≠ .symbol .closing :: ts := by
    intro ts heq
    obtain ⟨t, us, rfl, ht⟩ := hopens
    obtain rfl : t = .symbol .closing := (List.cons.inj heq).1
    exact absurd ht (by decide)
  rw [List.append_assoc, Strength.readItems.eq_def]
  split
  · exact absurd ‹_› (hfirst _)
  · show (Strength.or.readAt _).bind _ = _
    rw [hread, Option.bind_some]
    show (Strength.or.readMoreItems _).bind _ = _
    rw [h rest]
    rfl

theorem Parses.inList {as bs : List Token} {a : Term} {items : List Term} (ha : Parses .concat as a)
    (hb : ParsesItems bs items) (negated : Bool) :
    Parses .comparison (as ++ ((Test.inList negated).tokens ++ (bs ++ [.symbol .closing])))
      (.inList negated a items) := by
  intro rest _
  simp only [List.append_assoc, List.singleton_append]
  rw [readAt_test ha, Term.readTest.eq_def, Test.split_tokens]
  show (Strength.or.readItems _).bind _ = _
  rw [hb rest]
  rfl

/-- A call with its arguments is an atom. -/
theorem ParsesItems.call {bs : List Token} {items : List Term} (h : ParsesItems bs items) (name : String)
    (distinct : Bool) (hdistinct : bs.head? ≠ some (.keyword .distinct)) :
    Parses .atom (.name name :: .symbol .opening :: ((if distinct then [.keyword .distinct] else [])
      ++ (bs ++ [.symbol .closing]))) (.call name distinct items) := by
  intro rest _
  have hread := h rest
  rw [readAt_atom, Strength.readAtom.eq_def]
  cases distinct with
  | true =>
    simp only [if_true, List.cons_append, List.nil_append, List.append_assoc]
    show (Strength.or.readItems _).bind _ = _
    rw [hread]
    rfl
  | false =>
    have hhead : ∀ ts, bs ++ .symbol .closing :: rest ≠ .keyword .distinct :: ts := by
      intro ts heq
      cases bs with
      | nil => cases heq
      | cons t us => exact hdistinct (by rw [(List.cons.inj heq).1]; rfl)
    simp only [Bool.false_eq_true, if_false, List.cons_append, List.nil_append, List.append_assoc]
    show (Strength.or.readItems _).bind _ = _
    rw [hread]
    rfl

/-! ## Reading a tree back -/

namespace Term

/-- The tokens of a tree are read as the tree, alone and as part of a chain. -/
structure ReadsBack (t : Term) : Prop where
  parses : Parses t.strength t.tokens t.leftNested
  begins : ∀ op, t.isOperation op = true → Begins op.strength t.tokens t.leftNested
  continues : ∀ op, t.isOperation op = true → op.regroups = true → Continues op t.tokens t.leftNested

/-- A tree that is no operation is never part of a chain. -/
theorem ReadsBack.of_parses {t : Term} (h : Parses t.strength t.tokens t.leftNested)
    (hplain : ∀ op, t.isOperation op = false) : t.ReadsBack where
  parses := h
  begins op hop := by rw [hplain op] at hop; cases hop
  continues op hop := by rw [hplain op] at hop; cases hop

/-- An atom is read by itself. -/
theorem ReadsBack.of_readAtom {t : Term} (hatom : t.strength = .atom)
    (h : ∀ rest, Stops .atom rest → Strength.or.readAtom (t.tokens ++ rest) = some (t.leftNested, rest)) :
    t.ReadsBack := by
  refine .of_parses (fun rest hrest => ?_) fun op => ?_
  · rw [hatom] at hrest ⊢
    rw [readAt_atom]
    exact h rest hrest
  · cases t with
    | operation inner l r => cases inner <;> cases hatom
    | _ => rfl

/-- A name before nothing that goes on with it is a column. -/
theorem readAtom_name {rest : List Token} (h : Stops .atom rest) (name : String) :
    Strength.or.readAtom (.name name :: rest) = some (.column none name, rest) := by
  rw [Strength.readAtom.eq_def]
  cases rest with
  | nil => rfl
  | cons t ts =>
    have hjoins := h t rfl
    cases t with
    | symbol s => cases s <;> first | rfl | exact absurd hjoins (by decide)
    | _ => rfl

/-- An operand is read at the level for which it is put in parentheses. -/
theorem ReadsBack.operand {t : Term} (h : t.ReadsBack) (level : Strength) :
    Parses level (enclosed (t.strength.below level) t.tokens) t.leftNested :=
  h.parses.operand (opens_tokens t) level

/-- A tree is read where any tree may stand. -/
theorem ReadsBack.alone {t : Term} (h : t.ReadsBack) : Parses .or t.tokens t.leftNested :=
  h.parses.weaken (opens_tokens t) .or (by cases t.strength <;> decide)

/-- A tree as strong as an operation is an operation of the same level. -/
theorem exists_isOperation {t : Term} {op : Operation} (h : t.strength = op.strength) :
    ∃ inner, t.isOperation inner = true ∧ inner.strength = op.strength := by
  cases t with
  | operation inner l r => exact ⟨inner, by simp [isOperation], h⟩
  | _ => cases op <;> cases h

theorem strength_of_isOperation {t : Term} {op : Operation} (h : t.isOperation op = true) :
    t.strength = op.strength := by
  cases t with
  | operation inner l r =>
    rw [show inner = op by simpa [isOperation] using h]
    rfl
  | _ => cases h

/-- The operations that regroup are alone at their levels. -/
theorem eq_of_regroups {op inner : Operation} (h : op.regroups = true)
    (hstrength : inner.strength = op.strength) : inner = op := by
  revert h hstrength
  cases op <;> cases inner <;> decide

/-- An operand whose strength is not that of the level is read at the next level. -/
theorem ReadsBack.stronger {t : Term} (h : t.ReadsBack) {level : Strength} (hne : t.strength ≠ level) :
    Parses level.next (enclosed (t.strength.below level) t.tokens) t.leftNested := by
  cases hneeded : t.strength.below level with
  | true =>
    have hatom := h.alone.parenthesized
    exact hatom.weaken ⟨_, _, rfl, le_rfl⟩ level.next level.next.rank_le_atom
  | false =>
    have hle := (t.strength.below_eq_false_iff level).mp hneeded
    have hlt : level.rank < t.strength.rank :=
      lt_of_le_of_ne hle fun heq => hne (Strength.rank_injective heq.symm)
    exact h.parses.weaken (opens_tokens t) level.next (Strength.next_rank_le hlt)

/-- The left operand begins the chain. -/
theorem ReadsBack.left {t : Term} (h : t.ReadsBack) (op : Operation) :
    Begins op.strength (enclosed (t.strength.below op.strength) t.tokens) t.leftNested := by
  by_cases heq : t.strength = op.strength
  · obtain ⟨inner, hinner, hstrength⟩ := exists_isOperation heq
    have hbegins := h.begins inner hinner
    rw [hstrength] at hbegins
    rw [heq, (Strength.below_eq_false_iff _ _).mpr le_rfl]
    exact hbegins
  · exact (h.stronger heq).begins

/-- The left operand continues a chain that stands before it. -/
theorem ReadsBack.leftContinues {t : Term} (h : t.ReadsBack) {op : Operation} (hop : op.regroups = true) :
    Continues op (enclosed (t.strength.below op.strength) t.tokens) t.leftNested := by
  by_cases heq : t.strength = op.strength
  · obtain ⟨inner, hinner, hstrength⟩ := exists_isOperation heq
    obtain rfl := eq_of_regroups hop hstrength
    rw [heq, (Strength.below_eq_false_iff _ _).mpr le_rfl]
    exact h.continues inner hinner hop
  · have hother : t.isOperation op = false :=
      Bool.eq_false_iff.mpr fun hsame => heq (strength_of_isOperation hsame)
    exact (h.stronger heq).continues (Or.inl ((isOperation_leftNested t op).trans hother))

/-- The right operand continues the chain. -/
theorem ReadsBack.right {t : Term} (h : t.ReadsBack) {op : Operation}
    (hchain : op = .add ∨ op = .mul → t.isOperation op = false) :
    Continues op (enclosed (wrapsRight op t) t.tokens) t.leftNested := by
  by_cases hinner : (t.isOperation op && isAssociative op.kind) = true
  · -- a chain of the same operation goes on without parentheses
    obtain ⟨hsame, hassociative⟩ := Bool.and_eq_true_iff.mp hinner
    have hregroups : op.regroups = true := by
      cases op with
      | or | and | concat => rfl
      | add => exact absurd hsame (by rw [hchain (Or.inl rfl)]; decide)
      | mul => exact absurd hsame (by rw [hchain (Or.inr rfl)]; decide)
      | sub | div | mod => cases hassociative
    rw [wrapsRight, hinner]
    exact h.continues op hsame hregroups
  · have hplain : t.leftNested.isOperation op = false ∨ op.regroups = false := by
      rw [isOperation_leftNested]
      rcases (Bool.and_eq_false_iff.mp (Bool.eq_false_iff.mpr hinner)) with hother | hleft
      · exact Or.inl hother
      · exact Or.inr (by cases op <;> first | rfl | cases hleft)
    rw [wrapsRight, Bool.eq_false_iff.mpr hinner]
    exact (h.operand op.strength.next).continues hplain

theorem ReadsBack.operation {left right : Term} {op : Operation} (hl : left.ReadsBack) (hr : right.ReadsBack)
    (hchain : op = .add ∨ op = .mul → right.isOperation op = false) :
    (Term.operation op left right).ReadsBack := by
  have hbegins : Begins op.strength (tokens (.operation op left right)) (leftNested (.operation op left right)) :=
    (hl.left op).operation (hr.right hchain)
  refine ⟨hbegins.parses, ?_, ?_⟩
  · intro inner hinner
    obtain rfl : op = inner := by simpa [isOperation] using hinner
    exact hbegins
  · intro inner hinner hregroups
    obtain rfl : op = inner := by simpa [isOperation] using hinner
    exact (hl.leftContinues hregroups).operation hregroups (hr.right hchain)

/-- The first token of a list is that of a tree. -/
theorem head?_listTokens (items : List Term) : (listTokens items).head? ≠ some (.keyword .distinct) := by
  cases items with
  | nil => simp [listTokens]
  | cons t ts =>
    obtain ⟨first, rest, htokens, hopens⟩ := opens_tokens t
    rw [listTokens, htokens]
    intro hhead
    obtain rfl : first = .keyword .distinct := Option.some.inj hhead
    cases hstrength : t.strength <;> rw [hstrength] at hopens <;> exact absurd hopens (by decide)

mutual

/-- The tokens of a well-formed tree are read as the tree. -/
theorem readsBack : ∀ (t : Term), t.WellFormed → t.ReadsBack
  | .column none name, _ => .of_readAtom rfl fun rest hrest => readAtom_name hrest name
  | .column (some table) name, _ => .of_readAtom rfl fun rest _ => by rw [Strength.readAtom.eq_def]; rfl
  | .text s, _ => .of_readAtom rfl fun rest _ => by rw [Strength.readAtom.eq_def]; rfl
  | .number s, _ => .of_readAtom rfl fun rest _ => by rw [Strength.readAtom.eq_def]; rfl
  | .call name distinct args, h => by
    have hargs := parsesItems args h.2.2
    exact .of_parses (hargs.call name distinct (head?_listTokens args)) fun _ => rfl
  | .operation op left right, h => (readsBack left h.2.1).operation (readsBack right h.2.2) h.1
  | .compare c left right, h => by
    have hleft := (readsBack left h.1).operand .concat
    have hright := (readsBack right h.2).operand .concat
    exact .of_parses (hleft.compare hright c) fun _ => rfl
  | .escaped p left right escape, h => by
    have hleft := (readsBack left h.2.1).operand .concat
    have hright := (readsBack right h.2.2.1).operand .concat
    have hescape := (readsBack escape h.2.2.2).operand .concat
    rw [h.1] at hescape
    exact .of_parses (hleft.escaped hright hescape p) fun _ => rfl
  | .isConstant c negated operand, h => by
    have hoperand := (readsBack operand h).operand .concat
    exact .of_parses (hoperand.isConstant c negated) fun _ => rfl
  | .inList negated operand items, h => by
    have hoperand := (readsBack operand h.1).operand .concat
    exact .of_parses (hoperand.inList (parsesItems items h.2) negated) fun _ => rfl
  | .not operand, h => by
    have hoperand := (readsBack operand h).operand .concat
    have hopens := (opens_tokens operand).operand .concat
    have hnot := hoperand.weaken hopens .not (by decide)
    exact .of_parses hnot.not fun _ => rfl
  | .neg operand, h => by
    have hoperand := (readsBack operand h).operand .atom
    have hopens := (opens_tokens operand).operand .atom
    have hneg := hoperand.weaken hopens .unary (by decide)
    exact .of_parses hneg.neg fun _ => rfl

/-- The tokens of a list of well-formed trees are read as the list. -/
theorem parsesItems : ∀ (ts : List Term), WellFormedAll ts → ParsesItems (listTokens ts) (leftNestedAll ts)
  | [], _ => parsesItems_nil
  | t :: ts, h =>
    (readsBack t h.1).alone.consItems ((opens_tokens t).mono (by cases t.strength <;> decide)) (parsesFurther ts h.2)

/-- The tokens of the rest of such a list are read as the rest. -/
theorem parsesFurther :
    ∀ (ts : List Term), WellFormedAll ts → ParsesFurther (furtherTokens ts) (leftNestedAll ts)
  | [], _ => parsesFurther_nil
  | t :: ts, h => (readsBack t h.1).alone.consFurther (parsesFurther ts h.2)

end

end Term

end AlgebraSql.Render
