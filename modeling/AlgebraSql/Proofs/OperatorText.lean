import AlgebraSql.Dialect.Registry
import AlgebraSql.Proofs.Nodes
import AlgebraSql.Proofs.OperatorReading
import AlgebraSql.Render.Node

/-!
# Texts of operations — a node is written as the tokens of its tree.

`Term.Of` says which nodes a tree of operations stands for.  The rules of the renderer put
parentheses where `Term.tokens` does, so the text of such a node is read back as its tree.
-/

namespace AlgebraSql.Render

open AlgebraSql.Sql

/-! ## Nodes of a tree -/

/-- A node has no argument under a name. -/
def Absent (n : Node) (key : String) : Prop := ∀ p ∈ n.args, p.1 = key → p.2 = .missing

/-- A name stands under a key. -/
def NameUnder (n : Node) (key name : String) : Prop :=
  ∃ c, n.child? key = some c ∧ c.kind = .identifier ∧ c.name = name

/-- The expressions of a node; a list without nodes may be missing. -/
def ItemsUnder (n : Node) (ns : List Node) : Prop :=
  n.list? "expressions" = some ns ∨ ns = [] ∧ Absent n "expressions"

/-- The node is written as a pattern. -/
def Pattern.Of (p : Pattern) (n : Node) : Prop :=
  n.kind = (if p.similar then .similarTo else .like) ∧ n.flag "negated" = p.negated

/-- The node is written as a comparison. -/
def Comparison.Of : Comparison → Node → Prop
  | .eq, n => n.kind = .eq
  | .neq, n => n.kind = .neq
  | .gt, n => n.kind = .gt
  | .gte, n => n.kind = .gte
  | .lt, n => n.kind = .lt
  | .lte, n => n.kind = .lte
  | .distinct negated, n => n.kind = .isDistinctFrom ∧ n.flag "negated" = negated
  | .pattern p, n => p.Of n ∧ Absent n "escape"

/-- The node is written as a constant. -/
def Constant.Of : Constant → Node → Prop
  | .null, n => n.kind = .null
  | .boolean b, n => n.kind = .boolean ∧ n.flag "this" = b

namespace Term

mutual

/-- The tree of a node. -/
def Of : Term → Node → Prop
  | .column table name, n =>
    n.kind = .column ∧ NameUnder n "this" name
      ∧ match table with
        | none => Absent n "table"
        | some table => NameUnder n "table" table
  | .text s, n => n.kind = .literal ∧ n.isString = true ∧ n.text "this" = s
  | .number s, n => n.kind = .literal ∧ n.isString = false ∧ n.text "this" = s
  | .call name distinct args, n =>
    (n.kind = .call ∨ n.kind = .aggregate) ∧ n.name = name ∧ n.flag "distinct" = distinct
      ∧ ∃ ns, ItemsUnder n ns ∧ OfAll args ns
  | .operation op left right, n =>
    n.kind = op.kind ∧ (∃ l, n.child? "this" = some l ∧ Of left l)
      ∧ ∃ r, n.child? "expression" = some r ∧ Of right r
  | .compare c left right, n =>
    c.Of n ∧ (∃ l, n.child? "this" = some l ∧ Of left l)
      ∧ ∃ r, n.child? "expression" = some r ∧ Of right r
  | .escaped p left right escape, n =>
    p.Of n ∧ (∃ l, n.child? "this" = some l ∧ Of left l)
      ∧ (∃ r, n.child? "expression" = some r ∧ Of right r)
      ∧ ∃ e, n.child? "escape" = some e ∧ Of escape e
  | .isConstant c negated operand, n =>
    n.kind = .is ∧ n.flag "negated" = negated ∧ (∃ l, n.child? "this" = some l ∧ Of operand l)
      ∧ ∃ r, n.child? "expression" = some r ∧ c.Of r
  | .inList negated operand items, n =>
    n.kind = .in ∧ n.flag "negated" = negated ∧ Absent n "query"
      ∧ (∃ l, n.child? "this" = some l ∧ Of operand l) ∧ ∃ ns, ItemsUnder n ns ∧ OfAll items ns
  | .not operand, n => n.kind = .not ∧ ∃ l, n.child? "this" = some l ∧ Of operand l
  | .neg operand, n => n.kind = .neg ∧ ∃ l, n.child? "this" = some l ∧ Of operand l

/-- The trees of a list of nodes. -/
def OfAll : List Term → List Node → Prop
  | [], ns => ns = []
  | t :: ts, ns => ∃ n rest, ns = n :: rest ∧ Of t n ∧ OfAll ts rest

end

/-- A tree binds as strongly as its node. -/
theorem Of.strength_eq {t : Term} {n : Node} (h : t.Of n) : Strength.ofKind n.kind = t.strength := by
  cases t with
  | column _ _ | text _ | number _ | not _ | neg _ | isConstant _ _ _ | inList _ _ _ =>
    rw [h.1]
    rfl
  | call _ _ _ => rcases h.1 with hk | hk <;> rw [hk] <;> rfl
  | operation op _ _ =>
    rw [h.1]
    cases op <;> rfl
  | compare c _ _ =>
    rcases c with _ | _ | _ | _ | _ | _ | negated | ⟨similar, negated⟩
    case distinct => rw [h.1.1]; rfl
    case pattern =>
      rw [h.1.1.1]
      cases similar <;> rfl
    all_goals
      rw [show n.kind = _ from h.1]
      rfl
  | escaped p _ _ _ =>
    rw [h.1.1]
    cases p.similar <;> rfl

/-- A tree is an operation of a sort exactly when its node is of that kind. -/
theorem Of.kind_eq_iff {t : Term} {n : Node} (h : t.Of n) (op : Operation) :
    n.kind = op.kind ↔ t.isOperation op = true := by
  have hstrength := h.strength_eq
  constructor
  · intro hkind
    cases t with
    | operation inner _ _ =>
      have hsame : inner.kind = op.kind := h.1.symm.trans hkind
      have : inner = op := by cases inner <;> cases op <;> first | rfl | cases hsame
      simp [isOperation, this]
    | _ => rw [hkind] at hstrength; cases op <;> cases hstrength
  · intro hop
    cases t with
    | operation inner _ _ => rw [← show inner = op by simpa [isOperation] using hop]; exact h.1
    | _ => cases hop

end Term

/-! ## Parts of a node -/

/-- A node with its pieces. -/
def target (s : Setting) (n : Node) : Target := ⟨s, n, viewsOf s n.args⟩

theorem piece_text (s : Setting) (n : Node) : (piece s n).text = (target s n).render := by
  cases n
  rw [piece]
  rfl

theorem piece_node (s : Setting) (n : Node) : (piece s n).node = n := by
  cases n
  rw [piece]

theorem get?_viewsOf_node {s : Setting} {args : Args} {key : String} {c : Node}
    (h : args.get? key = some (.node c)) : (viewsOf s args).get? key = some (.one (piece s c)) := by
  induction args with
  | nil => cases h
  | cons p rest ih =>
    obtain ⟨k, a⟩ := p
    by_cases hk : k = key
    · obtain rfl : a = .node c := by simpa [hk] using h
      simp [viewsOf, hk]
    · have hrest := ih (by simpa [hk] using h)
      cases a <;> simp [viewsOf, hk, hrest]

theorem get?_viewsOf_nodes {s : Setting} {args : Args} {key : String} {cs : List Node}
    (h : args.get? key = some (.nodes cs)) : (viewsOf s args).get? key = some (.many (pieces s cs)) := by
  induction args with
  | nil => cases h
  | cons p rest ih =>
    obtain ⟨k, a⟩ := p
    by_cases hk : k = key
    · obtain rfl : a = .nodes cs := by simpa [hk] using h
      simp [viewsOf, hk]
    · have hrest := ih (by simpa [hk] using h)
      cases a <;> simp [viewsOf, hk, hrest]

theorem get?_viewsOf_absent {s : Setting} {args : Args} {key : String}
    (h : ∀ p ∈ args, p.1 = key → p.2 = .missing) : (viewsOf s args).get? key = none := by
  induction args with
  | nil => simp [viewsOf]
  | cons p rest ih =>
    obtain ⟨k, a⟩ := p
    have hrest := ih fun q hq => h q (List.mem_cons_of_mem _ hq)
    have hfirst := h (k, a) (List.mem_cons_self ..)
    by_cases hk : k = key
    · obtain rfl : a = .missing := hfirst hk
      rw [viewsOf]
      exact hrest
    · cases a <;> simp [viewsOf, hk, hrest]

theorem one?_target {s : Setting} {n c : Node} {key : String} (h : n.child? key = some c) :
    (target s n).views.one? key = some (piece s c) := by
  have hview := get?_viewsOf_node (s := s) ((Node.child?_eq_some_iff n key c).mp h)
  simp [target, Views.one?, hview]

theorem one?_absent {s : Setting} {n : Node} {key : String} (h : Absent n key) :
    (target s n).views.one? key = none := by
  simp [target, Views.one?, get?_viewsOf_absent (s := s) h]

/-- An argument that is absent is written as nothing. -/
theorem part_absent {s : Setting} {n : Node} {key : String} (h : Absent n key) :
    (target s n).part key = pure "" := by
  have harg : n.arg? key = none := by
    unfold Node.arg?
    cases hget : n.args.get? key with
    | none => rfl
    | some a =>
      obtain rfl : a = .missing := h _ (Node.mem_of_get? hget) rfl
      rfl
  have hnode : (target s n).node = n := rfl
  simp [Target.part, one?_absent h, hnode, harg]

theorem many_target {s : Setting} {n : Node} {ns : List Node} (h : ItemsUnder n ns) :
    (target s n).many "expressions" = pieces s ns := by
  rcases h with h | ⟨rfl, h⟩
  · have hview := get?_viewsOf_nodes (s := s) ((Node.list?_eq_some_iff n _ ns).mp h)
    simp [target, Target.many, Views.many, hview]
  · simp [target, Target.many, Views.many, get?_viewsOf_absent (s := s) h, pieces]

/-! ## Texts -/

/-- A node is written as a text that is read as the tokens. -/
def Writes (s : Setting) (n : Node) (ts : List Token) : Prop :=
  ∃ text, (piece s n).text = pure text ∧ Spells s.style text.toList ts

/-- Each of the nodes is written as the tokens of its tree. -/
abbrev WritesAll (s : Setting) (ns : List Node) (ts : List Term) : Prop :=
  List.Forall₂ (fun n t => Writes s n (Term.tokens t)) ns ts

section

variable {s : Setting}

/-- Parentheses that are needed are tokens around the rest. -/
theorem spells_parenthesized (hstyle : s.style.MarksNames) {text : String} {ts : List Token} (needed : Bool)
    (h : Spells s.style text.toList ts) :
    Spells s.style (parenthesized needed text).toList (Term.enclosed needed ts) := by
  cases needed with
  | false => exact h
  | true =>
    have hall := h.enclosed hstyle
    simpa [parenthesized, Term.enclosed] using hall

/-- Texts with a blank between them are read one after the other. -/
theorem Spells.spaced {style : Style} {a b : String} {ta tb : List Token} (ha : Spells style a.toList ta)
    (hb : Spells style b.toList tb) : Spells style (a ++ " " ++ b).toList (ta ++ tb) := by
  have hall := ha.blank hb
  simpa using hall

/-- A name under a key is written as a name. -/
theorem part_name {n : Node} {key name : String} (h : NameUnder n key name) :
    ∃ quoted, (target s n).part key = pure (s.nameText name quoted) := by
  obtain ⟨c, hc, hkind, rfl⟩ := h
  refine ⟨c.flag "quoted", ?_⟩
  have hnode : (target s c).node = c := rfl
  simp only [Target.part, one?_target hc, piece_text, Target.render, hnode, hkind]
  rfl

theorem Writes.column (hstyle : s.style.MarksNames) {n : Node} {table : Option String} {name : String}
    (h : (Term.column table name).Of n) : Writes s n (Term.column table name).tokens := by
  obtain ⟨hkind, hname, htable⟩ := h
  obtain ⟨quoted, hthis⟩ := part_name (s := s) hname
  have hnode : (target s n).node = n := rfl
  have hrender : (piece s n).text = (target s n).columnText := by
    simp only [piece_text, Target.render, hnode, hkind]
  cases table with
  | none =>
    refine ⟨s.nameText name quoted, ?_, fun rest hrest => ?_⟩
    · rw [hrender, Target.columnText, part_absent htable, hthis]
      simp
    · exact tokens_nameText s hstyle name quoted hrest.endsName
  | some table =>
    obtain ⟨tableQuoted, htable⟩ := part_name (s := s) htable
    have hnonempty : s.nameText table tableQuoted ≠ "" := by
      obtain ⟨c, cs, htext, -⟩ := head_nameText s hstyle table tableQuoted
      intro hempty
      rw [hempty] at htext
      cases htext
    refine ⟨s.nameText table tableQuoted ++ "." ++ s.nameText name quoted, ?_, fun rest hrest => ?_⟩
    · rw [hrender, Target.columnText, htable, hthis]
      simp [hnonempty]
    · have hdot : ∀ cs, EndsName ('.' :: cs) := fun cs c hc => by
        cases hc
        decide
      have htext : (s.nameText table tableQuoted ++ "." ++ s.nameText name quoted).toList ++ rest
          = (s.nameText table tableQuoted).toList ++ '.' :: ((s.nameText name quoted).toList ++ rest) := by
        simp
      rw [htext, tokens_nameText s hstyle table tableQuoted (hdot _),
        tokens_dot_nameText s hstyle name quoted hrest.endsName, Option.map_map]
      rfl

theorem Writes.text (hstyle : s.style.MarksNames) {n : Node} {text : String} (h : (Term.text text).Of n) :
    Writes s n [.text text] := by
  obtain ⟨hkind, hstring, rfl⟩ := h
  have hnode : (target s n).node = n := rfl
  refine ⟨s.style.quoteText (n.text "this"), ?_, spells_quoteText hstyle _⟩
  simp only [piece_text, Target.render, hnode, hkind, Target.literalText, hstring, if_true]
  rfl

theorem Writes.number (hstyle : s.style.MarksNames) {n : Node} {digits : String} (h : (Term.number digits).Of n)
    (hdigits : IsNumeral digits.toList) : Writes s n [.number digits] := by
  obtain ⟨hkind, hstring, rfl⟩ := h
  have hnode : (target s n).node = n := rfl
  refine ⟨n.text "this", ?_, spells_numeral hstyle hdigits⟩
  simp only [piece_text, Target.render, hnode, hkind, Target.literalText, hstring]
  rfl

/-! ## Operations -/

/-- An operation is written as its operands with the operator between them. -/
theorem writes_binaryText (hstyle : s.style.MarksNames) {n l r : Node} {op : String} {ta tb top : List Token}
    (hthis : n.child? "this" = some l) (hright : n.child? "expression" = some r) (hl : Writes s l ta)
    (hr : Writes s r tb) (hop : Spells s.style op.toList top) :
    ∃ text, (target s n).binaryText op = pure text
      ∧ Spells s.style text.toList
          (Term.enclosed (wrapsLeft n.kind (some l)) ta ++ (top ++ Term.enclosed (wrapsRight n.kind (some r)) tb)) := by
  obtain ⟨left, hleft, hla⟩ := hl
  obtain ⟨right, hrighttext, hrb⟩ := hr
  have hnode : (target s n).node = n := rfl
  refine ⟨_, ?_, (spells_parenthesized hstyle (wrapsLeft n.kind (some l)) hla).spaced
    (hop.spaced (spells_parenthesized hstyle (wrapsRight n.kind (some r)) hrb))⟩
  simp only [Target.binaryText, one?_target hthis, one?_target hright, textOf, hleft, hrighttext, hnode, hthis,
    hright, pure_bind, String.append_assoc]

/-- Words with blanks between them are read as words. -/
theorem spells_words {style : Style} (k : Keyword) (ks : List Keyword) :
    Spells style (String.intercalate " " ((k :: ks).map Keyword.text)).toList ((k :: ks).map .keyword) := by
  induction ks generalizing k with
  | nil =>
    have hword := spells_keyword style k
    simpa using hword
  | cons next ks ih =>
    have hall := (spells_keyword style k).spaced (ih next)
    simpa only [List.map_cons, String.intercalate_cons_cons, List.singleton_append] using hall

/-- Around a comparison every operand that is not stronger needs parentheses. -/
theorem wraps_comparison {k : Kind} (h : Strength.ofKind k = .comparison) (n : Node) :
    wrapsLeft k (some n) = (Strength.ofKind n.kind).below .concat
      ∧ wrapsRight k (some n) = (Strength.ofKind n.kind).below .concat := by
  have hassociative : isAssociative k = false := by cases k <;> first | rfl | cases h
  have hleft : wrapsLeft k (some n) = (Strength.ofKind n.kind).below .concat := by
    simp only [wrapsLeft, Strength.ofNode, h]
    cases Strength.ofKind n.kind <;> rfl
  refine ⟨hleft, ?_⟩
  simp only [wrapsRight, Strength.ofNode, h, hassociative, Bool.and_false]
  cases Strength.ofKind n.kind <;> rfl

/-- Around another operation an operand needs parentheses where its tree does. -/
theorem wraps_operation (op : Operation) {n : Node} {t : Term} (h : t.Of n) :
    wrapsLeft op.kind (some n) = t.strength.below op.strength
      ∧ wrapsRight op.kind (some n) = Term.wrapsRight op t := by
  have hstrength := h.strength_eq
  have hsame : ((some n).map Node.kind == some op.kind) = t.isOperation op := by
    rw [Bool.eq_iff_iff, ← h.kind_eq_iff op]
    simp
  have hown : Strength.ofKind op.kind = op.strength := by cases op <;> rfl
  refine ⟨?_, ?_⟩
  · simp only [wrapsLeft, Strength.ofNode, hown, hstrength]
    cases op <;> cases t.strength <;> rfl
  · simp only [wrapsRight, Term.wrapsRight, Strength.ofNode, hown, hstrength, hsame]
    cases hchain : t.isOperation op && isAssociative op.kind with
    | true =>
      rw [Term.strength_of_isOperation (Bool.and_eq_true_iff.mp hchain).1]
      cases op <;> rfl
    | false => cases op <;> cases t.strength <;> rfl

theorem Writes.operation (hstyle : s.style.MarksNames) {n l r : Node} {op : Operation} {left right : Term}
    (hkind : n.kind = op.kind) (hthis : n.child? "this" = some l) (hright : n.child? "expression" = some r)
    (hlof : left.Of l) (hrof : right.Of r) (hl : Writes s l left.tokens) (hr : Writes s r right.tokens) :
    Writes s n (Term.operation op left right).tokens := by
  have hnode : (target s n).node = n := rfl
  obtain ⟨operator, hrender, hop⟩ : ∃ operator, (target s n).render = (target s n).binaryText operator
      ∧ Spells s.style operator.toList [op.token] := by
    unfold Target.render
    rw [hnode, hkind]
    cases op with
    | or => exact ⟨_, rfl, spells_keyword _ .or⟩
    | and => exact ⟨_, rfl, spells_keyword _ .and⟩
    | concat => exact ⟨_, rfl, spells_symbol hstyle .bars⟩
    | add => exact ⟨_, rfl, spells_symbol hstyle .plus⟩
    | sub => exact ⟨_, rfl, spells_symbol hstyle .minus⟩
    | mul => exact ⟨_, rfl, spells_symbol hstyle .times⟩
    | div => exact ⟨_, rfl, spells_symbol hstyle .slash⟩
    | mod => exact ⟨_, rfl, spells_symbol hstyle .percent⟩
  obtain ⟨text, htext, hspells⟩ := writes_binaryText hstyle hthis hright hl hr hop
  rw [hkind, (wraps_operation op hlof).1, (wraps_operation op hrof).2] at hspells
  exact ⟨text, (piece_text s n).trans (hrender.trans htext), hspells⟩

/-! ## Tests -/

/-- The operator of a pattern. -/
theorem spells_denied (p : Pattern) {n : Node} (h : p.Of n) :
    Spells s.style ((target s n).denied (if p.similar then "SIMILAR TO" else "LIKE")).toList p.tokens := by
  have hnode : (target s n).node = n := rfl
  obtain ⟨similar, negated⟩ := p
  unfold Target.denied
  rw [hnode, h.2]
  cases similar <;> cases negated
  · exact spells_words .like []
  · exact spells_words .not [.like]
  · exact spells_words .similar [.to]
  · exact spells_words .not [.similar, .to]

/-- A pattern is written as an operation with its escape character behind it. -/
theorem render_pattern {p : Pattern} {n : Node} (h : p.Of n) :
    (target s n).render = (target s n).likeText (if p.similar then "SIMILAR TO" else "LIKE") := by
  have hnode : (target s n).node = n := rfl
  unfold Target.render
  rw [hnode, h.1]
  cases p.similar <;> rfl

theorem Comparison.Of.ofKind {c : Comparison} {n : Node} (h : c.Of n) : Strength.ofKind n.kind = .comparison := by
  rcases c with _ | _ | _ | _ | _ | _ | negated | ⟨similar, negated⟩
  case distinct => rw [h.1]; rfl
  case pattern =>
    rw [h.1.1]
    cases similar <;> rfl
  all_goals
    rw [show n.kind = _ from h]
    rfl

/-- A comparison is written as an operation between its operands. -/
theorem render_comparison (hstyle : s.style.MarksNames) {c : Comparison} {n : Node} (h : c.Of n) :
    ∃ operator, (target s n).render = (target s n).binaryText operator
      ∧ Spells s.style operator.toList c.tokens := by
  have hnode : (target s n).node = n := rfl
  cases c with
  | pattern p =>
    refine ⟨_, ?_, spells_denied p h.1⟩
    rw [render_pattern h.1, Target.likeText, part_absent h.2]
    simp [preceded]
  | distinct negated =>
    unfold Target.render
    rw [hnode, h.1]
    refine ⟨_, rfl, ?_⟩
    rw [h.2]
    cases negated
    · exact spells_words .is [.distinct, .from]
    · exact spells_words .is [.not, .distinct, .from]
  | eq => exact ⟨"=", by unfold Target.render; rw [hnode, show n.kind = _ from h], spells_symbol hstyle .eq⟩
  | neq => exact ⟨"<>", by unfold Target.render; rw [hnode, show n.kind = _ from h], spells_symbol hstyle .neq⟩
  | gt => exact ⟨">", by unfold Target.render; rw [hnode, show n.kind = _ from h], spells_symbol hstyle .gt⟩
  | gte => exact ⟨">=", by unfold Target.render; rw [hnode, show n.kind = _ from h], spells_symbol hstyle .gte⟩
  | lt => exact ⟨"<", by unfold Target.render; rw [hnode, show n.kind = _ from h], spells_symbol hstyle .lt⟩
  | lte => exact ⟨"<=", by unfold Target.render; rw [hnode, show n.kind = _ from h], spells_symbol hstyle .lte⟩

theorem Writes.compare (hstyle : s.style.MarksNames) {n l r : Node} {c : Comparison} {left right : Term}
    (hc : c.Of n) (hthis : n.child? "this" = some l) (hright : n.child? "expression" = some r)
    (hlof : left.Of l) (hrof : right.Of r) (hl : Writes s l left.tokens) (hr : Writes s r right.tokens) :
    Writes s n (Term.compare c left right).tokens := by
  obtain ⟨operator, hrender, hop⟩ := render_comparison hstyle hc
  obtain ⟨text, htext, hspells⟩ := writes_binaryText hstyle hthis hright hl hr hop
  rw [(wraps_comparison hc.ofKind l).1, (wraps_comparison hc.ofKind r).2, hlof.strength_eq,
    hrof.strength_eq] at hspells
  exact ⟨text, (piece_text s n).trans (hrender.trans htext), hspells⟩

/-- A text that is read as something is not empty. -/
theorem Spells.ne_empty {t : Term} {text : String} (h : Spells s.style text.toList t.tokens) :
    text ≠ "" := by
  rintro rfl
  obtain ⟨first, rest, htokens, -⟩ := opens_tokens t
  have hread := h [] (fun c hc => by cases hc)
  rw [htokens] at hread
  simp [tokens_nil] at hread

theorem Writes.escaped (hstyle : s.style.MarksNames) {n l r e : Node} {p : Pattern} {left right escape : Term}
    (hp : p.Of n) (hthis : n.child? "this" = some l) (hright : n.child? "expression" = some r)
    (hescape : n.child? "escape" = some e) (hlof : left.Of l) (hrof : right.Of r)
    (hl : Writes s l left.tokens) (hr : Writes s r right.tokens) (he : Writes s e escape.tokens) :
    Writes s n (Term.escaped p left right escape).tokens := by
  have hkind : Strength.ofKind n.kind = .comparison := by
    rw [hp.1]
    cases p.similar <;> rfl
  obtain ⟨text, htext, hspells⟩ := writes_binaryText hstyle hthis hright hl hr (spells_denied p hp)
  obtain ⟨last, hlast, hspellsLast⟩ := he
  have hpart : (target s n).part "escape" = pure last := by
    rw [Target.part, one?_target hescape]
    exact hlast
  rw [(wraps_comparison hkind l).1, (wraps_comparison hkind r).2, hlof.strength_eq, hrof.strength_eq] at hspells
  refine ⟨text ++ " " ++ ("ESCAPE" ++ " " ++ last), ?_, ?_⟩
  · have hblank : " ESCAPE " ++ last = " " ++ ("ESCAPE" ++ " " ++ last) := by
      rw [← String.append_assoc, ← String.append_assoc]
      rfl
    have hnonempty : last ≠ "" := hspellsLast.ne_empty
    rw [piece_text, render_pattern hp, Target.likeText, htext, hpart]
    simp only [pure_bind, preceded, beq_iff_eq, hnonempty, if_false, hblank, String.append_assoc]
  · have hall := hspells.spaced ((spells_keyword _ .escape).spaced hspellsLast)
    rw [List.append_assoc, List.append_assoc, List.singleton_append] at hall
    exact hall

/-- An operand is written with parentheses where its tree needs them. -/
theorem writes_operand (hstyle : s.style.MarksNames) {n c : Node} {key : String} {t : Term}
    (hchild : n.child? key = some c) (hof : t.Of c) (h : Writes s c t.tokens) (level : Strength) :
    ∃ text, (target s n).operand key level = pure text
      ∧ Spells s.style text.toList (Term.enclosed (t.strength.below level) t.tokens) := by
  obtain ⟨text, htext, hspells⟩ := h
  have hnode : (target s n).node = n := rfl
  refine ⟨_, ?_, spells_parenthesized hstyle (t.strength.below level) hspells⟩
  simp only [Target.operand, one?_target hchild, textOf, htext, hnode, hchild, Strength.ofNode, hof.strength_eq,
    pure_bind]

theorem Writes.constant {c : Constant} {n : Node} (h : c.Of n) : Writes s n [c.token] := by
  have hnode : (target s n).node = n := rfl
  cases c with
  | null =>
    refine ⟨"NULL", ?_, spells_keyword _ .null⟩
    simp only [piece_text, Target.render, hnode, show n.kind = _ from h]
  | boolean b =>
    cases b
    · refine ⟨"FALSE", ?_, spells_keyword _ .false⟩
      simp [piece_text, Target.render, hnode, h.1, h.2]
    · refine ⟨"TRUE", ?_, spells_keyword _ .true⟩
      simp [piece_text, Target.render, hnode, h.1, h.2]

theorem Writes.isConstant (hstyle : s.style.MarksNames) {n l r : Node} {c : Constant} {operand : Term}
    (hkind : n.kind = .is) (hthis : n.child? "this" = some l) (hright : n.child? "expression" = some r)
    (hof : operand.Of l) (hc : c.Of r) (hl : Writes s l operand.tokens) :
    Writes s n (Term.isConstant c (n.flag "negated") operand).tokens := by
  obtain ⟨left, hleft, hspells⟩ := writes_operand hstyle hthis hof hl .concat
  obtain ⟨right, hrighttext, hspellsRight⟩ := Writes.constant (s := s) hc
  have hnode : (target s n).node = n := rfl
  have hop : Spells s.style (if n.flag "negated" then "IS NOT" else "IS").toList
      (.keyword .is :: denial (n.flag "negated")) := by
    cases n.flag "negated"
    · exact spells_words .is []
    · exact spells_words .is [.not]
  refine ⟨left ++ " " ++ (if n.flag "negated" then "IS NOT" else "IS") ++ " " ++ right, ?_, ?_⟩
  · rw [piece_text, Target.render, hnode, hkind]
    simp only [Target.isText, hleft, one?_target hright, textOf, hrighttext, hnode, pure_bind]
  · have hall := (hspells.spaced hop).spaced hspellsRight
    simpa only [Term.tokens, Test.tokens, List.append_assoc, List.cons_append] using hall

theorem Writes.not (hstyle : s.style.MarksNames) {n c : Node} {operand : Term} (hkind : n.kind = .not)
    (hthis : n.child? "this" = some c) (hof : operand.Of c) (h : Writes s c operand.tokens) :
    Writes s n (Term.not operand).tokens := by
  obtain ⟨text, htext, hspells⟩ := writes_operand hstyle hthis hof h .concat
  have hnode : (target s n).node = n := rfl
  refine ⟨"NOT" ++ " " ++ text, ?_, (spells_keyword _ .not).spaced hspells⟩
  rw [piece_text, Target.render, hnode, hkind]
  simp only [htext, pure_bind]
  rfl

theorem Writes.neg (hstyle : s.style.MarksNames) {n c : Node} {operand : Term} (hkind : n.kind = .neg)
    (hthis : n.child? "this" = some c) (hof : operand.Of c) (h : Writes s c operand.tokens) :
    Writes s n (Term.neg operand).tokens := by
  obtain ⟨text, htext, hspells⟩ := writes_operand hstyle hthis hof h .atom
  have hnode : (target s n).node = n := rfl
  refine ⟨"-" ++ text, ?_, ?_⟩
  · rw [piece_text, Target.render, hnode, hkind]
    simp only [htext, pure_bind]
  · have hall := hspells.negated hstyle
    simpa [Term.tokens] using hall

/-! ## Lists -/

/-- A list that begins with a node is written as the tokens of the list. -/
theorem WritesAll.cons_spells (hstyle : s.style.MarksNames) {n : Node} {ns : List Node} {t : Term} {ts : List Term}
    (h : Writes s n t.tokens) (hs : WritesAll s ns ts) :
    ∃ text texts, (pieces s (n :: ns)).mapM (·.text) = pure (text :: texts)
      ∧ Spells s.style (String.intercalate ", " (text :: texts)).toList (Term.listTokens (t :: ts)) := by
  induction hs generalizing n t with
  | nil =>
    obtain ⟨text, htext, hspells⟩ := h
    refine ⟨text, [], by simp [pieces, htext], ?_⟩
    simpa [Term.listTokens, Term.furtherTokens] using hspells
  | cons hnext _ ih =>
    obtain ⟨text, htext, hspells⟩ := h
    obtain ⟨next, texts, htexts, hspellsAll⟩ := ih hnext
    refine ⟨text, next :: texts, ?_, ?_⟩
    · rw [pieces, List.mapM_cons, htext, htexts]
      simp
    · have hall := hspells.comma hstyle hspellsAll
      rw [String.intercalate_cons_cons]
      simpa [Term.listTokens, Term.furtherTokens] using hall

/-- The text of a list. -/
theorem list_target (hstyle : s.style.MarksNames) {n : Node} {ns : List Node} {ts : List Term}
    (hitems : ItemsUnder n ns) (h : WritesAll s ns ts) :
    ∃ text, (target s n).list = pure text ∧ Spells s.style text.toList (Term.listTokens ts) := by
  cases h with
  | nil =>
    refine ⟨"", ?_, spells_nil⟩
    rw [Target.list, joined, many_target hitems]
    simp [pieces]
  | cons hfirst hrest =>
    obtain ⟨text, texts, htexts, hspells⟩ := WritesAll.cons_spells hstyle hfirst hrest
    refine ⟨_, ?_, hspells⟩
    rw [Target.list, joined, many_target hitems, htexts, pure_bind]

theorem Writes.inList (hstyle : s.style.MarksNames) {n l : Node} {ns : List Node} {operand : Term}
    {items : List Term} (hkind : n.kind = .in) (hquery : Absent n "query") (hthis : n.child? "this" = some l)
    (hof : operand.Of l) (hl : Writes s l operand.tokens) (hitems : ItemsUnder n ns) (hall : WritesAll s ns items) :
    Writes s n (Term.inList (n.flag "negated") operand items).tokens := by
  obtain ⟨left, hleft, hspells⟩ := writes_operand hstyle hthis hof hl .concat
  obtain ⟨list, hlist, hspellsList⟩ := list_target hstyle hitems hall
  have hnode : (target s n).node = n := rfl
  have hop : Spells s.style ((target s n).denied "IN").toList (denial (n.flag "negated") ++ [.keyword .in]) := by
    unfold Target.denied
    rw [hnode]
    cases n.flag "negated"
    · exact spells_words .in []
    · exact spells_words .not [.in]
  have hvalues : Spells s.style ("(" ++ list ++ ")").toList
      (.symbol .opening :: (Term.listTokens items ++ [.symbol .closing])) := by
    simpa using hspellsList.enclosed hstyle
  refine ⟨left ++ " " ++ (target s n).denied "IN" ++ " " ++ ("(" ++ list ++ ")"), ?_, ?_⟩
  · rw [piece_text, Target.render, hnode, hkind]
    simp only [Target.inText, hleft, one?_absent hquery, hlist, pure_bind]
  · have hwhole := (hspells.spaced hop).spaced hvalues
    simpa only [Term.tokens, Test.tokens, List.append_assoc, List.cons_append, List.nil_append] using hwhole

/-- A call is written as its name before the list of its arguments. -/
theorem Writes.call (hstyle : s.style.MarksNames) {n : Node} {ns : List Node} {args : List Term}
    (hkind : n.kind = .call ∨ n.kind = .aggregate) (hword : isWord n.name.toList = true)
    (hother : Keyword.ofWord? n.name = none) (hitems : ItemsUnder n ns) (hall : WritesAll s ns args) :
    Writes s n (Term.call n.name (n.flag "distinct") args).tokens := by
  obtain ⟨list, hlist, hspells⟩ := list_target hstyle hitems hall
  have hnode : (target s n).node = n := rfl
  have hrender : (target s n).render = (target s n).callText n.name (n.flag "distinct") := by
    unfold Target.render
    rcases hkind with hk | hk <;> rw [hnode, hk]
  have hname : ∀ cs, s.style.tokens (n.name.toList ++ '(' :: cs)
      = (s.style.tokens cs).map fun ts => .name n.name :: .symbol .opening :: ts := by
    intro cs
    have hend : EndsName ('(' :: cs) := fun c hc => by
      cases hc
      decide
    rw [tokens_word hword hend, String.ofList_toList, Token.ofWord, hother, tokens_opening hstyle, Option.map_map]
    rfl
  have hargs : Spells s.style ((if n.flag "distinct" then "DISTINCT " else "") ++ list).toList
      ((if n.flag "distinct" then [.keyword .distinct] else []) ++ Term.listTokens args) := by
    cases n.flag "distinct"
    · simpa using hspells
    · have hall := (spells_keyword s.style .distinct).spaced hspells
      exact hall
  refine ⟨n.name ++ "(" ++ ((if n.flag "distinct" then "DISTINCT " else "") ++ list) ++ ")", ?_, fun rest _ => ?_⟩
  · rw [piece_text, hrender]
    simp only [Target.callText, hlist, pure_bind, String.append_assoc]
  · have hclosed := hargs (')' :: rest) (boundary_closing rest)
    rw [tokens_closing hstyle] at hclosed
    have htext : (n.name ++ "(" ++ ((if n.flag "distinct" then "DISTINCT " else "") ++ list) ++ ")").toList ++ rest
        = n.name.toList ++ '(' :: (((if n.flag "distinct" then "DISTINCT " else "") ++ list).toList ++ ')' :: rest) := by
      simp
    rw [htext, hname, hclosed, Option.map_map, Option.map_map]
    simp [Term.tokens, Function.comp_def]

end

/-! ## Whole trees -/

mutual

/-- The node of a well-formed tree is written as the tokens of the tree. -/
theorem writes {s : Setting} (hstyle : s.style.MarksNames) :
    ∀ (t : Term) (n : Node), t.Of n → t.WellFormed → Writes s n t.tokens
  | .column _ _, _, h, _ => Writes.column hstyle h
  | .text _, _, h, _ => Writes.text hstyle h
  | .number _, _, h, hw => Writes.number hstyle h hw
  | .call name distinct args, n, ⟨hkind, hname, hdistinct, ns, hitems, hargs⟩, ⟨hword, hother, hw⟩ => by
    subst hname hdistinct
    exact Writes.call hstyle hkind hword hother hitems (writesAll hstyle args ns hargs hw)
  | .operation op left right, n, ⟨hkind, ⟨l, hl, hlof⟩, r, hr, hrof⟩, ⟨_, hlw, hrw⟩ =>
    Writes.operation hstyle hkind hl hr hlof hrof (writes hstyle left l hlof hlw) (writes hstyle right r hrof hrw)
  | .compare c left right, n, ⟨hc, ⟨l, hl, hlof⟩, r, hr, hrof⟩, ⟨hlw, hrw⟩ =>
    Writes.compare hstyle hc hl hr hlof hrof (writes hstyle left l hlof hlw) (writes hstyle right r hrof hrw)
  | .escaped p left right escape, n, ⟨hp, ⟨l, hl, hlof⟩, ⟨r, hr, hrof⟩, e, he, heof⟩, ⟨_, hlw, hrw, hew⟩ =>
    Writes.escaped hstyle hp hl hr he hlof hrof (writes hstyle left l hlof hlw)
      (writes hstyle right r hrof hrw) (writes hstyle escape e heof hew)
  | .isConstant c negated operand, n, ⟨hkind, hnegated, ⟨l, hl, hlof⟩, r, hr, hc⟩, hw => by
    subst hnegated
    exact Writes.isConstant hstyle hkind hl hr hlof hc (writes hstyle operand l hlof hw)
  | .inList negated operand items, n, ⟨hkind, hnegated, hquery, ⟨l, hl, hlof⟩, ns, hitems, hof⟩, ⟨hw, hws⟩ => by
    subst hnegated
    exact Writes.inList hstyle hkind hquery hl hlof (writes hstyle operand l hlof hw) hitems
      (writesAll hstyle items ns hof hws)
  | .not operand, n, ⟨hkind, l, hl, hlof⟩, hw => Writes.not hstyle hkind hl hlof (writes hstyle operand l hlof hw)
  | .neg operand, n, ⟨hkind, l, hl, hlof⟩, hw => Writes.neg hstyle hkind hl hlof (writes hstyle operand l hlof hw)

/-- The nodes of well-formed trees are written as the tokens of the trees. -/
theorem writesAll {s : Setting} (hstyle : s.style.MarksNames) :
    ∀ (ts : List Term) (ns : List Node), Term.OfAll ts ns → Term.WellFormedAll ts → WritesAll s ns ts
  | [], _, h, _ => by
    subst h
    exact .nil
  | t :: ts, _, ⟨n, rest, hns, hof, hall⟩, ⟨hw, hws⟩ => by
    subst hns
    exact .cons (writes hstyle t n hof hw) (writesAll hstyle ts rest hall hws)

end

/-- All known dialects mark names in one of the two ways. -/
theorem marksNames_of_mem {d : Dialect} (h : d ∈ Dialect.all) : d.style.MarksNames := by
  simp only [Dialect.all, List.mem_cons, List.not_mem_nil, or_false] at h
  rcases h with rfl | rfl | rfl | rfl | rfl | rfl <;> first | exact Or.inl rfl | exact Or.inr rfl

/-- **Operator text** — a tree of operations is written without a notice as a text that the grammar
reads as the tree, with its chains of `OR`, of `AND` and of `||` nested to the left. -/
theorem read_run {s : Setting} (hstyle : s.style.MarksNames) {t : Term} {n : Node} (h : t.Of n)
    (hw : t.WellFormed) : ∃ text, run s n = (.ok text, []) ∧ read s.style text = some t.leftNested := by
  obtain ⟨text, htext, hspells⟩ := writes hstyle t n h hw
  refine ⟨text, ?_, ?_⟩
  · rw [run, render, htext]
    rfl
  · have htokens := hspells [] fun c hc => by cases hc
    have hread := (t.readsBack hw).alone [] fun c hc => by cases hc
    rw [tokens_nil, List.append_nil, Option.map_some, List.append_nil] at htokens
    rw [List.append_nil] at hread
    simp [read, htokens, hread]

/-- `a = b - (c - 2) AND x AND y` is read as a difference of a difference, with the conjunction nested
to the left. -/
theorem read_run_conjunction :
    let column (name : String) := Node.column name
    let binary (kind : Kind) (l r : Node) := Node.mk kind [("this", .node l), ("expression", .node r)]
    let difference := Term.operation .sub (.column none "b") (.operation .sub (.column none "c") (.number "2"))
    let test := Term.compare .eq (.column none "a") difference
    let t := Term.operation .and test (.operation .and (.column none "x") (.column none "y"))
    let n := binary .and (binary .eq (column "a") (binary .sub (column "b")
      (binary .sub (column "c") (.number "2")))) (binary .and (column "x") (column "y"))
    (Dialect.mysql.style.MarksNames ∧ t.Of n ∧ t.WellFormed)
      ∧ ∃ text, run (Dialect.mysql.setting {}) n = (.ok text, [])
        ∧ read Dialect.mysql.style text
          = some (.operation .and (.operation .and test (.column none "x")) (.column none "y")) := by
  intro column binary difference test t n
  have hcolumn : ∀ name, (Term.column none name).Of (column name) := fun name =>
    ⟨rfl, ⟨_, rfl, rfl, rfl⟩, by simp [Absent, column, Node.column, Node.kept]⟩
  have hof : t.Of n := by
    refine ⟨rfl, ⟨_, rfl, rfl, ⟨_, rfl, hcolumn "a"⟩, _, rfl, ?_⟩, _, rfl, rfl, ⟨_, rfl, hcolumn "x"⟩, _, rfl, hcolumn "y"⟩
    exact ⟨rfl, ⟨_, rfl, hcolumn "b"⟩, _, rfl, rfl, ⟨_, rfl, hcolumn "c"⟩, _, rfl, rfl, rfl, rfl⟩
  have hnumeral : IsNumeral "2".toList := ⟨rfl, ['2'], [], [], rfl, by simp [Digits], Or.inl rfl, Or.inl rfl⟩
  have hw : t.WellFormed :=
    ⟨by decide, ⟨trivial, by decide, trivial, by decide, trivial, hnumeral⟩, by decide, trivial, trivial⟩
  have hstyle : (Dialect.mysql.setting {}).style.MarksNames := Or.inr rfl
  exact ⟨⟨hstyle, hof, hw⟩, read_run hstyle hof hw⟩

end AlgebraSql.Render
