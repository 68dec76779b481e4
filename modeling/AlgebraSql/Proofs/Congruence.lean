import AlgebraSql.Proofs.Evaluation
import AlgebraSql.Proofs.PlanCheck
import AlgebraSql.Proofs.Run

/-!
# Congruence — one expression in two contexts.

An expression that is converted in two contexts gives two nodes that differ only in the nodes of its
fields: the conversion builds operations around them and hardly ever looks at them.  So every relation
between nodes that operations keep holds between the two, if it holds between the fields.  That the
values of two nodes agree is such a relation.
-/

namespace AlgebraSql

open Sql Node

/-! ## Relations that operations keep -/

/-- Arguments whose nodes are related, and which are the same otherwise. -/
inductive ArgRel (R : Node → Node → Prop) : Arg → Arg → Prop
  | node {m n : Node} (h : R m n) : ArgRel R (.node m) (.node n)
  | nodes {ms ns : List Node} (h : List.Forall₂ R ms ns) : ArgRel R (.nodes ms) (.nodes ns)
  | same (a : Arg) (h : a.children = []) : ArgRel R a a

/-- Related arguments under the same names. -/
abbrev ArgsRel (R : Node → Node → Prop) : Args → Args → Prop :=
  List.Forall₂ fun p q => p.1 = q.1 ∧ ArgRel R p.2 q.2

theorem bare_eq {R : Node → Node → Prop} {k : Kind} {as bs : Args} (h : ArgsRel R as bs) :
    (Node.mk k as).bare = (Node.mk k bs).bare := by
  have hargs : as.map (fun p => (p.1, p.2.bare)) = bs.map fun p => (p.1, p.2.bare) := by
    induction h with
    | nil => rfl
    | @cons p q as bs hpq _ ih =>
      obtain ⟨key, a⟩ := p
      obtain ⟨key', b⟩ := q
      obtain ⟨rfl, hab⟩ : key = key' ∧ ArgRel R a b := hpq
      have hbare : a.bare = b.bare := by
        cases hab with
        | node _ => rfl
        | nodes hs =>
          have hlength := hs.length_eq
          simp [Arg.bare, List.map_const', hlength]
        | same a _ => rfl
      simp only [List.map_cons, hbare, ih]
  simp only [Node.bare, kind_mk, args_mk, hargs]

/-- The children of nodes with related arguments are related. -/
theorem children_rel {R : Node → Node → Prop} {as bs : Args} (h : ArgsRel R as bs) {k : Kind} :
    List.Forall₂ R (Node.mk k as).children (Node.mk k bs).children := by
  simp only [children, args_mk]
  induction h with
  | nil => exact .nil
  | @cons p q as bs hpq _ ih =>
    simp only [List.flatMap_cons]
    refine List.rel_append ?_ ih
    obtain ⟨-, hab⟩ := hpq
    generalize p.2 = a at hab
    generalize q.2 = b at hab
    cases hab with
    | node h => exact .cons h .nil
    | nodes hs => exact hs
    | same a h => rw [h]; exact .nil

/-- **`Congruent`** — operations on related operands are related. -/
structure Congruent (R : Node → Node → Prop) : Prop where
  args : ∀ {k : Kind} {as bs : Args}, (Node.mk k as).manner = .operation → ArgsRel R as bs →
    R (.mk k as) (.mk k bs)

namespace Congruent

variable {R : Node → Node → Prop} (hR : Congruent R)

include hR

/-! ## Nodes -/

/-- A node without children is related to itself. -/
theorem leaf {k : Kind} {as : Args} (hk : (Node.mk k as).manner = .operation)
    (h : ∀ p ∈ as, p.2.children = []) : R (.mk k as) (.mk k as) :=
  hR.args hk (List.forall₂_same.mpr fun p hp => ⟨rfl, .same _ (h p hp)⟩)

theorem null : R Node.null Node.null := hR.leaf rfl (by simp)

theorem string (s : String) : R (Node.string s) (Node.string s) := hR.leaf rfl (by simp [Arg.children])

theorem number (s : String) : R (Node.number s) (Node.number s) := hR.leaf rfl (by simp [Arg.children])

theorem boolean (b : Bool) : R (Node.boolean b) (Node.boolean b) :=
  hR.leaf rfl (by simp [Arg.children])

theorem identifier (s : String) (quoted : Bool) :
    R (Node.identifier s quoted) (Node.identifier s quoted) := hR.leaf rfl (by simp [Arg.children])

theorem word (s : String) : R (Node.word s) (Node.word s) := hR.leaf rfl (by simp [Arg.children])

/-- A node around a related one. -/
theorem wrap {k : Kind} (hk : ∀ n, (Node.wrap k n).manner = .operation) {m n : Node} (h : R m n) :
    R (Node.wrap k m) (Node.wrap k n) := hR.args (hk m) (.cons ⟨rfl, .node h⟩ .nil)

theorem not {m n : Node} (h : R m n) : R (Node.not m) (Node.not n) := hR.wrap (fun _ => rfl) h

theorem binary {k : Kind} (hk : ∀ l r, (Node.binary k l r).manner = .operation) {l l' r r' : Node}
    (hl : R l l') (hr : R r r') : R (Node.binary k l r) (Node.binary k l' r') :=
  hR.args (hk l r) (.cons ⟨rfl, .node hl⟩ (.cons ⟨rfl, .node hr⟩ .nil))

theorem connect {k : Kind} {unit : Node} (hk : ∀ l r, (Node.binary k l r).manner = .operation)
    (hunit : R unit unit) {ms ns : List Node} (h : List.Forall₂ R ms ns) :
    R (Node.connect k unit ms) (Node.connect k unit ns) := by
  have hfold : ∀ {ms ns : List Node}, List.Forall₂ R ms ns → ∀ {m n : Node}, R m n →
      R (ms.foldl (Node.binary k) m) (ns.foldl (Node.binary k) n) := by
    intro ms ns h
    induction h with
    | nil => exact fun hmn => hmn
    | cons hab _ ih => exact fun hmn => ih (hR.binary hk hmn hab)
  cases h with
  | nil => exact hunit
  | cons hab hrest => exact hfold hrest hab

theorem and {ms ns : List Node} (h : List.Forall₂ R ms ns) : R (Node.and ms) (Node.and ns) :=
  hR.connect (fun _ _ => rfl) (hR.boolean true) h

theorem or {ms ns : List Node} (h : List.Forall₂ R ms ns) : R (Node.or ms) (Node.or ns) :=
  hR.connect (fun _ _ => rfl) (hR.boolean false) h

theorem isTest {l l' r r' : Node} (negated : Bool) (hl : R l l') (hr : R r r') :
    R (Node.isTest l r negated) (Node.isTest l' r' negated) :=
  hR.args rfl (.cons ⟨rfl, .node hl⟩ (.cons ⟨rfl, .node hr⟩ (.cons ⟨rfl, .same _ rfl⟩ .nil)))

theorem isNull {m n : Node} (h : R m n) : R (Node.isNull m) (Node.isNull n) :=
  hR.args rfl (.cons ⟨rfl, .node h⟩ (.cons ⟨rfl, .node hR.null⟩ .nil))

theorem inList {m n : Node} {ms ns : List Node} (negated : Bool) (h : R m n)
    (hs : List.Forall₂ R ms ns) : R (Node.inList m ms negated) (Node.inList n ns negated) :=
  hR.args rfl (.cons ⟨rfl, .node h⟩ (.cons ⟨rfl, .nodes hs⟩ (.cons ⟨rfl, .same _ rfl⟩ .nil)))

theorem call (s : String) {ms ns : List Node} (h : List.Forall₂ R ms ns) :
    R (Node.call s ms) (Node.call s ns) :=
  hR.args rfl (.cons ⟨rfl, .same _ rfl⟩ (.cons ⟨rfl, .nodes h⟩ .nil))

theorem tuple {ms ns : List Node} (h : List.Forall₂ R ms ns) : R (Node.tuple ms) (Node.tuple ns) :=
  hR.args rfl (.cons ⟨rfl, .nodes h⟩ .nil)

theorem branch {l l' r r' : Node} (hl : R l l') (hr : R r r') :
    R (Node.branch l r) (Node.branch l' r') :=
  hR.args rfl (.cons ⟨rfl, .node hl⟩ (.cons ⟨rfl, .node hr⟩ .nil))

theorem dot {m n : Node} (s : String) (h : R m n) : R (Node.dot m s) (Node.dot n s) :=
  hR.args rfl (.cons ⟨rfl, .node h⟩ (.cons ⟨rfl, .node (hR.identifier s false)⟩ .nil))

theorem dataType (s : String) (params : List String) :
    R (Node.dataType s params) (Node.dataType s params) := by
  refine hR.args rfl (.cons ⟨rfl, .same _ rfl⟩ (.cons ⟨rfl, .nodes ?_⟩ .nil))
  exact List.forall₂_same.mpr fun n hn => by
    obtain ⟨s, -, rfl⟩ := List.mem_map.mp hn
    exact hR.number s

theorem castNode (d : Dialect) (type : DataType) {m n : Node} (h : R m n) :
    R (d.castNode m type) (d.castNode n type) := by
  have htype : R (d.typeSpec type) (d.typeSpec type) := by
    unfold Dialect.typeSpec
    split <;> exact hR.dataType _ _
  exact hR.args rfl (.cons ⟨rfl, .node h⟩ (.cons ⟨rfl, .node htype⟩ .nil))

omit hR in
/-- Arguments that may be missing. -/
theorem optional {key : String} {m n : Option Node} (h : Option.Rel R m n) :
    ArgsRel R (Node.optional key m) (Node.optional key n) := by
  cases h with
  | none => exact .nil
  | some h => exact .cons ⟨rfl, .node h⟩ .nil

omit hR in
theorem rel_head? {ms ns : List Node} (h : List.Forall₂ R ms ns) : Option.Rel R ms.head? ns.head? := by
  cases h with
  | nil => exact .none
  | cons hab _ => exact .some hab

omit hR in
theorem rel_getLast? {ms ns : List Node} (h : List.Forall₂ R ms ns) :
    Option.Rel R ms.getLast? ns.getLast? := by
  rw [← List.head?_reverse, ← List.head?_reverse]
  exact rel_head? (List.forall₂_reverse_iff.mpr h)

/-! ## Calls -/

theorem branches {ms ns : List Node} (h : List.Forall₂ R ms ns) :
    List.Forall₂ R (Convert.branches ms) (Convert.branches ns) := by
  induction ms using Convert.branches.induct generalizing ns with
  | case1 condition value rest ih =>
    obtain _ | ⟨hc, _ | ⟨hv, hrest⟩⟩ := h
    exact .cons (hR.branch hc hv) (ih hrest)
  | case2 ms hshort =>
    obtain _ | ⟨hc, _ | ⟨hv, hrest⟩⟩ := h
    · exact .nil
    · exact .nil
    · exact absurd rfl (hshort _ _ _)

theorem caseNode {ms ns : List Node} (h : List.Forall₂ R ms ns) :
    R (Convert.caseNode ms) (Convert.caseNode ns) := by
  have hinner : List.Forall₂ R ms.dropLast ns.dropLast := by
    rw [List.dropLast_eq_take, List.dropLast_eq_take, h.length_eq]
    exact List.forall₂_take _ h
  have hpairs : List.Forall₂ R (ms.dropLast.drop 1) (ns.dropLast.drop 1) :=
    List.forall₂_drop 1 hinner
  have hsplit : ∀ {subject subject' : Option Node} {pairs pairs' : List Node},
      Option.Rel R subject subject' → List.Forall₂ R pairs pairs' →
      R (.mk .case (Node.optional "this" subject ++ [("ifs", .nodes (Convert.branches pairs))]
          ++ Node.optional "default" ms.getLast?))
        (.mk .case (Node.optional "this" subject' ++ [("ifs", .nodes (Convert.branches pairs'))]
          ++ Node.optional "default" ns.getLast?)) := by
    intro subject subject' pairs pairs' hs hp
    refine hR.args rfl (List.rel_append (List.rel_append (optional hs) ?_)
      (optional (rel_getLast? h)))
    exact .cons ⟨rfl, .nodes (hR.branches hp)⟩ .nil
  unfold Convert.caseNode
  rw [h.length_eq]
  split
  · exact hsplit (rel_head? hinner) hpairs
  · exact hsplit .none hinner

theorem negatable {k : Kind} (hk : ∀ as, (Node.mk k as).manner = .operation) {m n : Node}
    {ms ns : List Node} (negated escape : Bool) (h : R m n) (hs : List.Forall₂ R ms ns) :
    R (Convert.negatable k m ms negated escape) (Convert.negatable k n ns negated escape) := by
  refine hR.args (hk _) (List.rel_append (List.rel_append (List.rel_append ?_ ?_) ?_) ?_)
  · exact .cons ⟨rfl, .node h⟩ .nil
  · exact optional (rel_head? hs)
  · cases escape with
    | true => exact optional (rel_head? (List.forall₂_drop 1 hs))
    | false => exact .nil
  · exact .cons ⟨rfl, .same _ rfl⟩ .nil

/-- A call of an operator that is no aggregate function. -/
theorem operationNode {op : Operator} (hop : (op.form == .function && op.isAggregate) = false)
    {ms ns : List Node} (h : List.Forall₂ R ms ns) {m : Node} (hm : Convert.operationNode op ms = .ok m) :
    ∃ n, Convert.operationNode op ns = .ok n ∧ R m n := by
  unfold Convert.operationNode at hm ⊢
  split at hm
  · rename_i hform
    have haggregate : op.isAggregate = false := by simpa [hform] using hop
    simp only [hform, haggregate, if_true, Bool.false_eq_true, if_false, Except.ok.injEq] at hm ⊢
    subst hm
    exact ⟨_, rfl, hR.call _ h⟩
  · rename_i hform
    rw [if_neg hform]
    split at hm
    · rename_i k hk
      unfold Convert.binaryNode at hm
      split at hm
      · cases hm
        obtain _ | ⟨hl, _ | ⟨hr, _ | _⟩⟩ := h
        refine ⟨_, by simp [hk, Convert.binaryNode], hR.binary (fun _ _ => ?_) hl hr⟩
        unfold Convert.binaryKind? at hk
        split at hk <;> cases hk <;> rfl
      · cases hm
    · cases hm
    · rename_i first rest hk
      obtain _ | ⟨hfirst, hrest⟩ := h
      simp only [hk]
      unfold Convert.specialNode at hm ⊢
      split at hm <;> cases hm <;> refine ⟨_, rfl, ?_⟩
      · exact hR.and (.cons hfirst hrest)
      · exact hR.or (.cons hfirst hrest)
      · exact hR.not hfirst
      · exact hR.wrap (fun _ => rfl) hfirst
      · exact hR.isTest _ hfirst hR.null
      · exact hR.isTest _ hfirst hR.null
      · exact hR.isTest _ hfirst (hR.boolean _)
      · exact hR.isTest _ hfirst (hR.boolean _)
      · exact hR.isTest _ hfirst (hR.boolean _)
      · exact hR.isTest _ hfirst (hR.boolean _)
      · exact hR.negatable (fun _ => rfl) _ _ hfirst hrest
      · exact hR.negatable (fun _ => rfl) _ _ hfirst hrest
      · exact hR.negatable (fun _ => rfl) _ _ hfirst hrest
      · exact hR.negatable (fun _ => rfl) _ _ hfirst hrest
      · exact hR.inList _ hfirst hrest
      · exact hR.inList _ hfirst hrest
      · exact hR.args rfl (.cons ⟨rfl, .node hfirst⟩ (.cons ⟨rfl, .nodes hrest⟩ .nil))
      · exact hR.call _ (.cons hfirst hrest)

/-! ## Denial -/

/-- Two tests that may be denied in place, or none of the two. -/
structure Deniable (R : Node → Node → Prop) (m n : Node) : Prop where
  kind : m.kind = n.kind
  flipped : Convert.isDeniable m.kind = true → R (Convert.flipped m) (Convert.flipped n)

omit hR in
theorem rel_get? {as bs : Args} (h : ArgsRel R as bs) (key : String) :
    Option.Rel (ArgRel R) (as.get? key) (bs.get? key) := by
  induction h with
  | nil => exact .none
  | @cons p q as bs hpq _ ih =>
    obtain ⟨k, a⟩ := p
    obtain ⟨k', b⟩ := q
    obtain ⟨rfl, hab⟩ : k = k' ∧ ArgRel R a b := hpq
    simp only [OrderedMap.get?_cons]
    split
    · exact .some hab
    · exact ih

omit hR in
theorem rel_put {as bs : Args} (h : ArgsRel R as bs) (key : String) {a b : Arg} (hab : ArgRel R a b) :
    ArgsRel R (OrderedMap.put as key a) (OrderedMap.put bs key b) := by
  induction h with
  | nil => exact .cons ⟨rfl, hab⟩ .nil
  | @cons p q as bs hpq hrest ih =>
    obtain ⟨k, c⟩ := p
    obtain ⟨k', d⟩ := q
    obtain ⟨rfl, hcd⟩ : k = k' ∧ ArgRel R c d := hpq
    simp only [OrderedMap.put]
    split
    · exact .cons ⟨rfl, hab⟩ hrest
    · exact .cons ⟨rfl, hcd⟩ ih

omit hR in
/-- Related arguments hold the same truth values. -/
theorem flag_eq {k k' : Kind} {as bs : Args} (h : ArgsRel R as bs) (key : String) :
    (Node.mk k as).flag key = (Node.mk k' bs).flag key := by
  have hrel := rel_get? h key
  unfold Node.flag
  rw [Node.arg?_mk, Node.arg?_mk]
  generalize as.get? key = a at hrel
  generalize bs.get? key = b at hrel
  cases hrel with
  | none => rfl
  | some hab =>
    cases hab with
    | node _ => rfl
    | nodes _ => rfl
    | same a _ => rfl

/-- Tests with related arguments stay related when they are denied. -/
theorem flipped {k : Kind} {as bs : Args} (hk : ∀ cs : Args, cs.get? "query" = as.get? "query" →
    (Node.mk k cs).manner = .operation) (h : ArgsRel R as bs) :
    R (Convert.flipped (.mk k as)) (Convert.flipped (.mk k bs)) := by
  unfold Convert.flipped
  rw [flag_eq h "negated"]
  refine hR.args (hk _ ?_) (rel_put h "negated" (.same _ rfl))
  exact OrderedMap.get?_put_of_ne _ _ (by decide)

/-- The denial of related nodes, which differ in whether they can be denied in place only where the
operator that they come from does not let them be. -/
theorem deny {source : Option OperatorKind} {m n : Node} (h : R m n)
    (hdeniable : ∀ kind, source = some kind → kind ∈ [.in, .notIn, .like, .similar] →
      Deniable R m n) : R (Convert.deny source m) (Convert.deny source n) := by
  unfold Convert.deny
  split
  all_goals first
    | rename_i hplain
      simpa using hR.not h
    | (obtain ⟨hkind, hflipped⟩ := hdeniable _ rfl (by simp)
       simp only [← hkind]
       split
       · rename_i hk
         exact hflipped hk
       · exact hR.not h)

/-- A call that may be denied in place is a test with the operands as arguments. -/
theorem operationNode_deniable {op : Operator} (hop : op.kind ∈ [.in, .notIn, .like, .similar])
    {ms ns : List Node} (h : List.Forall₂ R ms ns) {m n : Node} (hm : Convert.operationNode op ms = .ok m)
    (hn : Convert.operationNode op ns = .ok n) : Deniable R m n := by
  unfold Convert.operationNode at hm hn
  by_cases hform : (op.form == .function) = true
  · rw [if_pos hform, Except.ok.injEq] at hm hn
    subst hm hn
    refine ⟨by split <;> rfl, fun hk => ?_⟩
    split at hk <;> cases hk
  rw [if_neg hform] at hm hn
  have hbinary : Convert.binaryKind? op.kind = none := by
    simp only [List.mem_cons, List.not_mem_nil, or_false] at hop
    rcases hop with hkind | hkind | hkind | hkind <;> rw [hkind] <;> rfl
  simp only [hbinary] at hm hn
  cases h with
  | nil => cases hm
  | @cons first first' rest rest' hfirst hrest =>
    have hnegatable : ∀ (k : Kind) (negated escape : Bool), (∀ as, (Node.mk k as).manner = .operation) →
        Deniable R (Convert.negatable k first rest negated escape)
          (Convert.negatable k first' rest' negated escape) := by
      intro k negated escape hk
      refine ⟨rfl, fun _ => hR.flipped (fun cs _ => hk cs) ?_⟩
      refine List.rel_append (List.rel_append (List.rel_append ?_ ?_) ?_) ?_
      · exact .cons ⟨rfl, .node hfirst⟩ .nil
      · exact optional (rel_head? hrest)
      · cases escape with
        | true => exact optional (rel_head? (List.forall₂_drop 1 hrest))
        | false => exact .nil
      · exact .cons ⟨rfl, .same _ rfl⟩ .nil
    have hlist : ∀ negated : Bool, Deniable R (Node.inList first rest negated)
        (Node.inList first' rest' negated) := by
      intro negated
      refine ⟨rfl, fun _ => hR.flipped (fun cs hcs => ?_) ?_⟩
      · have hquery : cs.get? "query" = none := by simpa [OrderedMap.get?] using hcs
        simp [Node.manner, hquery]
      · exact .cons ⟨rfl, .node hfirst⟩ (.cons ⟨rfl, .nodes hrest⟩ (.cons ⟨rfl, .same _ rfl⟩ .nil))
    simp only [Convert.specialNode, List.mem_cons, List.not_mem_nil, or_false] at hm hn hop
    rcases hop with hkind | hkind | hkind | hkind <;> simp only [hkind, Except.ok.injEq] at hm hn <;>
      subst hm hn
    · exact hlist _
    · exact hlist _
    · exact hnegatable _ _ _ fun _ => rfl
    · exact hnegatable _ _ _ fun _ => rfl

end Congruent

end AlgebraSql
