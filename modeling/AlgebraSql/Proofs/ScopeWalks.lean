import AlgebraSql.Proofs.StrippedAliases

/-!
# Scope walks — a walk visits every place of a scope once, and the order of the walk is an order of places.

A place says which child to go to, node by node, so a node that occurs twice in a tree has two places.  A place is in
the scope of a node if no query lies between the two.  A walk keeps the occurrences that are still to be visited.  In
each turn these and the visited ones stand in order, depth first or level by level; none of the pending ones lies
below another; and whatever is in the scope is visited or lies below a pending one.  Once nothing is pending, the
whole scope has been visited.
-/

namespace AlgebraSql.Sql.Node

/-! ## Places -/

/-- A place below a node: the numbers of the children to go to, one after the other. -/
abbrev Place := List Nat

/-- The node at a place. -/
def nodeAt? : Node → Place → Option Node
  | n, [] => some n
  | n, i :: p => n.children[i]?.bind fun c => c.nodeAt? p

/-- **`Encloses`** — the node is a query or stands around one, so what is below it is another scope. -/
def Encloses (n : Node) : Prop := ∃ k ∈ [Kind.subquery, .select, .setOperation, .values], n.isA k = true

/-- **`InScope`** — a place in the scope of a node: no node between the two encloses another scope. -/
def InScope (n : Node) (p : Place) : Prop :=
  (n.nodeAt? p).isSome = true ∧ ∀ q b, q ≠ [] → q <+: p → q ≠ p → n.nodeAt? q = some b → ¬b.Encloses

/-- **`before`** — one place is visited before another: depth first, a node comes before what is below it, and that
before what is further to the right; in breadth, the upper level comes first, and each level goes from left to right. -/
def WalkOrder.before : WalkOrder → Place → Place → Prop
  | .depthFirst, p, q => List.Lex (· < ·) p q
  | .breadthFirst, p, q => p.length < q.length ∨ p.length = q.length ∧ List.Lex (· < ·) p q

theorem isScopeBoundary_iff {n : Node} : isScopeBoundary n = true ↔ n.Encloses := by
  unfold isScopeBoundary Encloses isQuery Node.is isA
  cases n.kind <;> decide

theorem nodeAt?_append (n : Node) (p q : Place) : n.nodeAt? (p ++ q) = (n.nodeAt? p).bind (·.nodeAt? q) := by
  induction p generalizing n with
  | nil => rfl
  | cons i p ih => simp only [List.cons_append, nodeAt?, Option.bind_assoc, ih]

/-- The node at a place one further down. -/
theorem nodeAt?_child {n m : Node} {p : Place} (h : n.nodeAt? p = some m) (i : Nat) :
    n.nodeAt? (p ++ [i]) = m.children[i]? := by
  rw [nodeAt?_append, h]
  show (m.children[i]?.bind fun c => some c) = _
  exact Option.bind_fun_some _

/-- A place that is in the scope, and the ones next to it: they are in the scope too unless another one begins there. -/
theorem InScope.child {n m c : Node} {p : Place} (h : n.InScope p) (hm : n.nodeAt? p = some m)
    (hopen : p = [] ∨ ¬m.Encloses) {i : Nat} (hc : m.children[i]? = some c) : n.InScope (p ++ [i]) := by
  refine ⟨by rw [nodeAt?_child hm, hc]; rfl, ?_⟩
  intro q b hq hunder hne hb
  rcases List.prefix_concat_iff.mp hunder with rfl | hshort
  · exact absurd rfl hne
  · by_cases hqp : q = p
    · subst hqp
      rw [hm, Option.some.injEq] at hb
      exact hb ▸ hopen.resolve_left hq
    · exact h.2 q b hq hshort hqp hb

/-- Below a place, what is in the scope is reached through a child. -/
theorem InScope.through {n m : Node} {p t : Place} {i : Nat} (h : n.InScope (p ++ i :: t))
    (hm : n.nodeAt? p = some m) : (p = [] ∨ ¬m.Encloses) ∧ ∃ c, m.children[i]? = some c := by
  have hproper : p ≠ p ++ i :: t := by simp
  constructor
  · by_cases hp : p = []
    · exact .inl hp
    · exact .inr (h.2 p m hp (List.prefix_append p _) hproper hm)
  · have hsome := h.1
    rw [nodeAt?_append, hm] at hsome
    show ∃ c, m.children[i]? = some c
    cases hc : m.children[i]? with
    | some c => exact ⟨c, rfl⟩
    | none => simp [nodeAt?, hc] at hsome

/-! ## The order of places -/

/-- What is below a place comes before all that comes after the place and is not below it. -/
theorem lex_append {p q : Place} (h : List.Lex (· < ·) p q) (hp : ¬p <+: q) (t : Place) :
    List.Lex (· < ·) (p ++ t) q := by
  induction h with
  | nil => exact absurd List.nil_prefix hp
  | cons _ ih => exact .cons (ih fun hunder => hp (List.cons_prefix_cons.mpr ⟨rfl, hunder⟩))
  | rel hlt => exact .rel hlt

theorem lex_below (p : Place) (i : Nat) (t : Place) : List.Lex (· < ·) p (p ++ i :: t) := by
  induction p with
  | nil => exact .nil
  | cons j p ih => exact .cons ih

theorem lex_siblings (p : Place) {i j : Nat} (h : i < j) : List.Lex (· < ·) (p ++ [i]) (p ++ [j]) := by
  induction p with
  | nil => exact .rel h
  | cons k p ih => exact .cons ih

namespace WalkOrder

variable {order : WalkOrder} {p q r : Place}

theorem not_before_self : ¬order.before p p := by
  have hlex : ¬List.Lex (· < ·) p p := List.lex_irrefl (fun _ => Nat.lt_irrefl _) p
  cases order with
  | depthFirst => exact hlex
  | breadthFirst => rintro (h | ⟨-, h⟩) <;> [exact Nat.lt_irrefl _ h; exact hlex h]

theorem before_trans (hpq : order.before p q) (hqr : order.before q r) : order.before p r := by
  cases order with
  | depthFirst => exact List.lex_trans Nat.lt_trans hpq hqr
  | breadthFirst =>
    rcases hpq with hpq | ⟨hlen, hpq⟩ <;> rcases hqr with hqr | ⟨hlen', hqr⟩
    · exact .inl (by omega)
    · exact .inl (by omega)
    · exact .inl (by omega)
    · exact .inr ⟨by omega, List.lex_trans Nat.lt_trans hpq hqr⟩

theorem before_child (p : Place) (i : Nat) : order.before p (p ++ [i]) := by
  cases order with
  | depthFirst => exact lex_below p i []
  | breadthFirst => exact .inl (by simp)

theorem before_siblings (p : Place) {i j : Nat} (h : i < j) : order.before (p ++ [i]) (p ++ [j]) := by
  cases order with
  | depthFirst => exact lex_siblings p h
  | breadthFirst => exact .inr ⟨by simp, lex_siblings p h⟩

/-- Level by level, children come in the order of their parents. -/
theorem before_cousins (h : breadthFirst.before p q) (i j : Nat) : breadthFirst.before (p ++ [i]) (q ++ [j]) := by
  rcases h with h | ⟨hlen, h⟩
  · exact .inl (by simpa using h)
  · -- places of one length that differ do so before the last step is taken
    have hunder : ¬p <+: q := fun hunder => by
      rw [hunder.eq_of_length hlen] at h
      exact List.lex_irrefl (fun _ => Nat.lt_irrefl _) q h
    exact .inr ⟨by simp [hlen], List.lex_trans Nat.lt_trans (lex_append h hunder [i]) (lex_below q j [])⟩

end WalkOrder

/-! ## Turns of a walk -/

/-- A node at a place. -/
structure Occurrence where
  place : Place
  node : Node

/-- Where a walk goes on from an occurrence: to the children, unless another scope begins there.  Whether the start
begins one does not matter. -/
def Occurrence.next (o : Occurrence) : List Occurrence :=
  if o.place ≠ [] ∧ isScopeBoundary o.node = true then []
  else o.node.children.mapIdx fun i c => ⟨o.place ++ [i], c⟩

/-- How far a walk has come. -/
structure Progress where
  visited : List Occurrence
  pending : List Occurrence

namespace Progress

/-- One turn of a walk: the first pending occurrence is visited, and its children become pending, in front of the
others or behind them. -/
def turn (order : WalkOrder) : Progress → Progress
  | ⟨visited, []⟩ => ⟨visited, []⟩
  | ⟨visited, o :: pending⟩ =>
    ⟨visited ++ [o], match order with
      | .depthFirst => o.next ++ pending
      | .breadthFirst => pending ++ o.next⟩

def turns (order : WalkOrder) : Nat → Progress → Progress
  | 0, s => s
  | k + 1, s => turns order k (s.turn order)

/-- A walk at its start. -/
def start (n : Node) : Progress := ⟨[], [⟨[], n⟩]⟩

theorem mem_next {o x : Occurrence} :
    x ∈ o.next ↔ (o.place = [] ∨ ¬o.node.Encloses)
      ∧ ∃ i c, o.node.children[i]? = some c ∧ x = ⟨o.place ++ [i], c⟩ := by
  unfold Occurrence.next
  rw [← isScopeBoundary_iff]
  split
  · next h => simp [h.1, h.2]
  · next h =>
    have hopen : o.place = [] ∨ ¬isScopeBoundary o.node = true := by tauto
    simp only [hopen, true_and, List.mem_mapIdx, List.getElem?_eq_some_iff]
    constructor
    · rintro ⟨i, hi, rfl⟩
      exact ⟨i, _, ⟨hi, rfl⟩, rfl⟩
    · rintro ⟨i, c, ⟨hi, rfl⟩, rfl⟩
      exact ⟨i, hi, rfl⟩

/-- What a walk knows of the scope of a node after each of its turns. -/
structure Inv (order : WalkOrder) (n : Node) (s : Progress) : Prop where
  /-- All occurrences are such, and in the scope. -/
  placed : ∀ o ∈ s.visited ++ s.pending, n.nodeAt? o.place = some o.node ∧ n.InScope o.place
  /-- The visited ones and the pending ones stand in the order of the walk. -/
  ordered : (s.visited ++ s.pending).Pairwise fun a b => order.before a.place b.place
  /-- No pending one is below another. -/
  apart : s.pending.Pairwise fun a b => ¬a.place <+: b.place ∧ ¬b.place <+: a.place
  /-- A pending one is the start or below one that was visited. -/
  grown : ∀ o ∈ s.pending, o.place = [] ∨ ∃ v ∈ s.visited, ∃ i, o.place = v.place ++ [i]
  /-- Whatever is in the scope was visited or is still to be met. -/
  covered : ∀ p, n.InScope p → (∃ v ∈ s.visited, v.place = p) ∨ ∃ o ∈ s.pending, o.place <+: p

theorem inv_start (order : WalkOrder) (n : Node) : Inv order n (start n) where
  placed := by
    have hscope : n.InScope [] := ⟨rfl, fun q b hq hunder => absurd (List.prefix_nil.mp hunder) hq⟩
    simpa [start, nodeAt?] using hscope
  ordered := by simp [start]
  apart := by simp [start]
  grown := by simp [start]
  covered := fun p _ => .inr ⟨_, List.mem_singleton.mpr rfl, List.nil_prefix⟩

variable {order : WalkOrder} {n : Node} {visited pending : List Occurrence} {o : Occurrence}

theorem mem_turn_pending {x : Occurrence} :
    x ∈ (turn order ⟨visited, o :: pending⟩).pending ↔ x ∈ o.next ∨ x ∈ pending := by
  cases order <;> simp [turn, or_comm]

/-- Siblings stand in the order of the walk, and none is below another. -/
theorem pairwise_next (order : WalkOrder) (o : Occurrence) :
    (o.next.Pairwise fun a b => order.before a.place b.place)
      ∧ o.next.Pairwise fun a b => ¬a.place <+: b.place ∧ ¬b.place <+: a.place := by
  unfold Occurrence.next
  split
  · simp
  · simp only [List.pairwise_iff_getElem, List.getElem_mapIdx]
    refine ⟨fun i j _ _ hij => WalkOrder.before_siblings o.place hij, fun i j _ _ hij => ?_⟩
    have hne : o.place ++ [i] ≠ o.place ++ [j] := by simpa using Nat.ne_of_lt hij
    exact ⟨fun h => hne (h.eq_of_length (by simp)), fun h => hne (h.eq_of_length (by simp)).symm⟩

/-- The children of the first pending occurrence come behind everything that is visited by then. -/
theorem Inv.before_next (h : Inv order n ⟨visited, o :: pending⟩) {v x : Occurrence} (hv : v ∈ visited ++ [o])
    (hx : x ∈ o.next) : order.before v.place x.place := by
  obtain ⟨-, i, c, -, rfl⟩ := mem_next.mp hx
  rcases List.mem_append.mp hv with hv | hv
  · have hvo := (List.pairwise_append.mp h.ordered).2.2 v hv o (by simp)
    exact WalkOrder.before_trans hvo (WalkOrder.before_child o.place i)
  · obtain rfl := List.mem_singleton.mp hv
    exact WalkOrder.before_child v.place i

/-- They and the other pending ones are not below each other. -/
theorem Inv.apart_next (h : Inv order n ⟨visited, o :: pending⟩) {x y : Occurrence} (hx : x ∈ o.next)
    (hy : y ∈ pending) : ¬x.place <+: y.place ∧ ¬y.place <+: x.place := by
  obtain ⟨-, i, c, -, rfl⟩ := mem_next.mp hx
  obtain ⟨hoy, hyo⟩ := (List.pairwise_cons.mp h.apart).1 y hy
  refine ⟨fun hxy => hoy ((List.prefix_append _ _).trans hxy), fun hyx => ?_⟩
  rcases List.prefix_concat_iff.mp hyx with heq | hshort
  · exact hoy (heq ▸ List.prefix_append _ _)
  · exact hyo hshort

/-- Depth first, they come before the other pending ones. -/
theorem Inv.next_before (h : Inv .depthFirst n ⟨visited, o :: pending⟩) {x y : Occurrence} (hx : x ∈ o.next)
    (hy : y ∈ pending) : WalkOrder.depthFirst.before x.place y.place := by
  obtain ⟨-, i, c, -, rfl⟩ := mem_next.mp hx
  have hoy := (List.pairwise_cons.mp (List.pairwise_append.mp h.ordered).2.1).1 y hy
  exact lex_append hoy ((List.pairwise_cons.mp h.apart).1 y hy).1 [i]

/-- Level by level, they come behind the other pending ones, whose parents were visited before. -/
theorem Inv.before_next_of_pending (h : Inv .breadthFirst n ⟨visited, o :: pending⟩) {x y : Occurrence}
    (hx : x ∈ o.next) (hy : y ∈ pending) : WalkOrder.breadthFirst.before y.place x.place := by
  obtain ⟨-, i, c, -, rfl⟩ := mem_next.mp hx
  rcases h.grown y (by simp [hy]) with hroot | ⟨v, hv, j, hj⟩
  · exact .inl (by simp [hroot])
  · have hparents := (List.pairwise_append.mp h.ordered).2.2 v hv o (by simp)
    rw [hj]
    exact WalkOrder.before_cousins hparents j i

theorem Inv.turn_ordered (h : Inv order n ⟨visited, o :: pending⟩) :
    (visited ++ [o] ++ (Progress.turn order ⟨visited, o :: pending⟩).pending).Pairwise
      fun a b => order.before a.place b.place := by
  have hordered : (visited ++ [o] ++ pending).Pairwise fun a b => order.before a.place b.place := by
    simpa using h.ordered
  obtain ⟨hvisited, hpending, hacross⟩ := List.pairwise_append.mp hordered
  have hnext := (pairwise_next order o).1
  refine List.pairwise_append.mpr ⟨hvisited, ?_, fun v hv x hx => ?_⟩
  · cases order with
    | depthFirst => exact List.pairwise_append.mpr ⟨hnext, hpending, fun x hx y hy => h.next_before hx hy⟩
    | breadthFirst =>
      exact List.pairwise_append.mpr ⟨hpending, hnext, fun y hy x hx => h.before_next_of_pending hx hy⟩
  · rcases mem_turn_pending.mp hx with hx | hx
    · exact h.before_next hv hx
    · exact hacross v hv x hx

theorem Inv.turn_apart (h : Inv order n ⟨visited, o :: pending⟩) :
    (Progress.turn order ⟨visited, o :: pending⟩).pending.Pairwise
      fun a b => ¬a.place <+: b.place ∧ ¬b.place <+: a.place := by
  have hpending := (List.pairwise_cons.mp h.apart).2
  have hnext := (pairwise_next order o).2
  cases order with
  | depthFirst => exact List.pairwise_append.mpr ⟨hnext, hpending, fun x hx y hy => h.apart_next hx hy⟩
  | breadthFirst => exact List.pairwise_append.mpr ⟨hpending, hnext, fun y hy x hx => (h.apart_next hx hy).symm⟩

theorem Inv.turn_covered (h : Inv order n ⟨visited, o :: pending⟩) {p : Place} (hp : n.InScope p) :
    (∃ v ∈ visited ++ [o], v.place = p)
      ∨ ∃ x ∈ (Progress.turn order ⟨visited, o :: pending⟩).pending, x.place <+: p := by
  rcases h.covered p hp with ⟨v, hv, rfl⟩ | ⟨x, hx, hxp⟩
  · exact .inl ⟨v, List.mem_append_left _ hv, rfl⟩
  · rcases List.mem_cons.mp hx with rfl | hx
    · -- below the one that is visited now, a child is on the way
      obtain ⟨t, rfl⟩ := hxp
      cases t with
      | nil => exact .inl ⟨x, by simp, by simp⟩
      | cons i t =>
        obtain ⟨hopen, c, hc⟩ := hp.through (h.placed x (by simp)).1
        refine .inr ⟨⟨x.place ++ [i], c⟩, mem_turn_pending.mpr (.inl (mem_next.mpr ⟨hopen, i, c, hc, rfl⟩)), ?_⟩
        exact ⟨t, by simp⟩
    · exact .inr ⟨x, mem_turn_pending.mpr (.inr hx), hxp⟩

/-- Each turn keeps what the walk knows. -/
theorem Inv.turn {s : Progress} (h : Inv order n s) : Inv order n (s.turn order) := by
  obtain ⟨visited, _ | ⟨o, pending⟩⟩ := s
  · exact h
  obtain ⟨hat, hscope⟩ := h.placed o (by simp)
  refine ⟨fun x hx => ?_, h.turn_ordered, h.turn_apart, fun x hx => ?_, fun p hp => h.turn_covered hp⟩
  · -- placed
    rcases List.mem_append.mp hx with hx | hx
    · exact h.placed x (by rw [List.append_cons]; exact List.mem_append_left _ hx)
    · rcases mem_turn_pending.mp hx with hx | hx
      · obtain ⟨hopen, i, c, hc, rfl⟩ := mem_next.mp hx
        exact ⟨by rw [nodeAt?_child hat, hc], hscope.child hat hopen hc⟩
      · exact h.placed x (by simp [hx])
  · -- grown
    rcases mem_turn_pending.mp hx with hx | hx
    · obtain ⟨-, i, c, -, rfl⟩ := mem_next.mp hx
      exact .inr ⟨o, List.mem_append_right _ (List.mem_singleton.mpr rfl), i, rfl⟩
    · rcases h.grown x (by simp [hx]) with hroot | ⟨v, hv, i, hi⟩
      · exact .inl hroot
      · exact .inr ⟨v, List.mem_append_left _ hv, i, hi⟩

theorem Inv.turns {s : Progress} (h : Inv order n s) (k : Nat) : Inv order n (s.turns order k) := by
  induction k generalizing s with
  | zero => exact h
  | succ k ih => exact ih h.turn

/-! ## Whole walks -/

/-- Below the start, a walk visits the nodes of the pending occurrences and what is below them, one in each turn. -/
theorem exists_turns (order : WalkOrder) {pending : List Occurrence} (visited : List Occurrence)
    (hplace : ∀ o ∈ pending, o.place ≠ []) :
    ∃ os, turns order os.length ⟨visited, pending⟩ = ⟨visited ++ os, []⟩
      ∧ os.map (·.node) = walkFrom order isScopeBoundary (pending.map (·.node)) := by
  generalize hns : pending.map (·.node) = ns
  induction ns using walkFrom.induct order isScopeBoundary generalizing pending visited with
  | case1 =>
    obtain rfl := List.map_eq_nil_iff.mp hns
    exact ⟨[], by simp [turns], by simp [walkFrom]⟩
  | case2 m ns ih =>
    obtain ⟨o, rest, rfl, rfl, rfl⟩ := List.map_eq_cons_iff.mp hns
    have hnext : o.next.map (·.node) = Node.next isScopeBoundary o.node := by
      have ho : o.place ≠ [] := hplace o (by simp)
      unfold Occurrence.next Node.next
      split <;> simp_all [List.mapIdx_eq_zipIdx_map, Function.comp_def]
    have hmap : (turn order ⟨visited, o :: rest⟩).pending.map (·.node)
        = order.enqueue (Node.next isScopeBoundary o.node) (rest.map (·.node)) := by
      cases order <;> simp [turn, WalkOrder.enqueue, hnext]
    have hplace' : ∀ x ∈ (turn order ⟨visited, o :: rest⟩).pending, x.place ≠ [] := by
      intro x hx
      rcases mem_turn_pending.mp hx with hx | hx
      · obtain ⟨-, i, c, -, rfl⟩ := mem_next.mp hx
        simp
      · exact hplace x (by simp [hx])
    obtain ⟨os, hturns, hos⟩ := ih (visited ++ [o]) hplace' hmap
    refine ⟨o :: os, ?_, by rw [List.map_cons, hos, walkFrom]⟩
    show turns order os.length ⟨visited ++ [o], (turn order ⟨visited, o :: rest⟩).pending⟩ = _
    rw [hturns, List.append_assoc]
    rfl

/-- A walk ends after one turn for each node that it visits. -/
theorem turns_start (order : WalkOrder) (n : Node) :
    ∃ os, turns order (n.walkInScope order).length (start n) = ⟨os, []⟩
      ∧ os.map (·.node) = n.walkInScope order := by
  let first : Occurrence := ⟨[], n⟩
  have hnodes : first.next.map (·.node) = n.children := by
    simp [first, Occurrence.next, List.mapIdx_eq_zipIdx_map, Function.comp_def]
  have hplace : ∀ o ∈ first.next, o.place ≠ [] := by
    intro o ho
    obtain ⟨-, i, c, -, rfl⟩ := mem_next.mp ho
    simp
  have hstart : (start n).turn order = ⟨[first], first.next⟩ := by
    cases order <;> simp [start, turn, first]
  obtain ⟨os, hturns, hos⟩ := exists_turns order [first] hplace
  rw [hnodes] at hos
  have hlen : os.length = (walkFrom order isScopeBoundary n.children).length := by
    rw [← hos, List.length_map]
  refine ⟨first :: os, ?_, by rw [walkInScope, List.map_cons, hos]⟩
  rw [walkInScope, List.length_cons, ← hlen]
  show turns order os.length ((start n).turn order) = _
  rw [hstart, hturns]
  rfl

end Progress

/-- Depth first, a walk visits a node, and then what is below it in the scope. -/
theorem walkFrom_depthFirst (ns : List Node) : walkFrom .depthFirst isScopeBoundary ns = ns.flatMap scopeBelow := by
  induction ns using walkFrom.induct .depthFirst isScopeBoundary with
  | case1 => simp [walkFrom]
  | case2 n pending ih =>
    rw [walkFrom, ih, List.flatMap_cons, scopeBelow_eq, WalkOrder.enqueue, List.flatMap_append, List.cons_append]

/-- The places that a walk visits, in order: each place of the scope once. -/
theorem exists_places (order : WalkOrder) (n : Node) :
    ∃ ps : List Place, (n.walkInScope order).map some = ps.map n.nodeAt? ∧ ps.Pairwise order.before
      ∧ ∀ p, p ∈ ps ↔ n.InScope p := by
  obtain ⟨os, hturns, hos⟩ := Progress.turns_start order n
  have hinv : Progress.Inv order n ⟨os, []⟩ := by
    rw [← hturns]
    exact (Progress.inv_start order n).turns _
  refine ⟨os.map (·.place), ?_, ?_, fun p => ⟨?_, fun hp => ?_⟩⟩
  · rw [← hos, List.map_map, List.map_map]
    exact List.map_congr_left fun o ho => (hinv.placed o (by simp [ho])).1.symm
  · exact List.pairwise_map.mpr (by simpa using hinv.ordered)
  · rintro hp
    obtain ⟨o, ho, rfl⟩ := List.mem_map.mp hp
    exact (hinv.placed o (by simp [ho])).2
  · rcases hinv.covered p hp with ⟨v, hv, rfl⟩ | ⟨o, ho, -⟩
    · exact List.mem_map_of_mem hv
    · cases ho

/-- What is found in a scope is the first node of a given kind in the order of the walk. -/
theorem findInScope?_eq (n : Node) (kinds : List Kind) (order : WalkOrder) :
    n.findInScope? kinds order = (n.walkInScope order).find? fun m => kinds.any m.isA := by
  rw [findInScope?, findAllInScope, List.head?_filter]

/-- Something is found in a scope exactly when one of its nodes is of a given kind. -/
theorem isSome_findInScope?_iff (n : Node) (kinds : List Kind) (order : WalkOrder) :
    (n.findInScope? kinds order).isSome = true
      ↔ ∃ p m, n.InScope p ∧ n.nodeAt? p = some m ∧ kinds.any m.isA = true := by
  obtain ⟨ps, hmap, -, hps⟩ := exists_places order n
  have hmem : ∀ m, m ∈ n.walkInScope order ↔ ∃ p, n.InScope p ∧ n.nodeAt? p = some m := by
    intro m
    have hsome : m ∈ n.walkInScope order ↔ some m ∈ (n.walkInScope order).map some := by simp
    rw [hsome, hmap, List.mem_map]
    exact exists_congr fun p => and_congr_left fun _ => hps p
  rw [findInScope?_eq, List.find?_isSome]
  constructor
  · rintro ⟨m, hm, hkind⟩
    obtain ⟨p, hp, hat⟩ := (hmem m).mp hm
    exact ⟨p, m, hp, hat, hkind⟩
  · rintro ⟨p, m, hp, hat, hkind⟩
    exact ⟨m, (hmem m).mpr ⟨p, hp, hat⟩, hkind⟩

/-- **Scope walks** — from any node, a walk in the scope visits each place of the scope once, in the order of the walk,
and has nothing left to visit after one turn for each of them.  Depth first it is the scope listed by recursion, and
level by level it visits the same nodes; what is found is the first node of a given kind, exactly when there is one. -/
theorem walkInScope_places (n : Node) :
    (∀ order, (∃ ps : List Place, (n.walkInScope order).map some = ps.map n.nodeAt? ∧ ps.Pairwise order.before
          ∧ ps.Nodup ∧ ∀ p, p ∈ ps ↔ n.InScope p)
        ∧ ∃ visited, Progress.turns order (n.walkInScope order).length (.start n) = ⟨visited, []⟩
          ∧ visited.map (·.node) = n.walkInScope order)
      ∧ n.walkInScope .depthFirst = n.inScope
      ∧ (n.walkInScope .depthFirst).Perm (n.walkInScope .breadthFirst)
      ∧ ∀ kinds order, n.findInScope? kinds order = (n.walkInScope order).find? (fun m => kinds.any m.isA)
        ∧ ((n.findInScope? kinds order).isSome = true
          ↔ ∃ p m, n.InScope p ∧ n.nodeAt? p = some m ∧ kinds.any m.isA = true) := by
  have hnodup : ∀ {order : WalkOrder} {ps : List Place}, ps.Pairwise order.before → ps.Nodup := fun h =>
    h.imp (S := (· ≠ ·)) fun hpq heq => WalkOrder.not_before_self (heq ▸ hpq)
  refine ⟨fun order => ⟨?_, Progress.turns_start order n⟩, ?_, ?_, fun kinds order =>
    ⟨findInScope?_eq n kinds order, isSome_findInScope?_iff n kinds order⟩⟩
  · obtain ⟨ps, hmap, hordered, hps⟩ := exists_places order n
    exact ⟨ps, hmap, hordered, hnodup hordered, hps⟩
  · rw [walkInScope, walkFrom_depthFirst, inScope, scopeOfArgs_eq, children]
  · obtain ⟨ps, hmap, hordered, hps⟩ := exists_places .depthFirst n
    obtain ⟨qs, hmap', hordered', hqs⟩ := exists_places .breadthFirst n
    have hperm : ps.Perm qs :=
      (List.perm_ext_iff_of_nodup (hnodup hordered) (hnodup hordered')).mpr fun p => (hps p).trans (hqs p).symm
    have hsome : ((n.walkInScope .depthFirst).map some).Perm ((n.walkInScope .breadthFirst).map some) := by
      rw [hmap, hmap']
      exact hperm.map _
    simpa using hsome.filterMap id

end AlgebraSql.Sql.Node
