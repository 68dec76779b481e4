import AlgebraSql.Proofs.AssembledOperators
import AlgebraSql.Proofs.ListedNames

/-!
# Call scopes — expressions without windowed calls, and expressions without aggregates.

Whether a windowed call lies in the scope of a node, and whether an aggregate function is called in it outside
of windowed calls, follows from its children, as long as the node is no call itself.  Queries are scopes of
their own.  So expressions over fields without such calls have none, unless they call such functions
themselves.
-/

namespace AlgebraSql.Convert

open Sql Node

variable {env : Env} {ctx : Context} {sub : Rel → ConvertM Node} {n : Node}

/-! ## Windowed calls -/

/-- No windowed call lies in the scope of the node, the node itself included. -/
def Unwindowed (n : Node) : Prop := ∀ w ∈ scopeBelow n, w.is .window = false

/-- A node whose children are without windowed calls is without them, unless it is one itself. -/
theorem Unwindowed.of_children (hkind : n.kind ≠ .window) (h : ∀ c ∈ n.children, Unwindowed c) : Unwindowed n := by
  obtain ⟨kind, args⟩ := n
  intro w hw
  rw [scopeBelow] at hw
  rcases List.mem_cons.mp hw with rfl | hw
  · simpa [Node.is] using hkind
  · split at hw
    · cases hw
    · rw [scopeOfArgs_eq] at hw
      obtain ⟨c, hc, hw⟩ := List.mem_flatMap.mp hw
      exact h c hc w hw

/-- The parts of a node that is no query belong to its scope. -/
theorem Unwindowed.child (hn : Unwindowed n) (hscope : isScopeBoundary n = false) {c : Node} (hc : c ∈ n.children) :
    Unwindowed c := by
  obtain ⟨kind, args⟩ := n
  intro w hw
  refine hn w ?_
  rw [scopeBelow, hscope, scopeOfArgs_eq]
  exact List.mem_cons_of_mem _ (List.mem_flatMap.mpr ⟨c, hc, hw⟩)

/-- A query is a scope of its own. -/
theorem Unwindowed.of_query (h : n.isQuery = true) : Unwindowed n := by
  obtain ⟨kind, args⟩ := n
  intro w hw
  rw [scopeBelow, show isScopeBoundary (.mk kind args) = true by simp [isScopeBoundary, h]] at hw
  obtain rfl : w = .mk kind args := by simpa using hw
  simp only [Node.is, kind_mk, beq_eq_false_iff_ne, ne_eq]
  rintro rfl
  cases h

theorem hasColumns_unwindowed : HasColumns Unwindowed :=
  .of_children (fun _ _ => .of_children (by simp [identifier]) (by simp [identifier, children]))
    fun hkind h => .of_children (by simp [hkind]) h

theorem inherited_unwindowed : Inherited Unwindowed where
  node := fun {n} hkind h => .of_children (by rintro heq; rw [heq] at hkind; cases hkind) h
  column := fun name => hasColumns_unwindowed name none
  row := fun {ns} h => .of_children (by simp [Node.call]) (by simpa [Node.call, children] using h)
  flipped := fun {n} hkind hn => by
    refine .of_children (by rintro heq; rw [flipped, kind_set] at heq; rw [heq] at hkind; cases hkind) fun c hc => ?_
    obtain ⟨p, hp, hmem⟩ := List.mem_flatMap.mp hc
    rcases mem_put hp with rfl | hold
    · cases hmem
    · refine hn.child ?_ (List.mem_flatMap.mpr ⟨p, hold, hmem⟩)
      revert hkind
      unfold isScopeBoundary Node.is isQuery
      cases n.kind <;> decide

/-- What a named item stands for is in its scope. -/
theorem Unwindowed.inner {c : Node} (hkind : n.kind = .aliased) (hn : Unwindowed n) (hc : n.this? = some c) :
    Unwindowed c :=
  hn.child (by simp [isScopeBoundary, Node.is, isQuery, hkind, Kind.isQuery, Kind.isSetOperation])
    (List.mem_flatMap.mpr ⟨_, mem_args_of_child? hc, by simp⟩)

/-! ## Aggregates -/

/-- No aggregate function is called in the node, outside of windowed calls and queries. -/
def Unaggregated (n : Node) : Prop := n.aggregates = false

/-- The values of the children of a node under the names of its arguments. -/
theorem mem_childValues {args : Args} {p : String × List Calls} (hp : p ∈ childValues callsStep args) {c : Calls}
    (hc : c ∈ p.2) : ∃ q ∈ args, q.1 = p.1 ∧ ∃ m ∈ q.2.children, m.fold callsStep = c := by
  obtain ⟨q, hq, rfl⟩ := List.mem_map.mp hp
  obtain ⟨m, hm, rfl⟩ := List.mem_map.mp hc
  exact ⟨q, hq, rfl, m, hm, rfl⟩

theorem any_inside_eq (kind : Kind) (args : Args) :
    ((childValues callsStep args).any fun p => p.2.any (·.inside)) = (Node.mk kind args).children.any aggregates := by
  simp only [childValues, List.any_map, children, args_mk, List.any_flatMap, Function.comp_def]
  rfl

/-- Calls below a node are calls of its children. -/
theorem below_fold (n : Node) : (n.fold callsStep).below = n.children.any aggregates := by
  obtain ⟨kind, args⟩ := n
  rw [fold_mk, ← any_inside_eq]
  unfold callsStep
  dsimp only
  split <;> rfl

theorem unaggregated_children_iff (n : Node) :
    n.children.any aggregates = false ↔ ∀ c ∈ n.children, Unaggregated c := by
  simp [Unaggregated]

/-- A node whose children call no aggregate function calls none, unless it is an aggregate or a windowed call. -/
theorem Unaggregated.of_children (haggregate : n.kind ≠ .aggregate) (hwindow : n.kind ≠ .window)
    (h : ∀ c ∈ n.children, Unaggregated c) : Unaggregated n := by
  have hbelow := (unaggregated_children_iff n).mpr h
  obtain ⟨kind, args⟩ := n
  rw [← any_inside_eq] at hbelow
  have hmanner : (Node.mk kind args).manner ≠ .aggregate ∧ (Node.mk kind args).manner ≠ .window := by
    clear hbelow h
    unfold manner
    dsimp only [kind_mk] at haggregate hwindow ⊢
    split <;> first | contradiction | decide | (split <;> decide)
  rw [Unaggregated, aggregates, fold_mk]
  unfold callsStep
  dsimp only
  split
  · exact absurd ‹_› hmanner.1
  · exact absurd ‹_› hmanner.2
  · rfl
  · rfl
  · simp only [List.any_eq_false] at hbelow ⊢
    exact fun p hp hcall => hbelow p hp (by simp_all)
  · exact hbelow

/-- A windowed call calls no aggregate function if its parts call none. -/
theorem Unaggregated.window {args : Args} (hthis : ∀ a, ("this", a) ∈ args → ∀ c ∈ a.children, ∀ d ∈ c.children, Unaggregated d)
    (hparts : ∀ p ∈ args, p.1 ≠ "this" → ∀ c ∈ p.2.children, Unaggregated c) : Unaggregated (.mk .window args) := by
  rw [Unaggregated, aggregates, fold_mk]
  change ((childValues callsStep args).any fun p => p.2.any fun c => if p.1 = "this" then c.below else c.inside) = false
  rw [List.any_eq_false]
  intro p hp
  rw [Bool.not_eq_true, List.any_eq_false]
  intro c hc
  obtain ⟨q, hq, hkey, m, hm, rfl⟩ := mem_childValues hp hc
  rw [Bool.not_eq_true, ← hkey]
  split
  · rename_i heq
    rw [below_fold, unaggregated_children_iff]
    exact hthis q.2 (heq ▸ hq) m hm
  · exact hparts q hq ‹_› m hm

/-- A query has its own calls. -/
theorem Unaggregated.of_query (h : n.isQuery = true) : Unaggregated n := by
  obtain ⟨kind, args⟩ := n
  have hmanner : (Node.mk kind args).manner = .query := by
    unfold manner
    revert h
    unfold isQuery
    cases kind <;> simp [Kind.isQuery, Kind.isSetOperation]
  rw [Unaggregated, aggregates, fold_mk]
  unfold callsStep
  rw [hmanner]

/-- A test with the opposite outcome calls what the test calls. -/
theorem Unaggregated.flipped (hkind : isDeniable n.kind = true) (hn : Unaggregated n) : Unaggregated (flipped n) := by
  obtain ⟨kind, args⟩ := n
  have hmanner : (Node.mk kind (OrderedMap.put args "negated" (.flag (!(Node.mk kind args).flag "negated")))).manner
      = (Node.mk kind args).manner := by
    unfold manner
    have hquery := arg?_set_of_ne (Node.mk kind args) (.flag (!(Node.mk kind args).flag "negated"))
      (by decide : "negated" ≠ "query")
    simp only [Node.set, kind_mk, args_mk] at hquery
    simp only [kind_mk, hquery]
  have hoperation : (Node.mk kind args).manner = .operation ∨ (Node.mk kind args).manner = .membership := by
    revert hkind
    unfold manner isDeniable
    cases kind <;> simp
  have hparts : ∀ p ∈ childValues callsStep (OrderedMap.put args "negated" (.flag (!(Node.mk kind args).flag "negated"))),
      p ∈ childValues callsStep args ∨ p.2 = [] := by
    intro p hp
    obtain ⟨q, hq, rfl⟩ := List.mem_map.mp hp
    rcases mem_put hq with rfl | hold
    · exact .inr rfl
    · exact .inl (List.mem_map.mpr ⟨q, hold, rfl⟩)
  rw [Unaggregated, aggregates, fold_mk] at hn
  rw [Unaggregated, aggregates, Convert.flipped, Node.set, kind_mk, args_mk, fold_mk]
  unfold callsStep at hn ⊢
  rw [hmanner]
  rcases hoperation with h | h
  all_goals
    rw [h] at hn ⊢
    simp only [List.any_eq_false] at hn ⊢
    intro p hp
    rcases hparts p hp with hold | hnil
    · exact hn p hold
    · simp [hnil]

theorem hasColumns_unaggregated : HasColumns Unaggregated :=
  .of_children
    (fun _ _ => .of_children (by simp [identifier]) (by simp [identifier]) (by simp [identifier, children]))
    fun hkind h => .of_children (by simp [hkind]) (by simp [hkind]) h

theorem inherited_unaggregated : Inherited Unaggregated where
  node := fun {n} hkind h => .of_children (by rintro heq; rw [heq] at hkind; cases hkind)
    (by rintro heq; rw [heq] at hkind; cases hkind) h
  column := fun name => hasColumns_unaggregated name none
  row := fun {ns} h => .of_children (by simp [Node.call]) (by simp [Node.call]) (by simpa [Node.call, children] using h)
  flipped := fun {n} hkind hn => hn.flipped hkind

/-- What a named item stands for calls what the item calls. -/
theorem Unaggregated.inner {c : Node} (hkind : n.kind = .aliased) (hn : Unaggregated n) (hc : n.this? = some c) :
    Unaggregated c := by
  have hoperation : n.manner = .operation := by simp [manner, hkind]
  rw [Unaggregated, aggregates_of_operation (.inl hoperation), unaggregated_children_iff] at hn
  exact hn c (List.mem_flatMap.mpr ⟨_, mem_args_of_child? hc, by simp⟩)

/-! ## Windowed calls and aggregates of nodes -/

/-- A windowed call holds its function under `this`, and its window beside it. -/
theorem mem_args_overNode {name : String} {args : List Node} {distinct : Bool} {parts : WindowParts} {p : String × Arg}
    (hp : p ∈ (overNode name args distinct parts).args) : p = ("this", .node (Node.aggregate name args distinct))
      ∨ (p.1 ≠ "this" ∧ ∀ c ∈ p.2.children, c ∈ parts.partition ∨ c = Node.order parts.order ∨ parts.frame = some c) := by
  simp only [overNode, args_mk, List.mem_append, List.mem_cons, List.not_mem_nil, or_false] at hp
  rcases hp with ((rfl | rfl) | hp) | hp
  · exact .inl rfl
  · exact .inr ⟨(by decide : "partition_by" ≠ "this"), fun c hc => .inl hc⟩
  · split at hp
    · cases hp
    · obtain rfl := List.mem_singleton.mp hp
      exact .inr ⟨(by decide : "order" ≠ "this"), fun c hc => .inr (.inl (List.mem_singleton.mp hc))⟩
  · cases hframe : parts.frame with
    | none => simp [hframe, Node.optional] at hp
    | some f =>
      rw [hframe, Node.optional, List.mem_singleton] at hp
      subst hp
      exact .inr ⟨(by decide : "spec" ≠ "this"), fun c hc => .inr (.inr (by rw [List.mem_singleton.mp hc]))⟩

/-- A property of windowed calls, with a zero where there are no rows or without. -/
theorem good_windowedNode {Good : Node → Prop} {op : Operator} {args : List Node} {distinct : Bool}
    {parts : WindowParts} (hover : ∀ name, Good (overNode name args distinct parts))
    (hzero : ∀ {c}, Good c → Good (orZero c)) : Good (windowedNode op args distinct parts) := by
  unfold windowedNode
  split
  · exact hzero (hover _)
  · exact hover _

/-- A windowed call of parts that call no aggregate function calls none. -/
theorem unaggregated_windowedNode {op : Operator} {args : List Node} {distinct : Bool} {parts : WindowParts}
    (h : ∀ c ∈ args ++ parts.partition ++ parts.order ++ parts.frame.toList, Unaggregated c) :
    Unaggregated (windowedNode op args distinct parts) := by
  simp only [List.mem_append, Option.mem_toList] at h
  refine good_windowedNode (fun name => ?_) fun {c} hc => ?_
  · refine .window (fun a ha c hc d hd => ?_) fun p hp hne c hc => ?_
    · obtain heq | ⟨hne, -⟩ := mem_args_overNode ha
      · obtain rfl : a = .node (Node.aggregate name args distinct) := by simpa using heq
        obtain rfl := List.mem_singleton.mp hc
        exact h d (.inl (.inl (.inl (by simpa [Node.aggregate, children] using hd))))
      · exact absurd rfl hne
    · obtain rfl | ⟨-, hparts⟩ := mem_args_overNode hp
      · exact absurd rfl hne
      · rcases hparts c hc with hc | rfl | hc
        · exact h c (.inl (.inl (.inr hc)))
        · exact inherited_order inherited_unaggregated fun k hk => h k (.inl (.inr hk))
        · exact h c (.inr hc)
  · refine .of_children (by simp [orZero, Node.call]) (by simp [orZero, Node.call]) ?_
    simpa [orZero, Node.call, children] using ⟨hc, inherited_number inherited_unaggregated _⟩

/-- **An aggregate** has a property that its function has on such arguments and that clauses behind it keep. -/
theorem good_aggregateNode {Arg Good : Node → Prop} (hArg : Inherited Arg) (hG : Inherited Good) {call : AggregateCall}
    (hsorted : ∀ c ∈ call.collation, ∀ n, ctx.field env c.key = .ok n → Good n)
    (hargs : ∀ i ∈ call.args ++ call.filter.toList, ∀ n, ctx.field env i = .ok n → Arg n)
    (haggregate : ∀ {op name args distinct}, op = call.op ∨ op = Operator.sum →
      aggregateName env.dialect op = .ok name → (∀ n ∈ args, Arg n) → Good (Node.aggregate name args distinct))
    (hfiltered : ∀ {c condition}, Good c → Arg condition → Good (filtered c condition))
    (hwithin : ∀ {c items}, Good c → (∀ n ∈ items, Good n) → Good (withinGroup c items))
    (hzero : ∀ {c}, Good c → Good (orZero c)) (h : aggregateNode env ctx call = .ok n) : Good n := by
  have hplain : ∀ {op : Operator} {args : List Node} {m : Node}, op = call.op ∨ op = Operator.sum →
      (∀ n ∈ args, Arg n) → plainAggregate env ctx op call.distinct args call.filter call.collation = .ok m → Good m := by
    intro op args m hop hgood hm
    have hstar : ∀ {args : List Node}, (∀ n ∈ args, Arg n) → ∀ n ∈ aggregateArgs op args, Arg n := by
      intro args hgood n hn
      unfold aggregateArgs at hn
      split at hn
      · obtain rfl := List.mem_singleton.mp hn
        exact inherited_star hArg
      · exact hgood n hn
    have hcollated : ∀ {c : Node}, Good c → (if call.collation.isEmpty then .ok c
        else do return withinGroup c (← collationsNodes env ctx call.collation) : Except Error Node) = .ok m → Good m := by
      intro c hc hm
      split at hm
      · cases hm
        exact hc
      · simp only [bind_eq_ok_iff, pure_eq_ok_iff] at hm
        obtain ⟨items, hitems, rfl⟩ := hm
        exact hwithin hc (inherited_collationsNodes hG hsorted hitems)
    unfold plainAggregate at hm
    cases hfilter : call.filter with
    | none =>
      simp only [hfilter, pure_bind, bind_eq_ok_iff] at hm
      obtain ⟨name, hname, hm⟩ := hm
      exact hcollated (haggregate hop hname (hstar hgood)) hm
    | some i =>
      have hcondition : ∀ c, ctx.field env i = .ok c → Arg c := hargs i (by simp [hfilter])
      by_cases hplace : env.dialect.capabilities.aggregateFilter = true
      · simp only [hfilter, hplace, if_true, pure_bind, bind_eq_ok_iff] at hm
        obtain ⟨name, hname, condition, hc, hm⟩ := hm
        exact hcollated (hfiltered (haggregate hop hname (hstar hgood)) (hcondition condition hc)) hm
      · simp only [hfilter, hplace, Bool.false_eq_true, if_false, pure_bind, bind_eq_ok_iff] at hm
        obtain ⟨condition, hc, name, hname, hm⟩ := hm
        -- the condition goes into the first argument
        refine hcollated (haggregate hop hname (hstar fun n hn => ?_)) hm
        rcases List.mem_cons.mp hn with rfl | hn
        · have hfirst : Arg (args.head?.getD (Node.number "1")) := by
            cases args with
            | nil => exact inherited_number hArg _
            | cons first rest => exact hgood first (by simp)
          refine hArg.of_args rfl ?_
          have hbranch : Arg (Node.branch condition (args.head?.getD (Node.number "1"))) :=
            hArg.of_args rfl (by simpa using ⟨hcondition condition hc, hfirst⟩)
          simpa using hbranch
        · exact hgood n (List.mem_of_mem_drop hn)
  simp only [aggregateNode, bind_eq_ok_iff] at h
  obtain ⟨args, hmapped, h⟩ := h
  have hgood : ∀ n ∈ args, Arg n := forall_of_mapM hmapped fun i hi n hn => hargs i (by simp [hi]) n hn
  split at h
  · simp only [bind_eq_ok_iff, pure_eq_ok_iff] at h
    obtain ⟨m, hm, rfl⟩ := h
    exact hzero (hplain (.inr rfl) hgood hm)
  · exact hplain (.inl rfl) hgood h

/-- An aggregate of fields without windowed calls has none. -/
theorem unwindowed_aggregateNode {call : AggregateCall}
    (hsorted : ∀ c ∈ call.collation, ∀ n, ctx.field env c.key = .ok n → Unwindowed n)
    (hargs : ∀ i ∈ call.args ++ call.filter.toList, ∀ n, ctx.field env i = .ok n → Unwindowed n)
    (h : aggregateNode env ctx call = .ok n) : Unwindowed n := by
  refine good_aggregateNode inherited_unwindowed inherited_unwindowed hsorted hargs
    (fun {op name args distinct} _ _ hargs => ?_) (fun {c condition} hc hcondition => ?_)
    (fun {c items} hc hitems => ?_) (fun {c} hc => ?_) h
  · exact .of_children (by simp [Node.aggregate]) (by simpa [Node.aggregate, children] using hargs)
  · refine .of_children (by simp [filtered]) ?_
    simpa [filtered, children] using ⟨hc, inherited_wrap inherited_unwindowed rfl hcondition⟩
  · refine .of_children (by simp [withinGroup]) ?_
    simpa [withinGroup, children] using ⟨hc, inherited_order inherited_unwindowed hitems⟩
  · refine .of_children (by simp [orZero, Node.call]) ?_
    simpa [orZero, Node.call, children] using ⟨hc, inherited_number inherited_unwindowed _⟩

/-! ## Expressions -/

section Expressions

variable {A : Expr → Prop} (hA : PartClosed A) (henv : env.fieldMap = [])

include hA henv

/-- Expressions without windowed calls over fields without them. -/
theorem admits_unwindowed (hover : ∀ e, A e → e.isOver = false)
    (hfields : ∀ {i t n}, A (.inputRef i t) → ctx.field env i = .ok n → Unwindowed n)
    (hquery : ∀ {op es rel t}, A (.subQuery op es rel t) → Maintains OnlyColumns Unwindowed (sub rel)) :
    Admits env sub OnlyColumns Unwindowed ctx A where
  inherited := inherited_unwindowed
  closed := hA
  field := hfields
  correlated := fun _ => maintains_correlatedField hasColumns_unwindowed henv _ _
  patternField := fun _ => hasColumns_unwindowed.patternField
  query := hquery
  call := fun {op es t written ns} _ _ _ hns => by
    split
    · exact .of_children (by simp [Node.aggregate]) (by simpa [Node.aggregate, children] using hns)
    · exact .of_children (by simp [Node.call]) (by simpa [Node.call, children] using hns)
  windowed := fun {op es window distinct t written args partition order frame} he => by
    cases hover _ he

/-- Expressions that call no aggregate function but over windows, over fields without such calls. -/
theorem admits_unaggregated (hcall : ∀ {op es t written}, A (.call op es t) →
      env.dialect.retarget op (es.map (·.type)) = .ok written → written.isAggregate = false)
    (hfields : FieldsHave Unaggregated env ctx)
    (hquery : ∀ {op es rel t}, A (.subQuery op es rel t) → Maintains OnlyColumns Unaggregated (sub rel)) :
    Admits env sub OnlyColumns Unaggregated ctx A where
  inherited := inherited_unaggregated
  closed := hA
  field := fun _ hn => hfields _ _ hn
  correlated := fun _ => maintains_correlatedField hasColumns_unaggregated henv _ _
  patternField := fun _ => hasColumns_unaggregated.patternField
  query := hquery
  call := fun {op es t written ns} he hwritten _ hns => by
    rw [hcall he hwritten]
    exact .of_children (by simp [Node.call]) (by simp [Node.call]) (by simpa [Node.call, children] using hns)
  windowed := fun {op es window distinct t written args partition order frame} _ _ _ hargs _ hpartition _ horder hframe => by
    refine unaggregated_windowedNode fun c hc => ?_
    simp only [List.mem_append, Option.mem_toList] at hc
    rcases hc with ((hc | hc) | hc) | hc
    · exact hargs c hc
    · exact hpartition c hc
    · exact horder c hc
    · exact (hframe c hc).2

end Expressions

end AlgebraSql.Convert
