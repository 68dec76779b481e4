import AlgebraSql.Proofs.UnnestedPlans

/-!
# Offered functions — a statement calls no function that its database lacks.

A function is written under the name of the operator that is called, under the name of another member of its
group, or as one of the few functions of the language that the conversion itself calls.  Of the first two a
dialect's library decides.  Every other node is put together from nodes, so the property of a statement
follows from the property of its calls.
-/

namespace AlgebraSql

open Operator

/-! ## Operators of a plan -/

/-- A check of the operators that a plan calls in expressions, over windows and in aggregations. -/
def operatorsAre (p : Operator → Bool) : PlanCheck where
  relation rel :=
    match rel with
    | .aggregate _ _ _ calls => calls.all fun c => p c.op
    | .window _ groups _ _ => groups.all fun g => g.calls.all fun c => p c.op
    | _ => true
  expression _ e :=
    match e with
    | .call op _ _ => p op
    | .overWindow op _ _ _ _ => p op
    | _ => true

/-- A library decides about the operator: it is offered, or it is one of the functions that may be replaced. -/
def Operator.decidedBy (library : Library) (op : Operator) : Bool :=
  op.kind == .otherFunction || op.availableIn library

/-- Operators of the language that a conversion puts in by itself: rows, sums, and comparisons turned round. -/
def Operator.implied : List Operator :=
  [Operator.row, Operator.sum, lessThan, lessThanOrEqual, greaterThan, greaterThanOrEqual]

/-- **`Offered`** — the name is that of an operator which a database with the library knows: one that is called
(`p`), one of the catalog, or one of the language. -/
def Offered (library : Library) (p : Operator → Bool) (name : String) : Prop :=
  ∃ op : Operator, op.name = name ∧ op.availableIn library = true
    ∧ (p op = true ∨ op ∈ libraryOperators ∨ op ∈ Operator.implied)

variable {library : Library} {p : Operator → Bool}

theorem offered_implied {op : Operator} (h : op ∈ Operator.implied) : Offered library p op.name := by
  have hlanguage : Operator.implied.all (·.libraries.isNone) = true := by decide
  have hnone := List.all_eq_true.mp hlanguage op h
  exact ⟨op, rfl, by simp [availableIn, hnone], .inr (.inr h)⟩

theorem offered_row : Offered library p Operator.row.name :=
  offered_implied (by simp [Operator.implied])

theorem offered_sum : Offered library p Operator.sum.name := offered_implied (by simp [Operator.implied])

/-- The standard function for a value in place of none. -/
theorem offered_coalesce : Offered library p "COALESCE" := by
  have hcatalog : libraryOperators.any (fun op => op.name == "COALESCE" && op.definedBy .standard) = true := by
    decide +kernel
  obtain ⟨op, hop, hname⟩ := List.any_eq_true.mp hcatalog
  simp only [Bool.and_eq_true, beq_iff_eq] at hname
  exact ⟨op, hname.1, by simp [availableIn, hname.2], .inr (.inl hop)⟩

/-- What is called for a function is offered by the library. -/
theorem Operator.available_of_substitute {op written : Operator} (h : op.substitute library = some written) :
    written.availableIn library = true ∧ (written = op ∨ written ∈ op.alternatives) := by
  unfold substitute at h
  split at h
  · rename_i havailable
    obtain rfl := Option.some.inj h
    exact ⟨havailable, .inl rfl⟩
  · rw [Option.or_eq_some_iff] at h
    rcases h with hfound | ⟨-, hfound⟩
    · have hdefined := List.find?_some hfound
      exact ⟨by simp [availableIn, hdefined], .inr (List.mem_of_find?_eq_some hfound)⟩
    · exact ⟨by simpa using List.find?_some hfound, .inr (List.mem_of_find?_eq_some hfound)⟩

namespace Convert

open Sql Node

variable {env : Env} {sub : Rel → ConvertM Node} {rel : Rel} {x : Result}

theorem offered_availableFunction {d : Dialect} {op written : Operator} (hop : p op = true)
    (h : d.availableFunction op = .ok written) : Offered d.capabilities.library p written.name := by
  unfold Dialect.availableFunction at h
  split at h
  · rename_i w hsubstitute
    cases h
    obtain ⟨havailable, rfl | halternative⟩ := available_of_substitute hsubstitute
    · exact ⟨_, rfl, havailable, .inl hop⟩
    · refine ⟨_, rfl, havailable, .inr (.inl ?_)⟩
      unfold alternatives at halternative
      split at halternative
      · cases halternative
      · exact List.mem_of_mem_filter halternative
  · cases h

/-- The functions that a dialect writes for sums and differences are functions of its library. -/
def TargetsOffered (d : Dialect) : Prop :=
  ∀ f ∈ d.targetFunctions, f.operator ∈ libraryOperators ∧ f.operator.availableIn d.capabilities.library = true

/-- An operator of a plan is written under an offered name. -/
theorem offered_retarget {d : Dialect} (hd : TargetsOffered d) {op written : Operator} {types : List DataType}
    (hop : p op = true) (hdecided : op.decidedBy d.capabilities.library = true)
    (h : d.retarget op types = .ok written) : Offered d.capabilities.library p written.name := by
  have hself : op.kind ≠ .otherFunction → Offered d.capabilities.library p op.name := fun hkind =>
    ⟨op, rfl, by simpa [Operator.decidedBy, hkind] using hdecided, .inl hop⟩
  have htarget : op.kind ≠ .otherFunction → Offered d.capabilities.library p (d.targetFunction op types).name := by
    intro hkind
    unfold Dialect.targetFunction
    split
    · split
      · rename_i f hf
        obtain ⟨hmem, havailable⟩ := hd f (List.mem_of_find?_eq_some hf)
        exact ⟨_, rfl, havailable, .inr (.inl hmem)⟩
      · exact hself hkind
    · exact hself hkind
  unfold Dialect.retarget at h
  split at h
  · cases h
    exact offered_sum
  · rename_i hkind
    cases h
    exact htarget (by simp [hkind])
  · rename_i hkind
    cases h
    exact htarget (by simp [hkind])
  · exact offered_availableFunction hop h
  · rename_i hkind
    cases h
    exact hself hkind

/-! ## Statements -/

/-- **`CallsOffered`** — every function that is called anywhere in a node has an offered name. -/
def CallsOffered (library : Library) (p : Operator → Bool) (n : Node) : Prop :=
  ∀ c ∈ n.subnodes, c.kind = .call ∨ c.kind = .aggregate → Offered library p (c.text "this")

theorem callsOffered_iff (n : Node) : CallsOffered library p n ↔
    (n.kind = .call ∨ n.kind = .aggregate → Offered library p (n.text "this")) ∧ ∀ c ∈ n.children, CallsOffered library p c := by
  rw [CallsOffered, subnodes_eq]
  simp only [List.mem_cons, List.mem_flatMap]
  constructor
  · intro h
    exact ⟨h n (.inl rfl), fun c hc m hm => h m (.inr ⟨c, hc, hm⟩)⟩
  · rintro ⟨hself, hchildren⟩ m (rfl | ⟨c, hc, hm⟩)
    · exact hself
    · exact hchildren c hc m hm

/-- A call is offered with its arguments and its name. -/
theorem callsOffered_call {name : String} {args : List Node} (hname : Offered library p name)
    (hargs : ∀ n ∈ args, CallsOffered library p n) : CallsOffered library p (Node.call name args) := by
  refine (callsOffered_iff _).mpr ⟨fun _ => ?_, ?_⟩
  · simpa [Node.call, Node.text] using hname
  · simpa [Node.call, children] using hargs

theorem callsOffered_aggregate {name : String} {args : List Node} {distinct : Bool} (hname : Offered library p name)
    (hargs : ∀ n ∈ args, CallsOffered library p n) : CallsOffered library p (Node.aggregate name args distinct) := by
  refine (callsOffered_iff _).mpr ⟨fun _ => ?_, ?_⟩
  · simpa [Node.aggregate, Node.text] using hname
  · simpa [Node.aggregate, children] using hargs

/-- A node that calls nothing itself. -/
theorem callsOffered_of_children {n : Node} (hcall : n.kind ≠ .call) (haggregate : n.kind ≠ .aggregate)
    (h : ∀ c ∈ n.children, CallsOffered library p c) : CallsOffered library p n :=
  (callsOffered_iff n).mpr ⟨fun hkind => absurd hkind (by simp [hcall, haggregate]), h⟩

theorem structural_callsOffered (library : Library) (p : Operator → Bool) : Structural (CallsOffered library p) where
  assembly := fun {n} hkind => by
    have hplain : ¬(n.kind = .call ∨ n.kind = .aggregate) := by
      rintro (h | h) <;> simp [h, isAssembly] at hkind
    rw [callsOffered_iff]
    simp [hplain]
  row := fun hns => callsOffered_call offered_row hns

theorem callsOffered_orZero {n : Node} (hn : CallsOffered library p n) : CallsOffered library p (orZero n) :=
  callsOffered_call offered_coalesce
    (by simpa using ⟨hn, inherited_number (structural_callsOffered library p).inherited "0"⟩)

/-- A windowed call of offered parts under an offered name. -/
theorem callsOffered_windowedNode {op : Operator} {args : List Node} {distinct : Bool} {parts : WindowParts}
    (hname : Offered library p op.name)
    (h : ∀ n ∈ args ++ parts.partition ++ parts.order ++ parts.frame.toList, CallsOffered library p n) :
    CallsOffered library p (windowedNode op args distinct parts) := by
  simp only [List.mem_append, Option.mem_toList] at h
  have hover : ∀ name, Offered library p name → CallsOffered library p (overNode name args distinct parts) := by
    intro name hname
    refine callsOffered_of_children (by simp [overNode]) (by simp [overNode]) fun c hc => ?_
    obtain ⟨a, ha, hmem⟩ := List.mem_flatMap.mp hc
    rcases mem_args_overNode ha with rfl | ⟨-, hparts⟩
    · obtain rfl := List.mem_singleton.mp hmem
      exact callsOffered_aggregate hname fun n hn => h n (.inl (.inl (.inl hn)))
    · rcases hparts c hmem with hc | rfl | hc
      · exact h c (.inl (.inl (.inr hc)))
      · exact inherited_order (structural_callsOffered library p).inherited fun n hn => h n (.inl (.inr hn))
      · exact h c (.inr hc)
  unfold windowedNode
  split
  · exact callsOffered_orZero (hover _ offered_sum)
  · exact hover _ hname

/-! ## Expressions -/

/-- The operators of a plan are those in question, and the library decides about each. -/
structure Decided (d : Dialect) (p : Operator → Bool) : Prop where
  targets : TargetsOffered d
  decided : ∀ op, p op = true → op.decidedBy d.capabilities.library = true
  reversed : ∀ op, p op = true → p op.reversed = true

section Expressions

variable {ctx : Context} {fields : Bool} (hp : Decided env.dialect p)

include hp

/-- An operator that is not replaced is written under its own name. -/
theorem Decided.self {op : Operator} (hop : p op = true) (hkind : op.kind ≠ .otherFunction) :
    Offered env.dialect.capabilities.library p op.name :=
  ⟨op, rfl, by simpa [Operator.decidedBy, hkind] using hp.decided op hop, .inl hop⟩

theorem Decided.windowed {ρ : Type} {op written : Operator} {es : List (Scalar ρ)} (hop : p op = true)
    (h : windowedOperator env.dialect op es = .ok written) :
    Offered env.dialect.capabilities.library p written.name := by
  unfold windowedOperator at h
  split at h
  · exact offered_retarget hp.targets hop (hp.decided op hop) h
  · rename_i hkind
    cases h
    exact hp.self hop (by simpa using hkind)

theorem Decided.aggregate {op : Operator} {name : String} (hop : p op = true ∨ op = Operator.sum)
    (h : aggregateName env.dialect op = .ok name) : Offered env.dialect.capabilities.library p name := by
  unfold aggregateName at h
  split at h
  · rename_i hkind
    simp only [bind_eq_ok_iff, pure_eq_ok_iff] at h
    obtain ⟨written, hwritten, rfl⟩ := h
    rcases hop with hop | rfl
    · exact offered_availableFunction hop hwritten
    · cases hkind
  · rename_i hkind
    cases h
    rcases hop with hop | rfl
    · exact hp.self hop (by simpa using hkind)
    · exact offered_sum

/-- **An aggregate** of offered arguments. -/
theorem Decided.aggregateNode (hfields : FieldsHave (CallsOffered env.dialect.capabilities.library p) env ctx)
    {call : AggregateCall} (hop : p call.op = true) {n : Node} (h : aggregateNode env ctx call = .ok n) :
    CallsOffered env.dialect.capabilities.library p n := by
  have hG := (structural_callsOffered env.dialect.capabilities.library p).inherited
  refine good_aggregateNode hG hG (fun c _ => hfields c.key) (fun i _ => hfields i) (fun hname hwritten hargs => ?_)
    (fun hc hcondition => ?_) (fun hc hitems => ?_) callsOffered_orZero h
  · exact callsOffered_aggregate (hp.aggregate (hname.imp_left fun heq => heq ▸ hop) hwritten) hargs
  · refine callsOffered_of_children (by simp [filtered]) (by simp [filtered]) ?_
    simpa [filtered, children] using ⟨hc, inherited_wrap hG rfl hcondition⟩
  · refine callsOffered_of_children (by simp [withinGroup]) (by simp [withinGroup]) ?_
    simpa [withinGroup, children] using ⟨hc, inherited_order hG hitems⟩

/-- Comparisons may be turned round. -/
theorem Decided.turning : ClosedUnderTurning env.dialect fun e => e.satisfies (operatorsAre p) true = true := by
  refine closedUnderTurning (C := fun op => p op = true) (partClosed_satisfies _ _)
    (fun hop hes => ?_) fun he => ?_
  · simp only [Scalar.satisfies, Scalar.allSatisfy_iff, operatorsAre, Bool.and_eq_true]
    exact ⟨hop, hes⟩
  · simp only [Scalar.satisfies, operatorsAre, Bool.and_eq_true] at he
    exact ⟨he.1, hp.reversed _ he.1⟩

variable (henv : env.fieldMap = [])
  (hsub : ∀ rel, rel.satisfies (operatorsAre p) = true →
    Maintains OnlyColumns (CallsOffered env.dialect.capabilities.library p) (sub rel))

include henv hsub

/-- **Expressions** over offered fields are written with offered functions. -/
theorem Decided.admits (hfields : FieldsHave (CallsOffered env.dialect.capabilities.library p) env ctx) :
    Admits env sub OnlyColumns (CallsOffered env.dialect.capabilities.library p) ctx
      fun e => e.satisfies (operatorsAre p) fields = true where
  inherited := (structural_callsOffered _ p).inherited
  closed := partClosed_satisfies _ _
  field := fun _ hn => hfields _ _ hn
  correlated := fun _ => maintains_correlatedField (structural_callsOffered _ p).hasColumns henv _ _
  patternField := fun _ => (structural_callsOffered _ p).hasColumns.patternField
  query := fun he => hsub _ (satisfies_of_subQuery he)
  call := fun {op es t written ns} he hwritten _ hns => by
    simp only [Scalar.satisfies, operatorsAre, Bool.and_eq_true] at he
    have hname := offered_retarget hp.targets he.1 (hp.decided op he.1) hwritten
    split
    · exact callsOffered_aggregate hname hns
    · exact callsOffered_call hname hns
  windowed := fun {op es window distinct t written args partition order frame} he hwritten _ has _ hps _ hos hframe => by
    simp only [Scalar.satisfies, operatorsAre, Bool.and_eq_true] at he
    refine callsOffered_windowedNode (hp.windowed he.1.1 hwritten) fun n hn => ?_
    simp only [List.mem_append, Option.mem_toList] at hn
    rcases hn with ((hn | hn) | hn) | hn
    · exact has n hn
    · exact hps n hn
    · exact hos n hn
    · exact (hframe n hn).2

end Expressions

/-! ## Plans -/

mutual

/-- **`relationResult`** — the query for a plan is written with offered functions. -/
theorem offered_relationResult (hp : Decided env.dialect p) (henv : env.fieldMap = [])
    (hsub : ∀ rel, rel.satisfies (operatorsAre p) = true →
      Maintains OnlyColumns (CallsOffered env.dialect.capabilities.library p) (sub rel)) (root : Bool) :
    ∀ rel : Rel, rel.satisfies (operatorsAre p) = true →
      Maintains OnlyColumns (Assembled (CallsOffered env.dialect.capabilities.library p)) (relationResult env sub root rel)
  | .scan table fields, _ => by
    rw [relationResult]
    exact (assembled_scanResult (structural_callsOffered _ p)).mono fun r hr => hr.1
  | .values fields tuples, _ => by
    rw [relationResult]
    exact (assembled_valuesResult (structural_callsOffered _ p)).mono fun r hr => hr.1
  | .filter input condition ids, hrel => by
    have hG := structural_callsOffered env.dialect.capabilities.library p
    simp only [Rel.satisfies, Bool.and_eq_true] at hrel
    rw [relationResult]
    refine .bind (offered_relationResult hp henv hsub false input hrel.1.2) fun x hx => ?_
    refine (assembled_filterResult hG ids hx fun b hb => ?_).mono fun r hr => hr.1
    exact inherited_scalarNode (hp.admits henv hsub (hb.fields hG henv hx.good)) condition hrel.2
  | .project input projects names distinct ids, hrel => by
    have hG := structural_callsOffered env.dialect.capabilities.library p
    simp only [Rel.satisfies, Bool.and_eq_true, Scalar.allSatisfy_iff] at hrel
    rw [relationResult]
    refine .bind (offered_relationResult hp henv hsub false input hrel.1.2) fun x hx => ?_
    refine (assembled_projectResult hG (fun _ _ _ => True) distinct ids hx fun b hb e he => ?_).mono fun r hr => hr.1
    refine (Maintains.projectedNode hG.inherited ?_).mono fun n hn => ⟨hn, trivial⟩
    exact inherited_scalarNode (hp.admits henv hsub (hb.fields hG henv hx.good)) e (hrel.2 e he)
  | .aggregate input keys sets calls, hrel => by
    have hG := structural_callsOffered env.dialect.capabilities.library p
    simp only [Rel.satisfies, Bool.and_eq_true] at hrel
    rw [relationResult]
    refine .bind (offered_relationResult hp henv hsub false input hrel.2) fun x hx => ?_
    refine (assembled_aggregateResult hG henv hx fun b hb call hcall n hn => ?_).mono fun r hr => hr.1
    exact hp.aggregateNode (hb.fields hG henv hx.good) (List.all_eq_true.mp hrel.1 call hcall) hn
  | .join left right condition type ids, hrel => by
    have hG := structural_callsOffered env.dialect.capabilities.library p
    simp only [Rel.satisfies, Bool.and_eq_true] at hrel
    obtain ⟨⟨⟨-, hleft⟩, hright⟩, hcondition⟩ := hrel
    rw [relationResult]
    refine .bind (offered_relationResult hp henv hsub false left hleft) fun x hx => ?_
    refine .bind (offered_relationResult hp henv hsub false right hright) fun y hy => ?_
    have hfields : FieldsHave (CallsOffered env.dialect.capabilities.library p) env
        (.join x.resetAlias.qualifiedContext y.resetAlias.qualifiedContext) :=
      .join (hG.hasColumns.aliasField henv _ _) (hG.hasColumns.aliasField henv _ _)
    have hon := inherited_conditionNode (hp.admits henv hsub hfields) hp.turning condition hcondition
    split
    · exact (assembled_semiJoinResult hG ids hx.resetAlias hy.resetAlias hon).mono fun r hr => hr.1
    · exact (assembled_joinResult hG ids hx.resetAlias hy.resetAlias hon).mono fun r hr => hr.1
  | .setOp op all inputs, hrel => by
    simp only [Rel.satisfies, Bool.and_eq_true] at hrel
    rw [relationResult]
    refine .bind (offered_relationSelects hp henv hsub inputs hrel.2) fun ns hns => ?_
    exact (assembled_setOpResult (structural_callsOffered _ p) hns).mono fun r hr => hr.1
  | .sort input collation offset fetch, hrel => by
    have hG := structural_callsOffered env.dialect.capabilities.library p
    simp only [Rel.satisfies, Bool.and_eq_true] at hrel
    obtain ⟨⟨⟨-, hinput⟩, hoffset⟩, hfetch⟩ := hrel
    rw [relationResult]
    refine .bind (offered_relationResult hp henv hsub false input hinput) fun x hx => ?_
    refine (assembled_sortResult hG henv hx fun b hb e he => ?_).mono fun r hr => hr.1
    have hlimit : e.satisfies (operatorsAre p) false = true := by
      rcases he with rfl | rfl
      · exact hoffset
      · exact hfetch
    exact inherited_scalarNode (hp.admits henv hsub (hb.fields hG henv hx.good)) e hlimit
  | .window input groups constants names, hrel => by
    have hG := structural_callsOffered env.dialect.capabilities.library p
    simp only [Rel.satisfies, Bool.and_eq_true, Scalar.groupsSatisfy_iff] at hrel
    obtain ⟨⟨hops, hinput⟩, hgroups⟩ := hrel
    rw [relationResult]
    refine .bind (offered_relationResult hp henv hsub false input hinput) fun x hx => ?_
    refine (assembled_windowResult hG (fun _ _ => True) henv hx fun b hb g hg width => ?_).mono fun r hr => hr.1
    have hfields := hb.fields hG henv hx.good
    refine (inherited_windowGroupNodes (hp.admits henv hsub hfields) hfields (fun l => rfl) constants width
      (Scalar.satisfies_of_frameSatisfies (hgroups g hg).1) (hgroups g hg).2 fun c hc written args parts hwritten hparts => ?_).mono
        fun ns hns n hn => ⟨hns n hn, trivial⟩
    have hop : p c.op = true := List.all_eq_true.mp (List.all_eq_true.mp hops g hg) c hc
    exact callsOffered_windowedNode (hp.windowed hop hwritten) hparts
  | .tableFunction inputs call fields, hrel => by
    have hG := structural_callsOffered env.dialect.capabilities.library p
    simp only [Rel.satisfies, Bool.and_eq_true] at hrel
    rw [relationResult]
    refine .bind (offered_relationSelects hp henv hsub inputs hrel.1.2) fun ns hns => ?_
    refine assembled_tableFunctionResult hG (inherited_scalarNode (hp.admits henv hsub fun i n hn => ?_) call hrel.2)
    simp only [Context.field] at hn
    split at hn
    · rename_i hm
      cases hn
      exact (hns n (mem_of_nth? hm)).1
    · cases hn
  | .rowPattern input spec, hrel => by
    have hG := structural_callsOffered env.dialect.capabilities.library p
    simp only [Rel.satisfies, Bool.and_eq_true] at hrel
    rw [relationResult]
    refine .bind (offered_relationResult hp henv hsub false input hrel.1.2) fun x hx => ?_
    refine assembled_rowPatternResult hG henv hx fun e he => ?_
    refine inherited_scalarNode (hp.admits henv hsub fun i n hn => ?_) e (Scalar.satisfies_of_patternSatisfies hrel.2 e he)
    exact hG.hasColumns.aliasField henv x.resetAlias.aliases false i n hn

/-- **`relationSelects`** — so are the queries for several plans. -/
theorem offered_relationSelects (hp : Decided env.dialect p) (henv : env.fieldMap = [])
    (hsub : ∀ rel, rel.satisfies (operatorsAre p) = true →
      Maintains OnlyColumns (CallsOffered env.dialect.capabilities.library p) (sub rel)) :
    ∀ rels : List Rel, Rel.allSatisfy (operatorsAre p) rels = true →
    Maintains OnlyColumns
      (fun ns => ∀ n ∈ ns, CallsOffered env.dialect.capabilities.library p n ∧ (n.kind = .select → Clausal n))
      (relationSelects env sub rels)
  | [], _ => by
    rw [relationSelects]
    exact .pure (by simp)
  | rel :: rels, hrels => by
    simp only [Rel.allSatisfy, Bool.and_eq_true] at hrels
    rw [relationSelects]
    refine .bind (offered_relationResult hp henv hsub false rel hrels.1) fun x hx => ?_
    refine .bind (assembled_asSelect (structural_callsOffered _ p) hx) fun n hn => ?_
    refine .bind (offered_relationSelects hp henv hsub rels hrels.2) fun ns hns => .pure ?_
    simpa using ⟨hn, hns⟩

end

section Plans

variable (hp : Decided env.dialect p) (henv : env.fieldMap = [])

include hp henv

/-- **`queryAt`** — sub-queries of any depth are written with offered functions. -/
theorem offered_queryAt (depth : Nat) (root : Bool) {rel : Rel} (hrel : rel.satisfies (operatorsAre p) = true) :
    Maintains OnlyColumns (CallsOffered env.dialect.capabilities.library p) (queryAt env depth root rel) := by
  have hG := structural_callsOffered env.dialect.capabilities.library p
  have hquery : ∀ r : Result, Assembled (CallsOffered env.dialect.capabilities.library p) r →
      Maintains OnlyColumns (CallsOffered env.dialect.capabilities.library p) (r.asQuery env) := fun r hr =>
    (maintains_asQuery r).mono fun n hn => hG.returned hr.good hn
  induction depth generalizing root rel with
  | zero =>
    unfold queryAt
    exact .bind (offered_relationResult hp henv (fun _ _ => .pure (inherited_null hG.inherited)) root rel hrel) hquery
  | succ depth ih =>
    unfold queryAt
    exact .bind (offered_relationResult hp henv (fun rel hrel => ih false hrel) root rel hrel) hquery

end Plans

end Convert

end AlgebraSql
