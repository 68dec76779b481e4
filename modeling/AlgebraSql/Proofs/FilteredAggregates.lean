import AlgebraSql.Proofs.GrandTotals
import AlgebraSql.Proofs.Values

/-!
# Filtered aggregates — a call behind which rows are filtered, and the call that leaves them out itself.

A dialect without FILTER gets a case distinction in place of the first argument, which is missing on the rows that
FILTER would drop.  Aggregate functions pass over rows on which their first argument is missing, so both calls have
the same value over any rows; a count of rows counts ones instead.
-/

namespace AlgebraSql

open Sql Node

/-! ## Rows that count -/

namespace Sql

/-- The first operand of a call is not missing. -/
def present (operands : List (List Datum)) : Bool := single (operands.headD []) != .null

/-- **`SkipsMissing`** — what SQL says of aggregate functions: they depend only on the rows on which their first
argument is not missing, a star is there on all rows, COUNT counts, and a sum of nothing is missing. -/
structure Engine.SkipsMissing (E : Engine) : Prop where
  present : ∀ (name : String) (args : List Node) (distinct : Bool) (rows : List (List (List Datum))), args ≠ [] →
    E.aggregate (Node.aggregate name args distinct).bare rows
      = E.aggregate (Node.aggregate name args distinct).bare (rows.filter Sql.present)
  star : Sql.present [operate E Node.star []] = true
  count : ∀ rows : List (List (List Datum)), (∀ operands ∈ rows, Sql.present operands = true) →
    E.aggregate (Node.aggregate "COUNT" [Node.null]) rows = .number rows.length
  sum : ∀ (args : List Node) (distinct : Bool), E.aggregate (Node.aggregate "SUM" args distinct).bare [] = .null
  coalesce : ∀ d e : Datum, E.operation (Node.call "COALESCE" [Node.null, Node.null]) [[d], [e]] = Datum.firstPresent [d, e]

namespace Node

variable {E : Engine} {db : Database} {names : Names} {call condition : Node} {c : Focus → List Datum}

/-! ## Calls and the clauses behind them -/

theorem bare_aggregate (name : String) (args : List Node) (distinct : Bool) :
    (Node.aggregate name args distinct).bare = Node.aggregate name (args.map fun _ => Node.null) distinct := rfl

/-- A call runs over the rows of its group. -/
theorem scalar_aggregate (name : String) (args : List Node) (distinct : Bool) :
    (Node.aggregate name args distinct).scalar E db names = (together (args.map (scalar E db names))).map fun vs f =>
      [E.aggregate (Node.aggregate name args distinct).bare (f.group.map fun row => vs (f.onRow row))] := by
  have hmanner : (Node.aggregate name args distinct).manner = .aggregate := rfl
  have hchildren : (Node.aggregate name args distinct).children = args := by simp [Node.aggregate, children, Arg.children]
  rw [scalar_eq, scalarStep, hmanner, flat_partsOf, hchildren, List.map_map]
  rfl

/-- FILTER runs a call over the rows on which its condition holds. -/
theorem scalar_filtered : (Convert.filtered call condition).scalar E db names
    = (call.scalar E db names).bind fun v => (condition.scalar E db names).map fun c f =>
      v (f.withGroup (f.group.filter fun row => holds (c (f.onRow row)))) := by
  have hmanner : (Convert.filtered call condition).manner = .filter := rfl
  have hthis : (Convert.filtered call condition).child? "this" = some call := by simp [Convert.filtered, child?]
  have hwhere : (Convert.filtered call condition).child? "expression" = some (Node.wrap .where condition) := by
    simp [Convert.filtered, child?]
  have hcondition : ((Node.wrap .where condition).meaning E db).scalar names = condition.scalar E db names :=
    scalar_condition (by simp) condition names
  rw [scalar_eq, scalarStep, hmanner, only_partsOf hthis, only_partsOf hwhere, hcondition]
  cases condition.scalar E db names <;> rfl

/-- WITHIN GROUP runs a call over the rows in an order. -/
theorem scalar_withinGroup (items : List Node) : (Convert.withinGroup call items).scalar E db names
    = (call.scalar E db names).bind fun v => ((Node.order items).scalar E db names).map fun keys f =>
      v (f.withGroup (arrange E (f.group.map fun row => (keys (f.onRow row), row)))) := by
  have hmanner : (Convert.withinGroup call items).manner = .withinGroup := rfl
  have hthis : (Convert.withinGroup call items).child? "this" = some call := by simp [Convert.withinGroup, child?]
  have horder : (Convert.withinGroup call items).child? "expression" = some (Node.order items) := by
    simp [Convert.withinGroup, child?]
  rw [scalar_eq, scalarStep, hmanner, only_partsOf hthis, only_partsOf horder]
  show ((call.scalar E db names).bind fun v => ((Node.order items).scalar E db names).bind _) = _
  cases (Node.order items).scalar E db names <;> rfl

/-! ## Arguments that are missing on other rows -/

/-- The case distinction has the value where its condition holds, and is missing elsewhere. -/
theorem scalar_conditional {value : Node} {v : Focus → List Datum} (hc : condition.scalar E db names = some c)
    (hv : value.scalar E db names = some v) (hcOne : ∀ f, c f = [single (c f)]) (hvOne : ∀ f, v f = [single (v f)]) :
    (Node.mk .case [("ifs", .nodes [Node.branch condition value])]).scalar E db names
      = some fun f => [if holds (c f) then single (v f) else .null] := by
  have hbranch : (Node.branch condition value).scalar E db names = some fun f => [single (c f), single (v f)] := by
    have hchildren : (Node.branch condition value).children = [condition, value] := rfl
    rw [scalar_of_operation rfl, hchildren]
    simp only [List.map_cons, List.map_nil, hc, hv, together, Option.map_some]
    refine congrArg some (funext fun f => ?_)
    rw [hcOne f, hvOne f]
    rfl
  have hchildren : (Node.mk .case [("ifs", .nodes [Node.branch condition value])]).children
      = [Node.branch condition value] := rfl
  rw [scalar_of_operation rfl, hchildren]
  simp only [List.map_cons, List.map_nil, hbranch, together, Option.map_some]
  rfl

/-- Missing names leave a case distinction without values. -/
theorem scalar_conditional_none {value : Node}
    (h : condition.scalar E db names = none ∨ value.scalar E db names = none) :
    (Node.mk .case [("ifs", .nodes [Node.branch condition value])]).scalar E db names = none := by
  have hbranch : (Node.branch condition value).scalar E db names = none := by
    have hchildren : (Node.branch condition value).children = [condition, value] := rfl
    rw [scalar_of_operation rfl, hchildren, together_eq_none (by rcases h with h | h <;> simp [h])]
    rfl
  have hchildren : (Node.mk .case [("ifs", .nodes [Node.branch condition value])]).children
      = [Node.branch condition value] := rfl
  rw [scalar_of_operation rfl, hchildren, together_eq_none (by simp [hbranch])]
  rfl

variable (rows : List Row) (keep : Row → Bool) (value : Row → Datum) (rest : Row → List (List Datum))

omit names in
/-- The rows on which the first operand is missing are those that are dropped, and those on which it is missing anyway. -/
theorem filter_present_map :
    (rows.map fun row => [if keep row then value row else .null] :: rest row).filter present
      = ((rows.filter keep).map fun row => [value row] :: rest row).filter present := by
  induction rows with
  | nil => rfl
  | cons row rows ih =>
    have hmissing : present ([.null] :: rest row) = false := rfl
    cases hkeep : keep row with
    | true => simp only [List.map_cons, hkeep, if_true, List.filter_cons, ih]
    | false =>
      simp only [List.map_cons, hkeep, Bool.false_eq_true, if_false, List.filter_cons, hmissing, ih]

/-- **FILTER left out** — a call whose first argument is missing where a condition does not hold has the value of the
call behind which the rows are filtered. -/
theorem scalar_conditionalArgs (hE : E.SkipsMissing) (hcondition : condition.OneValued) {first : Node}
    (hfirst : first.OneValued) (name : String) (others : List Node) (distinct : Bool) :
    (Node.aggregate name (Convert.conditionalArgs condition (first :: others)) distinct).scalar E db names
      = (Convert.filtered (Node.aggregate name (first :: others) distinct) condition).scalar E db names := by
  have hargs : Convert.conditionalArgs condition (first :: others)
      = Node.mk .case [("ifs", .nodes [Node.branch condition first])] :: others := rfl
  rw [hargs, scalar_filtered, scalar_aggregate, scalar_aggregate, List.map_cons, List.map_cons]
  cases hc : condition.scalar E db names with
  | none =>
    rw [scalar_conditional_none (.inl hc)]
    cases together (first.scalar E db names :: others.map (scalar E db names)) <;> rfl
  | some c =>
    cases hv : first.scalar E db names with
    | none =>
      rw [scalar_conditional_none (.inr hv)]
      rfl
    | some v =>
      rw [scalar_conditional hc hv (hcondition.scalar hc) (hfirst.scalar hv)]
      cases hr : together (others.map (scalar E db names)) with
      | none => simp [together, hr]
      | some r =>
        simp only [together, hr, Option.map_some, Option.bind_some]
        refine congrArg some (funext fun f => congrArg (fun d => [d]) ?_)
        have hvalues : (fun row => v (f.onRow row) :: r (f.onRow row))
            = fun row => [single (v (f.onRow row))] :: r (f.onRow row) := funext fun row => by rw [← hfirst.scalar hv]
        rw [bare_aggregate, bare_aggregate]
        show E.aggregate (Node.aggregate name (_ :: others.map _) distinct) _
          = E.aggregate (Node.aggregate name (_ :: others.map _) distinct)
            ((f.group.filter fun row => holds (c (f.onRow row))).map fun row => v (f.onRow row) :: r (f.onRow row))
        have hpresent := hE.present name (first :: others) distinct
        rw [bare_aggregate] at hpresent
        rw [hvalues]
        refine ((hpresent _ (by simp)).trans ?_).trans (hpresent _ (by simp)).symm
        rw [filter_present_map f.group (fun row => holds (c (f.onRow row)))]

/-- A count of rows counts ones instead. -/
theorem scalar_conditionalCount (hE : E.SkipsMissing) (hcondition : condition.OneValued) :
    (Node.aggregate "COUNT" (Convert.conditionalArgs condition [])).scalar E db names
      = (Convert.filtered (Node.aggregate "COUNT" [Node.star]) condition).scalar E db names := by
  have hargs : Convert.conditionalArgs condition []
      = [Node.mk .case [("ifs", .nodes [Node.branch condition (Node.number "1")])]] := rfl
  have hone : (Node.number "1").scalar E db names = some fun _ => [Datum.ofDigits "1"] := Reading.shows_number (V := Reading.scalar E db names) "1"
  have hstar : Node.star.scalar E db names = some fun _ => operate E Node.star [] := by
    rw [scalar_of_operation rfl]
    rfl
  rw [hargs, scalar_filtered, scalar_aggregate, scalar_aggregate, List.map_singleton, List.map_singleton, hstar]
  cases hc : condition.scalar E db names with
  | none =>
    rw [scalar_conditional_none (.inl hc)]
    rfl
  | some c =>
    rw [scalar_conditional hc hone (hcondition.scalar hc) fun _ => rfl]
    simp only [together, Option.map_some, Option.bind_some]
    refine congrArg some (funext fun f => congrArg (fun d => [d]) ?_)
    rw [bare_aggregate, bare_aggregate]
    have hpresent := hE.present "COUNT" [Node.star] false
    rw [bare_aggregate] at hpresent
    -- both calls run over rows that are all there, and equally many
    have hones : ∀ rows : List Row, ∀ operands ∈ rows.map fun _ => [[Datum.ofDigits "1"]], present operands = true := by
      intro rows operands hmem
      obtain ⟨row, -, rfl⟩ := List.mem_map.mp hmem
      decide +kernel
    have hstars : ∀ rows : List Row, ∀ operands ∈ rows.map fun _ => [operate E Node.star []], present operands = true := by
      intro rows operands hmem
      obtain ⟨row, -, rfl⟩ := List.mem_map.mp hmem
      exact hE.star
    have hkept := filter_present_map f.group (fun row => holds (c (f.onRow row))) (fun _ => Datum.ofDigits "1") fun _ => []
    calc E.aggregate (Node.aggregate "COUNT" [Node.null])
          (f.group.map fun row => [[if holds (c (f.onRow row)) then Datum.ofDigits "1" else .null]])
        = E.aggregate (Node.aggregate "COUNT" [Node.null])
          ((f.group.filter fun row => holds (c (f.onRow row))).map fun _ => [[Datum.ofDigits "1"]]) := by
          refine (hpresent _ (by simp)).trans ?_
          rw [hkept, List.filter_eq_self.mpr (hones _)]
          rfl
      _ = E.aggregate (Node.aggregate "COUNT" [Node.null])
          ((f.group.filter fun row => holds (c (f.onRow row))).map fun _ => [operate E Node.star []]) := by
          rw [hE.count _ (hones _), hE.count _ (hstars _), List.length_map, List.length_map]

/-! ## Values at all -/

theorem isSome_together {α β : Type} {vs : List (Option (α → β))} (h : ∀ o ∈ vs, o.isSome) : (together vs).isSome := by
  induction vs with
  | nil => rfl
  | cons o vs ih =>
    obtain ⟨v, rfl⟩ := Option.isSome_iff_exists.mp (h o (by simp))
    obtain ⟨w, hw⟩ := Option.isSome_iff_exists.mp (ih fun o ho => h o (by simp [ho]))
    simp [together, hw]

/-- An operation has values if its children have. -/
theorem isSome_scalar {n : Node} (hn : n.manner = .operation) (h : ∀ m ∈ n.children, (m.scalar E db names).isSome) :
    (n.scalar E db names).isSome := by
  rw [scalar_of_operation hn, Option.isSome_map]
  refine isSome_together fun o ho => ?_
  obtain ⟨m, hm, rfl⟩ := List.mem_map.mp ho
  exact h m hm

end Node
end Sql

/-! ## Calls of a plan -/

/-- The fields that a call reads. -/
def AggregateCall.reads (call : AggregateCall) : List Ordinal :=
  call.filter.toList ++ call.args ++ call.collation.map (·.key)

namespace Convert

variable {env : Env} {ctx : Context} {E : Engine} {db : Database} {names : Names}

/-- The same dialect, with FILTER or without. -/
def Env.withFilter (env : Env) (filters : Bool) : Env :=
  { env with dialect := { env.dialect with
      capabilities := { env.dialect.capabilities with aggregateFilter := filters } } }

/-- Fields are written in the same way with FILTER and without. -/
theorem Context.field_withFilter (env : Env) (filters : Bool) (ctx : Context) (i : Ordinal) :
    ctx.field (env.withFilter filters) i = ctx.field env i := by
  induction ctx generalizing i with
  | join left right hleft hright => simp only [Context.field, hleft, hright]
  | aliases => rfl
  | rowPattern => rfl
  | tableFunction => rfl
  | selectList => rfl

theorem collationsNodes_withFilter (env : Env) (filters : Bool) (ctx : Context) (cs : List Collation) :
    collationsNodes (env.withFilter filters) ctx cs = collationsNodes env ctx cs := by
  have horder : ∀ i, ctx.orderField (env.withFilter filters) i = ctx.orderField env i := fun i => by
    cases ctx <;> simp only [Context.orderField, Context.field_withFilter]
  have hnodes : collationNodes (env.withFilter filters) ctx = collationNodes env ctx := funext fun c => by
    simp only [collationNodes, Context.field_withFilter, horder]
    rfl
  rw [collationsNodes, collationsNodes, hnodes]

/-- Sort keys over nodes with values have values. -/
theorem isSome_sortKeys (d : Dialect) {tested key : Node} (htested : (tested.scalar E db names).isSome)
    (hkey : (key.scalar E db names).isSome) (direction : Direction) (nulls : NullPlacement) :
    ∀ n ∈ sortKeys d tested key direction nulls, (n.scalar E db names).isSome := by
  have hordered : ∀ {n : Node} (descending : Bool) (first : Option Bool), (n.scalar E db names).isSome →
      ((orderedNode n descending first).scalar E db names).isSome := by
    intro n descending first hn
    refine isSome_scalar rfl fun m hm => ?_
    obtain rfl : m = n := by cases first <;> simpa [orderedNode, children, Arg.children] using hm
    exact hn
  have hnull : ((Node.isNull tested).scalar E db names).isSome := by
    refine isSome_scalar rfl fun m hm => ?_
    rcases (by simpa [Node.isNull, children, Arg.children] using hm : m = tested ∨ m = Node.null) with rfl | rfl
    · exact htested
    · exact isSome_scalar rfl fun m hm => by cases hm
  intro n hn
  unfold sortKeys at hn
  simp only at hn
  split at hn
  · rw [List.mem_singleton.mp hn]
    exact hordered _ _ hkey
  · split at hn
    · rename_i test hemulated
      rcases List.mem_cons.mp hn with rfl | hn
      · unfold Dialect.emulatePlacement at hemulated
        split at hemulated
        · cases hemulated
        · split at hemulated <;> cases hemulated
          · exact hordered true none hnull
          · exact hnull
      · rw [List.mem_singleton.mp hn]
        exact hordered _ _ hkey
    · rw [List.mem_singleton.mp hn]
      exact hordered _ _ hkey

/-- A field with a value has one as a sort key. -/
theorem isSome_orderField {i : Ordinal} (hfield : ∀ n, ctx.field env i = .ok n → (n.scalar E db names).isSome)
    {n : Node} (h : ctx.orderField env i = .ok n) : (n.scalar E db names).isSome := by
  unfold Context.orderField at h
  split at h
  · simp only [bind_eq_ok_iff, pure_eq_ok_iff] at h
    obtain ⟨m, hm, rfl⟩ := h
    cases hi : i.nat? with
    | none => simpa using hfield m hm
    | some k =>
      simp only [Option.map_some, Option.getD_some]
      unfold Context.sortKeyOf
      split
      · exact isSome_scalar rfl fun m hm => by cases hm
      · split
        · exact isSome_scalar rfl fun m hm => by cases hm
        · exact hfield m hm
  · exact hfield n h

theorem isSome_collationsNodes {cs : List Collation} {items : List Node} (h : collationsNodes env ctx cs = .ok items)
    (hfields : ∀ k ∈ cs.map (·.key), ∀ n, ctx.field env k = .ok n → (n.scalar E db names).isSome) :
    ∀ item ∈ items, (item.scalar E db names).isSome := by
  simp only [collationsNodes, bind_eq_ok_iff, pure_eq_ok_iff] at h
  obtain ⟨nss, hnss, rfl⟩ := h
  intro item hitem
  obtain ⟨ns, hns, hmem⟩ := List.mem_flatten.mp hitem
  refine forall_of_mapM (p := fun ns => ∀ n ∈ ns, (n.scalar E db names).isSome) hnss (fun c hc ns hns => ?_) ns hns item hmem
  simp only [collationNodes, bind_eq_ok_iff, pure_eq_ok_iff] at hns
  obtain ⟨tested, htested, key, hkey, rfl⟩ := hns
  have hfield := hfields c.key (List.mem_map_of_mem hc)
  exact isSome_sortKeys _ (hfield tested htested) (isSome_orderField hfield hkey) _ _

/-! ## Both ways of writing a call -/

/-- A call with the order of its rows behind it, if they have one. -/
def inOrder (collation : List Collation) (call : Node) (items : List Node) : Node :=
  if collation.isEmpty then call else withinGroup call items

/-- A call with FILTER, or one that leaves out rows itself. -/
def filteredCall (filters : Bool) (op : Operator) (name : String) (distinct : Bool) (args : List Node) (condition : Node) :
    Node :=
  if filters then filtered (Node.aggregate name (aggregateArgs op args) distinct) condition
  else Node.aggregate name (aggregateArgs op (conditionalArgs condition args)) distinct

section

variable {op : Operator} {name : String} {distinct filters : Bool} {args items : List Node} {i : Ordinal}
  {collation : List Collation} {condition : Node}

theorem plainAggregate_withFilter (hi : ctx.field env i = .ok condition)
    (hitems : collationsNodes env ctx collation = .ok items) :
    plainAggregate (env.withFilter filters) ctx op distinct args (some i) collation
      = (aggregateName env.dialect op).map fun name =>
        inOrder collation (filteredCall filters op name distinct args condition) items := by
  have hname : aggregateName (env.withFilter filters).dialect op = aggregateName env.dialect op := rfl
  have hplace : (env.withFilter filters).dialect.capabilities.aggregateFilter = filters := rfl
  have hordered : ∀ call : Node, (if collation.isEmpty then pure call
      else return withinGroup call (← collationsNodes (env.withFilter filters) ctx collation) : Except Error Node)
      = .ok (inOrder collation call items) := fun call => by
    rw [collationsNodes_withFilter, hitems, inOrder]
    split <;> rfl
  unfold plainAggregate
  simp only [hname, hplace, Context.field_withFilter, hi]
  cases aggregateName env.dialect op with
  | error e => cases filters <;> rfl
  | ok name => cases filters <;> exact hordered _

/-- Orders do the same to calls with the same values. -/
theorem scalar_inOrder {m n : Node} (h : m.scalar E db names = n.scalar E db names) (collation : List Collation)
    (items : List Node) :
    (inOrder collation m items).scalar E db names = (inOrder collation n items).scalar E db names := by
  unfold inOrder
  split
  · exact h
  · rw [scalar_withinGroup, scalar_withinGroup, h]

/-- Both calls have the same value over any rows. -/
theorem scalar_filteredCall (hE : E.SkipsMissing) (db : Database) (names : Names) (hcondition : condition.OneValued)
    (hfirst : ∀ n, args.head? = some n → n.OneValued)
    (hargs : args = [] → op.kind = .count ∧ name = "COUNT" ∧ distinct = false) :
    (filteredCall true op name distinct args condition).scalar E db names
      = (filteredCall false op name distinct args condition).scalar E db names := by
  cases args with
  | nil =>
    obtain ⟨hcount, rfl, rfl⟩ := hargs rfl
    have hstar : aggregateArgs op [] = [Node.star] := by simp [aggregateArgs, hcount]
    have hone : aggregateArgs op (conditionalArgs condition []) = conditionalArgs condition [] := by
      simp [aggregateArgs, conditionalArgs]
    simp only [filteredCall, if_true, Bool.false_eq_true, if_false, hstar, hone]
    exact (scalar_conditionalCount hE hcondition).symm
  | cons first others =>
    have hplain : aggregateArgs op (first :: others) = first :: others := by simp [aggregateArgs]
    have hconditional : aggregateArgs op (conditionalArgs condition (first :: others))
        = conditionalArgs condition (first :: others) := by simp [aggregateArgs, conditionalArgs]
    simp only [filteredCall, if_true, Bool.false_eq_true, if_false, hplain, hconditional]
    exact (scalar_conditionalArgs hE hcondition (hfirst first rfl) name others distinct).symm

/-- A call has a value if its arguments, its condition and its sort keys have. -/
theorem isSome_filteredCall (hcondition : (condition.scalar E db names).isSome)
    (hargs : ∀ n ∈ args, (n.scalar E db names).isSome) (hitems : ∀ n ∈ items, (n.scalar E db names).isSome) :
    ((inOrder collation (filteredCall true op name distinct args condition) items).scalar E db names).isSome := by
  have hwritten : ∀ n ∈ aggregateArgs op args, (n.scalar E db names).isSome := by
    unfold aggregateArgs
    split
    · intro n hn
      rw [List.mem_singleton.mp hn]
      exact isSome_scalar rfl fun m hm => by cases hm
    · exact hargs
  have hcall : ((filteredCall true op name distinct args condition).scalar E db names).isSome := by
    obtain ⟨c, hc⟩ := Option.isSome_iff_exists.mp hcondition
    have hall : (together ((aggregateArgs op args).map (scalar E db names))).isSome := isSome_together fun o ho => by
      obtain ⟨n, hn, rfl⟩ := List.mem_map.mp ho
      exact hwritten n hn
    obtain ⟨vs, hvs⟩ := Option.isSome_iff_exists.mp hall
    rw [filteredCall, if_pos rfl, scalar_filtered, scalar_aggregate, hvs, hc]
    rfl
  unfold inOrder
  split
  · exact hcall
  · have horder : ((Node.order items).scalar E db names).isSome :=
      isSome_scalar rfl fun m hm => hitems m (by simpa [Node.order, children, Arg.children] using hm)
    obtain ⟨v, hv⟩ := Option.isSome_iff_exists.mp hcall
    obtain ⟨keys, hkeys⟩ := Option.isSome_iff_exists.mp horder
    rw [scalar_withinGroup, hv, hkeys]
    rfl

/-- A sum of no rows is missing. -/
theorem scalar_filteredSum (hE : E.SkipsMissing) {c v : Focus → List Datum} (hc : condition.scalar E db names = some c)
    (hv : (inOrder collation (filteredCall true op "SUM" distinct args condition) items).scalar E db names = some v)
    {f : Focus} (hrows : ∀ row ∈ f.group, holds (c (f.onRow row)) = false) : v f = [.null] := by
  have hcall : ∀ u, (filteredCall true op "SUM" distinct args condition).scalar E db names = some u →
      ∀ g : Focus, (∀ row ∈ g.group, holds (c (g.onRow row)) = false) → u g = [.null] := by
    intro u hu g hg
    rw [filteredCall, if_pos rfl, scalar_filtered, scalar_aggregate, hc] at hu
    obtain ⟨w, hw, rfl⟩ := by simpa only [Option.bind_map, Option.bind_eq_some_iff, Function.comp_apply, Option.map_some, Option.some.injEq] using hu
    have hnone : (g.group.filter fun row => holds (c (g.onRow row))) = [] := List.filter_eq_nil_iff.mpr fun row hrow => by
      simp [hg row hrow]
    show [E.aggregate _ ((g.group.filter fun row => holds (c (g.onRow row))).map _)] = _
    rw [hnone]
    exact congrArg (fun d => [d]) (hE.sum _ distinct)
  unfold inOrder at hv
  split at hv
  · exact hcall v hv f hrows
  · rw [scalar_withinGroup] at hv
    obtain ⟨u, hu, hv⟩ := Option.bind_eq_some_iff.mp hv
    obtain ⟨keys, -, rfl⟩ := Option.map_eq_some_iff.mp hv
    refine hcall u hu _ fun row hrow => ?_
    -- the rows in their order are the same rows
    have hmem : row ∈ f.group := by
      obtain ⟨p, hp, rfl⟩ := List.mem_map.mp hrow
      obtain ⟨row, hgroup, rfl⟩ := List.mem_map.mp (List.mem_mergeSort.mp hp)
      exact hgroup
    exact hrows row hmem

end

/-- The first of a value and zero that is not missing. -/
theorem scalar_orZero (n : Node) : (orZero n).scalar E db names = (n.scalar E db names).map fun v f =>
    operate E (Node.call "COALESCE" [Node.null, Node.null]) [v f, [Datum.ofDigits "0"]] := by
  have hzero : (Node.number "0").scalar E db names = some fun _ => [Datum.ofDigits "0"] :=
    Reading.shows_number (V := Reading.scalar E db names) "0"
  have hchildren : (orZero n).children = [n, Node.number "0"] := by simp [orZero, Node.call, children, Arg.children]
  rw [scalar_of_operation rfl, hchildren, List.map_cons, List.map_singleton, hzero]
  cases n.scalar E db names <;> rfl

/-- Zero takes the place of a missing value. -/
theorem operate_orZero (hE : E.SkipsMissing) : operate E (Node.call "COALESCE" [Node.null, Node.null])
    [[.null], [Datum.ofDigits "0"]] = [.number 0] := by
  show [E.operation (Node.call "COALESCE" [Node.null, Node.null]) [[.null], [Datum.ofDigits "0"]]] = _
  rw [hE.coalesce]
  decide +kernel

/-- Only functions that no library offers have no name. -/
theorem availableFunction_of_aggregateName {d : Dialect} {op : Operator} {e : Error}
    (h : aggregateName d op = .error e) : op.kind = .otherFunction ∧ d.availableFunction op = .error e := by
  unfold aggregateName at h
  split at h
  · rename_i hkind
    cases havailable : d.availableFunction op with
    | error e' =>
      rw [havailable] at h
      cases h
      exact ⟨by simpa using hkind, rfl⟩
    | ok op' =>
      rw [havailable] at h
      cases h
  · cases h

/-- A call is written with FILTER and without, from the same arguments, condition and sort keys. -/
theorem aggregateNode_withFilter {call : AggregateCall} {args items : List Node} {i : Ordinal} {condition : Node}
    (hfilter : call.filter = some i) (hi : ctx.field env i = .ok condition)
    (hargs : call.args.mapM (ctx.field env) = .ok args) (hitems : collationsNodes env ctx call.collation = .ok items)
    (filters : Bool) : aggregateNode (env.withFilter filters) ctx call
      = if call.op.kind = .sumOrZero
        then .ok (orZero (inOrder call.collation (filteredCall filters .sum "SUM" call.distinct args condition) items))
        else (aggregateName env.dialect call.op).map fun name =>
          inOrder call.collation (filteredCall filters call.op name call.distinct args condition) items := by
  have hfields : call.args.mapM (ctx.field (env.withFilter filters)) = .ok args := by
    rw [show ctx.field (env.withFilter filters) = ctx.field env from funext (Context.field_withFilter env filters ctx), hargs]
  have hsum : aggregateName env.dialect Operator.sum = .ok "SUM" := rfl
  rw [aggregateNode, hfields, hfilter]
  show (if call.op.kind == .sumOrZero then _ else _ : Except Error Node) = _
  simp only [plainAggregate_withFilter hi hitems, beq_iff_eq, hsum]
  rfl

/-- **FILTER and its rewriting** — a call with a condition is written with FILTER exactly where it is written without,
and both nodes have the same value over any rows; a sum that is zero without rows is zero if no row remains. -/
theorem aggregateNode_filter {call : AggregateCall} {i : Ordinal} (hfilter : call.filter = some i)
    (hargs : call.args = [] → call.op = Operator.count ∧ call.distinct = false)
    (hreads : ∀ k ∈ call.reads, ∃ n, ctx.field env k = .ok n)
    (hone : ∀ k n, k = i ∨ call.args.head? = some k → ctx.field env k = .ok n → n.OneValued) :
    (∃ e, call.op.kind = .otherFunction ∧ env.dialect.availableFunction call.op = .error e
        ∧ ∀ filters, aggregateNode (env.withFilter filters) ctx call = .error e)
      ∨ ∃ filtered rewritten condition, aggregateNode (env.withFilter true) ctx call = .ok filtered
        ∧ aggregateNode (env.withFilter false) ctx call = .ok rewritten ∧ ctx.field env i = .ok condition
        ∧ ∀ (E : Engine) (db : Database) (names : Names), E.SkipsMissing →
          filtered.scalar E db names = rewritten.scalar E db names
          ∧ ((∀ k ∈ call.reads, ∀ n, ctx.field env k = .ok n → (n.scalar E db names).isSome) →
            (rewritten.scalar E db names).isSome)
          ∧ (call.op.kind = .sumOrZero → ∀ c v, condition.scalar E db names = some c →
            rewritten.scalar E db names = some v →
            ∀ f, (∀ row ∈ f.group, holds (c (f.onRow row)) = false) → v f = [.number 0]) := by
  have hmem : ∀ k ∈ call.args, k ∈ call.reads := fun k hk => by simp [AggregateCall.reads, hk]
  have hsorted : ∀ k ∈ call.collation.map (·.key), k ∈ call.reads := fun k hk => by
    simp only [AggregateCall.reads, List.mem_append]
    exact .inr hk
  obtain ⟨condition, hi⟩ := hreads i (by simp [AggregateCall.reads, hfilter])
  obtain ⟨args, hfields⟩ := exists_mapM fun k hk => hreads k (hmem k hk)
  obtain ⟨items, hitems⟩ : ∃ items, collationsNodes env ctx call.collation = .ok items :=
    exists_collationsNodes fun k hk => hreads k (hsorted k hk)
  have hwritten := aggregateNode_withFilter hfilter hi hfields hitems
  have hcondition : condition.OneValued := hone i condition (.inl rfl) hi
  have hfirst : ∀ n, args.head? = some n → n.OneValued := by
    intro n hn
    obtain ⟨k, hk, hfield⟩ := head?_of_mapM hfields hn
    exact hone k n (.inr hk) hfield
  have hempty : args = [] → call.args = [] := fun h => by
    have := length_of_mapM hfields
    rwa [h, List.length_nil, eq_comm, List.length_eq_zero_iff] at this
  have hvalued : ∀ {E : Engine} {db : Database} {names : Names},
      (∀ k ∈ call.reads, ∀ n, ctx.field env k = .ok n → (n.scalar E db names).isSome) →
      (condition.scalar E db names).isSome ∧ (∀ n ∈ args, (n.scalar E db names).isSome)
        ∧ ∀ n ∈ items, (n.scalar E db names).isSome := fun h =>
    ⟨h i (by simp [AggregateCall.reads, hfilter]) condition hi,
      forall_of_mapM hfields fun k hk n hn => h k (hmem k hk) n hn,
      isSome_collationsNodes hitems fun k hk n hn => h k (hsorted k hk) n hn⟩
  by_cases hsum : call.op.kind = .sumOrZero
  · -- a sum, with a zero in place of a missing one
    have hsome : args = [] → Operator.sum.kind = .count ∧ "SUM" = "COUNT" ∧ call.distinct = false := fun h => by
      have hcount := (hargs (hempty h)).1
      rw [hcount] at hsum
      cases hsum
    simp only [hsum, if_true] at hwritten
    refine .inr ⟨_, _, condition, hwritten true, hwritten false, hi, fun E db names hE => ?_⟩
    have hsame := scalar_inOrder (scalar_filteredCall hE db names hcondition hfirst hsome) call.collation items
    simp only [scalar_orZero, ← hsame, Option.isSome_map, Option.map_eq_some_iff, true_and]
    constructor
    · intro h
      obtain ⟨hc, hvs, hkeys⟩ := hvalued h
      exact isSome_filteredCall hc hvs hkeys
    · rintro - c v hc ⟨u, hu, rfl⟩ f hrows
      show operate E _ [u f, _] = _
      rw [scalar_filteredSum hE hc hu hrows, operate_orZero hE]
  · simp only [hsum, if_false] at hwritten
    cases hname : aggregateName env.dialect call.op with
    | error e =>
      simp only [hname, Except.map] at hwritten
      obtain ⟨hkind, havailable⟩ := availableFunction_of_aggregateName hname
      exact .inl ⟨e, hkind, havailable, hwritten⟩
    | ok name =>
      simp only [hname, Except.map] at hwritten
      have hcount : args = [] → call.op.kind = .count ∧ name = "COUNT" ∧ call.distinct = false := fun h => by
        obtain ⟨hop, hdistinct⟩ := hargs (hempty h)
        rw [hop] at hname ⊢
        cases hname
        exact ⟨rfl, rfl, hdistinct⟩
      refine .inr ⟨_, _, condition, hwritten true, hwritten false, hi, fun E db names hE => ?_⟩
      have hsame := scalar_inOrder (scalar_filteredCall hE db names hcondition hfirst hcount) call.collation items
      refine ⟨hsame, fun h => ?_, fun hzero => absurd hzero hsum⟩
      obtain ⟨hc, hvs, hkeys⟩ := hvalued h
      rw [← hsame]
      exact isSome_filteredCall hc hvs hkeys

/-- An engine that adds the values that are there, and counts the rows that have one. -/
def skippingEngine : Engine :=
  { countingEngine with
    operation := fun n operands => if n.kind = .call then Datum.firstPresent operands.flatten else .bool true
    aggregate := fun n rows =>
      let there := rows.filter present
      if n.text "this" = "SUM" then
        if there = [] then .null else there.foldl (fun d operands => d.arithmetic (· + ·) (leading operands)) (.number 0)
      else .number there.length }

theorem skippingEngine_skipsMissing : skippingEngine.SkipsMissing where
  present name args distinct rows _ := by simp only [skippingEngine, List.filter_filter, Bool.and_self]
  star := by decide +kernel
  count rows hrows := by
    have hcount : (Node.aggregate "COUNT" [Node.null]).text "this" ≠ "SUM" := by decide
    simp only [skippingEngine, hcount, if_false, List.filter_eq_self.mpr hrows]
  sum args distinct := by
    have hsum : (Node.aggregate "SUM" args distinct).bare.text "this" = "SUM" := by simp [Node.aggregate, bare, Arg.bare, text]
    simp only [skippingEngine, hsum, if_true, List.filter_nil]
  coalesce d e := rfl

/-- The sum of distinct amounts that are due, over rows in their order, of which none is due. -/
def dueAmounts : AggregateCall where
  op := Operator.sumOrZero
  args := [.whole 0]
  distinct := true
  filter := some (.whole 1)
  collation := [⟨.whole 0, .ascending, .first⟩]

/-- Where no amount is due, their sum is zero with FILTER and without. -/
theorem aggregateNode_filter_sums :
    let env : Env := { dialect := Dialect.ansi }
    let ctx : Context := .aliases [("t", [⟨"amount", DataType.integer⟩, ⟨"due", DataType.boolean⟩])] true
    let names : Names := Names.within [("t", ["amount", "due"])] Names.none
    ∃ filtered rewritten, aggregateNode (env.withFilter true) ctx dueAmounts = .ok filtered
      ∧ aggregateNode (env.withFilter false) ctx dueAmounts = .ok rewritten
      ∧ filtered.scalar skippingEngine oneTwoTwo names = rewritten.scalar skippingEngine oneTwoTwo names
      ∧ ∃ v, rewritten.scalar skippingEngine oneTwoTwo names = some v
        ∧ v [⟨[], [[.number 5, .bool false], [.number 7, .null]]⟩] = [.number 0] := by
  intro env ctx names
  have hfield : ∀ k ∈ dueAmounts.reads, ∃ name ∈ ["amount", "due"], ctx.field env k = .ok (Node.column name (some "t")) := by
    have hreads : ∀ k ∈ dueAmounts.reads, k = .whole 0 ∨ k = .whole 1 := by decide
    intro k hk
    rcases hreads k hk with rfl | rfl
    · exact ⟨"amount", by simp, rfl⟩
    · exact ⟨"due", by simp, rfl⟩
  have hone : ∀ k n, k = .whole 1 ∨ dueAmounts.args.head? = some k → ctx.field env k = .ok n → n.OneValued := by
    intro k n hk hn
    obtain ⟨name, -, hcolumn⟩ := hfield k (by
      rcases hk with rfl | hk
      · decide
      · cases hk
        decide)
    rw [hcolumn] at hn
    cases hn
    exact oneValued_column name (some "t")
  have hvalue : ∀ name ∈ ["amount", "due"], ∃ place, (Node.column name (some "t")).scalar skippingEngine oneTwoTwo names
      = some fun f => [f.row.getD place .null] := by
    intro name hname
    rw [scalar_of_column rfl]
    rcases List.mem_cons.mp hname with rfl | hname
    · exact ⟨0, rfl⟩
    · rw [List.mem_singleton.mp hname]
      exact ⟨1, rfl⟩
  obtain ⟨e, hkind, -⟩ | ⟨filtered, rewritten, condition, hfiltered, hrewritten, hcondition, h⟩ :=
    aggregateNode_filter (show dueAmounts.filter = some (.whole 1) from rfl) (fun h => by cases h)
      (fun k hk => (hfield k hk).elim fun name h => ⟨Node.column name (some "t"), h.2⟩) hone
  · cases hkind
  · obtain ⟨hsame, hsome, hzero⟩ := h skippingEngine oneTwoTwo names skippingEngine_skipsMissing
    obtain ⟨v, hv⟩ := Option.isSome_iff_exists.mp (hsome fun k hk n hn => by
      obtain ⟨name, hname, hcolumn⟩ := hfield k hk
      rw [hcolumn] at hn
      cases hn
      obtain ⟨place, hplace⟩ := hvalue name hname
      rw [hplace]
      rfl)
    refine ⟨filtered, rewritten, hfiltered, hrewritten, hsame, v, hv, ?_⟩
    have hdue : condition = Node.column "due" (some "t") := by
      cases hcondition
      rfl
    refine hzero rfl (fun f => [f.row.getD 1 .null]) v (by rw [hdue, scalar_of_column rfl]; rfl) hv _ ?_
    decide +kernel

end Convert
end AlgebraSql
