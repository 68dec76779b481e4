import AlgebraSql.Proofs.ColumnShapes
import AlgebraSql.Proofs.UnnestedPlans

/-!
# Aggregate arguments — dialects without windowed calls in aggregates.

Where a dialect forbids windowed calls in the arguments of aggregates, an aggregation has to see columns
instead of such calls.  The rule about that looks at select items from outside.  It does its work for plans
whose aggregations take no column that hides a windowed call, and filter by columns without any.
-/

namespace AlgebraSql

/-- An aggregation takes columns in which windowed calls can be seen, and filters by columns without them. -/
def takesSeen : Rel → Bool
  | .scan .. | .filter .. | .project .. => true
  | .aggregate input _ _ calls =>
    calls.all fun c => c.args.all (ColumnShape.at input.shapes · != .hidden)
      && c.filter.all (ColumnShape.at input.shapes · == .clear)
  | _ => false

/-- **The plans in question**: tables, filters, projections and aggregations of seen columns. -/
def windowsSeen : PlanCheck := .ofRelations takesSeen

namespace Convert

open Sql Node

variable {n : Node}

/-! ## Statements -/

/-- No windowed call lies in the arguments of an aggregate function that is not called over a window, nor in a FILTER
condition. -/
def WindowsOutside (n : Node) : Prop :=
  ∀ m ∈ n.subnodes, ∀ p ∈ m.args, ∀ c ∈ p.2.children,
    (c.is .aggregate = true → (m.is .window = true → p.1 ≠ "this") → ∀ w ∈ scopeOfArgs c.args, w.is .window = false)
      ∧ (m.is .filter = true → p.1 = "expression" → ∀ w ∈ scopeBelow c, w.is .window = false)

instance (n : Node) : Decidable (WindowsOutside n) := by
  unfold WindowsOutside
  infer_instance

/-- **`Undisturbed`** — the aggregates in a node have no windowed calls in their arguments, and the node may be an
argument of a call. -/
structure Undisturbed (n : Node) : Prop where
  outside : WindowsOutside n
  arguments : n.is .aggregate = true → ∀ c ∈ n.children, Unwindowed c

theorem windowsOutside_iff (n : Node) : WindowsOutside n ↔
    (∀ p ∈ n.args, ∀ c ∈ p.2.children,
      (c.is .aggregate = true → (n.is .window = true → p.1 ≠ "this") → ∀ w ∈ scopeOfArgs c.args, w.is .window = false)
        ∧ (n.is .filter = true → p.1 = "expression" → Unwindowed c))
    ∧ ∀ c ∈ n.children, WindowsOutside c := by
  rw [WindowsOutside, subnodes_eq]
  simp only [List.forall_mem_cons, List.mem_flatMap, forall_exists_index, and_imp, WindowsOutside, Unwindowed]
  exact ⟨fun h => ⟨h.1, fun c hc m hm => h.2 m c hc hm⟩, fun h => ⟨h.1, fun m c hc hm => h.2 c hc m hm⟩⟩

theorem unwindowed_children_iff (n : Node) :
    (∀ w ∈ scopeOfArgs n.args, w.is .window = false) ↔ ∀ c ∈ n.children, Unwindowed c := by
  rw [scopeOfArgs_eq]
  simp only [List.mem_flatMap, forall_exists_index, and_imp, Unwindowed, children]
  exact ⟨fun h c p hp hc w hw => h w c p hp hc hw, fun h w c p hp hc hw => h c p hp hc w hw⟩

/-- The aggregates among the parts of a node that is no windowed call are undisturbed. -/
theorem undisturbed_iff (hwindow : n.kind ≠ .window) (haggregate : n.kind ≠ .aggregate) (hfilter : n.kind ≠ .filter) :
    Undisturbed n ↔ ∀ c ∈ n.children, Undisturbed c := by
  have hplain : n.is .window = false := by simpa [Node.is] using hwindow
  have hunfiltered : n.is .filter = false := by simpa [Node.is] using hfilter
  constructor
  · intro h c hc
    obtain ⟨p, hp, hmem⟩ := List.mem_flatMap.mp hc
    obtain ⟨hself, hbelow⟩ := (windowsOutside_iff n).mp h.outside
    refine ⟨hbelow c hc, fun hkind => ?_⟩
    exact (unwindowed_children_iff c).mp ((hself p hp c hmem).1 hkind (by simp [hplain]))
  · intro h
    refine ⟨(windowsOutside_iff n).mpr ⟨fun p hp c hc => ⟨fun hkind _ => ?_, by simp [hunfiltered]⟩, fun c hc =>
      (h c hc).outside⟩, fun hkind => absurd ((is_eq_true_iff _ _).mp hkind) haggregate⟩
    exact (unwindowed_children_iff c).mpr ((h c (List.mem_flatMap.mpr ⟨p, hp, hc⟩)).arguments hkind)

theorem structural_undisturbed : Structural Undisturbed where
  assembly := fun {n} hkind => undisturbed_iff (by rintro heq; rw [heq] at hkind; cases hkind)
    (by rintro heq; rw [heq] at hkind; cases hkind) (by rintro heq; rw [heq] at hkind; cases hkind)
  row := fun {ns} h => (undisturbed_iff (by simp [Node.call]) (by simp [Node.call]) (by simp [Node.call])).mpr
    (by simpa [Node.call, children] using h)

/-- An aggregate, if its arguments have windowed calls, may only stand over a window. -/
theorem outside_aggregate {name : String} {args : List Node} {distinct : Bool} (h : ∀ c ∈ args, Undisturbed c) :
    WindowsOutside (Node.aggregate name args distinct) := by
  have hchildren : (Node.aggregate name args distinct).children = args := by simp [Node.aggregate, children]
  refine (windowsOutside_iff _).mpr ⟨fun p hp c hc => ⟨fun hkind _ => ?_, by simp [Node.aggregate, Node.is]⟩, fun c hc => ?_⟩
  · have hmem : c ∈ args := by
      rw [← hchildren]
      exact List.mem_flatMap.mpr ⟨p, hp, hc⟩
    exact (unwindowed_children_iff c).mpr ((h c hmem).arguments hkind)
  · rw [hchildren] at hc
    exact (h c hc).outside

theorem undisturbed_aggregate {name : String} {args : List Node} {distinct : Bool}
    (h : ∀ c ∈ args, Undisturbed c ∧ Unwindowed c) : Undisturbed (Node.aggregate name args distinct) :=
  ⟨outside_aggregate fun c hc => (h c hc).1, fun _ c hc => (h c (by simpa [Node.aggregate, children] using hc)).2⟩

/-- A windowed call may have anything in it that is undisturbed. -/
theorem undisturbed_overNode {name : String} {args : List Node} {distinct : Bool} {parts : WindowParts}
    (h : ∀ c ∈ args ++ parts.partition ++ parts.order ++ parts.frame.toList, Undisturbed c) :
    Undisturbed (overNode name args distinct parts) := by
  simp only [List.mem_append, Option.mem_toList] at h
  have hpart : ∀ c, c ∈ parts.partition ∨ c = Node.order parts.order ∨ parts.frame = some c → Undisturbed c := by
    rintro c (hc | rfl | hc)
    · exact h c (.inl (.inl (.inr hc)))
    · exact inherited_order structural_undisturbed.inherited fun k hk => h k (.inl (.inr hk))
    · exact h c (.inr hc)
  refine ⟨(windowsOutside_iff _).mpr ⟨fun p hp c hc => ⟨fun hkind hkey => ?_, by simp [overNode, Node.is]⟩, fun c hc => ?_⟩,
    fun hkind => by cases hkind⟩
  · rcases mem_args_overNode hp with rfl | ⟨-, hparts⟩
    · exact absurd rfl (hkey rfl)
    · exact (unwindowed_children_iff c).mpr ((hpart c (hparts c hc)).arguments hkind)
  · obtain ⟨p, hp, hmem⟩ := List.mem_flatMap.mp hc
    rcases mem_args_overNode hp with rfl | ⟨-, hparts⟩
    · obtain rfl := List.mem_singleton.mp hmem
      exact outside_aggregate fun c hc => h c (.inl (.inl (.inl hc)))
    · exact (hpart c (hparts c hmem)).outside

theorem undisturbed_orZero {c : Node} (hc : Undisturbed c) : Undisturbed (orZero c) := by
  refine (undisturbed_iff (by simp [orZero, Node.call]) (by simp [orZero, Node.call]) (by simp [orZero, Node.call])).mpr ?_
  simpa [orZero, Node.call, children] using ⟨hc, inherited_number structural_undisturbed.inherited _⟩

/-- **An aggregate** of arguments and a condition without windowed calls. -/
theorem undisturbed_aggregateNode {env : Env} {ctx : Context} {call : AggregateCall}
    (hfields : FieldsHave Undisturbed env ctx)
    (hargs : ∀ i ∈ call.args ++ call.filter.toList, ∀ n, ctx.field env i = .ok n → Unwindowed n)
    (h : aggregateNode env ctx call = .ok n) : Undisturbed n := by
  have hG := structural_undisturbed.inherited
  refine good_aggregateNode (hG.and inherited_unwindowed) hG (fun c _ => hfields c.key)
    (fun i hi m hm => ⟨hfields i m hm, hargs i hi m hm⟩) (fun _ _ hargs => undisturbed_aggregate hargs)
    (fun {c condition} hc hcondition => ?_) (fun hc hitems => ?_) undisturbed_orZero h
  · have hwhere : Undisturbed (Node.wrap .where condition) ∧ Unwindowed (Node.wrap .where condition) :=
      ⟨inherited_wrap hG rfl hcondition.1, inherited_wrap inherited_unwindowed rfl hcondition.2⟩
    have hmem : ∀ p ∈ (filtered c condition).args, p = ("this", .node c)
        ∨ p = ("expression", .node (Node.wrap .where condition)) := by simp [filtered]
    refine ⟨(windowsOutside_iff _).mpr ⟨fun p hp d hd => ?_, fun d hd => ?_⟩, fun hkind => by cases hkind⟩
    · rcases hmem p hp with rfl | rfl
      · obtain rfl := List.mem_singleton.mp hd
        exact ⟨fun hkind _ => (unwindowed_children_iff d).mpr (hc.arguments hkind), fun _ hkey => by simp at hkey⟩
      · obtain rfl := List.mem_singleton.mp hd
        exact ⟨fun hkind => by simp [Node.wrap, Node.is] at hkind, fun _ _ => hwhere.2⟩
    · obtain ⟨p, hp, hd⟩ := List.mem_flatMap.mp hd
      rcases hmem p hp with rfl | rfl
      · exact (List.mem_singleton.mp hd) ▸ hc.outside
      · exact (List.mem_singleton.mp hd) ▸ hwhere.1.outside
  · refine (undisturbed_iff (by simp [withinGroup]) (by simp [withinGroup]) (by simp [withinGroup])).mpr ?_
    simpa [withinGroup, children] using ⟨hc, inherited_order hG hitems⟩

/-! ## Results -/

variable {env : Env} {sub : Rel → ConvertM Node} {rel : Rel} {x : Result} {b : Builder}

/-- **`Displayed`** — the aggregates in the query of a result are undisturbed, and its select list has the shapes of the
columns. -/
structure Displayed (rel : Rel) (r : Result) : Prop where
  assembled : Assembled Undisturbed r
  shaped : ListShaped rel.shapes r.node
  used : r.node.selectList? ≠ none → r.clauses ≠ []

/-- A query in an expression. -/
structure Enclosed (q : Node) : Prop where
  undisturbed : Undisturbed q
  unwindowed : Unwindowed q

/-- **The arguments of an aggregation** have no windowed calls, because the rule sees them where there are any. -/
theorem Displayed.argument (hcapable : env.dialect.capabilities.windowInAggregate = false) (henv : env.fieldMap = [])
    {input : Rel} (hx : Displayed input x) {keys : List Ordinal} {sets : List (List Ordinal)} {calls : List AggregateCall}
    {ignores : Bool} (hrel : rel = .aggregate input keys sets calls)
    (hb : OpenedAs env (x.expecting [.groupBy] ignores) rel b) {call : AggregateCall} (hcall : call ∈ calls) {i : Ordinal}
    (hi : i ∈ call.args) (hseen : ColumnShape.at input.shapes i ≠ .hidden) (hn : b.context.field env i = .ok n) :
    Unwindowed n := by
  rcases hb.context with ⟨items, byName, grouped, hwrap, hkind, -, hlist, hctx⟩ | ⟨-, inputs, qualified, hctx⟩
  · change x.node.kind = .select at hkind
    change x.node.selectList? = some items at hlist
    subst hrel
    have hused : (x.expecting [.groupBy] ignores).clauses ≠ [] := hx.used (by simp [hlist])
    have hrule := middleRule_ne_true hused (by simp [qualifyOverWindow, wrapCheck]) hwrap
      (by simp [middleRules] : windowInAggregate ∈ middleRules)
    have hnone : (wrapCheck env (x.expecting [.groupBy] ignores) (.aggregate input keys sets calls)).hasNested calls
        WrapCheck.isWindowedOrCase = false := by
      simpa [windowInAggregate, wrapCheck, hcapable, wrapIf] using hrule
    rw [hctx] at hn
    simp only [Context.field] at hn
    split at hn
    · rename_i item hitem
      have hplain : ∀ m ∈ WrapCheck.itemOperands item, WrapCheck.isWindowedOrCase m = false := by
        have hitems : (wrapCheck env (x.expecting [.groupBy] ignores) (.aggregate input keys sets calls)).items?
            = some items := by
          simp [WrapCheck.items?, WrapCheck.itemsOf, wrapCheck, Result.expecting, Node.is, hkind, hlist]
        simp only [WrapCheck.hasNested, hitems, List.any_eq_false] at hnone
        have := hnone i (List.mem_flatMap.mpr ⟨call, hcall, hi⟩)
        simpa [hitem] using this
      -- a windowed call would be the operand of the item
      have hshape : ItemHasShape (ColumnShape.at input.shapes i) item := by
        unfold ColumnShape.at
        unfold nth? at hitem
        cases hk : i.nat? with
        | none => simp [hk] at hitem
        | some k =>
          rw [hk] at hitem
          exact hx.shaped items hlist k item hitem
      have hclear : Unwindowed item := by
        cases hs : ColumnShape.at input.shapes i with
        | clear =>
          rw [hs] at hshape
          exact hshape
        | hidden => exact absurd hs hseen
        | seen =>
          rw [hs] at hshape
          rcases hshape with hitem | ⟨hkind, m, hthis, hcalls⟩
          · exact hitem
          · have := hplain m (by simp [WrapCheck.itemOperands, hkind, hthis])
            rw [hcalls] at this
            cases this
      have hfield : HasShape .clear n := (show ItemHasShape .clear item from hclear).field hn
      exact hfield
    · cases hn
  · rw [hctx] at hn
    exact hasColumns_unwindowed.aliasField henv inputs qualified i n hn

/-! ## Operators -/

/-- A projection that passes its input through refers to each of its columns in turn. -/
theorem inputRef_of_isIdentity {input : Rel} {projects : List Expr} {fields : RowType}
    (h : isIdentity input projects fields = true) {i : Nat} {e : Expr} (he : projects[i]? = some e) :
    ∃ t, e = .inputRef (i : Nat) t := by
  simp only [isIdentity, Bool.and_eq_true, List.all_eq_true] at h
  have := h.1.2 (e, i) (List.mk_mem_zipIdx_iff_getElem?.mpr he)
  cases e <;> simp_all [Scalar.inputRef?]

/-- What stands beside an element at a position. -/
theorem exists_left_of_forall₂ {α β : Type} {R : α → β → Prop} {as : List α} {bs : List β} (h : List.Forall₂ R as bs)
    {i : Nat} {b : β} (hb : bs[i]? = some b) : ∃ a, as[i]? = some a ∧ R a b := by
  induction h generalizing i with
  | nil => simp at hb
  | cons hab _ ih =>
    cases i with
    | zero =>
      obtain rfl := by simpa using hb
      exact ⟨_, rfl, hab⟩
    | succ i => exact ih (by simpa using hb)

theorem KeepsList.listShaped {r : Result} {expected : List Clause} {ignores : Bool} {shapes : Nat → ColumnShape}
    (h : KeepsList env (x.expecting expected ignores) rel r) (hx : ListShaped shapes x.node) : ListShaped shapes r.node := by
  obtain ⟨b, hb, -, hlist⟩ := h
  intro items hitems
  rw [hlist] at hitems
  rcases hb.context with ⟨-, -, -, -, -, hsame, -, -⟩ | ⟨hnone, -⟩
  · rw [hsame] at hitems
    exact hx items hitems
  · rw [hnone] at hitems
    cases hitems

section Operators

variable (hd : env.dialect.targetFunctions.all (!·.operator.isAggregate) = true) (henv : env.fieldMap = [])
  (hsub : ∀ rel, rel.satisfies windowsSeen = true → Maintains OnlyColumns Enclosed (sub rel))

include hd henv hsub

/-- **Expressions** are written without disturbing aggregates. -/
theorem admits_undisturbed {ctx : Context} {fields : Bool} (hfields : FieldsHave Undisturbed env ctx) :
    Admits env sub OnlyColumns Undisturbed ctx (fun e => e.satisfies windowsSeen fields = true) where
  inherited := structural_undisturbed.inherited
  closed := partClosed_satisfies _ _
  field := fun _ hn => hfields _ _ hn
  correlated := fun _ => maintains_correlatedField structural_undisturbed.hasColumns henv _ _
  patternField := fun _ => structural_undisturbed.hasColumns.patternField
  query := fun he => (hsub _ (satisfies_of_subQuery he)).mono fun _ hq => hq.undisturbed
  call := fun he hwritten _ hns => by
    rw [isAggregate_of_retarget hd (mayAggregate_of_satisfies he) hwritten]
    refine (undisturbed_iff (by simp [Node.call]) (by simp [Node.call]) (by simp [Node.call])).mpr ?_
    simpa [Node.call, children] using hns
  windowed := fun _ _ _ has _ hps _ hos hframe => by
    refine good_windowedNode (fun name => undisturbed_overNode fun c hc => ?_) undisturbed_orZero
    simp only [List.mem_append, Option.mem_toList] at hc
    rcases hc with ((hc | hc) | hc) | hc
    · exact has c hc
    · exact hps c hc
    · exact hos c hc
    · exact (hframe c hc).2

theorem displayed_filterResult {input : Rel} {condition : Expr} {ids : List String}
    (hrel : rel = .filter input condition ids) (hx : Displayed input x)
    (hcondition : condition.satisfies windowsSeen true = true) :
    Maintains OnlyColumns (Displayed rel) (filterResult env sub input condition ids rel x) := by
  have hG := structural_undisturbed
  refine (assembled_filterResult hG ids hx.assembled fun b hb => ?_).mono fun r hr => ⟨hr.1, ?_, fun _ => ?_⟩
  · exact inherited_scalarNode (admits_undisturbed hd henv hsub (hb.fields hG henv hx.assembled.good)) condition hcondition
  · subst hrel
    exact hr.2.listShaped hx.shaped
  · exact List.ne_nil_of_mem (hr.2.mem_expected (List.mem_singleton_self _))

/-- **A projection** gives its columns the shapes of their expressions. -/
theorem displayed_projectResult {input : Rel} {projects : List Expr} {names : List String} {distinct : Bool}
    {ids : List String} (hrel : rel = .project input projects names distinct ids) (hx : Displayed input x)
    (hprojects : ∀ e ∈ projects, e.satisfies windowsSeen true = true) :
    Maintains OnlyColumns (Displayed rel) (projectResult env sub input projects distinct ids rel x) := by
  have hG := structural_undisturbed
  refine (assembled_projectResult hG (fun _ e n => HasShape (e.shape input.shapes) n) distinct ids
    hx.assembled fun b hb e he => ?_).mono ?_
  · have hadmits : Admits env sub OnlyColumns Undisturbed b.context (fun e => e.satisfies windowsSeen true = true) :=
      admits_undisturbed hd henv hsub (hb.fields hG henv hx.assembled.good)
    have hshape := hasShape_scalarNode henv (hb.fieldsShaped henv hx.shaped)
      (fun rel hrel => (hsub rel hrel).mono fun _ hq => hq.unwindowed) hadmits (hprojects e he)
    have hboth := (inherited_scalarNode hadmits e (hprojects e he)).and_imp fun _ : True => hshape
    refine .bind hboth fun n hn => .pure ?_
    split
    · exact ⟨inherited_typedNull hG.inherited _ _, .of_unwindowed (inherited_typedNull inherited_unwindowed _ _) _⟩
    · exact ⟨hn.1, hn.2 trivial⟩
  · subst hrel
    rintro r ⟨hr, ⟨hidentity, hkept⟩ | hlisted⟩
    · refine ⟨hr, fun items hitems i item hitem => ?_, fun _ => List.ne_nil_of_mem (hkept.mem_expected (List.mem_singleton_self _))⟩
      have hshape := hkept.listShaped hx.shaped items hitems i item hitem
      rw [Rel.shapes]
      cases hproject : projects[i]? with
      | none => trivial
      | some e =>
        obtain ⟨t, rfl⟩ := inputRef_of_isIdentity hidentity hproject
        rwa [Option.map_some, Option.getD_some, Scalar.shape_inputRef, ColumnShape.at_nat]
    · refine ⟨hr, fun items hitems i item hitem => ?_, fun _ => List.ne_nil_of_mem (hlisted.mem_expected (List.mem_singleton_self _))⟩
      obtain ⟨b, items', -, -, hlist, ns, hns, -, rfl⟩ := hlisted
      rw [hlist, Option.some.injEq] at hitems
      subst hitems
      refine itemHasShape_namedItems (fun k n hn => ?_) hitem
      obtain ⟨e, he, hshape⟩ := exists_left_of_forall₂ hns hn
      rw [Rel.shapes, he]
      exact hshape

omit hd hsub in
/-- **An aggregation** gives its keys the shapes that they have, and its calls have no windowed calls in them. -/
theorem displayed_aggregateResult (hcapable : env.dialect.capabilities.windowInAggregate = false) {input : Rel}
    {keys : List Ordinal} {sets : List (List Ordinal)} {calls : List AggregateCall}
    (hrel : rel = .aggregate input keys sets calls) (hseen : takesSeen rel = true) (hx : Displayed input x) :
    Maintains OnlyColumns (Displayed rel) (aggregateResult env keys sets calls rel x) := by
  have hG := structural_undisturbed
  subst hrel
  simp only [takesSeen, List.all_eq_true, Bool.and_eq_true, bne_iff_ne] at hseen
  have hargument : ∀ b, OpenedAs env (x.expecting [.groupBy] (ignoresClauses (.aggregate input keys sets calls)))
      (.aggregate input keys sets calls) b → ∀ call ∈ calls, ∀ i ∈ call.args ++ call.filter.toList, ∀ n,
        b.context.field env i = .ok n → Unwindowed n := by
    intro b hb call hcall i hi n hn
    obtain ⟨hargs, hfilter⟩ := hseen call hcall
    rcases List.mem_append.mp hi with hi | hi
    · exact hx.argument hcapable henv rfl hb hcall hi (hargs i hi) hn
    · have hclear : ColumnShape.at input.shapes i = .clear := by
        rw [Option.mem_toList.mp hi] at hfilter
        simpa using hfilter
      have := hb.fieldsShaped henv hx.shaped i n hn
      rwa [hclear] at this
  refine (assembled_aggregateResult hG henv hx.assembled fun b hb call hcall n hn => ?_).mono ?_
  · exact undisturbed_aggregateNode (hb.fields hG henv hx.assembled.good) (hargument b hb call hcall) hn
  · rintro r ⟨hr, hlisted⟩
    refine ⟨hr, fun items hitems i item hitem => ?_, fun _ => List.ne_nil_of_mem (hlisted.mem_expected (List.mem_singleton_self _))⟩
    obtain ⟨b, items', hb, -, hlist, ks, ns, hks, hns, hmade⟩ := hlisted
    rw [hlist, Option.some.injEq] at hitems
    subst hitems
    rcases hmade with rfl | ⟨-, rfl⟩
    · refine itemHasShape_namedItems (fun k n hn => ?_) hitem
      have hfields := hb.fieldsShaped henv hx.shaped
      have hkeys := (mapM_eq_ok_iff _ _ _).mp hks
      rw [Rel.shapes]
      by_cases hkey : k < ks.length
      · rw [List.getElem?_append_left hkey] at hn
        obtain ⟨key, hkey, hfield⟩ := exists_left_of_forall₂ hkeys hn
        rw [hkey]
        exact hfields key n hfield
      · rw [List.getElem?_append_right (by omega)] at hn
        obtain ⟨call, hcall, hcalled⟩ := exists_left_of_forall₂ ((mapM_eq_ok_iff _ _ _).mp hns) hn
        rw [List.getElem?_eq_none (by rw [hkeys.length_eq]; omega), hkeys.length_eq, hcall]
        dsimp only
        split
        · rename_i hsorted
          simp only [List.all_eq_true, beq_iff_eq] at hsorted
          refine unwindowed_aggregateNode (fun c hc m hm => ?_)
            (hargument b hb call (List.mem_of_getElem? hcall)) hcalled
          have := hfields c.key m hm
          rwa [hsorted c hc] at this
        · trivial
    · obtain ⟨-, rfl⟩ : i = 0 ∧ Node.number "1" = item := by simpa [List.getElem?_singleton] using hitem
      exact .of_unwindowed (inherited_number inherited_unwindowed _) _

end Operators

/-! ## Plans -/

section Plans

variable (hd : env.dialect.targetFunctions.all (!·.operator.isAggregate) = true) (henv : env.fieldMap = [])
  (hcapable : env.dialect.capabilities.windowInAggregate = false)

include hd henv hcapable

/-- **`relationResult`** — a plan whose windowed calls can be seen is displayed. -/
theorem displayed_relationResult (hsub : ∀ rel, rel.satisfies windowsSeen = true → Maintains OnlyColumns Enclosed (sub rel))
    (root : Bool) : ∀ rel : Rel, rel.satisfies windowsSeen = true →
    Maintains OnlyColumns (Displayed rel) (relationResult env sub root rel)
  | .scan table fields, _ => by
    rw [relationResult]
    refine (assembled_scanResult structural_undisturbed).mono fun r hr => ⟨hr.1, fun items hitems => ?_, fun hlist => ?_⟩
    · rw [hr.2] at hitems
      cases hitems
    · exact absurd hr.2 hlist
  | .filter input condition ids, hrel => by
    simp only [Rel.satisfies, Bool.and_eq_true] at hrel
    obtain ⟨⟨-, hinput⟩, hcondition⟩ := hrel
    rw [relationResult]
    refine .bind (displayed_relationResult hsub false input hinput) fun x hx => ?_
    exact displayed_filterResult hd henv hsub rfl hx hcondition
  | .project input projects names distinct ids, hrel => by
    simp only [Rel.satisfies, Bool.and_eq_true, Scalar.allSatisfy_iff] at hrel
    obtain ⟨⟨-, hinput⟩, hprojects⟩ := hrel
    rw [relationResult]
    refine .bind (displayed_relationResult hsub false input hinput) fun x hx => ?_
    exact displayed_projectResult hd henv hsub rfl hx hprojects
  | .aggregate input keys sets calls, hrel => by
    simp only [Rel.satisfies, Bool.and_eq_true] at hrel
    rw [relationResult]
    refine .bind (displayed_relationResult hsub false input hrel.2) fun x hx => ?_
    exact displayed_aggregateResult henv hcapable rfl hrel.1 hx
  | .join left right condition type ids, hrel => by simp [Rel.satisfies, windowsSeen, PlanCheck.ofRelations, takesSeen] at hrel
  | .setOp op all inputs, hrel => by simp [Rel.satisfies, windowsSeen, PlanCheck.ofRelations, takesSeen] at hrel
  | .sort input collation offset fetch, hrel => by
    simp [Rel.satisfies, windowsSeen, PlanCheck.ofRelations, takesSeen] at hrel
  | .window input groups constants names, hrel => by
    simp [Rel.satisfies, windowsSeen, PlanCheck.ofRelations, takesSeen] at hrel
  | .values fields tuples, hrel => by simp [Rel.satisfies, windowsSeen, PlanCheck.ofRelations, takesSeen] at hrel
  | .tableFunction inputs call fields, hrel => by
    simp [Rel.satisfies, windowsSeen, PlanCheck.ofRelations, takesSeen] at hrel
  | .rowPattern input spec, hrel => by simp [Rel.satisfies, windowsSeen, PlanCheck.ofRelations, takesSeen] at hrel

/-- **`queryAt`** — so are its sub-queries, of any depth. -/
theorem enclosed_queryAt (depth : Nat) (root : Bool) {rel : Rel} (hrel : rel.satisfies windowsSeen = true) :
    Maintains OnlyColumns Enclosed (queryAt env depth root rel) := by
  have hquery : ∀ {rel : Rel} {r : Result}, Displayed rel r → Maintains OnlyColumns Enclosed (r.asQuery env) :=
    fun {rel r} hr => .of_spares (fun _ => r.steady_asQuery) fun s n s' h =>
      ⟨structural_undisturbed.returned hr.assembled.good (returned_asQuery h), .of_query (isQuery_of_asQuery h)⟩
  induction depth generalizing root rel with
  | zero =>
    unfold queryAt
    refine .bind (displayed_relationResult hd henv hcapable (fun _ _ => .pure ?_) root rel hrel) fun r => hquery
    exact ⟨inherited_null structural_undisturbed.inherited, inherited_null inherited_unwindowed⟩
  | succ depth ih =>
    unfold queryAt
    exact .bind (displayed_relationResult hd henv hcapable (fun rel hrel => ih false hrel) root rel hrel) fun r => hquery

end Plans

/-- **`statement`** — where a dialect has no windowed calls in aggregates, there are none in the statement for a plan
of filters, projections and aggregations, if the aggregations take columns in which windowed calls can be seen. -/
theorem statement_windowsOutside {d : Dialect} (hd : d ∈ Dialect.all) {capabilities : Capabilities}
    (hcapable : capabilities.windowInAggregate = false) {rel : Rel} (hrel : rel.satisfies windowsSeen = true) {n : Node}
    (hn : statement { d with capabilities } rel = .ok n) : WindowsOutside n := by
  have htargets := targets_plain hd
  rw [statement_eq, ConvertM.value_eq_ok_iff] at hn
  obtain ⟨s, hn⟩ := hn
  rw [planStatement, planResult, ConvertM.gives_bind] at hn
  obtain ⟨r, s₁, hr, hn⟩ := hn
  have hdisplayed : Displayed rel r :=
    (displayed_relationResult htargets rfl hcapable
      (fun sub hsub => enclosed_queryAt htargets rfl hcapable _ false hsub) true rel hrel {} r s₁ onlyColumns_start hr).2
  exact (structural_undisturbed.returned hdisplayed.assembled.good (returned_asStatement hn)).outside

/-- Prices and their ranks. -/
def rankedPrices : Rel :=
  .project (.scan ["orders"] [⟨"customer", DataType.integer⟩, ⟨"price", DataType.integer⟩])
    [.inputRef (.whole 0) DataType.integer,
      .overWindow Operator.rank [] { order := [⟨.inputRef (.whole 1) DataType.integer, .descending, .last⟩] } false
        DataType.integer]
    ["customer", "place"] false []

/-- The best rank of each customer. -/
def bestRanks : Rel :=
  .aggregate rankedPrices [.whole 0] [[.whole 0]] [{ op := Operator.min, args := [.whole 1], name := some "best" }]

/-- The ranks are computed before the best of them is looked for. -/
theorem statement_windowsOutside_bestRanks : ∃ n, statement Dialect.bigQuery bestRanks = .ok n ∧ WindowsOutside n := by
  have hok : (statement Dialect.bigQuery bestRanks).toOption.isSome = true := by decide +kernel
  cases hn : statement Dialect.bigQuery bestRanks with
  | error e => simp [hn, Except.toOption] at hok
  | ok n =>
    have hcapable : Dialect.bigQuery.capabilities.windowInAggregate = false := rfl
    exact ⟨n, rfl, statement_windowsOutside (d := Dialect.bigQuery) (by simp [Dialect.all]) hcapable (by decide +kernel) hn⟩

/-- The sum of prices and their ranks. -/
def sumWithRanks : Rel :=
  .aggregate
    (.project (.scan ["t"] [⟨"a", DataType.integer⟩])
      [.call Operator.plus [.inputRef (.whole 0) DataType.integer,
        .overWindow Operator.rank [] { order := [⟨.inputRef (.whole 0) DataType.integer, .ascending, .last⟩] } false
          DataType.integer] DataType.integer]
      ["v"] false [])
    [] [[]] [{ op := Operator.sum, args := [.whole 0], name := some "s" }]

/-- A rank that is an operand of a sum is not seen, and gets into the aggregate. -/
theorem sumWithRanks_not_windowsOutside :
    ∃ n, statement Dialect.bigQuery sumWithRanks = .ok n ∧ ¬WindowsOutside n := by
  have hn : (statement Dialect.bigQuery sumWithRanks).toOption.map (fun n => decide (WindowsOutside n)) = some false := by
    decide +kernel
  cases hn' : statement Dialect.bigQuery sumWithRanks with
  | error e => simp [hn', Except.toOption] at hn
  | ok n =>
    refine ⟨n, rfl, ?_⟩
    simpa [hn', Except.toOption] using hn

end Convert

end AlgebraSql
