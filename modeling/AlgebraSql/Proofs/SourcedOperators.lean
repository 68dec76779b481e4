import AlgebraSql.Proofs.SettledSources
import AlgebraSql.Proofs.SoundInputs
import AlgebraSql.Proofs.CallScopes

/-!
# Sources of operators — what each operator makes of the sources of its inputs.

An operator opens the query of its input, converts expressions and puts them into clauses.  The queries in
these expressions bring names that differ from those of the sources of the query, so that the query stays
settled; then it is recorded under a new name.  A join puts two queries beside each other whose names differ,
because the name of the second one was given away after that of the first.
-/

namespace AlgebraSql.Convert

open Sql Node

variable {α : Type} {env : Env} {sub : Rel → ConvertM Node} {L : Level} {s₀ s s' t : State} {ctx : Context}
  {n m : Node}

/-! ## Conversions of a level -/

/-- **`Converts`** — what a level needs of the conversion: no field is qualified or renamed, and the queries in
expressions have sound sources. -/
structure Level.Converts (L : Level) (env : Env) (sub : Rel → ConvertM Node) : Prop where
  never : env.NeverQualifies
  unmapped : env.fieldMap = []
  required : L.required = true → env.dialect.capabilities.fromAliasRequired = true
  grow : ∀ rel, Grow (sub rel)
  queries : QueriesSourced L.assumed L.required sub

/-- An expression whose queries are clear of the level. -/
def Level.Clear (L : Level) (fields : Bool) (e : Expr) : Prop := L.assumed → ClearExpr L.reads [L.tables] fields e

theorem Level.clear_literal (fields : Bool) (l : Literal) : L.Clear fields (.literal l) :=
  fun _ => ⟨rfl, rfl, fun _ _ => rfl⟩

theorem Level.clear_inputRef (fields : Bool) (i : Ordinal) (t : DataType) : L.Clear fields (.inputRef i t) :=
  fun _ => ⟨rfl, rfl, fun _ _ => rfl⟩

/-- A memory on the way of a conversion. -/
structure OnTheWay (s₀ s : State) : Prop where
  columns : OnlyColumns s
  before : s₀.usedNames ⊆ s.usedNames

theorem OnTheWay.start (hs : OnlyColumns s) : OnTheWay s s := ⟨hs, List.Subset.refl _⟩

theorem OnTheWay.step {c : ConvertM α} {a : α} (h : OnTheWay s₀ s) (hc : Grow c) (hgives : c.Gives s a s') :
    OnTheWay s₀ s' ∧ s.usedNames ⊆ s'.usedNames :=
  ⟨⟨hc.onlyColumns hgives h.columns, List.Subset.trans h.before (hc.subset hgives)⟩, hc.subset hgives⟩

/-! ## Open queries -/

theorem FitsIn.later {c : Node} (h : FitsIn L s₀ s n c) (hafter : s.usedNames ⊆ s'.usedNames) : FitsIn L s₀ s' n c :=
  h.mono fun _ hv => ⟨hv.1.mono (List.Subset.refl _) hafter, hv.2.1.mono (List.Subset.refl _) hafter, hv.2.2⟩

/-- Only the names of its sources decide what fits into a query. -/
theorem FitsIn.of_sourceNames {c : Node} (hnames : m.sourceNames = n.sourceNames) (h : FitsIn L s₀ s n c) :
    FitsIn L s₀ s m c := h.mono fun _ hv => by rwa [hnames]

theorem inherited_fitsIn : Inherited (FitsIn L s₀ s n) := inherited_sourced

/-- **`Host`** — a settled query, or FROM item, and a context whose fields fit into it. -/
structure Host (L : Level) (env : Env) (s₀ s : State) (ctx : Context) (n : Node) : Prop extends OnTheWay s₀ s where
  settled : Settled L s₀ s n
  fields : FieldsHave (FitsIn L s₀ s n) env ctx

namespace Host

theorem later (h : Host L env s₀ s ctx n) (hs : OnTheWay s₀ s') (hafter : s.usedNames ⊆ s'.usedNames) :
    Host L env s₀ s' ctx n := ⟨hs, h.settled.later hafter, fun i c hc => (h.fields i c hc).later hafter⟩

/-- **`convert`** — expressions are converted while a query is open.  The conversion is looked at with queries that
keep to the names in use at its end; there every expression of the level has only sources that fit. -/
theorem convert (fields : Bool) (post : State → α → Prop) {c : ConvertM α} (c' : UsedNames → ConvertM α) {a : α}
    (hL : L.Converts env sub) (h : Host L env s₀ s ctx n) (hsteady : ∀ bound, Steady (growing bound) c (c' bound))
    (hc : ∀ s', Admits env (below s'.usedNames sub) (fun t => OnlyColumns t ∧ s.usedNames ⊆ t.usedNames)
        (FitsIn L s₀ s' n) ctx (L.Clear fields) →
      Maintains (fun t => OnlyColumns t ∧ s.usedNames ⊆ t.usedNames) (post s') (c' s'.usedNames))
    (hgives : c.Gives s a s') : Host L env s₀ s' ctx n ∧ post s' a := by
  obtain ⟨hafter, hcolumns⟩ := (hsteady [] s a s' hgives).1
  refine ⟨h.later ⟨hcolumns h.columns, List.Subset.trans h.before hafter⟩ hafter, ?_⟩
  refine post_of_steady (hsteady s'.usedNames) (hc s' ?_) h.columns hgives
  refine admits_sourced hL.unmapped hL.grow hL.queries (fun i c hc => (h.fields i c hc).later hafter) fun v hbrings havoids => ?_
  exact h.settled.fits_name h.before hafter (.inr ⟨hbrings, havoids L.tables (by simp)⟩)

/-- **An expression** fits into the query that is open. -/
theorem scalarNode {fields : Bool} {e : Expr} (hL : L.Converts env sub) (h : Host L env s₀ s ctx n) (he : L.Clear fields e)
    (hgives : (Convert.scalarNode env sub ctx e).Gives s m s') :
    Host L env s₀ s' ctx n ∧ FitsIn L s₀ s' n m := by
  refine convert fields (fun s' => FitsIn L s₀ s' n) (fun bound => Convert.scalarNode env (below bound sub) ctx e) hL h
    (fun bound => ?_) (fun s' hadmits => inherited_scalarNode hadmits e he) hgives
  exact steady_scalarNode (steady_below hL.grow bound) ctx fields e (Scalar.satisfies_trivial (trivial_growing bound) fields e)

end Host

/-- **`HostQuery`** — an open SELECT without an alias, into which clauses can be put. -/
structure HostQuery (L : Level) (env : Env) (s₀ s : State) (ctx : Context) (n : Node) : Prop extends Host L env s₀ s ctx n where
  kind : n.kind = .select
  plain : isPlainQuery n = true

namespace HostQuery

/-- **`put`** — a clause with nodes that fit is put into the query. -/
theorem put (h : HostQuery L env s₀ s ctx n) {key : String} (hkey : key ≠ "from" ∧ key ≠ "alias") {a : Arg}
    (ha : ∀ c ∈ a.children, FitsIn L s₀ s n c) : HostQuery L env s₀ s ctx (n.set key (some a)) := by
  have hnames := sourceNames_set h.kind hkey.1 a
  refine ⟨⟨h.toOnTheWay, h.settled.set h.kind hkey.1 ha, fun i c hc => ?_⟩, by simpa using h.kind,
    isPlainQuery_set h.plain hkey.2 a⟩
  exact .of_sourceNames hnames (h.fields i c hc)

/-- A select list of nodes that fit is put into the query. -/
theorem putList (h : HostQuery L env s₀ s ctx n) {items : List Node} (hitems : ∀ item ∈ items, FitsIn L s₀ s n item) :
    HostQuery L env s₀ s ctx (n.set "expressions" (some (.nodes items))) :=
  h.put (a := .nodes items) (by decide) (by simpa using hitems)

/-- A clause around a node that fits is put into the query. -/
theorem putWrapped (h : HostQuery L env s₀ s ctx n) {key : String} (hkey : key ≠ "from" ∧ key ≠ "alias") {kind : Kind}
    (hkind : passesOn kind = false) {c : Node} (hc : FitsIn L s₀ s n c) :
    HostQuery L env s₀ s ctx (n.set key (some (.node (Node.wrap kind c)))) := by
  refine h.put (a := .node (Node.wrap kind c)) hkey fun m hm => ?_
  obtain rfl : m = Node.wrap kind c := by simpa using hm
  exact sourced_wrap hkind hc

/-- A query that is open stays one while expressions are converted. -/
theorem convert (fields : Bool) (post : State → α → Prop) {c : ConvertM α} (c' : UsedNames → ConvertM α) {a : α}
    (hL : L.Converts env sub) (h : HostQuery L env s₀ s ctx n) (hsteady : ∀ bound, Steady (growing bound) c (c' bound))
    (hc : ∀ s', Admits env (below s'.usedNames sub) (fun t => OnlyColumns t ∧ s.usedNames ⊆ t.usedNames)
        (FitsIn L s₀ s' n) ctx (L.Clear fields) →
      Maintains (fun t => OnlyColumns t ∧ s.usedNames ⊆ t.usedNames) (post s') (c' s'.usedNames))
    (hgives : c.Gives s a s') : HostQuery L env s₀ s' ctx n ∧ post s' a := by
  obtain ⟨hhost, hpost⟩ := h.toHost.convert fields post c' hL hsteady hc hgives
  exact ⟨⟨hhost, h.kind, h.plain⟩, hpost⟩

theorem scalarNode {fields : Bool} {e : Expr} (hL : L.Converts env sub) (h : HostQuery L env s₀ s ctx n)
    (he : L.Clear fields e) (hgives : (Convert.scalarNode env sub ctx e).Gives s m s') :
    HostQuery L env s₀ s' ctx n ∧ FitsIn L s₀ s' n m := by
  obtain ⟨hhost, hm⟩ := h.toHost.scalarNode hL he hgives
  exact ⟨⟨hhost, h.kind, h.plain⟩, hm⟩

/-- The condition that a clause has fits into the query. -/
theorem alongside {b : Builder} (h : HostQuery L env s₀ s ctx b.select) {key : String} (hkey : key ≠ "from") {c : Node}
    (hc : FitsIn L s₀ s b.select c) : FitsIn L s₀ s b.select (b.alongside key c) := by
  unfold Builder.alongside
  split
  · rename_i existing hexisting
    have hfits : FitsIn L s₀ s b.select existing := (h.settled.condition h.kind hkey hexisting).mono fun v hv =>
      h.settled.fits_name h.before (List.Subset.refl _) (.inl hv)
    exact inherited_and inherited_fitsIn (by simpa using ⟨hfits, hc⟩)
  · exact hc

/-- **`result`** — the query is recorded. -/
theorem result (henv : env.NeverQualifies) {b : Builder} (h : HostQuery L env s₀ s ctx b.select) {r : Result}
    (hgives : (b.result env).Gives s r s') : Placed L s₀ s' r := by
  refine placed_makeResult henv h.before (h.settled.later (subset_afterRecording _ _ _)) (aliasOf?_select h.kind)
    (.inl h.plain) (fun v hv => (h.settled.inner v hv).1) (fun hkind => ?_) hgives
  rw [h.kind] at hkind
  cases hkind

end HostQuery

/-- **A placed result is opened.** -/
theorem Placed.open {x : Result} {rel : Rel} {b : Builder} (hL : L.Converts env sub) (hx : Placed L s₀ s x)
    (hs : OnTheWay s₀ s) (hb : (x.builder env rel).Gives s b s') : HostQuery L env s₀ s' b.context b.select := by
  obtain ⟨hs', -⟩ := hs.step (fun _ => x.steady_builder rel) hb
  obtain ⟨hsettled, hkind⟩ := hx.builder hL.never hL.required hs.before hb
  have hopened := openedAs_builder hb
  have hplain : isPlainQuery b.select = true := by
    rcases hopened.select with ⟨hselect, hsame⟩ | ⟨item, hitem, -⟩
    · rw [hsame]
      rcases hx.form with hform | hform | hform
      · exact hform
      · simp [isReadable, hselect] at hform
      · rw [hselect] at hform
        cases hform
    · rw [hitem]
      exact isPlainQuery_selectFrom item
  refine ⟨⟨hs', hsettled, ?_⟩, hkind, hplain⟩
  rcases hopened.context with ⟨items, byName, grouped, -, -, hsame, hlist, hctx⟩ | ⟨-, inputs, qualified, hctx⟩
  · -- the fields are items of the select list
    have hitems : ∀ item ∈ items, Sourced L.assumed L.required (· ∈ b.select.innerSources) item := by
      intro item hitem
      rw [← hsame] at hlist
      exact hsettled.clause hkind (mem_args_of_list? hlist) (by simp) (by simpa using hitem)
    rw [hctx]
    intro i c hc
    refine (inherited_sourced.itemField ?_ hitems byName grouped i c hc).mono fun v hv =>
      hsettled.fits_name hs'.before (List.Subset.refl _) (.inl hv)
    intro n c hn hgood hthis
    exact (sourced_iff (by rw [hn]; rfl)).mp hgood c (List.mem_flatMap.mpr ⟨_, mem_args_of_child? hthis, by simp⟩)
  · rw [hctx]
    exact hasColumns_sourced.aliasField hL.unmapped inputs qualified

/-- Rows around are declared without a new name. -/
theorem OnTheWay.register {ids : List String} {inputs : Aliases} {u : Unit} (hs : OnTheWay s₀ s)
    (h : (registerCorrelations ids inputs).Gives s u s') : OnTheWay s₀ s' ∧ s.usedNames ⊆ s'.usedNames :=
  hs.step (fun _ => steady_registerCorrelations (fun _ _ => rfl) inputs) h

/-! ## Operators on one input -/

section Operators

variable {input rel : Rel} {x r : Result} {ids : List String}

/-- **A filter** puts its condition into a clause. -/
theorem placed_filterResult {condition : Expr} (hL : L.Converts env sub) (hx : Placed L s₀ s x) (hs : OnTheWay s₀ s)
    (hcondition : L.Clear true condition) (h : (filterResult env sub input condition ids rel x).Gives s r s') :
    Placed L s₀ s' r := by
  simp only [filterResult, ConvertM.gives_bind, ConvertM.gives_lift] at h
  obtain ⟨u, s₁, hdeclared, b, s₂, hb, n, s₃, hn, b', s₄, ⟨hb', rfl⟩, hr⟩ := h
  obtain ⟨hs₁, hused⟩ := hs.register hdeclared
  have hquery := ((hx.later hused).expecting _ _).open hL hs₁ hb
  obtain ⟨hquery, hn⟩ := hquery.scalarNode hL hcondition hn
  obtain ⟨key, kind, c, hkey, hkind, hc, rfl⟩ : ∃ key kind c, (key ≠ "from" ∧ key ≠ "alias") ∧ passesOn kind = false
      ∧ FitsIn L s₀ s₃ b.select c ∧ b' = { b with select := b.select.set key (some (.node (Node.wrap kind c))) } := by
    split at hb'
    · exact ⟨_, _, _, by decide, rfl, hquery.alongside (by decide) hn, put_eq_ok hb'⟩
    · exact ⟨_, _, _, by decide, rfl, hquery.alongside (by decide) hn, put_eq_ok hb'⟩
    · exact ⟨_, _, _, by decide, rfl, hn, put_eq_ok hb'⟩
  exact (hquery.putWrapped hkey hkind hc).result hL.never hr

/-- **A projection** sets the select list, unless it passes its input through. -/
theorem placed_projectResult {projects : List Expr} {distinct : Bool} (hL : L.Converts env sub) (hx : Placed L s₀ s x)
    (hs : OnTheWay s₀ s) (hprojects : ∀ e ∈ projects, L.Clear true e)
    (h : (projectResult env sub input projects distinct ids rel x).Gives s r s') : Placed L s₀ s' r := by
  have hresult : ∀ {t : State} {b : Builder} {m : Node}, HostQuery L env s₀ t b.context m →
      ((if distinct then Builder.setDistinct { b with select := m } else { b with select := m }).result env).Gives t r s' →
      Placed L s₀ s' r := by
    intro t b m hm hr
    split at hr
    · exact (hm.put (by decide) (a := .flag true) (by simp)).result hL.never hr
    · exact hm.result hL.never hr
  unfold projectResult at h
  obtain ⟨u, s₁, hdeclared, h⟩ := (ConvertM.gives_bind _ _ _ _ _).mp h
  obtain ⟨b, s₂, hb, h⟩ := (ConvertM.gives_bind _ _ _ _ _).mp h
  obtain ⟨hs₁, hused⟩ := hs.register hdeclared
  have hquery := ((hx.later hused).expecting _ _).open hL hs₁ hb
  by_cases hidentity : isIdentity input projects rel.fields = true
  · simp only [hidentity, if_true, pure_bind] at h
    exact hresult hquery h
  · simp only [hidentity, Bool.false_eq_true, if_false, ConvertM.gives_bind, ConvertM.gives_lift, ConvertM.gives_pure] at h
    obtain ⟨ns, s₃, hns, items, s₄, ⟨hitems, rfl⟩, b', s₅, ⟨rfl, rfl⟩, hr⟩ := h
    obtain ⟨hquery, hns⟩ := hquery.convert true (fun s' ns => ∀ n ∈ ns, FitsIn L s₀ s' b.select n)
      (fun bound => projects.mapM (projectedNode env (below bound sub) b.context)) hL
      (fun bound => .mapM _ fun e _ => .bind (steady_scalarNode (steady_below hL.grow bound) _ true e
        (Scalar.satisfies_trivial (trivial_growing bound) true e)) fun n => .pure)
      (fun s' hadmits => .mapM fun e he =>
        Maintains.projectedNode inherited_fitsIn (inherited_scalarNode hadmits e (hprojects e he))) hns
    exact hresult (hquery.putList (inherited_fitsIn.addSelects (by simp) hitems (by simp) hns).2) hr

/-- **An aggregation** lists its keys and calls, which are made of fields. -/
theorem placed_aggregateResult {keys : List Ordinal} {sets : List (List Ordinal)} {calls : List AggregateCall}
    (hL : L.Converts env sub) (hx : Placed L s₀ s x) (hs : OnTheWay s₀ s)
    (h : (aggregateResult env keys sets calls rel x).Gives s r s') : Placed L s₀ s' r := by
  simp only [aggregateResult, ConvertM.gives_bind, ConvertM.gives_lift] at h
  obtain ⟨b, s₁, hb, ks, s₂, ⟨hks, rfl⟩, named, s₃, ⟨hnamed, rfl⟩, groups, s₄, ⟨hgroups, rfl⟩, ns, s₅, ⟨hns, rfl⟩,
    items, s₆, ⟨hitems, rfl⟩, h⟩ := h
  have hquery := (hx.expecting _ _).open hL hs hb
  have hkeys : ∀ n ∈ ks, FitsIn L s₀ s₁ b.select n := forall_of_mapM hks fun i _ n hn => hquery.fields i n hn
  have hcalls : ∀ n ∈ ns, FitsIn L s₀ s₁ b.select n := by
    refine forall_of_mapM hns fun call _ n hn => good_aggregateNode inherited_fitsIn inherited_fitsIn
      (fun c _ => hquery.fields c.key) (fun i _ => hquery.fields i) ?_ ?_ ?_ ?_ hn
    · intro op name args distinct _ _ hargs
      exact (sourced_iff rfl).mpr fun c hc => hargs c (by simpa [Node.aggregate, children, Arg.children] using hc)
    · intro c condition hc hcondition
      have hwhere : FitsIn L s₀ s₁ b.select (wrap .where condition) := inherited_wrap inherited_fitsIn rfl hcondition
      exact (sourced_iff rfl).mpr (by simpa [filtered, children, Arg.children] using ⟨hc, hwhere⟩)
    · intro c items hc hitems
      have horder : FitsIn L s₀ s₁ b.select (Node.order items) := inherited_order inherited_fitsIn hitems
      exact (sourced_iff rfl).mpr (by simpa [withinGroup, children, Arg.children] using ⟨hc, horder⟩)
    · intro c hc
      refine (sourced_iff rfl).mpr ?_
      simpa [orZero, Node.call, children, Arg.children] using ⟨hc, inherited_number inherited_fitsIn "0"⟩
  obtain ⟨hlen, hlist⟩ := inherited_fitsIn.addSelects (by simp) hnamed (by simp) hkeys
  have hlisted : ∀ n ∈ (if items.isEmpty then [Node.number "1"] else items), FitsIn L s₀ s₁ b.select n := by
    intro n hn
    split at hn
    · obtain rfl := List.mem_singleton.mp hn
      exact inherited_number inherited_fitsIn "1"
    · exact (inherited_fitsIn.addSelects hlen hitems hlist hcalls).2 n hn
  have hselect := hquery.putList hlisted
  by_cases hplain : (groups.isEmpty && !calls.isEmpty) = true
  · simp only [hplain, if_true, pure_bind] at h
    exact hselect.result hL.never h
  · simp only [hplain, Bool.false_eq_true, if_false, ConvertM.gives_bind, ConvertM.gives_lift] at h
    obtain ⟨b', s₇, ⟨hb', rfl⟩, hr⟩ := h
    obtain rfl := put_eq_ok hb'
    refine (hselect.put (by decide) fun c hc => ?_).result hL.never hr
    obtain rfl : c = .mk .group [("expressions", .nodes groups)] := by simpa using hc
    have hgrouped := inherited_groupByNodes inherited_fitsIn hquery.fields hgroups
    refine .of_sourceNames (sourceNames_set hquery.kind (by decide) _) ((sourced_iff rfl).mpr fun c hc => ?_)
    exact hgrouped c (by simpa [children, Arg.children] using hc)

/-- **A sort** may list the columns of its input; its keys are made of fields, and its limits are expressions. -/
theorem placed_sortResult {root : Bool} {collation : List Collation} {offset fetch : Option Expr}
    (hL : L.Converts env sub) (hx : Placed L s₀ s x) (hs : OnTheWay s₀ s)
    (hlimits : ∀ e, offset = some e ∨ fetch = some e → L.Clear false e)
    (h : (sortResult env sub root collation offset fetch rel x).Gives s r s') : Placed L s₀ s' r := by
  rw [sortResult_eq] at h
  simp only [ConvertM.gives_bind] at h
  obtain ⟨b, s₁, hb, b₁, s₂, hb₁, b₂, s₃, hb₂, b₃, s₄, hb₃, b₄, s₅, hb₄, hr⟩ := h
  have hquery := (hx.expecting _ _).open hL hs hb
  have hlisted : HostQuery L env s₀ s₂ b.context b₁.select ∧ b₁.context = b.context := by
    unfold listed at hb₁
    split at hb₁
    · obtain ⟨hlisted, rfl⟩ := (ConvertM.gives_lift _ _ _ _).mp hb₁
      simp only [withFields, bind_eq_ok_iff, pure_eq_ok_iff] at hlisted
      obtain ⟨columns, hcolumns, items, hitems, rfl⟩ := hlisted
      refine ⟨hquery.putList (inherited_fitsIn.addSelects (by simp) hitems (by simp) ?_).2, rfl⟩
      exact forall_of_mapM hcolumns fun i _ n hn => hquery.fields i n hn
    · obtain ⟨rfl, rfl⟩ := (ConvertM.gives_pure _ _ _ _).mp hb₁
      exact ⟨hquery, rfl⟩
  have hordered : HostQuery L env s₀ s₃ b.context b₂.select ∧ b₂.context = b.context := by
    obtain ⟨hlisted, hctx⟩ := hlisted
    unfold ordered at hb₂
    simp only [ConvertM.gives_bind, ConvertM.gives_lift] at hb₂
    obtain ⟨items, s₂', ⟨hitems, rfl⟩, hb₂⟩ := hb₂
    split at hb₂
    · obtain ⟨rfl, rfl⟩ := (ConvertM.gives_pure _ _ _ _).mp hb₂
      exact ⟨hlisted, hctx⟩
    · obtain ⟨hput, rfl⟩ := (ConvertM.gives_lift _ _ _ _).mp hb₂
      obtain rfl := put_eq_ok hput
      rw [hctx] at hitems
      refine ⟨hlisted.put (by decide) fun c hc => ?_, hctx⟩
      obtain rfl : c = Node.order items := by simpa using hc
      exact inherited_order inherited_fitsIn
        (inherited_collationsNodes inherited_fitsIn (fun c _ => hlisted.fields c.key) hitems)
  have hlimited : ∀ {clause : Clause} {key : String} {kind : Kind} {limit : Option Expr} {b' b'' : Builder} {t t' : State},
      (∀ e, limit = some e → L.Clear false e) → key ≠ "from" ∧ key ≠ "alias" → passesOn kind = false →
      HostQuery L env s₀ t b.context b'.select ∧ b'.context = b.context →
      (limited env sub clause key kind limit b').Gives t b'' t' →
      HostQuery L env s₀ t' b.context b''.select ∧ b''.context = b.context := by
    rintro clause key kind limit b' b'' t t' hlimit hkey hkind ⟨hquery, hctx⟩ hb''
    cases limit with
    | none =>
      obtain ⟨rfl, rfl⟩ := (ConvertM.gives_pure _ _ _ _).mp hb''
      exact ⟨hquery, hctx⟩
    | some e =>
      simp only [limited, ConvertM.gives_bind, ConvertM.gives_lift] at hb''
      obtain ⟨n, t₁, hn, hb'', rfl⟩ := hb''
      rw [hctx] at hn
      obtain ⟨hquery, hn⟩ := hquery.scalarNode hL (hlimit e rfl) hn
      obtain rfl := put_eq_ok hb''
      exact ⟨hquery.putWrapped hkey hkind hn, hctx⟩
  have hfetched := hlimited (fun e he => hlimits e (.inr he)) (by decide) rfl hordered hb₃
  exact (hlimited (fun e he => hlimits e (.inl he)) (by decide) rfl hfetched hb₄).1.result hL.never hr

/-- **Windowed calls** stand behind the fields of the input. -/
theorem placed_windowResult {groups : List (WindowGroup Expr)} {constants : List Literal} (hL : L.Converts env sub)
    (hx : Placed L s₀ s x) (hs : OnTheWay s₀ s) (hgroups : ∀ g ∈ groups, (∀ e ∈ frameExprs g.frame, L.Clear true e)
      ∧ ∀ c ∈ g.calls, ∀ e ∈ c.operands, L.Clear true e)
    (h : (windowResult env sub input groups constants rel x).Gives s r s') : Placed L s₀ s' r := by
  simp only [windowResult, ConvertM.gives_bind, ConvertM.gives_lift] at h
  obtain ⟨b, s₁, hb, calls, s₂, hcalls, columns, s₃, ⟨hcolumns, rfl⟩, items, s₄, ⟨hitems, rfl⟩, hr⟩ := h
  have hquery := (hx.expecting _ _).open hL hs hb
  obtain ⟨hquery, hcalls⟩ := hquery.convert true (fun s' nss => ∀ ns ∈ nss, ∀ n ∈ ns, FitsIn L s₀ s' b.select n)
    (fun bound => groups.mapM (windowGroupNodes env (below bound sub) b.context constants input.fields.length)) hL
    (fun bound => .mapM _ fun g _ => steady_windowGroupNodes (steady_below hL.grow bound) _ _ _
      (Scalar.frameSatisfies_trivial (trivial_growing bound) true g.frame)
      fun c _ e _ => Scalar.satisfies_trivial (trivial_growing bound) true e)
    (fun s' hadmits => .mapM fun g hg => inherited_windowGroupNodes hadmits
      (fun i n hn => hadmits.field (L.clear_inputRef true i DataType.integer) hn) (L.clear_literal true) constants _
      (hgroups g hg).1 (hgroups g hg).2 fun c _ written args parts _ hparts => by
        simp only [List.mem_append, Option.mem_toList] at hparts
        exact sourced_windowedNode (fun n hn => hparts n (.inl (.inl (.inl hn))))
          (fun n hn => hparts n (.inl (.inl (.inr hn)))) (fun n hn => hparts n (.inl (.inr hn)))
          fun n hn => hparts n (.inr hn)) hcalls
  refine (hquery.putList (inherited_fitsIn.addSelects (by simp) hitems (by simp) fun n hn => ?_).2).result hL.never hr
  rcases List.mem_append.mp hn with hn | hn
  · exact forall_of_mapM hcolumns (fun i _ n hn => hquery.fields _ n hn) n hn
  · obtain ⟨ns, hns, hmem⟩ := List.mem_flatten.mp hn
    exact hcalls ns hns n hmem

end Operators

end AlgebraSql.Convert
