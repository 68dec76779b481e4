import AlgebraSql.Proofs.ClauseOrigins
import AlgebraSql.Proofs.ConditionPlaces
import AlgebraSql.Proofs.GroupValues

/-!
# Group queries — the query of an aggregation, ready for a condition on its groups.

The query of an aggregation has no condition on its groups yet.  Each of its items has one value for a
group, which is known before windowed calls are evaluated: an aggregate by itself, a key because it stands
in GROUP BY or because windowed calls among the keys are put into a query below.
-/

namespace AlgebraSql.Convert

open Sql Node

variable {env : Env} {s s' : State} {schema : Schema} {E : Engine} {db : Database} {names outer : Names}

/-! ## Items -/

theorem scalar_namedItem (n : Node) (name : String) :
    (namedItem n name).scalar E db names = n.scalar E db names :=
  Reading.value_namedItem (Reading.scalar E db names) n name

theorem analytic_namedItem (n : Node) (name : String) :
    (namedItem n name).analytic E db names = n.analytic E db names :=
  Reading.value_namedItem (Reading.analytic E db names) n name

theorem aggregates_namedItem (n : Node) (name : String) : (namedItem n name).aggregates = n.aggregates := by
  unfold namedItem
  split
  · rfl
  · have hchildren : (Node.aliased n name).children = [n, identifier name] := by
      simp [Node.aliased, children, Arg.children]
    have hidentifier : (identifier name).aggregates = false := by
      rw [aggregates_of_operation (.inl rfl)]
      rfl
    rw [aggregates_of_operation (.inl rfl), hchildren]
    simp [hidentifier]

section

variable {fields : RowType} {n : Node} {ks : List Node}

/-- The list of a query holds the items under the names of the columns. -/
theorem Listed.list_eq (h : Listed fields n ks) : n.list "expressions" = namedItems ks fields := by
  have := h.list
  rw [selectList?] at this
  simp [Node.list, this]

/-- A list has only one way to be read as items under names. -/
theorem Listed.unique (h : Listed fields n ks) {ms : List Node} (h' : Listed fields n ms) : ks = ms := by
  have hlists : namedItems ks fields = namedItems ms fields := Option.some.inj (h.list.symm.trans h'.list)
  refine List.ext_getElem (h.full.trans h'.full.symm) fun i hi hi' => ?_
  have hf : i < fields.length := h.full ▸ hi
  have hnamed : namedItem ks[i] fields[i].name = namedItem ms[i] fields[i].name := by
    have := congrArg (·[i]?) hlists
    simpa [namedItems, hi, hi', hf] using this
  have hitem := itemField_namedItem (h.items _ (List.getElem_mem hi)) fields[i].name (i : Nat)
  rw [hnamed, itemField_namedItem (h'.items _ (List.getElem_mem hi')), Except.ok.injEq] at hitem
  exact hitem.symm

theorem Listed.exists_named (h : Listed fields n ks) {k : Node} (hk : k ∈ ks) :
    ∃ name, namedItem k name ∈ n.list "expressions" := by
  obtain ⟨i, hi, rfl⟩ := List.mem_iff_getElem.mp hk
  have hf : i < fields.length := h.full ▸ hi
  have hitem : (namedItems ks fields)[i]? = some (namedItem ks[i] fields[i].name) := by simp [namedItems, hi, hf]
  exact ⟨_, by rw [h.list_eq]; exact List.mem_of_getElem? hitem⟩

/-- The fields of a list are its items. -/
theorem Listed.mem_of_field (h : Listed fields n ks) {listAlias : Bool} {i : Ordinal} {m : Node}
    (hm : (Context.selectList (namedItems ks fields) false listAlias).field env i = .ok m) : m ∈ ks := by
  simp only [Context.field] at hm
  split at hm
  · rename_i item hitem
    obtain ⟨j, hj, rfl⟩ := (nth?_isSome_iff _ i).mp (by rw [hitem]; rfl)
    rw [length_namedItems h.full.le] at hj
    have hj' : j < fields.length := h.full ▸ hj
    obtain ⟨k, hk, -, hget⟩ := h.getElem? (List.getElem?_eq_getElem hj')
    obtain rfl : item = namedItem k fields[j].name := by simpa [hget, eq_comm] using hitem
    rw [itemField_namedItem (h.items k hk)] at hm
    cases hm
    exact hk
  · cases hm

/-- A query with an aggregate in its list groups. -/
theorem Listed.isGrouped (h : Listed fields n ks) {k : Node} (hk : k ∈ ks) (hcall : k.aggregates = true) :
    n.isGrouped = true := by
  obtain ⟨name, hmem⟩ := h.exists_named hk
  have hany : (n.list "expressions").any aggregates = true :=
    List.any_eq_true.mpr ⟨_, hmem, by rw [aggregates_namedItem, hcall]⟩
  simp [Node.isGrouped, hany]

/-- A query with a full list puts out one row of the values of its items. -/
theorem Listed.output_eq (h : Listed fields n ks) (hne : fields ≠ []) :
    n.output E db names = (together (ks.map (analytic E db names))).map fun v s => (v s).map single := by
  have hitems : (n.list "expressions").map (analytic E db names) = ks.map (analytic E db names) := by
    rw [h.list_eq]
    refine List.ext_getElem (by simp [length_namedItems h.full.le]) fun i hi hi' => ?_
    simp [namedItems, analytic_namedItem]
  unfold output
  split
  · rename_i hnil
    rw [h.list_eq, ← List.length_eq_zero_iff, length_namedItems h.full.le, h.full, List.length_eq_zero_iff] at hnil
    contradiction
  · rw [hitems]

/-- The items of a query that has an output have values. -/
theorem Listed.analytic_isSome (h : Listed fields n ks) (hne : fields ≠ []) {v : Spot → Row}
    (hv : n.output E db names = some v) : ∀ k ∈ ks, (k.analytic E db names).isSome = true := by
  rw [h.output_eq hne, Option.map_eq_some_iff] at hv
  obtain ⟨w, hw, -⟩ := hv
  rw [← together_isSome_iff, hw]
  rfl

/-- Items with one value for each group are put out by themselves. -/
theorem Listed.output_of_scalar (h : Listed fields n ks) (hne : fields ≠ []) {v : Focus → List (List Datum)}
    (hv : together (ks.map (scalar E db names)) = some v) :
    n.output E db names = some fun s => (v s.focus).map single := by
  have hanalytic : ∀ (ks : List Node) (v : Focus → List (List Datum)), together (ks.map (scalar E db names)) = some v →
      together (ks.map (analytic E db names)) = some fun s => v s.focus := by
    intro ks
    induction ks with
    | nil =>
      rintro v ⟨⟩
      rfl
    | cons k ks ih =>
      intro v hv
      cases hk : k.scalar E db names with
      | none => simp [together, hk] at hv
      | some u =>
        simp only [List.map_cons, hk, together, Option.map_eq_some_iff] at hv
        obtain ⟨w, hw, rfl⟩ := hv
        simp only [List.map_cons, analytic_of_scalar hk, together, ih w hw, Option.map_some]
  rw [h.output_eq hne, hanalytic ks v hv]
  rfl

end

/-- The grouping items of a query that has stages have values. -/
theorem scalar_of_groups {n : Node} {gs : List Node} (hgroup : n.child? "group" = some (listNode .group gs))
    {st : Stages} (hst : n.stagesIn E db outer = some st) :
    ∀ g ∈ gs, (g.scalar E db (n.groupNames E db outer)).isSome = true := by
  have hsome : ((listNode .group gs).scalar E db (n.groupNames E db outer)).isSome = true := by
    unfold stagesIn at hst
    simp only [Option.bind_eq_bind, Option.bind_eq_some_iff] at hst
    obtain ⟨grouping, hgrouping, -⟩ := hst
    unfold groupingIn at hgrouping
    simp only [Option.bind_eq_bind, Option.bind_eq_some_iff] at hgrouping
    obtain ⟨source, -, condition, -, levels, hlevels, -⟩ := hgrouping
    unfold levelsOf at hlevels
    simp only [hgroup, Option.bind_some, Option.map_eq_some_iff] at hlevels
    obtain ⟨keys, hkeys, -⟩ := hlevels
    rw [hkeys]
    rfl
  rw [scalar_isSome_of_operation rfl] at hsome
  simpa [listNode, children, Arg.children] using hsome

/-- A query that does not come from a sort has no ORDER BY and no limits. -/
theorem Tracked.unlimited {rel : Rel} {x : Result} (hx : Tracked rel x) (hsort : isSort rel = false)
    (hkind : x.node.kind = .select) : x.node.Unlimited := by
  have habsent : ∀ key ∈ finishingKeys, x.node.child? key = none := fun key hkey => by
    simp [child?, hx.unfinished hsort hkind key hkey]
  exact ⟨habsent _ (by decide), habsent _ (by decide), habsent _ (by decide)⟩

/-! ## The query of an aggregation -/

/-- A query that groups and lists items, without conditions on its groups. -/
structure GroupList (fields : RowType) (n : Node) (ks : List Node) : Prop where
  kind : n.kind = .select
  listed : Listed fields n ks
  grouped : n.isGrouped = true
  having : n.child? "having" = none
  qualify : n.child? "qualify" = none
  unlimited : n.Unlimited

/-- **`GroupQuery`** — a query that groups and lists items, without conditions on its groups, in which each
item has a value for every group. -/
structure GroupQuery (groupByAlias : Bool) (fields : RowType) (n : Node) (ks : List Node) : Prop
    extends GroupList fields n ks where
  values : ∀ {E : Engine} {db : Database} {outer : Names} {st : Stages}, E.groupByAlias = groupByAlias →
    n.stagesIn E db outer = some st → ∀ k ∈ ks, (k.scalar E db (n.fromNames db outer)).isSome = true

section

variable {input : Rel} {x r : Result} {keys : List Ordinal} {sets : List (List Ordinal)} {calls : List AggregateCall}

/-- Where GROUP BY may name items, a select list of the input has no windowed calls among the keys: with
them it is put into a query below, and so is a list that does not come from a projection. -/
theorem Origins.windowless_item (hx : Flat schema input x) (ho : Origins env.dialect input x)
    (halias : env.dialect.capabilities.groupByAlias = true) (hkind : x.node.kind = .select)
    (hwrap : (x.expecting [.groupBy] (ignoresClauses (.aggregate input keys sets calls))).mustWrap env
      (.aggregate input keys sets calls) = false) {items : List Node} (hlist : x.node.selectList? = some items)
    {key : Ordinal} (hkey : key ∈ keys) {item : Node} (hitem : nth? items key = some item) :
    ∀ c ∈ item.inScope, c.kind ≠ .window := by
  cases input with
  | project input projects names distinct ids =>
    have hqualify : qualifyOverWindow (wrapCheck env
        (x.expecting [.groupBy] (ignoresClauses (.aggregate (.project input projects names distinct ids) keys sets calls)))
          (.aggregate (.project input projects names distinct ids) keys sets calls)) ≠ some false := by
      simp [qualifyOverWindow, wrapCheck]
    have hplain := middleRule_ne_true (r := x.expecting [.groupBy] _) hx.tracked.used hqualify hwrap
      (show groupByWindow ∈ middleRules by simp [middleRules])
    have hselect : x.node.is .select = true := (is_eq_true_iff _ _).mpr hkind
    have hnone : (keys.any fun key => ((nth? items key).any WrapCheck.containsWindow)) = false := by
      simpa [groupByWindow, wrapCheck, wrapIf, halias, WrapCheck.items?, WrapCheck.itemsOf, Result.expecting,
        hselect, hlist] using hplain
    have hitem' := List.any_eq_false.mp hnone key hkey
    simpa [hitem, WrapCheck.containsWindow, Node.is] using hitem'
  | _ =>
    -- a select list is no clause before GROUP BY
    obtain ⟨c, hc, hrank⟩ := ho.lists hkind (by simp [hlist])
    rcases rank_of_fit (fit_of_unwrapped hx.tracked (by simp) hwrap) hc (e := .groupBy) (by simp) with hlt | ⟨he, -⟩
    · omega
    · cases he

/-- Where GROUP BY may name items, the keys have values before windowed calls are evaluated. -/
theorem Origins.scalar_key (henv : env.NeverQualifies) (hmap : env.fieldMap = []) (hx : Flat schema input x)
    (ho : Origins env.dialect input x) (halias : env.dialect.capabilities.groupByAlias = true) {m : Node}
    (hm : Opening env (x.expecting [.groupBy] (ignoresClauses (.aggregate input keys sets calls)))
      (.aggregate input keys sets calls) s m s') {key : Ordinal} (hkey : key ∈ keys) {k : Node}
    (hk : ((x.expecting [.groupBy] (ignoresClauses (.aggregate input keys sets calls))).contextOver env
      (.aggregate input keys sets calls) m).field env key = .ok k)
    (hvalue : (k.analytic E db names).isSome = true) : (k.scalar E db names).isSome = true := by
  obtain ⟨name, hsingle, -⟩ := hx.single
  unfold Result.contextOver at hk
  rcases (hx.shaped_opened henv hm).items with hstar | ⟨ns, hlisted⟩
  · simp only [hstar, (hsingle.expecting _ _).aliases, field_aliases_iff hmap] at hk
    obtain ⟨f, -, rfl⟩ := hk
    exact scalar_of_analytic (by simp [Node.column, manner]) (by simp [Node.column, manner]) hvalue
  obtain ⟨rfl, hkind, hwrap⟩ : m = x.node ∧ x.node.kind = .select
      ∧ (x.expecting [.groupBy] (ignoresClauses (.aggregate input keys sets calls))).mustWrap env
        (.aggregate input keys sets calls) = false := by
    rcases hx.opened henv hm with hsame | ⟨item, rfl, -⟩
    · exact hsame
    · have hlist := hlisted.list
      simp [selectFrom, selectList?, list?] at hlist
  simp only [hlisted.list, Result.itemContext, Context.field] at hk
  split at hk
  · rename_i item hitem
    obtain ⟨j, hj, rfl⟩ := (nth?_isSome_iff _ key).mp (by rw [hitem]; rfl)
    rw [length_namedItems hlisted.full.le] at hj
    have hj' : j < input.fields.length := hlisted.full ▸ hj
    obtain ⟨k', hk', -, hget⟩ := hlisted.getElem? (List.getElem?_eq_getElem hj')
    obtain rfl : item = namedItem k' input.fields[j].name := by simpa [hget, eq_comm] using hitem
    obtain rfl : k' = k := by
      have hnot : (x.expecting [.groupBy] (ignoresClauses (.aggregate input keys sets calls))).expected.contains
          Clause.having = false := by simp [Result.expecting]
      simpa only [hnot, Bool.false_and, Bool.or_false, itemField_namedItem (hlisted.items k' hk'),
        Except.ok.injEq] using hk
    -- the item itself has no windowed calls
    have hscope := ho.windowless_item hx halias hkind hwrap hlisted.list hkey hitem
    rw [← analytic_namedItem k' input.fields[j].name] at hvalue
    rw [← scalar_namedItem k' input.fields[j].name]
    exact scalar_of_windowless _ hscope hvalue
  · cases hk

/-- Where GROUP BY may not name items, a key stands there as it does in the list. -/
theorem groupField_contextOver (rel : Rel) (halias : env.dialect.capabilities.groupByAlias = false) (y : Result)
    (m : Node) (key : Ordinal) : (y.contextOver env rel m).groupField env key = (y.contextOver env rel m).field env key := by
  unfold Result.contextOver
  split
  · simp [Result.itemContext, Context.groupField, halias]
  · rfl

/-- The query of an aggregation lists its items, and groups by keys or because of its aggregates. -/
theorem aggregated_traits {m : Node} (hkind : m.kind = .select) (groups : List Node) (hasCalls : Bool) {items : List Node}
    (hitems : items ≠ []) : (aggregated m items groups hasCalls).kind = .select
      ∧ (aggregated m items groups hasCalls).selectList? = some items
      ∧ (groups = [] ∧ hasCalls = true
        ∨ (aggregated m items groups hasCalls).child? "group" = some (listNode .group groups)) := by
  have hne : items.isEmpty = false := List.isEmpty_eq_false_iff.mpr hitems
  simp only [aggregated, hne, Bool.false_eq_true, if_false]
  split
  · rename_i hnone
    rw [Bool.and_eq_true, List.isEmpty_iff] at hnone
    exact ⟨by simp [withList, hkind], by simp [withList, selectList?, list?], .inl hnone⟩
  · exact ⟨by simp [withList, hkind], by simp [withList, selectList?, list?, arg?_set_of_ne], .inr (child?_set_self _ _ _)⟩

/-- **An aggregation** over one that is not grouped gives a query that is ready for a condition on its
groups, if windowed calls are not filtered right below it. -/
theorem Origins.groupQuery (henv : env.NeverQualifies) (hmap : env.fieldMap = []) (hx : Flat schema input x)
    (ho : Origins env.dialect input x) (hfields : (Rel.aggregate input keys sets calls).fields ≠ [])
    (hnested : env.dialect.capabilities.nestedAggregates = true → input.every ungrouped = true)
    (hfilters : filtersWindows env.dialect input = false)
    (hsets : env.dialect.capabilities.groupByAlias = false → ∀ key ∈ keys, ∃ set ∈ sets, key ∈ set)
    (h : (aggregateResult env keys sets calls (.aggregate input keys sets calls) x).Gives s r s') :
    ∃ ks, GroupQuery env.dialect.capabilities.groupByAlias (Rel.aggregate input keys sets calls).fields r.node ks := by
  have hflat := flat_aggregate henv hmap hx hfields h
  obtain ⟨name, hsingle, -⟩ := hx.single
  obtain ⟨y, m, s₁, ks, gs, as, rfl, hm, hks, hgs, has, hlength, hr⟩ := hsingle.aggregate_step henv h
  obtain ⟨hhaving, hqualify⟩ := ho.fresh_aggregate henv hx hnested hm
  obtain ⟨hfull, hitems⟩ := hx.items_of_aggregate henv hmap hm hks has hlength
  obtain ⟨hkind, hlist, hgroup⟩ := aggregated_traits (hx.shaped_opened henv hm).kind gs (!calls.isEmpty)
    (show namedItems (ks ++ as) (Rel.aggregate input keys sets calls).fields ≠ [] from fun hnil => hfields
      (List.length_eq_zero_iff.mp (by rw [← hfull, ← length_namedItems hfull.le, hnil, List.length_nil])))
  rw [← hr.node_eq] at hkind hlist hgroup
  have hlisted : Listed (Rel.aggregate input keys sets calls).fields r.node (ks ++ as) := ⟨hlist, hfull, hitems⟩
  have hunlimited := hflat.tracked.unlimited rfl hkind
  have hcondition : ∀ key ∈ ["having", "qualify"], m.child? key = none → r.node.child? key = none :=
    fun key hkey hnone => by rw [hr.node_eq, child?_aggregated hkey, hnone]
  refine ⟨ks ++ as, ⟨hkind, hlisted, ?_, hcondition _ (by simp) hhaving, hcondition _ (by simp) (hqualify hfilters),
    hunlimited⟩, ?_⟩
  · rcases hgroup with ⟨-, hcalls⟩ | hgroup
    · -- an aggregate is called in the list
      have hne : as ≠ [] := by
        rintro rfl
        have hnone := length_of_mapM has
        simp [eq_comm] at hnone
        simp [hnone] at hcalls
      obtain ⟨a, ha⟩ := List.exists_mem_of_ne_nil _ hne
      exact hlisted.isGrouped (List.mem_append_right _ ha)
        (forall_of_mapM has (fun call _ n hn => aggregates_aggregateNode hn) a ha)
    · simp [isGrouped, hgroup]
  · intro E db outer st halias hst
    have hanalytic := hlisted.analytic_isSome hfields (hunlimited.stages hst).2.2.2
    intro k hk
    rcases List.mem_append.mp hk with hkey | hcall
    · obtain ⟨i, hi, rfl⟩ := List.mem_iff_getElem.mp hkey
      have hi' : i < keys.length := length_of_mapM hks ▸ hi
      obtain ⟨k', hk', hfield⟩ := getElem?_of_mapM hks (List.getElem?_eq_getElem hi')
      obtain rfl : ks[i] = k' := by simpa [hi] using hk'
      have hmem : keys[i] ∈ keys := List.getElem_mem hi'
      cases hcapable : env.dialect.capabilities.groupByAlias with
      | true => exact ho.scalar_key henv hmap hx hcapable hm hmem hfield (hanalytic _ hk)
      | false =>
        -- the key stands in GROUP BY, where no item has a name
        rw [hcapable] at halias
        have hnames : r.node.groupNames E db outer = r.node.fromNames db outer := by simp [groupNames, halias]
        have hvalues : ∀ g ∈ gs, (g.scalar E db (r.node.fromNames db outer)).isSome = true := by
          rcases hgroup with ⟨rfl, -⟩ | hgroup
          · simp
          · rw [← hnames]
            exact scalar_of_groups hgroup hst
        obtain ⟨g, hg, hvalue⟩ := groupField_of_groupByNodes hgs hmem (hsets hcapable _ hmem) hvalues
        have hsame := groupField_contextOver (.aggregate input keys sets calls) hcapable
          (x.expecting [.groupBy] (ignoresClauses (.aggregate input keys sets calls))) m keys[i]
        rw [hsame, hfield, Except.ok.injEq] at hg
        rwa [hg]
    · exact forall_of_mapM has (fun call _ n hn hvalue => scalar_aggregateNode hn hvalue) k hcall (hanalytic k hk)

end

end AlgebraSql.Convert
