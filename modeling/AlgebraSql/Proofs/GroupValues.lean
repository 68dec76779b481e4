import AlgebraSql.Proofs.FlatPlans

/-!
# Group values — the items of a grouped query are evaluated once for each group.

A condition on groups may use any item of the select list, but it is evaluated before windowed calls.
The aggregates of a select list never need one.  Neither do its keys where they stand in GROUP BY, which
is evaluated even earlier; and every family of grouping sets names each key that is in one of the sets.
-/

namespace AlgebraSql.Sql.Node

variable {E : Engine} {db : Database} {names : Names} {n : Node}

/-! ## Values without windowed calls -/

theorem together_isSome_iff {α β γ : Type} (v : γ → Option (α → β)) (cs : List γ) :
    (together (cs.map v)).isSome = true ↔ ∀ c ∈ cs, (v c).isSome = true := by
  induction cs with
  | nil => simp [together]
  | cons c cs ih =>
    cases hc : v c with
    | none => simp [together, hc]
    | some u => simp [together, hc, ih]

theorem scalar_isSome_of_operation (hn : n.manner = .operation) :
    (n.scalar E db names).isSome = true ↔ ∀ c ∈ n.children, (c.scalar E db names).isSome = true := by
  rw [scalar_of_operation hn, Option.isSome_map, together_isSome_iff]

theorem analytic_isSome_of_operation (hn : n.manner = .operation) :
    (n.analytic E db names).isSome = true ↔ ∀ c ∈ n.children, (c.analytic E db names).isSome = true := by
  rw [analytic_of_operation hn, Option.isSome_map, together_isSome_iff]

/-- Only operations on windowed calls and the calls themselves need windows. -/
theorem scalar_of_analytic (hoperation : n.manner ≠ .operation) (hwindow : n.manner ≠ .window)
    (h : (n.analytic E db names).isSome = true) : (n.scalar E db names).isSome = true := by
  rw [analytic_eq, analyticStep] at h
  rw [scalar_eq]
  cases hs : scalarStep E db n (n.partsOf E db) names with
  | some v => rfl
  | none =>
    cases hm : n.manner <;> simp_all

theorem scopeOfList_eq (ns : List Node) : scopeOfList ns = ns.flatMap scopeBelow := by
  induction ns with
  | nil => rfl
  | cons n ns ih => simp [scopeOfList, ih]

theorem scopeOfArgs_eq (args : Args) : scopeOfArgs args = (args.flatMap fun p => p.2.children).flatMap scopeBelow := by
  induction args with
  | nil => rfl
  | cons p rest ih =>
    obtain ⟨key, a⟩ := p
    cases a <;> simp [scopeOfArgs, Arg.children, ih, scopeOfList_eq]

/-- A node in the scope of a child is in the scope, if the child is no query. -/
theorem inScope_of_child {c m : Node} (hc : c ∈ n.children) (hboundary : isScopeBoundary c = false)
    (hm : m ∈ c.inScope) : m ∈ n.inScope := by
  obtain ⟨kind, args⟩ := c
  refine List.mem_cons_of_mem _ ?_
  rw [scopeOfArgs_eq]
  refine List.mem_flatMap.mpr ⟨_, hc, ?_⟩
  rw [scopeBelow, hboundary]
  exact hm

theorem size_lt_of_mem_children {c : Node} (hc : c ∈ n.children) : c.size < n.size := by
  have hle : ∀ (ns : List Node), c ∈ ns → c.size ≤ sizeOfList ns := by
    intro ns
    induction ns with
    | nil => simp
    | cons m ns ih =>
      intro hmem
      rw [sizeOfList]
      rcases List.mem_cons.mp hmem with rfl | hmem
      · omega
      · have := ih hmem
        omega
  have := hle _ hc
  rw [size_eq n]
  omega

/-- **A value without windowed calls** in its scope is there before windowed calls are. -/
theorem scalar_of_windowless (n : Node) (hscope : ∀ m ∈ n.inScope, m.kind ≠ .window)
    (h : (n.analytic E db names).isSome = true) : (n.scalar E db names).isSome = true := by
  by_cases hn : n.manner = .operation
  · rw [analytic_isSome_of_operation hn] at h
    rw [scalar_isSome_of_operation hn]
    intro c hc
    have hsize := size_lt_of_mem_children hc
    cases hboundary : isScopeBoundary c with
    | true =>
      have hquery : c.manner = .query := by
        simp only [isScopeBoundary, isQuery, Kind.isQuery, Kind.isSetOperation, Node.is, Bool.or_eq_true, beq_iff_eq]
          at hboundary
        unfold manner
        cases hk : c.kind <;> simp_all
      exact scalar_of_analytic (by simp [hquery]) (by simp [hquery]) (h c hc)
    | false =>
      exact scalar_of_windowless c (fun m hm => hscope m (inScope_of_child hc hboundary hm)) (h c hc)
  · refine scalar_of_analytic hn (fun hwindow => ?_) h
    refine hscope n List.mem_cons_self ?_
    unfold manner at hwindow
    split at hwindow <;> first | assumption | cases hwindow | (split at hwindow <;> cases hwindow)
termination_by n.size

end AlgebraSql.Sql.Node

namespace AlgebraSql.Convert

open Sql Node

variable {env : Env} {E : Engine} {db : Database} {names : Names}

/-- **An aggregate** has a value before windowed calls are evaluated. -/
theorem scalar_aggregateNode {ctx : Context} {call : AggregateCall} {n : Node} (hn : aggregateNode env ctx call = .ok n)
    (h : (n.analytic E db names).isSome = true) : (n.scalar E db names).isSome = true := by
  have hcall : ∀ {m : Node}, IsAggregate m → (m.analytic E db names).isSome = true →
      (m.scalar E db names).isSome = true := by
    intro m hm
    have hmanner : m.manner ≠ .operation ∧ m.manner ≠ .window := by
      cases hm <;> exact ⟨by simp [manner, Node.aggregate, filtered, withinGroup],
        by simp [manner, Node.aggregate, filtered, withinGroup]⟩
    exact scalar_of_analytic hmanner.1 hmanner.2
  rcases isAggregate_aggregateNode hn with haggregate | ⟨m, hm, rfl⟩
  · exact hcall haggregate h
  · rw [analytic_isSome_of_operation rfl] at h
    rw [scalar_isSome_of_operation rfl]
    intro c hc
    have hchildren : (orZero m).children = [m, Node.number "0"] := by
      simp [orZero, Node.call, children, Arg.children]
    have hc' := h c hc
    rw [hchildren] at hc
    simp only [List.mem_cons, List.not_mem_nil, or_false] at hc
    rcases hc with rfl | rfl
    · exact hcall hm hc'
    · exact scalar_of_windowless _ (by simp [Node.number, inScope, scopeOfArgs]) hc'

/-! ## Keys in grouping sets -/

theorem ascending_perm (keys : List Ordinal) : (Ordinal.ascending keys).Perm keys := by
  have hinsert : ∀ (key : Ordinal) (ks : List Ordinal), (Ordinal.insertKey key ks).Perm (key :: ks) := by
    intro key ks
    induction ks with
    | nil => exact .refl _
    | cons k ks ih =>
      unfold Ordinal.insertKey
      split
      · exact (ih.cons k).trans (.swap key k ks)
      · exact .refl _
  induction keys with
  | nil => exact .refl _
  | cons key keys ih => exact (hinsert key _).trans (ih.cons key)

/-- Sorting by size only changes the order, and puts larger sets first. -/
theorem bySize_spec (sets : List (List Ordinal)) :
    (bySize sets).Perm sets ∧ (bySize sets).Pairwise fun s t => t.length ≤ s.length := by
  have hinsert : ∀ (set : List Ordinal) (ss : List (List Ordinal)), (insertBySize set ss).Perm (set :: ss)
      ∧ (ss.Pairwise (fun s t => t.length ≤ s.length) →
        (insertBySize set ss).Pairwise fun s t => t.length ≤ s.length) := by
    intro set ss
    induction ss with
    | nil => exact ⟨.refl _, fun _ => List.pairwise_singleton _ _⟩
    | cons s ss ih =>
      obtain ⟨hperm, hsorted⟩ := ih
      unfold insertBySize
      split
      · rename_i hlarger
        refine ⟨.refl _, fun h => List.pairwise_cons.mpr ⟨fun t ht => ?_, h⟩⟩
        rcases List.mem_cons.mp ht with rfl | ht
        · exact le_of_lt hlarger
        · exact ((List.pairwise_cons.mp h).1 t ht).trans (le_of_lt hlarger)
      · rename_i hlarger
        refine ⟨(hperm.cons s).trans (.swap set s ss), fun h => ?_⟩
        obtain ⟨hfirst, hrest⟩ := List.pairwise_cons.mp h
        refine List.pairwise_cons.mpr ⟨fun t ht => ?_, hsorted hrest⟩
        rcases List.mem_cons.mp (hperm.mem_iff.mp ht) with rfl | ht
        · exact not_lt.mp hlarger
        · exact hfirst t ht
  have hfold : ∀ sets sorted : List (List Ordinal), sorted.Pairwise (fun s t => t.length ≤ s.length) →
      (sets.foldl (fun sorted set => insertBySize set sorted) sorted).Perm (sorted ++ sets)
        ∧ (sets.foldl (fun sorted set => insertBySize set sorted) sorted).Pairwise fun s t => t.length ≤ s.length := by
    intro sets
    induction sets with
    | nil => exact fun sorted h => ⟨by simp, h⟩
    | cons set sets ih =>
      intro sorted h
      obtain ⟨hperm, hsorted⟩ := ih _ ((hinsert set sorted).2 h)
      refine ⟨hperm.trans ?_, hsorted⟩
      exact ((hinsert set sorted).1.append_right sets).trans List.perm_middle.symm
  exact hfold sets [] .nil

theorem length_bySize (sets : List (List Ordinal)) : (bySize sets).length = sets.length := (bySize_spec sets).1.length_eq

/-- Sets that lose one key each time end with a set that is smaller by their number, and a key of the
first set is lost on the way or is in the last one. -/
theorem droppedKeys_spec (rest : List (List Ordinal)) {first dropped : List Ordinal}
    (h : droppedKeys (first :: rest) = some dropped) :
    ∃ last : List Ordinal, last.length + rest.length = first.length ∧ ∀ k ∈ first, k ∈ dropped ∨ k ∈ last := by
  induction rest generalizing first dropped with
  | nil => exact ⟨first, by simp, fun k hk => .inr hk⟩
  | cons current rest ih =>
    unfold droppedKeys at h
    split at h
    · rename_i hlength
      split at h
      · rename_i key hkey
        simp only [Option.map_eq_some_iff] at h
        obtain ⟨others, hothers, rfl⟩ := h
        obtain ⟨last, hlast, hkeys⟩ := ih hothers
        refine ⟨last, by rw [List.length_cons]; omega, fun k hk => ?_⟩
        by_cases hmem : k ∈ current
        · exact (hkeys k hmem).imp_left (List.mem_cons_of_mem _)
        · have hfiltered : k ∈ first.filter (!current.contains ·) := by
            simp [List.mem_filter, hk, hmem]
          rw [hkey, List.mem_singleton] at hfiltered
          exact .inl (by simp [hfiltered])
      · cases h
    · cases h

/-- A ROLLUP is written with all keys. -/
theorem mem_rollupKeys {keys : List Ordinal} {sets : List (List Ordinal)} {dropped : List Ordinal}
    (h : rollupKeys keys sets = some dropped) : ∀ k ∈ keys, k ∈ dropped := by
  intro k hk
  unfold rollupKeys at h
  split at h
  · cases h
  · rename_i hlength
    rw [not_not] at hlength
    dsimp only at h
    split at h
    · rename_i hhead
      simp only [Option.map_eq_some_iff] at h
      obtain ⟨others, hothers, rfl⟩ := h
      obtain ⟨rest, hsorted⟩ : ∃ rest, bySize (sets.map Ordinal.ascending) = Ordinal.ascending keys :: rest := by
        cases hsorted : bySize (sets.map Ordinal.ascending) with
        | nil => simp [hsorted] at hhead
        | cons first rest => exact ⟨rest, by rw [hsorted] at hhead; simpa using hhead⟩
      rw [hsorted] at hothers
      obtain ⟨last, hlast, hkeys⟩ := droppedKeys_spec rest hothers
      -- there is one set more than there are keys, so the last one is empty
      have hcount := congrArg List.length hsorted
      rw [length_bySize, List.length_map, hlength, List.length_cons] at hcount
      have hperm := ascending_perm keys
      rw [hperm.length_eq] at hlast
      have hempty : last = [] := List.length_eq_zero_iff.mp (by omega)
      rcases hkeys k (hperm.mem_iff.mpr hk) with hmem | hmem
      · exact List.mem_reverse.mpr hmem
      · simp [hempty] at hmem
    · cases h

/-- A key that is lost on the way is in one of the sets. -/
theorem mem_of_mem_droppedKeys {sets : List (List Ordinal)} {dropped : List Ordinal}
    (h : droppedKeys sets = some dropped) {k : Ordinal} (hk : k ∈ dropped) : ∃ set ∈ sets, k ∈ set := by
  induction sets generalizing dropped with
  | nil =>
    obtain rfl : [] = dropped := by simpa [droppedKeys] using h
    cases hk
  | cons first rest ih =>
    unfold droppedKeys at h
    split at h
    · rename_i previous current others hsets
      obtain ⟨rfl, rfl⟩ : first = previous ∧ rest = current :: others := by simpa using hsets
      split at h
      · split at h
        · rename_i key hkey
          simp only [Option.map_eq_some_iff] at h
          obtain ⟨lost, hlost, rfl⟩ := h
          rcases List.mem_cons.mp hk with rfl | hk
          · have hfirst : k ∈ first.filter (!current.contains ·) := hkey ▸ List.mem_cons_self
            exact ⟨first, List.mem_cons_self, (List.mem_filter.mp hfirst).1⟩
          · obtain ⟨set, hset, hmem⟩ := ih hlost hk
            exact ⟨set, List.mem_cons_of_mem first hset, hmem⟩
        · cases h
      · cases h
    · obtain rfl : [] = dropped := by simpa using h
      cases hk

/-- A ROLLUP is written with keys of its grouping sets. -/
theorem mem_of_mem_rollupKeys {keys : List Ordinal} {sets : List (List Ordinal)} {dropped : List Ordinal}
    (h : rollupKeys keys sets = some dropped) {k : Ordinal} (hk : k ∈ dropped) : ∃ set ∈ sets, k ∈ set := by
  unfold rollupKeys at h
  split at h
  · cases h
  · dsimp only at h
    split at h
    · simp only [Option.map_eq_some_iff] at h
      obtain ⟨lost, hlost, rfl⟩ := h
      obtain ⟨set, hset, hmem⟩ := mem_of_mem_droppedKeys hlost (List.mem_reverse.mp hk)
      obtain ⟨original, horiginal, rfl⟩ := List.mem_map.mp ((bySize_spec _).1.mem_iff.mp hset)
      exact ⟨original, horiginal, (ascending_perm original).mem_iff.mp hmem⟩
    · cases h

/-- **Every key of a grouping set** is written in GROUP BY, so it has a value where GROUP BY has. -/
theorem groupField_of_groupByNodes {ctx : Context} {keys : List Ordinal} {sets : List (List Ordinal)}
    {gs : List Node} (h : groupByNodes env ctx keys sets = .ok gs) {k : Ordinal} (hk : k ∈ keys)
    (hset : ∃ set ∈ sets, k ∈ set) (hvalues : ∀ g ∈ gs, (g.scalar E db names).isSome = true) :
    ∃ g, ctx.groupField env k = .ok g ∧ (g.scalar E db names).isSome = true := by
  have hlist : ∀ {ks : List Ordinal} {ns : List Node}, keyNodes env ctx ks = .ok ns → k ∈ ks →
      (∀ n ∈ ns, (n.scalar E db names).isSome = true) →
        ∃ g, ctx.groupField env k = .ok g ∧ (g.scalar E db names).isSome = true := by
    intro ks ns hns hmem hall
    obtain ⟨i, hi⟩ := List.mem_iff_getElem?.mp hmem
    obtain ⟨g, hg, hfield⟩ := getElem?_of_mapM hns hi
    exact ⟨g, hfield, hall g (List.mem_of_getElem? hg)⟩
  have hbelow : ∀ {kind : Kind} {ns : List Node}, kind ∈ [Kind.rollup, .cube, .groupingSets] →
      ((listNode kind ns).scalar E db names).isSome = true → ∀ n ∈ ns, (n.scalar E db names).isSome = true := by
    intro kind ns hkind hsome
    have hmanner : (listNode kind ns).manner = .operation := by
      simp only [List.mem_cons, List.not_mem_nil, or_false] at hkind
      rcases hkind with rfl | rfl | rfl <;> rfl
    rw [scalar_isSome_of_operation hmanner] at hsome
    simpa [listNode, children, Arg.children] using hsome
  simp only [groupByNodes] at h
  split at h
  · cases h
  · split at h
    · exact hlist h hk hvalues
    · rename_i hkind
      simp only [bind_eq_ok_iff, pure_eq_ok_iff] at h
      obtain ⟨ns, hns, rfl⟩ := h
      refine hlist hns ?_ (@hbelow .rollup ns (by simp) (hvalues _ (by simp)))
      cases hrollup : rollupKeys keys sets with
      | none => exact hk
      | some dropped => exact mem_rollupKeys hrollup k hk
    · simp only [bind_eq_ok_iff, pure_eq_ok_iff] at h
      obtain ⟨ns, hns, rfl⟩ := h
      exact hlist hns hk (@hbelow .cube ns (by simp) (hvalues _ (by simp)))
    · simp only [bind_eq_ok_iff, pure_eq_ok_iff] at h
      obtain ⟨ns, hns, rfl⟩ := h
      have hsets := @hbelow .groupingSets ns (by simp) (hvalues _ (by simp))
      obtain ⟨set, hset, hmem⟩ := hset
      obtain ⟨i, hi⟩ := List.mem_iff_getElem?.mp hset
      obtain ⟨g, hg, hfield⟩ := getElem?_of_mapM hns hi
      have hvalue := hsets g (List.mem_of_getElem? hg)
      unfold groupingSetNode at hfield
      split at hfield
      · rename_i key
        obtain rfl : k = key := by simpa using hmem
        exact ⟨g, hfield, hvalue⟩
      · simp only [bind_eq_ok_iff, pure_eq_ok_iff] at hfield
        obtain ⟨parts, hparts, rfl⟩ := hfield
        rw [scalar_isSome_of_operation rfl] at hvalue
        exact hlist hparts hmem (by simpa [Node.tuple, children, Arg.children] using hvalue)

end AlgebraSql.Convert
