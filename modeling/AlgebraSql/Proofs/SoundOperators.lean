import AlgebraSql.Proofs.Calls
import AlgebraSql.Proofs.SoundResults

/-!
# Operators, reference by reference — operators on one input keep the invariant of results.

For each operator on one input there is one lemma: if the result of the input is sound, so is the
result of the operator.  Each opens the result of the input, puts clauses into the query that resolve
over its frame, and records the query again.
-/

namespace AlgebraSql.Convert

open Sql Node

variable {schema : Schema} {env : Env} {k : PlanCheck} {sub : Rel → ConvertM Node}
  {s₀ s s' : State}

/-! ## Clauses -/

/-- What a conversion gives over the fields of a builder has its property over the frame, whatever is
around the query. -/
theorem Keeps.over {α : Type} {post : Scope → α → Prop} {c : ConvertM α} {ctx : Context}
    {fields : Bool} {F : Sql.Frame} {a : α} (hc : Keeps (FieldsAt env schema ctx fields) post c)
    (h : c.Gives s a s') (hs : Grows s₀ s) (huse : InUse s.usedNames F)
    (hreads : fields = true → ∀ outer items, InUse s₀.usedNames outer →
      ctx.ReadsAt env schema ⟨F, outer, items⟩) :
    ∀ outer items, InUse s₀.usedNames outer → post ⟨F, outer, items⟩ a := by
  intro outer items houter
  refine (hc s a s' h).2 _ (fun hfields => hreads hfields outer items houter) ?_
  intro item hitem hne
  rcases List.mem_append.mp hitem with h | h
  · exact huse item h hne
  · exact hs _ (houter item h hne)

theorem put_eq_ok {b b' : Builder} {clause : Clause} {key : String} {n : Node}
    (h : b.put clause key n = .ok b') :
    b' = { b with select := b.select.set key (some (.node n)) } := by
  unfold Builder.put at h
  split at h
  · cases h
    rfl
  · cases h

/-- The later of a clause, if there is one, and another clause. -/
def later (last : Option Clause) (clause : Clause) : Option Clause :=
  match last with
  | none => some clause
  | some c => if c.rank < clause.rank then some clause else some c

theorem last?_eq_foldl (clauses : List Clause) : Clause.last? clauses = clauses.foldl later none := rfl

/-- OFFSET is the last of any clauses that have it. -/
theorem last?_of_offset {clauses : List Clause} (h : Clause.offset ∈ clauses) :
    Clause.last? clauses = some .offset := by
  have hkept : ∀ cs : List Clause, cs.foldl later (some .offset) = some .offset := by
    intro cs
    induction cs with
    | nil => rfl
    | cons c cs ih => cases c <;> exact ih
  have htaken : ∀ last, later last .offset = some .offset := by
    intro last
    rcases last with _ | c
    · rfl
    · cases c <;> rfl
  obtain ⟨before, behind, rfl⟩ := List.append_of_mem h
  rw [last?_eq_foldl, List.foldl_append, List.foldl_cons, htaken, hkept]

/-- A query with a limit is wrapped before anything is added. -/
theorem mustWrap_of_offset (henv : env.Standard) {r : Result} {rel : Rel}
    (h : Clause.offset ∈ r.clauses) (hne : r.expected ≠ []) (hignore : r.ignoreClauses = false) :
    r.mustWrap env rel = true := by
  obtain ⟨c, cs, hexpected⟩ := List.exists_cons_of_ne_nil hne
  have hclauses : r.clauses.isEmpty = false := by
    cases hc : r.clauses with
    | nil => simp [hc] at h
    | cons => rfl
  have hfit : Clause.fit r.clauses (c :: cs) = false := by
    have hfollows : Clause.follows .offset c = false := by cases c <;> rfl
    simp [Clause.fit, last?_of_offset h, hfollows]
  have hqualify : ∀ check : WrapCheck, check.capabilities = env.dialect.capabilities →
      qualifyOverWindow check = none := by
    intro check hcapabilities
    unfold qualifyOverWindow
    split
    · simp [hcapabilities, henv.qualify]
    · rfl
  unfold Result.mustWrap needsWrapping
  rw [hignore, hexpected]
  simp only [Bool.false_eq_true, if_false, wrapRules, List.findSome?_cons, noClausesYet, hclauses]
  rw [hqualify _ rfl]
  simp [clauseOrder, wrapIf, hfit]

/-- The names of the clauses behind FROM that leave the select list and ORDER BY alone. -/
def clauseKeys : List String := ["where", "having", "group", "limit", "offset"]

theorem clauseKeys_traits {key : String} (h : key ∈ clauseKeys) :
    key ≠ "from" ∧ key ≠ "alias" ∧ key ≠ "order" ∧ key ≠ "expressions" := by
  simp only [clauseKeys, List.mem_cons, List.not_mem_nil, or_false] at h
  rcases h with rfl | rfl | rfl | rfl | rfl <;> decide

section Put

variable {used : UsedNames} {F : Sql.Frame} {n c : Node} {key : String}

/-- A clause that resolves over the frame of a sound query may be put into it. -/
theorem SoundSelect.put (h : SoundSelect schema used F n) (hkey : key ∈ clauseKeys)
    (hc : Open schema used F c) (hkind : isNeutral c.kind = true) :
    SoundSelect schema used F (n.set key (some (.node c))) := by
  obtain ⟨hfrom, halias, horder, hlist⟩ := clauseKeys_traits hkey
  refine h.set hfrom halias horder (fun hk => absurd hk hlist) ?_ ?_
  · intro d hd
    obtain rfl : d = c := by simpa using hd
    exact hc
  · intro d hd
    obtain rfl : c = d := by simpa using hd
    exact hkind

theorem selectList?_put (hkey : key ∈ clauseKeys) (a : Arg) :
    (n.set key (some a)).selectList? = n.selectList? :=
  list?_set_of_ne n a (clauseKeys_traits hkey).2.2.2

/-- A clause changes no columns. -/
theorem columns_put (h : SoundSelect schema used F n) (hkey : key ∈ clauseKeys)
    (hc : Open schema used F c) (hkind : isNeutral c.kind = true) :
    (n.set key (some (.node c))).columns schema = n.columns schema := by
  rw [(h.put hkey hc hkind).columns_eq, h.columns_eq, selectList?_put hkey]

theorem Open.wrap (hc : Open schema used F c) {kind : Kind} (hkind : isNeutral kind = true) :
    Open schema used F (Node.wrap kind c) := fun outer items huse =>
  (resolves_wrap hkind c).mpr (hc outer items huse)

/-- A select list of items that resolve over the frame may be put into a sound query. -/
theorem SoundSelect.putItems (h : SoundSelect schema used F n) (hunordered : Unordered n)
    {items : List Node} (hitems : ∀ item ∈ items, Open schema used F item) :
    SoundSelect schema used F (n.set "expressions" (some (.nodes items))) :=
  h.set (by decide) (by decide) (by decide) (fun _ => hunordered) (by simpa using hitems)
    (by simp)

theorem selectList?_putItems (n : Node) (items : List Node) :
    (n.set "expressions" (some (.nodes items))).selectList? = some items := by
  simp [selectList?, list?]

/-- The output names of a new select list are the columns of the query. -/
theorem columns_putItems (h : SoundSelect schema used F n) (hunordered : Unordered n)
    {items : List Node} (hitems : ∀ item ∈ items, Open schema used F item) (hne : items ≠ []) :
    (n.set "expressions" (some (.nodes items))).columns schema = items.map outputName := by
  obtain ⟨first, rest, rfl⟩ := List.exists_cons_of_ne_nil hne
  rw [(h.putItems hunordered hitems).columns_eq, selectList?_putItems]
  rfl

/-- Items that fill the columns of a relation are a sound select list for it. -/
theorem putNamedItems {rel : Rel} (h : SoundSelect schema used F n) (hunordered : Unordered n)
    {ns : List Node} (hns : ∀ m ∈ ns, Open schema used F m) (hlength : ns.length = rel.fields.length)
    (hne : ns = [] → F.columns = []) {m : Node}
    (hm : m = n.set "expressions" (some (.nodes (namedItems ns rel.fields)))) :
    SoundSelect schema used F m ∧ Unordered m ∧ m.columns schema = rel.fields.names
      ∧ m.selectList? ≠ none := by
  subst hm
  have hitems : ∀ item ∈ namedItems ns rel.fields, Open schema used F item := by
    intro item hitem
    obtain ⟨i, hi, rfl⟩ := List.mem_iff_getElem.mp hitem
    simp only [namedItems, List.getElem_zipWith]
    exact (hns _ (List.getElem_mem _)).namedItem _
  refine ⟨h.putItems hunordered hitems, hunordered.set (by decide) _, ?_, ?_⟩
  · cases ns with
    | nil =>
      have hfields : rel.fields = [] := List.length_eq_zero_iff.mp hlength.symm
      rw [(h.putItems hunordered hitems).columns_eq, selectList?_putItems, hfields]
      exact hne rfl
    | cons first rest =>
      rw [columns_putItems h hunordered hitems ?_, outputNames_namedItems hlength]
      rw [← List.length_pos_iff, length_namedItems (by omega)]
      simp
  · rw [selectList?_putItems]
    simp

/-- A query without columns reads nothing that has columns. -/
theorem frame_of_no_columns (h : SoundSelect schema used F n) (hcolumns : n.columns schema = []) :
    F.columns = [] := by
  rw [h.columns_eq] at hcolumns
  unfold selectColumns at hcolumns
  split at hcolumns
  · simp at hcolumns
  · exact hcolumns

end Put

/-! ## Filters -/

/-- The condition of a clause resolves where the clause does. -/
theorem open_alongside {used : UsedNames} {F : Sql.Frame} {b : Builder} {condition : Node}
    (hb : SoundSelect schema used F b.select) (hcondition : Open schema used F condition) :
    Open schema used F (b.alongside "having" condition) := by
  intro outer items huse
  unfold Builder.alongside condition?
  cases hclause : b.select.child? "having" with
  | none => exact hcondition outer items huse
  | some clause =>
    have hopen := hb.clauses _ (mem_args_of_child? hclause) (by simp) (by simp) clause (by simp)
      outer items huse
    cases hthis : clause.this? with
    | none => simpa [hthis] using hcondition outer items huse
    | some existing =>
      have hall := (resolves_iff_children (hb.having clause hclause)).mp hopen
      have hexisting : existing.resolves schema ⟨F, outer, items⟩ = true :=
        hall _ (List.mem_flatMap.mpr ⟨_, mem_args_of_child? hthis, by simp⟩)
      simp [hthis, hexisting, hcondition outer items huse]

theorem registerCorrelations_grows {ids : List String} {inputs : Aliases} {u : Unit}
    (h : (registerCorrelations ids inputs).Gives s u s') : Grows s s' := by
  rw [ConvertM.gives_registerCorrelations] at h
  subst h
  exact fun _ h => h

/-- A filter becomes HAVING or WHERE. -/
theorem filterClause_cases (henv : env.Standard) (input : Rel) (condition : Expr) :
    filterClause env input condition = .having ∨ filterClause env input condition = .where := by
  unfold filterClause
  split
  · exact .inl rfl
  · simp [henv.qualify]
  · exact .inr rfl

/-- **A filter** over a sound result gives a sound result. -/
theorem soundFilter (henv : env.Standard) (hsetting : Setting k schema sub) (hs : Grows s₀ s)
    {input : Rel} {condition : Expr} {correlations : List String} {x r : Result}
    (hx : SoundResult schema s₀.usedNames s.usedNames input x) (hnames : NamesColumns input)
    (hcondition : condition.satisfies k true = true)
    (h : (filterResult env sub input condition correlations
      (.filter input condition correlations) x).Gives s r s') :
    Grows s s' ∧ SoundResult schema s₀.usedNames s'.usedNames
      (.filter input condition correlations) r := by
  unfold filterResult at h
  simp only [ConvertM.gives_bind, ConvertM.gives_lift] at h
  obtain ⟨u, s₁, hregister, b, s₂, hb, n, s₃, hn, b', s₄, ⟨hput, rfl⟩, hresult⟩ := h
  have hregistered := registerCorrelations_grows hregister
  have hwrap : isSort input = true → (x.expecting [filterClause env input condition]
      (ignoresClauses (.filter input condition correlations))).mustWrap env
        (.filter input condition correlations) = true := by
    intro hsort
    have hoffset := hx.sorted hsort
    cases input <;> simp only [isSort, Bool.false_eq_true] at hsort
    exact mustWrap_of_offset henv hoffset (by simp [Result.expecting, List.eraseDups_cons]) rfl
  obtain ⟨hopened, hrel, -, F, hsound⟩ :=
    (hx.expecting _ _).builder henv hregistered rfl hnames.1 hwrap hb
  have hs₂ := (hs.trans hregistered).trans hopened
  have hkeeps : Keeps (FieldsAt env schema b.context true) (Resolved schema)
      (scalarNode env sub b.context condition) :=
    keeps_scalarNode hsetting b.context true condition hcondition
  have hn' : Open schema s₀.usedNames F n := hkeeps.over hn hs₂ hsound.reader.inUse fun _ =>
    hsound.reads (.inl (by rw [hrel]; rfl))
  have hconverted := (hkeeps s₂ n s₃ hn).1
  -- the condition becomes HAVING, together with the one that is there, or WHERE
  obtain ⟨key, kind, m, hkey, hkind, hm, rfl⟩ : ∃ key kind m, key ∈ clauseKeys
      ∧ isNeutral kind = true ∧ Open schema s₀.usedNames F m
      ∧ b' = { b with select := b.select.set key (some (.node (Node.wrap kind m))) } := by
    rcases filterClause_cases henv input condition with hclause | hclause <;>
      simp only [hclause] at hput
    · exact ⟨_, _, _, by simp [clauseKeys], rfl, open_alongside hsound.reader.sound hn', put_eq_ok hput⟩
    · exact ⟨_, _, _, by simp [clauseKeys], rfl, hn', put_eq_ok hput⟩
  have hselect := hsound.reader.sound.put hkey (hm.wrap hkind) hkind
  have hcolumns := columns_put hsound.reader.sound hkey (hm.wrap hkind) hkind
  obtain ⟨hrecorded, hresult⟩ := (hsound.grow hconverted).result henv.toNeverQualifies
    (hs₂.trans hconverted) hresult hrel rfl hselect (hcolumns.trans hsound.reader.columns)
    (fun hlist => by rwa [selectList?_put hkey] at hlist)
    (fun _ => hsound.unordered.set (clauseKeys_traits hkey).2.2.1 _) (fun hsort => by cases hsort)
    hnames
  exact ⟨((hregistered.trans hopened).trans hconverted).trans hrecorded, hresult⟩

/-! ## Projections -/

/-- A projected expression resolves where fields do. -/
theorem keeps_projectedNode (hsetting : Setting k schema sub) (ctx : Context) {e : Expr}
    (he : e.satisfies k true = true) :
    Keeps (FieldsAt env schema ctx true) (Resolved schema) (projectedNode env sub ctx e) := by
  unfold projectedNode
  refine .bind (keeps_scalarNode hsetting ctx true e he) fun n => .pure fun sc hsc => ?_
  split
  · exact resolves_typedNull _ _
  · exact hsc.2

/-- Making the rows of a query distinct changes nothing about references. -/
theorem SoundSelect.putDistinct {used : UsedNames} {F : Sql.Frame} {n : Node}
    (h : SoundSelect schema used F n) :
    SoundSelect schema used F (n.set "distinct" (some (.flag true))) :=
  h.set (by decide) (by decide) (by decide) (fun hk => absurd hk (by decide)) (by simp) (by simp)

/-- **A projection** over a sound result gives a sound result. -/
theorem soundProject (henv : env.Standard) (hsetting : Setting k schema sub) (hs : Grows s₀ s)
    {input : Rel} {projects : List Expr} {names : List String} {distinct : Bool}
    {correlations : List String} {x r : Result}
    (hx : SoundResult schema s₀.usedNames s.usedNames input x) (hinput : NamesColumns input)
    (hnames : NamesColumns (.project input projects names distinct correlations))
    (hne : projects ≠ []) (hprojects : ∀ e ∈ projects, e.satisfies k true = true)
    (h : (projectResult env sub input projects distinct correlations
      (.project input projects names distinct correlations) x).Gives s r s') :
    Grows s s' ∧ SoundResult schema s₀.usedNames s'.usedNames
      (.project input projects names distinct correlations) r := by
  let rel := Rel.project input projects names distinct correlations
  unfold projectResult at h
  simp only [ConvertM.gives_bind] at h
  obtain ⟨u, s₁, hregister, b, s₂, hb, h⟩ := h
  have hregistered := registerCorrelations_grows hregister
  have hwrap : isSort input = true → (x.expecting [.select]).mustWrap env rel = true := fun hsort =>
    mustWrap_of_offset henv (hx.sorted hsort) (by simp [Result.expecting, List.eraseDups_cons]) rfl
  obtain ⟨hopened, hrel, hclauses, F, hsound⟩ :=
    (hx.expecting _ _).builder henv hregistered rfl hinput.1 hwrap hb
  have hs₂ := (hs.trans hregistered).trans hopened
  -- the query shows the columns of the projection, whether its select list is new or not
  obtain ⟨m, s₃, hgrows, hm, hunordered, hcolumns, hlist, hresult⟩ : ∃ m s₃, Grows s₂ s₃
      ∧ SoundSelect schema s₀.usedNames F m ∧ Unordered m ∧ m.columns schema = rel.fields.names
      ∧ (m.selectList? = none → b.select.selectList? = none)
      ∧ ((if distinct then Builder.setDistinct { b with select := m } else { b with select := m }).result
        env).Gives s₃ r s' := by
    by_cases hidentity : isIdentity input projects rel.fields = true
    · simp only [rel, hidentity, if_true, ConvertM.gives_bind, ConvertM.gives_pure] at h
      obtain ⟨b', s₃, ⟨rfl, rfl⟩, hresult⟩ := h
      have hsame : rel.fields.names = input.fields.names := by
        simp only [isIdentity, Bool.and_eq_true, beq_iff_eq] at hidentity
        exact hidentity.2
      exact ⟨b.select, s₂, .refl _, hsound.reader.sound, hsound.unordered,
        hsound.reader.columns.trans hsame.symm, id, hresult⟩
    · simp only [rel, hidentity, Bool.false_eq_true, if_false, ConvertM.gives_bind,
        ConvertM.gives_lift, ConvertM.gives_pure] at h
      obtain ⟨ns, s₃, hnodes, items, s₄, ⟨hadd, rfl⟩, b', s₅, ⟨rfl, rfl⟩, hresult⟩ := h
      have hlength : ns.length = projects.length := ConvertM.length_of_gives_mapM hnodes
      obtain ⟨hroom, hitems⟩ := addSelects_eq_ok (by simp) hadd
      have hroom : ns.length ≤ rel.fields.length := by simpa using hroom
      have hfields : rel.fields.length ≤ projects.length := by
        rw [Rel.fields, List.length_zipWith]
        exact Nat.min_le_right _ _
      have hfill : ns.length = rel.fields.length := by omega
      have hkeeps : Keeps (FieldsAt env schema b.context true) (AllResolve schema)
          (projects.mapM (projectedNode env sub b.context)) :=
        .mapM projects fun e he => keeps_projectedNode hsetting b.context (hprojects e he)
      have hopen : ∀ n ∈ ns, Open schema s₀.usedNames F n := fun n hn outer items huse =>
        hkeeps.over hnodes hs₂ hsound.reader.inUse
          (fun _ => hsound.reads (.inl (by rw [hrel]; rfl))) outer items huse n hn
      have hns : ns ≠ [] := by
        rw [← List.length_pos_iff, hlength]
        exact List.length_pos_iff.mpr hne
      obtain ⟨hm, hunordered, hcolumns, hlist⟩ :=
        putNamedItems hsound.reader.sound hsound.unordered hopen hfill (fun h => absurd h hns) rfl
      refine ⟨_, s₃, (hkeeps s₂ ns s₃ hnodes).1, hm, hunordered, hcolumns, fun hn => absurd hn hlist, ?_⟩
      simpa [Builder.setSelect, hitems, namedItems] using hresult
  have hgrown := (hregistered.trans hopened).trans hgrows
  refine (And.imp_left fun hrecorded => hgrown.trans hrecorded)
    ((hsound.grow hgrows).result henv.toNeverQualifies (hs₂.trans hgrows) hresult
      (by split <;> exact hrel) (by split <;> rfl) ?_ ?_ ?_ ?_ (fun hsort => by cases hsort) hnames)
  · split
    · exact hm.putDistinct
    · exact hm
  · split
    · rw [← hcolumns, Builder.setDistinct, hm.putDistinct.columns_eq, hm.columns_eq, selectList?,
        list?_set_of_ne _ _ (by decide)]
      rfl
    · exact hcolumns
  · intro hnone
    refine hlist ?_
    split at hnone
    · simpa [Builder.setDistinct, selectList?, list?_set_of_ne] using hnone
    · exact hnone
  · intro _
    split
    · exact hunordered.set (by decide) _
    · exact hunordered

/-! ## Aggregations -/

theorem length_pick (fields : RowType) (keys : List Ordinal) :
    (Rel.pick fields keys).length ≤ keys.length := List.length_filterMap_le _ _

/-- An aggregation has at most one column for each key and each call. -/
theorem length_aggregateFields (input : Rel) (groupSet : List Ordinal) (sets : List (List Ordinal))
    (calls : List AggregateCall) : (Rel.aggregate input groupSet sets calls).fields.length
      ≤ groupSet.length + calls.length := by
  have := length_pick input.fields groupSet
  simp only [Rel.fields, RowType.length_unique, List.length_append, Rel.aggregateFields,
    List.length_map, List.length_zipIdx]
  omega

/-- Items that are named one after the other are named together. -/
theorem namedItems_append {ns : List Node} {fields : RowType} (h : ns.length ≤ fields.length)
    (ms : List Node) :
    namedItems (ns ++ ms) fields = namedItems ns fields ++ namedItems ms (fields.drop ns.length) := by
  induction ns generalizing fields with
  | nil => simp [namedItems]
  | cons n ns ih =>
    cases fields with
    | nil => simp at h
    | cons f fields =>
      have hrest : ns.length ≤ fields.length := by simpa using h
      simpa [namedItems] using ih hrest

/-- Two lists of items that are added to a select list are named together. -/
theorem addSelects_twice {fields : RowType} {ns ms items all : List Node}
    (hitems : addSelects fields [] ns = .ok items) (hall : addSelects fields items ms = .ok all) :
    ns.length + ms.length ≤ fields.length ∧ all = namedItems (ns ++ ms) fields := by
  obtain ⟨hroom, rfl⟩ := addSelects_eq_ok (by simp) hitems
  have hroom : ns.length ≤ fields.length := by simpa using hroom
  have hlength : (namedItems ns fields).length = ns.length := length_namedItems hroom
  simp only [List.nil_append, List.length_nil, List.drop_zero] at hall
  obtain ⟨hboth, rfl⟩ := addSelects_eq_ok (by omega) hall
  rw [hlength] at hboth ⊢
  exact ⟨hboth, (namedItems_append hroom ms).symm⟩

/-- **An aggregation** over a sound result gives a sound result. -/
theorem soundAggregate (henv : env.Standard) (hs : Grows s₀ s) {input : Rel}
    {groupSet : List Ordinal} {sets : List (List Ordinal)} {calls : List AggregateCall} {x r : Result}
    (hx : SoundResult schema s₀.usedNames s.usedNames input x) (hinput : NamesColumns input)
    (hnames : NamesColumns (.aggregate input groupSet sets calls))
    (hne : (Rel.aggregate input groupSet sets calls).fields ≠ [])
    (h : (aggregateResult env groupSet sets calls (.aggregate input groupSet sets calls) x).Gives
      s r s') :
    Grows s s' ∧ SoundResult schema s₀.usedNames s'.usedNames
      (.aggregate input groupSet sets calls) r := by
  let rel := Rel.aggregate input groupSet sets calls
  unfold aggregateResult at h
  simp only [ConvertM.gives_bind, ConvertM.gives_lift] at h
  obtain ⟨b, s₁, hb, keys, s₂, ⟨hkeys, rfl⟩, items, s₃, ⟨hitems, rfl⟩, groupBy, s₄, ⟨hgroup, rfl⟩,
    aggregates, s₅, ⟨haggregates, rfl⟩, all, s₆, ⟨hall, rfl⟩, h⟩ := h
  have hwrap : isSort input = true →
      (x.expecting [.groupBy] (ignoresClauses rel)).mustWrap env rel = true := by
    intro hsort
    refine mustWrap_of_offset henv (hx.sorted hsort) (by simp [Result.expecting, List.eraseDups_cons]) ?_
    cases input <;> simp only [isSort, Bool.false_eq_true] at hsort
    rfl
  obtain ⟨hopened, hrel, hclauses, F, hsound⟩ :=
    (hx.expecting _ _).builder henv (.refl s) rfl hinput.1 hwrap hb
  have hreads := hsound.reads (.inl (by rw [hrel]; rfl))
  -- the keys and then the aggregates fill the columns of the relation
  obtain ⟨hroom, rfl⟩ := addSelects_twice hitems hall
  have hlengths : keys.length = groupSet.length ∧ aggregates.length = calls.length :=
    ⟨((mapM_eq_ok_iff _ _ _).mp hkeys).length_eq.symm,
      ((mapM_eq_ok_iff _ _ _).mp haggregates).length_eq.symm⟩
  have hfill : (keys ++ aggregates).length = rel.fields.length := by
    have := length_aggregateFields input groupSet sets calls
    simp only [List.length_append, rel]
    omega
  have hopen : ∀ n ∈ keys ++ aggregates, Open schema s₀.usedNames F n := by
    intro n hn outer names huse
    rcases List.mem_append.mp hn with hn | hn
    · exact allResolve_fields (hreads outer names huse) hkeys n hn
    · exact forall_of_mapM haggregates
        (fun call _ m hm => resolves_aggregateNode (hreads outer names huse) hm) n hn
  have hnonempty : keys ++ aggregates ≠ [] := fun hnil =>
    hne (List.length_eq_zero_iff.mp (by rw [← hfill, hnil]; rfl))
  have hnamed : (namedItems (keys ++ aggregates) rel.fields).isEmpty = false := by
    rw [List.isEmpty_eq_false_iff, ← List.length_pos_iff, length_namedItems (by omega), hfill]
    exact List.length_pos_iff.mpr hne
  obtain ⟨hm, hunordered, hcolumns, hlist⟩ := putNamedItems hsound.reader.sound hsound.unordered hopen
    hfill (fun h => absurd h hnonempty) rfl
  simp only [rel] at hnamed
  simp only [hnamed, Bool.false_eq_true, if_false] at h
  -- the grouping is a clause over the same frame
  obtain ⟨m, hm', hcolumns', hlist', hunordered', hresult⟩ : ∃ m, SoundSelect schema s₀.usedNames F m
      ∧ m.columns schema = rel.fields.names ∧ m.selectList? ≠ none ∧ Unordered m
      ∧ (Builder.result env { b with select := m }).Gives s₁ r s' := by
    split at h
    · simp only [ConvertM.gives_bind, ConvertM.gives_pure] at h
      obtain ⟨b', s₇, ⟨rfl, rfl⟩, hresult⟩ := h
      exact ⟨_, hm, hcolumns, hlist, hunordered, hresult⟩
    · simp only [ConvertM.gives_bind, ConvertM.gives_lift] at h
      obtain ⟨b', s₇, ⟨hput, rfl⟩, hresult⟩ := h
      obtain rfl := put_eq_ok hput
      have hgroupOpen : Open schema s₀.usedNames F (.mk .group [("expressions", .nodes groupBy)]) := by
        intro outer names huse
        simpa (disch := decide) using
          allResolve_groupByNodes (hreads outer names huse) hsound.groups hgroup
      have hkey : "group" ∈ clauseKeys := by simp [clauseKeys]
      refine ⟨_, hm.put hkey hgroupOpen rfl, ?_, ?_, hunordered.set (by decide) _, hresult⟩
      · rw [columns_put hm hkey hgroupOpen rfl, hcolumns]
      · rwa [selectList?_put hkey]
  exact (And.imp_left fun hrecorded => hopened.trans hrecorded)
    (hsound.result henv.toNeverQualifies (hs.trans hopened) hresult hrel rfl hm' hcolumns'
      (fun h => absurd h hlist') (fun _ => hunordered') (fun hsort => by cases hsort) hnames)

/-! ## Sorts -/

section Sorts

variable (env) (sub : Rel → ConvertM Node)

/-- A builder whose query has a select list if it is below the top. -/
def listed (root : Bool) (fields : RowType) (b : Builder) : ConvertM Builder :=
  if !root && b.select.selectList?.isNone then liftM (withFields env b fields) else pure b

/-- A builder with an ORDER BY, if there are keys. -/
def ordered (collation : List Collation) (b : Builder) : ConvertM Builder := do
  let items ← (collationsNodes env b.context collation : Except Error (List Node))
  if items.isEmpty then pure b else (b.setOrderBy items : Except Error Builder)

/-- A builder with a clause that limits the number of rows, if there is a limit. -/
def limited (clause : Clause) (key : String) (kind : Kind) (limit : Option Expr) (b : Builder) :
    ConvertM Builder :=
  match limit with
  | some e => do
    let n ← scalarNode env sub b.context e
    (b.put clause key (Node.wrap kind n) : Except Error Builder)
  | none => pure b

/-- A sort puts its clauses one after the other. -/
theorem sortResult_eq (root : Bool) (collation : List Collation) (offset fetch : Option Expr)
    (rel : Rel) (x : Result) :
    sortResult env sub root collation offset fetch rel x = (do
      let b ← (x.expecting [.orderBy, .fetch, .offset]).builder env rel
      let b ← listed env root rel.fields b
      let b ← ordered env collation b
      let b ← limited env sub .fetch "limit" .limit fetch b
      let b ← limited env sub .offset "offset" .offset offset b
      b.result env) := by
  unfold sortResult
  refine bind_congr fun b => ?_
  dsimp only
  cases hlist : !root && b.select.selectList?.isNone <;>
    (simp only [listed, hlist, Bool.false_eq_true, if_true, if_false]
     refine bind_congr fun b => ?_
     simp only [ordered, bind_assoc]
     refine bind_congr fun items => ?_
     cases items.isEmpty <;> cases fetch <;> cases offset <;>
       simp only [Bool.false_eq_true, if_true, if_false, limited, bind_assoc, pure_bind,
         Builder.setFetch, Builder.setOffset])

end Sorts

/-- A builder after clauses were put into it that keep its columns. -/
structure Extended (schema : Schema) (used : UsedNames) (F : Sql.Frame) (fields : RowType)
    (b b' : Builder) : Prop where
  sound : SoundSelect schema used F b'.select
  columns : b'.select.columns schema = fields.names
  list : b'.select.selectList? = none → b.select.selectList? = none
  same : b' = { b with select := b'.select }

/-- A select list for a query below the top reads the columns of the query. -/
theorem extended_listed {root : Bool} {rel input : Rel} {F : Sql.Frame} {b b' : Builder}
    (hb : SoundBuilder schema env s₀.usedNames s.usedNames input F b)
    (hfields : rel.fields = input.fields)
    (h : (listed env root rel.fields b).Gives s b' s') :
    s' = s ∧ Extended schema s₀.usedNames F rel.fields b b'
      ∧ ∀ outer, InUse s₀.usedNames outer →
        b'.context.ReadsAt env schema ⟨F, outer, listedNames b'.select⟩ := by
  unfold listed at h
  split at h
  · rename_i hroot
    have hnone : b.select.selectList? = none := by
      rw [Bool.and_eq_true, Option.isNone_iff_eq_none] at hroot
      exact hroot.2
    simp only [ConvertM.gives_lift, withFields, bind_eq_ok_iff, pure_eq_ok_iff] at h
    obtain ⟨⟨ns, hns, items, hitems, rfl⟩, rfl⟩ := h
    have hreads := hb.reads (.inr hnone)
    have hlength : ns.length = rel.fields.length := by
      simpa using ((mapM_eq_ok_iff _ _ _).mp hns).length_eq.symm
    obtain ⟨-, rfl⟩ := addSelects_eq_ok (by simp) hitems
    have hopen : ∀ n ∈ ns, Open schema s₀.usedNames F n := fun n hn outer names huse =>
      forall_of_mapM hns (fun i _ m hm => hreads outer names huse _ m hm) n hn
    obtain ⟨hm, -, hcolumns, hlist⟩ := putNamedItems hb.reader.sound hb.unordered hopen hlength
      (fun hnil => frame_of_no_columns hb.reader.sound (by
        have hnone : rel.fields = [] := List.length_eq_zero_iff.mp (by rw [← hlength, hnil]; rfl)
        rw [hb.reader.columns, ← hfields, hnone]
        rfl)) rfl
    refine ⟨rfl, ⟨?_, ?_, ?_, rfl⟩, fun outer huse => hreads _ _ huse⟩
    · simpa [Builder.setSelect] using hm
    · simpa [Builder.setSelect] using hcolumns
    · intro h
      exact hnone
  · obtain ⟨rfl, rfl⟩ := (ConvertM.gives_pure _ _ _ _).mp h
    exact ⟨rfl, ⟨hb.reader.sound, by rw [hfields]; exact hb.reader.columns, id, rfl⟩, hb.readsInOrder⟩

/-- ORDER BY changes no columns. -/
theorem extended_ordered {fields : RowType} {collation : List Collation} {F : Sql.Frame}
    {a b b' : Builder} (hb : Extended schema s₀.usedNames F fields a b)
    (hreads : ∀ outer, InUse s₀.usedNames outer →
      b.context.ReadsAt env schema ⟨F, outer, listedNames b.select⟩)
    (h : (ordered env collation b).Gives s b' s') :
    s' = s ∧ Extended schema s₀.usedNames F fields a b' := by
  unfold ordered at h
  simp only [ConvertM.gives_bind, ConvertM.gives_lift] at h
  obtain ⟨items, t, ⟨hitems, rfl⟩, h⟩ := h
  split at h
  · obtain ⟨rfl, rfl⟩ := (ConvertM.gives_pure _ _ _ _).mp h
    exact ⟨rfl, hb⟩
  · obtain ⟨hput, rfl⟩ := (ConvertM.gives_lift _ _ _ _).mp h
    obtain rfl := put_eq_ok hput
    have hkeys : ∀ c ∈ items, OpenInOrder schema s₀.usedNames F (listedNames b.select) c :=
      fun c hc outer huse => allResolve_collationsNodes (hreads outer huse) hitems c hc
    have hsound := hb.sound.setOrder hkeys
    have hlist : (b.select.set "order" (some (.node (Node.order items)))).selectList?
        = b.select.selectList? := list?_set_of_ne _ _ (by decide)
    refine ⟨rfl, hsound, ?_, ?_, ?_⟩
    · rw [hsound.columns_eq, hlist, ← hb.sound.columns_eq, hb.columns]
    · intro hnone
      exact hb.list (by rwa [hlist] at hnone)
    · rw [hb.same]

/-- A limit, in which no fields of the input occur, changes no columns. -/
theorem extended_limited (hsetting : Setting k schema sub) {fields : RowType} {clause : Clause}
    {key : String} {kind : Kind} {limit : Option Expr} {F : Sql.Frame} {a b b' : Builder}
    (hb : Extended schema s₀.usedNames F fields a b) (hs : Grows s₀ s) (huse : InUse s.usedNames F)
    (hkey : key ∈ clauseKeys) (hkind : isNeutral kind = true)
    (hlimit : Scalar.satisfies? k limit = true)
    (h : (limited env sub clause key kind limit b).Gives s b' s') :
    Grows s s' ∧ Extended schema s₀.usedNames F fields a b' := by
  cases limit with
  | none =>
    obtain ⟨rfl, rfl⟩ := (ConvertM.gives_pure _ _ _ _).mp h
    exact ⟨.refl _, hb⟩
  | some e =>
    simp only [limited, ConvertM.gives_bind, ConvertM.gives_lift] at h
    obtain ⟨n, t, hn, hput, rfl⟩ := h
    obtain rfl := put_eq_ok hput
    have hkeeps : Keeps (FieldsAt env schema b.context false) (Resolved schema)
        (scalarNode env sub b.context e) := keeps_scalarNode hsetting b.context false e hlimit
    have hopen : Open schema s₀.usedNames F n := hkeeps.over hn hs huse (fun hfalse => by cases hfalse)
    refine ⟨(hkeeps s n t hn).1, hb.sound.put hkey (hopen.wrap hkind) hkind, ?_, ?_, ?_⟩
    · exact (columns_put hb.sound hkey (hopen.wrap hkind) hkind).trans hb.columns
    · intro hnone
      exact hb.list (by rwa [selectList?_put hkey] at hnone)
    · rw [hb.same]

/-- **A sort** over a sound result gives a sound result. -/
theorem soundSort (henv : env.Standard) (hsetting : Setting k schema sub) (hs : Grows s₀ s)
    {root : Bool} {input : Rel} {collation : List Collation} {offset fetch : Option Expr}
    {x r : Result} (hx : SoundResult schema s₀.usedNames s.usedNames input x)
    (hnames : NamesColumns input) (hoffset : Scalar.satisfies? k offset = true)
    (hfetch : Scalar.satisfies? k fetch = true)
    (h : (sortResult env sub root collation offset fetch (.sort input collation offset fetch) x).Gives
      s r s') :
    Grows s s' ∧ SoundResult schema s₀.usedNames s'.usedNames
      (.sort input collation offset fetch) r := by
  let rel := Rel.sort input collation offset fetch
  rw [sortResult_eq] at h
  simp only [ConvertM.gives_bind] at h
  obtain ⟨b, s₁, hb, b₁, s₂, hlisted, b₂, s₃, hordered, b₃, s₄, hfetched, b₄, s₅, hlimited, hresult⟩ := h
  have hwrap : isSort input = true →
      (x.expecting [.orderBy, .fetch, .offset]).mustWrap env rel = true := fun hsort =>
    mustWrap_of_offset henv (hx.sorted hsort) (by simp [Result.expecting, List.eraseDups_cons]) rfl
  obtain ⟨hopened, hrel, hclauses, F, hsound⟩ :=
    (hx.expecting _ _).builder henv (.refl s) rfl hnames.1 hwrap hb
  obtain ⟨rfl, hextended, hreads⟩ := extended_listed hsound rfl hlisted
  obtain ⟨rfl, hextended⟩ := extended_ordered hextended hreads hordered
  have hs₁ := hs.trans hopened
  obtain ⟨hgrows, hextended⟩ := extended_limited hsetting hextended hs₁ hsound.reader.inUse
    (by simp [clauseKeys]) rfl hfetch hfetched
  obtain ⟨hgrows', hextended⟩ := extended_limited hsetting hextended (hs₁.trans hgrows)
    (hsound.reader.inUse.grow hgrows) (by simp [clauseKeys]) rfl hoffset hlimited
  have hbuilder := (hsound.grow hgrows).grow hgrows'
  have hsame := hextended.same
  refine (And.imp_left fun hrecorded => ((hopened.trans hgrows).trans hgrows').trans hrecorded)
    (hbuilder.result henv.toNeverQualifies ((hs₁.trans hgrows).trans hgrows') hresult
      (by rw [hsame]; exact hrel) (by rw [hsame]) hextended.sound hextended.columns hextended.list
      (fun hsort => by cases hsort) (fun _ => ?_) hnames)
  rw [hsame]
  exact hclauses _ (by simp [Result.expecting, List.eraseDups_cons])

/-! ## Windowed calls -/

/-- A group of windowed calls becomes one node for each call. -/
theorem length_windowGroupNodes {ctx : Context} {constants : List Literal} {width : Ordinal}
    {group : WindowGroup Expr} {ns : List Node}
    (h : (windowGroupNodes env sub ctx constants width group).Gives s ns s') :
    ns.length = group.calls.length := by
  simp only [windowGroupNodes, ConvertM.gives_bind, ConvertM.gives_lift] at h
  obtain ⟨partition, t, -, order, t', -, hcalls⟩ := h
  exact ConvertM.length_of_gives_mapM hcalls

/-- Windowed calls have one column each. -/
theorem length_windowFields {groups : List (WindowGroup Expr)} {calls : List (List Node)}
    (h : List.Forall₂ (fun g (ns : List Node) => ns.length = g.calls.length) groups calls) :
    calls.flatten.length = (Rel.windowFields groups).length := by
  have hwidths : calls.map List.length = groups.map (·.calls.length) := by
    induction h with
    | nil => rfl
    | cons hlength _ ih => rw [List.map_cons, List.map_cons, ih, hlength]
  have hindexed : (groups.zipIdx.map fun p => p.1.calls.length) = groups.map (·.calls.length) := by
    conv_rhs => rw [← List.zipIdx_map_fst 0 groups]
    rw [List.map_map]
    rfl
  rw [List.length_flatten, hwidths, ← hindexed, Rel.windowFields, List.length_flatten, List.map_map]
  refine congrArg List.sum (List.map_congr_left fun p _ => ?_)
  simp

/-- **Windowed calls** over a sound result give a sound result. -/
theorem soundWindow (henv : env.Standard) (hsetting : Setting k schema sub) (hs : Grows s₀ s)
    {input : Rel} {groups : List (WindowGroup Expr)} {constants : List Literal} {names : List String}
    {x r : Result} (hx : SoundResult schema s₀.usedNames s.usedNames input x)
    (hinput : NamesColumns input) (hnames : NamesColumns (.window input groups constants names))
    (hgroups : Scalar.groupsSatisfy k groups = true)
    (h : (windowResult env sub input groups constants (.window input groups constants names) x).Gives
      s r s') :
    Grows s s' ∧ SoundResult schema s₀.usedNames s'.usedNames
      (.window input groups constants names) r := by
  let rel := Rel.window input groups constants names
  unfold windowResult at h
  simp only [ConvertM.gives_bind, ConvertM.gives_lift] at h
  obtain ⟨b, s₁, hb, calls, s₂, hcalls, columns, s₃, ⟨hcolumns, rfl⟩, items, s₄, ⟨hitems, rfl⟩,
    hresult⟩ := h
  have hwrap : isSort input = true → (x.expecting [.select]).mustWrap env rel = true := fun hsort =>
    mustWrap_of_offset henv (hx.sorted hsort) (by simp [Result.expecting, List.eraseDups_cons]) rfl
  obtain ⟨hopened, hrel, hclauses, F, hsound⟩ :=
    (hx.expecting _ _).builder henv (.refl s) rfl hinput.1 hwrap hb
  have hs₁ := hs.trans hopened
  have hreads := hsound.reads (.inl (by rw [hrel]; rfl))
  rw [Scalar.groupsSatisfy_iff] at hgroups
  have hkeeps : Keeps (FieldsAt env schema b.context true) (fun sc nss => ∀ ns ∈ nss, AllResolve schema sc ns)
      (groups.mapM (windowGroupNodes env sub b.context constants input.fields.length)) :=
    .mapM groups fun g hg =>
      keeps_windowGroupNodes hsetting b.context (hgroups g hg).1 (hgroups g hg).2
  have hgrows := (hkeeps s₁ calls s₂ hcalls).1
  -- the fields of the input and the windowed calls fill the columns of the relation
  have hopen : ∀ n ∈ columns ++ calls.flatten, Open schema s₀.usedNames F n := by
    intro n hn outer names huse
    rcases List.mem_append.mp hn with hn | hn
    · exact forall_of_mapM hcolumns (fun i _ m hm => hreads outer names huse _ m hm) n hn
    · obtain ⟨ns, hns, hn⟩ := List.mem_flatten.mp hn
      exact hkeeps.over hcalls hs₁ hsound.reader.inUse (fun _ => hreads) outer names huse ns hns n hn
  have hfill : (columns ++ calls.flatten).length = rel.fields.length := by
    have hwidth := ((mapM_eq_ok_iff _ _ _).mp hcolumns).length_eq
    have hlengths : List.Forall₂ (fun g (ns : List Node) => ns.length = g.calls.length) groups calls := by
      refine ConvertM.forall₂_of_gives_mapM (fun g _ s ns s' hg => ?_) hcalls
      exact length_windowGroupNodes hg
    have hwindowed := length_windowFields hlengths
    simp only [List.length_range] at hwidth
    simp [rel, Rel.fields, Rel.renameFirst, ← hwindowed, ← hwidth]
  obtain ⟨-, rfl⟩ := addSelects_eq_ok (by simp) hitems
  simp only [List.nil_append, List.length_nil, List.drop_zero] at hresult
  have hnone : columns ++ calls.flatten = [] → F.columns = [] := by
    intro hnil
    have hempty : rel.fields = [] := List.length_eq_zero_iff.mp (by rw [← hfill, hnil]; rfl)
    have hinput : input.fields = [] := (List.append_eq_nil_iff.mp hempty).1
    refine frame_of_no_columns hsound.reader.sound ?_
    rw [hsound.reader.columns, hinput]
    rfl
  obtain ⟨hm, hunordered, hcolumns', hlist⟩ :=
    putNamedItems hsound.reader.sound hsound.unordered hopen hfill hnone rfl
  exact (And.imp_left fun hrecorded => (hopened.trans hgrows).trans hrecorded)
    ((hsound.grow hgrows).result henv.toNeverQualifies (hs₁.trans hgrows) hresult hrel rfl hm hcolumns'
      (fun hnone => absurd hnone hlist) (fun _ => hunordered) (fun hsort => by cases hsort) hnames)

end AlgebraSql.Convert
