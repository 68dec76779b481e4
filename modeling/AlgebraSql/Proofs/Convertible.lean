import AlgebraSql.Proofs.ConditionPlaces

/-!
# Convertible plans — what converts because something else does.

A plan without joins that is converted at the top is converted below another operator, and a filter over
it is converted if its condition is.
-/

namespace AlgebraSql.Convert

open Sql Node

variable {env : Env} {sub : Rel → ConvertM Node} {s s' : State} {schema : Schema}

/-! ## Filters convert -/

section

variable {input rel : Rel} {x : Result} {expected : List Clause} {ignores : Bool}

/-- A flat result is always given as a query with a select list. -/
theorem Flat.exists_asSelect (henv : env.NeverQualifies) (hx : Flat schema input x) (s : State) :
    ∃ m s', (x.asSelect env).Gives s m s' := by
  by_cases hkind : x.node.kind = .select
  · exact ⟨x.node, s, (ConvertM.gives_asSelect_of_select hkind _ _ _).mpr ⟨rfl, rfl⟩⟩
  · simp only [ConvertM.gives_asSelect_of_ne_select henv hkind]
    rcases hx.form with hplain | hleaf
    · exact ⟨_, _, (ConvertM.gives_wrapSelect_of_plainQuery hplain _ _ _).mpr ⟨rfl, rfl⟩⟩
    · exact ⟨_, s, (ConvertM.gives_wrapSelect_of_readable henv hleaf.isReadable _ _ _).mpr ⟨rfl, rfl⟩⟩

/-- A flat result is always opened. -/
theorem Flat.exists_opening (henv : env.NeverQualifies) (hx : Flat schema input x) (expected : List Clause)
    (ignores : Bool) (rel : Rel) (s : State) :
    ∃ m s', Opening env (x.expecting expected ignores) rel s m s' := by
  unfold Opening
  split
  · obtain ⟨item, hitem, hread, -⟩ := hx.asFrom
    have hitem' : (x.expecting expected ignores).asFrom = .ok item := hitem
    exact ⟨selectFrom item, s, (ConvertM.gives_subSelect hitem' _ _ _).mpr
      ((ConvertM.gives_wrapSelect_of_readable henv hread _ _ _).mpr ⟨rfl, rfl⟩)⟩
  · exact hx.exists_asSelect henv s

/-- A flat result is always given as a statement. -/
theorem Flat.exists_asStatement (henv : env.NeverQualifies) (hx : Flat schema input x) (s : State) :
    ∃ s', (x.asStatement env).Gives s x.query s' := by
  have hgives : ∃ m s', (x.asStatement env).Gives s m s' := by
    unfold Result.asStatement
    split
    · exact ⟨x.node, s, (ConvertM.gives_pure _ _ _ _).mpr ⟨rfl, rfl⟩⟩
    · exact hx.exists_asSelect henv s
  obtain ⟨m, s', hm⟩ := hgives
  obtain rfl := hx.asStatement henv hm
  exact ⟨s', hm⟩

/-- Every field of a flat result is found in the query over it. -/
theorem Flat.exists_field (henv : env.NeverQualifies) (hmap : env.fieldMap = []) (hx : Flat schema input x) {m : Node}
    (hm : Opening env (x.expecting expected ignores) rel s m s') {i : Nat} (hi : i < input.fields.length) :
    ∃ n, ((x.expecting expected ignores).contextOver env rel m).field env (i : Nat) = .ok n := by
  obtain ⟨name, hsingle, -⟩ := hx.single
  unfold Result.contextOver
  rcases (hx.shaped_opened henv hm).items with hstar | ⟨ns, hlisted⟩
  · simp only [hstar, (hsingle.expecting expected ignores).aliases, field_aliases_iff hmap]
    have hi' : i < (x.expecting expected ignores).fields.length := by
      rw [show (x.expecting expected ignores).fields = x.fields from rfl, hx.fields]
      exact hi
    exact ⟨_, _, by rw [nth?_whole, List.getElem?_eq_getElem hi'], rfl⟩
  · obtain ⟨k, hk, -, hget⟩ := hlisted.getElem? (List.getElem?_eq_getElem hi)
    simp only [hlisted.list, Result.itemContext, Context.field, nth?_whole, hget]
    generalize (_ || _ : Bool) = byName
    cases byName with
    | false => exact ⟨_, itemField_namedItem (hlisted.items k hk) _ _⟩
    | true =>
      rcases itemField_namedItem_byName (hlisted.items k hk) input.fields[i].name (i : Nat) with h | ⟨-, h⟩
      · exact ⟨_, h⟩
      · exact ⟨_, h⟩

/-- Any two nodes are related, and operations keep that. -/
theorem congruent_true : Congruent fun _ _ => True where
  args _ _ := trivial

/-- An expression that converts over some columns converts where as many fields are found. -/
theorem converts_of_fields {ctx ctx' : Context} {width : Nat}
    (hrange : ∀ i m, ctx.field env i = .ok m → ∃ j < width, i = (j : Nat))
    (hfield : ∀ i < width, ∃ n, ctx'.field env (i : Nat) = .ok n)
    (hliteral : ∀ l, literalIn env ctx l = literalNode env.dialect l)
    (hliteral' : ∀ l, literalIn env ctx' l = literalNode env.dialect l) {e : Expr} (he : QueryFree env.dialect e)
    {m : Node} (hm : (scalarNode env sub ctx e).Gives s m s') :
    ∃ n, ∀ t, (scalarNode env sub ctx' e).Gives t n t := by
  have halike : Alike env sub (fun _ => False) (fun _ _ => True) ctx ctx' :=
    { congruent := congruent_true
      queries := fun _ hfalse => hfalse.elim
      field := fun i m hi => by
        obtain ⟨j, hj, rfl⟩ := hrange i m hi
        obtain ⟨n, hn⟩ := hfield j hj
        exact ⟨n, hn, trivial⟩
      literal := hliteral
      literal' := hliteral' }
  obtain ⟨n, hn, -⟩ := matches_scalarNode halike e he s m s' hm
  exact ⟨n, (memoryless_scalarNode ctx' e he s n s' hn).2⟩

/-- Constants stand for themselves in a query over a result. -/
theorem literalIn_contextOver (x : Result) (rel : Rel) (m : Node) (l : Literal) :
    literalIn env (x.contextOver env rel m) l = literalNode env.dialect l := by
  unfold Result.contextOver
  split <;> simp [literalIn, Result.itemContext]

/-- A clause that was announced is among those of the query. -/
theorem contains_builderOver {clause : Clause} (h : clause ∈ x.expected) (rel : Rel) (m : Node) :
    (x.builderOver env rel m).clauses.contains clause = true := by
  rw [List.contains_iff_mem]
  unfold Result.builderOver
  split
  · exact h
  · exact List.mem_append_right _ h

/-- A condition is put into a clause that was announced. -/
theorem exists_condition {b : Builder} {clause : Clause} {n : Node}
    (hthree : clause = .having ∨ clause = .qualify ∨ clause = .where) (hclause : b.clauses.contains clause = true) :
    ∃ b', (match clause with
      | .having => b.setHaving (b.alongside "having" n)
      | .qualify => b.setQualify (b.alongside "qualify" n)
      | _ => b.setWhere n : Except Error Builder) = .ok b' := by
  have hput : ∀ (key : String) (n : Node), ∃ b', b.put clause key n = .ok b' := fun key n => by
    rw [Builder.put, if_pos hclause]
    exact ⟨_, rfl⟩
  rcases hthree with rfl | rfl | rfl <;> exact hput _ _

/-- **A filter** over a flat result converts if its condition does. -/
theorem Flat.exists_filterResult (henv : env.NeverQualifies) (hmap : env.fieldMap = []) (hx : Flat schema input x)
    {condition : Expr} (hcondition : QueryFree env.dialect condition) {name : String} {t t' : State} {c : Node}
    (hc : (scalarNode env sub (.aliases [(name, input.fields)] false) condition).Gives t c t') (ids : List String)
    (s : State) :
    ∃ r s', (filterResult env sub input condition ids (.filter input condition ids) x).Gives s r s' := by
  obtain ⟨own, hsingle, -⟩ := hx.single
  generalize hy : x.expecting [filterClause env input condition]
    (ignoresClauses (.filter input condition ids)) = y
  generalize hs : ({ s with correlations := s.correlations.putAll (ids.map fun id => (id, .aliases y.aliases true)) }
    : State) = s₁
  obtain ⟨m, s₂, hm⟩ := hx.exists_opening henv [filterClause env input condition]
    (ignoresClauses (.filter input condition ids)) (.filter input condition ids) s₁
  -- the fields of the input are found, so the condition converts
  obtain ⟨n, hn⟩ := converts_of_fields (fun i m hi => field_columns_range hmap hi)
    (fun i hi => hx.exists_field henv hmap hm hi) (fun l => by simp [literalIn]) (fun l => literalIn_contextOver _ _ _ l)
    hcondition hc
  rw [hy] at hm hn
  have hsingle' : y.Single own := hy ▸ hsingle.expecting _ _
  -- the clause was announced, so it may be put
  have hclause : (y.builderOver env (.filter input condition ids) m).clauses.contains
      (filterClause env input condition) = true :=
    contains_builderOver (by simp [← hy, Result.expecting]) _ m
  obtain ⟨b, hb⟩ := exists_condition (n := n) (filterClause_three env input condition) hclause
  obtain ⟨r, s₃, hr⟩ : ∃ r s₃, (Builder.result env b).Gives s₂ r s₃ :=
    ⟨_, _, (ConvertM.gives_makeResult henv _ _ _ _ _ _ _).mpr ⟨rfl, rfl⟩⟩
  refine ⟨r, s₃, ?_⟩
  simp only [filterResult, hy, ConvertM.gives_bind, ConvertM.gives_lift]
  exact ⟨(), s₁, (ConvertM.gives_registerCorrelations _ _ _ _ _).mpr hs, _, s₂,
    (hsingle'.gives_builder henv _ _ _ _).mpr ⟨m, hm, rfl⟩, n, s₂, hn s₂, b, s₂, ⟨hb, rfl⟩, hr⟩

end

/-! ## Plans below other operators -/

/-- As many items are added to a select list as there are columns. -/
theorem exists_addSelects {fields : RowType} {ns items : List Node} (h : items.length + ns.length ≤ fields.length) :
    ∃ out, addSelects fields items ns = .ok out := by
  induction ns generalizing items with
  | nil => exact ⟨items, rfl⟩
  | cons n ns ih =>
    rw [List.length_cons] at h
    have hi : items.length < fields.length := by omega
    obtain ⟨out, hout⟩ := @ih (items ++ [namedItem n fields[items.length].name]) (by simp; omega)
    refine ⟨out, ?_⟩
    simp only [addSelects, List.foldlM_cons, bind_eq_ok_iff]
    exact ⟨_, by rw [addSelect, List.getElem?_eq_getElem hi], hout⟩

/-- What exists for each element exists for a list, element by element. -/
theorem exists_mapM_forall₂ {α β : Type} {R : α → β → Prop} {f : α → Except Error β} {as : List α}
    (h : ∀ a ∈ as, ∃ b, f a = .ok b ∧ R a b) : ∃ bs, as.mapM f = .ok bs ∧ List.Forall₂ R as bs := by
  induction as with
  | nil => exact ⟨[], rfl, .nil⟩
  | cons a as ih =>
    obtain ⟨b, hb, hab⟩ := h a (by simp)
    obtain ⟨bs, hbs, hrest⟩ := ih fun a ha => h a (by simp [ha])
    refine ⟨b :: bs, ?_, .cons hab hrest⟩
    simp only [List.mapM_cons, bind_eq_ok_iff, pure_eq_ok_iff]
    exact ⟨b, hb, bs, hbs, rfl⟩

theorem exists_mapM {α β : Type} {f : α → Except Error β} {as : List α} (h : ∀ a ∈ as, ∃ b, f a = .ok b) :
    ∃ bs, as.mapM f = .ok bs := by
  obtain ⟨bs, hbs, -⟩ := exists_mapM_forall₂ (R := fun _ _ => True) fun a ha => (h a ha).imp fun _ hb => ⟨hb, trivial⟩
  exact ⟨bs, hbs⟩

/-- Fields that can be written can be sorted by. -/
theorem exists_collationsNodes {ctx : Context} {cs : List Collation} (h : ∀ k ∈ cs.map (·.key), ∃ n, ctx.field env k = .ok n) :
    ∃ items, collationsNodes env ctx cs = .ok items := by
  have hnodes : ∀ c ∈ cs, ∃ ns, collationNodes env ctx c = .ok ns := by
    intro c hc
    obtain ⟨n, hn⟩ := h c.key (List.mem_map_of_mem hc)
    obtain ⟨m, hm⟩ : ∃ m, ctx.orderField env c.key = .ok m := by
      cases ctx <;> simp only [Context.orderField, hn] <;> exact ⟨_, rfl⟩
    exact ⟨_, by rw [collationNodes, hn, hm]; rfl⟩
  obtain ⟨nss, hnss⟩ := exists_mapM hnodes
  exact ⟨nss.flatten, by rw [collationsNodes, hnss]; rfl⟩

section

variable {b b' : Builder}

/-- A clause is put into any query of a builder. -/
theorem exists_put {clause : Clause} {key : String} {n : Node} (h : b.put clause key n = .ok b') (l : Node) :
    ∃ l', { b with select := l }.put clause key n = .ok { b' with select := l' } := by
  unfold Builder.put at h ⊢
  split at h
  · cases h
    exact ⟨l.set key (some (.node n)), by rw [if_pos (by assumption)]⟩
  · cases h

theorem exists_ordered {collation : List Collation} (h : (ordered env collation b).Gives s b' s') (l : Node) :
    ∃ l', (ordered env collation { b with select := l }).Gives s { b' with select := l' } s' := by
  unfold ordered at h ⊢
  simp only [ConvertM.gives_bind, ConvertM.gives_lift] at h ⊢
  obtain ⟨keys, t, hkeys, h⟩ := h
  split at h
  · rename_i hempty
    obtain ⟨rfl, rfl⟩ := (ConvertM.gives_pure _ _ _ _).mp h
    exact ⟨l, keys, t, hkeys, by rw [if_pos hempty]; exact (ConvertM.gives_pure _ _ _ _).mpr ⟨rfl, rfl⟩⟩
  · rename_i hne
    obtain ⟨hput, rfl⟩ := (ConvertM.gives_lift _ _ _ _).mp h
    obtain ⟨l', hl'⟩ := exists_put hput l
    exact ⟨l', keys, _, hkeys, by rw [if_neg hne]; exact (ConvertM.gives_lift _ _ _ _).mpr ⟨hl', rfl⟩⟩

theorem exists_limited {clause : Clause} {key : String} {kind : Kind} {limit : Option Expr}
    (h : (limited env sub clause key kind limit b).Gives s b' s') (l : Node) :
    ∃ l', (limited env sub clause key kind limit { b with select := l }).Gives s { b' with select := l' } s' := by
  cases limit with
  | none =>
    obtain ⟨rfl, rfl⟩ := (ConvertM.gives_pure _ _ _ _).mp h
    exact ⟨l, (ConvertM.gives_pure _ _ _ _).mpr ⟨rfl, rfl⟩⟩
  | some e =>
    simp only [limited, ConvertM.gives_bind, ConvertM.gives_lift] at h ⊢
    obtain ⟨n, t, hn, hput, rfl⟩ := h
    obtain ⟨l', hl'⟩ := exists_put hput l
    exact ⟨l', n, _, hn, hl', rfl⟩

end

/-- A sort converts below another operator if it does at the top. -/
theorem Flat.exists_sortResult (henv : env.NeverQualifies) (hmap : env.fieldMap = []) {input : Rel} {z x : Result}
    (hz : Flat schema input z) {collation : List Collation} {offset fetch : Option Expr}
    (h : (sortResult env sub true collation offset fetch (.sort input collation offset fetch) z).Gives s x s') :
    ∃ y t, (sortResult env sub false collation offset fetch (.sort input collation offset fetch) z).Gives s y t := by
  obtain ⟨name, hsingle, -⟩ := hz.single
  rw [sortResult_eq] at h ⊢
  simp only [ConvertM.gives_bind] at h ⊢
  obtain ⟨b, s₁, hb, b₁, s₂, hlisted, b₂, s₃, hordered, b₃, s₄, hfetched, b₄, s₅, hskipped, -⟩ := h
  obtain ⟨rfl, rfl⟩ : b = b₁ ∧ s₁ = s₂ := by simpa [listed] using hlisted
  -- the columns of a star may be spelled out
  obtain ⟨l, hl⟩ : ∃ l, (listed env false (Rel.sort input collation offset fetch).fields b).Gives s₁
      { b with select := l } s₁ := by
    unfold listed
    split
    · obtain ⟨m, hm, rfl⟩ := ((hsingle.expecting _ _).gives_builder henv _ _ _ _).mp hb
      have hfield : ∀ i ∈ List.range input.fields.length, ∃ n, ((z.expecting [.orderBy, .fetch,
          .offset]).contextOver env (.sort input collation offset fetch) m).field env (i : Nat) = .ok n :=
        fun i hi => hz.exists_field henv hmap hm (List.mem_range.mp hi)
      obtain ⟨columns, hcolumns⟩ := exists_mapM hfield
      obtain ⟨items, hitems⟩ := @exists_addSelects input.fields columns [] (by
        rw [length_of_mapM hcolumns]
        simp)
      refine ⟨m.set "expressions" (some (.nodes items)), (ConvertM.gives_lift _ _ _ _).mpr ⟨?_, rfl⟩⟩
      simp only [withFields, bind_eq_ok_iff, pure_eq_ok_iff]
      exact ⟨columns, hcolumns, items, hitems, rfl⟩
    · exact ⟨b.select, (ConvertM.gives_pure _ _ _ _).mpr ⟨rfl, rfl⟩⟩
  obtain ⟨l₁, hl₁⟩ := exists_ordered hordered l
  obtain ⟨l₂, hl₂⟩ := exists_limited hfetched l₁
  obtain ⟨l₃, hl₃⟩ := exists_limited hskipped l₂
  obtain ⟨y, t, hy⟩ : ∃ y t, (Builder.result env { b₄ with select := l₃ }).Gives s₅ y t :=
    ⟨_, _, (ConvertM.gives_makeResult henv _ _ _ _ _ _ _).mpr ⟨rfl, rfl⟩⟩
  exact ⟨y, t, b, s₁, hb, _, s₁, hl, _, s₃, hl₁, _, s₄, hl₂, _, s₅, hl₃, hy⟩

/-- **A plan that converts** at the top converts below another operator. -/
theorem exists_below (henv : env.NeverQualifies) (hmap : env.fieldMap = []) {rel : Rel}
    (hrel : rel.every (joinFree schema) = true) {x : Result} (h : (relationResult env sub true rel).Gives s x s') :
    ∃ y t, (relationResult env sub false rel).Gives s y t := by
  cases rel with
  | sort input collation offset fetch =>
    simp only [Rel.every, Bool.and_eq_true] at hrel
    rw [relationResult, ConvertM.gives_bind] at h
    obtain ⟨z, s₁, hz, h⟩ := h
    obtain ⟨y, t, hy⟩ := (flat_relationResult henv hmap input hrel.2 hz).exists_sortResult henv hmap h
    refine ⟨y, t, ?_⟩
    rw [relationResult, ConvertM.gives_bind]
    exact ⟨z, s₁, hz, hy⟩
  | _ =>
    rw [relationResult] at h ⊢
    exact ⟨x, s', h⟩

end AlgebraSql.Convert
