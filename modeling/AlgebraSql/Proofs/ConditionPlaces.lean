import AlgebraSql.Proofs.Conditions
import AlgebraSql.Proofs.ScalarValues

/-!
# Condition places — a condition has the same value in every clause that it may be put into.

A condition on the rows of a query refers to its columns.  In WHERE of a new query around it they are
columns, in HAVING they are items or their names, in QUALIFY they are items.  Whatever the place shows for
the columns, the condition is converted alike and has the value that it has for the row.
-/

namespace AlgebraSql.Convert

open Sql Node

variable {env : Env} {sub : Rel → ConvertM Node}

/-! ## Conversions without memory -/

/-- The conversion leaves the memory as it is, and gives the same from any other memory. -/
def Memoryless {α : Type} (c : ConvertM α) : Prop := ∀ s a s', c.Gives s a s' → s' = s ∧ ∀ t, c.Gives t a t

namespace Memoryless

variable {α β : Type}

theorem pure (a : α) : Memoryless (Pure.pure a) := by
  intro s b s' h
  obtain ⟨rfl, rfl⟩ := (ConvertM.gives_pure _ _ _ _).mp h
  exact ⟨rfl, fun t => (ConvertM.gives_pure _ _ _ _).mpr ⟨rfl, rfl⟩⟩

theorem lift (x : Except Error α) : Memoryless (liftM x) := by
  intro s a s' h
  obtain ⟨hx, rfl⟩ := (ConvertM.gives_lift _ _ _ _).mp h
  exact ⟨rfl, fun t => (ConvertM.gives_lift _ _ _ _).mpr ⟨hx, rfl⟩⟩

theorem throw (e : Error) : Memoryless (MonadExcept.throw e : ConvertM α) := by
  intro s a s' h
  exact absurd h (ConvertM.gives_throw _ _ _ _)

theorem bind {c : ConvertM α} {f : α → ConvertM β} (hc : Memoryless c) (hf : ∀ a, Memoryless (f a)) :
    Memoryless (c >>= f) := by
  intro s b s'' h
  obtain ⟨a, s', ha, hb⟩ := (ConvertM.gives_bind _ _ _ _ _).mp h
  obtain ⟨rfl, hall⟩ := hc s a s' ha
  obtain ⟨rfl, hall'⟩ := hf a s' b s'' hb
  exact ⟨rfl, fun t => (ConvertM.gives_bind _ _ _ _ _).mpr ⟨a, t, hall t, hall' t⟩⟩

end Memoryless

/-- An expression without sub-queries of any kind. -/
abbrev QueryFree (d : Dialect) (e : Expr) : Prop := Rowwise d (fun _ => False) e

mutual

/-- **An expression** that is computed row by row, without sub-queries, needs no memory. -/
theorem memoryless_scalarNode (ctx : Context) : ∀ e : Expr, QueryFree env.dialect e →
    Memoryless (scalarNode env sub ctx e)
  | .inputRef i t, _ => by
    rw [scalarNode]
    exact .lift _
  | .localRef i shared t, he => by
    rw [scalarNode]
    split
    · rename_i k hk
      refine memoryless_scalarNodeAt ctx i k shared fun u hu => he u ?_
      rw [Scalar.subterms]
      simpa [hk] using Or.inr hu
    · exact .throw _
  | .literal l, _ => by
    rw [scalarNode]
    exact .lift _
  | .call op operands t, he => by
    have hoperands := he.call_operands
    rw [scalarNode.eq_def]
    simp only
    split
    · exact .bind (memoryless_scalarNodes ctx operands hoperands) fun ns => .pure _
    · exact .bind (memoryless_scalarNodes ctx operands hoperands) fun ns => .pure _
    · split
      · exact .throw _
      · rename_i inner e es u rest
        have hinner := hoperands (.call inner (e :: es) u) (by simp)
        split
        · exact memoryless_scalarNode ctx e (hinner.call_operands e (by simp))
        · exact .bind (memoryless_scalarNode ctx (.call inner (e :: es) u) hinner) fun n => .pure _
      · rename_i operand rest _
        exact .bind (memoryless_scalarNode ctx operand (hoperands operand (by simp))) fun n => .pure _
    · exact .bind (memoryless_scalarNodes ctx operands hoperands) fun ns => .pure _
    · refine .bind (.lift _) fun found => ?_
      split
      · rename_i operand rest
        exact .bind (memoryless_scalarNode ctx operand (hoperands operand (by simp))) fun n => .lift _
      · exact .throw _
    · split
      · exact .throw _
      · rename_i operand rest
        split
        · exact .lift _
        · exact .bind (memoryless_scalarNode ctx operand (hoperands operand (by simp))) fun n => .pure _
    · exact .bind (memoryless_scalarNodes ctx operands hoperands) fun ns => .pure _
    · exact .bind (memoryless_scalarNodes ctx operands hoperands) fun ns => .pure _
    · split
      · exact .throw _
      · rename_i pattern bounds
        exact .bind (memoryless_scalarNode ctx pattern (hoperands pattern (by simp))) fun n => .lift _
    · have hwritten : ∀ ns : List Node, Memoryless (do
          let written ← (env.dialect.retarget op (operands.map (·.type)) : Except Error Operator)
          operationNode written ns : ConvertM Node) := fun ns => .bind (.lift _) fun written => .lift _
      split
      · rename_i op' inner tail u right more _
        have hinner := (hoperands (.call op' (inner :: tail) u) (by simp)).call_operands
        refine .bind (memoryless_scalarNode ctx inner (hinner inner (by simp))) fun l => ?_
        refine .bind (memoryless_scalarNode ctx right (hoperands right (by simp))) fun r => ?_
        exact .bind (.pure _) hwritten
      · rename_i left op' inner tail u more _
        have hinner := (hoperands (.call op' (inner :: tail) u) (by simp)).call_operands
        refine .bind (memoryless_scalarNode ctx left (hoperands left (by simp))) fun l => ?_
        refine .bind (memoryless_scalarNode ctx inner (hinner inner (by simp))) fun r => ?_
        exact .bind (.pure _) hwritten
      · exact .bind (memoryless_scalarNodes ctx _ hoperands) hwritten
  | .overWindow op operands window distinct t, he =>
    (he (.overWindow op operands window distinct t) (by simp [Scalar.subterms])).elim
  | .fieldAccess row field i t, he => by
    have hrow : QueryFree env.dialect row := fun u hu => he u (by simp [Scalar.subterms, hu])
    have hcorrelation : ∀ id u, row ≠ .correlation id u := by
      rintro id u rfl
      exact hrow (.correlation id u) (by simp [Scalar.subterms])
    rw [scalarNode]
    · exact .bind (memoryless_scalarNode ctx row hrow) fun n => .pure _
    · exact hcorrelation
  | .correlation id t, he => (he (.correlation id t) (by simp [Scalar.subterms])).elim
  | .subQuery op operands relation t, he => he.subQuery.elim
  | .parameter i t, _ => by
    rw [scalarNode]
    exact .pure _
  | .patternField symbol i t, he => (he (.patternField symbol i t) (by simp [Scalar.subterms])).elim

theorem memoryless_scalarNodes (ctx : Context) : ∀ es : List Expr, (∀ e ∈ es, QueryFree env.dialect e) →
    Memoryless (scalarNodes env sub ctx es)
  | [], _ => by
    rw [scalarNodes]
    exact .pure _
  | e :: es, he => by
    rw [scalarNodes]
    refine .bind (memoryless_scalarNode ctx e (he e (by simp))) fun n => ?_
    exact .bind (memoryless_scalarNodes ctx es fun e' he' => he e' (by simp [he'])) fun ns => .pure _

theorem memoryless_scalarNodeAt (ctx : Context) (index : Ordinal) (k : Nat) : ∀ es : List Expr,
    (∀ u ∈ Scalar.subtermsAt k es, RowwisePart env.dialect (fun _ => False) u) →
      Memoryless (scalarNodeAt env sub ctx index k es)
  | [], _ => by
    rw [scalarNodeAt]
    exact .throw _
  | e :: es, he => by
    rw [scalarNodeAt]
    rw [Scalar.subtermsAt] at he
    split
    · rename_i hk
      rw [if_pos hk] at he
      exact memoryless_scalarNode ctx e he
    · rename_i hk
      exact memoryless_scalarNodeAt ctx index (k - 1) es (by simpa [hk] using he)

end

/-! ## Contexts that show a row -/

section

variable {E : Engine} {α β : Type} {V : Reading E α} {W : Reading E β} {row : α → Row} {row' : β → Row}
  {width : Nat} {ctx ctx' : Context}

/-- Contexts that show the same places have fields that agree at points that show the same row. -/
theorem alike_of_showsRow (h : ctx.ShowsRow env V width row) (h' : ctx'.ShowsRow env W width row')
    (hrange : ∀ i m, ctx.field env i = .ok m → ∃ j < width, i = (j : Nat)) {Q : Rel → Prop}
    (hqueries : ∀ rel, Q rel → ∀ s q s', (sub rel).Gives s q s' → Queries (Agrees V W fun a b => row a = row' b) q) :
    Alike env sub Q (Agrees V W fun a b => row a = row' b) ctx ctx' where
  congruent := congruent_agrees _ _ _
  queries := hqueries
  field i m hi := by
    obtain ⟨j, hj, rfl⟩ := hrange i m hi
    obtain ⟨k, hk, hshows⟩ := h.field j hj
    obtain ⟨n, hn, hshows'⟩ := h'.field j hj
    obtain rfl : k = m := by simpa [hk] using hi
    exact ⟨n, hn, _, _, hshows, hshows', fun a b hab => by simp only [show row a = row' b from hab]⟩
  literal := h.literal
  literal' := h'.literal

/-- **A condition** that is converted in one context is converted in any other one that shows the same
places, and has the same value at points that show the same row. -/
theorem agrees_of_showsRow (h : ctx.ShowsRow env V width row) (h' : ctx'.ShowsRow env W width row')
    (hrange : ∀ i m, ctx.field env i = .ok m → ∃ j < width, i = (j : Nat)) {e : Expr}
    (he : QueryFree env.dialect e) {s s' : State} {m : Node} (hm : (scalarNode env sub ctx e).Gives s m s') :
    ∃ n, (∀ t, (scalarNode env sub ctx' e).Gives t n t) ∧ Agrees V W (fun a b => row a = row' b) m n := by
  obtain ⟨n, hn, hpaired⟩ := matches_scalarNode (alike_of_showsRow h h' hrange fun _ hfalse => hfalse.elim)
    e he s m s' hm
  exact ⟨n, (memoryless_scalarNode ctx' e he s n s' hn).2, hpaired.rel⟩

end

variable {E : Engine} {db : Database} {fields : RowType}

/-- The columns of a query show its rows. -/
theorem showsRow_columns (hmap : env.fieldMap = []) (hnodup : fields.names.Nodup) (name own : String) (outer : Names) :
    (Context.aliases [(name, fields)] false).ShowsRow env
      (Reading.scalar E db (Names.within [(own, fields.names)] outer)) fields.length Focus.row where
  field i hi := by
    have hget : fields.names[i]? = some fields[i].name := by simp [RowType.names, hi]
    refine ⟨_, (field_aliases_iff hmap).mpr ⟨fields[i], by simp [hi], rfl⟩, ?_⟩
    have hvalue := @scalar_column_single E db own _ _ _ outer hget
      (List.nodup_iff_count_le_one.mp hnodup _)
    simp only [List.getD_eq_getElem?_getD] at hvalue
    exact hvalue
  literal l := by simp [literalIn]

/-- Columns are found for the places of a row only. -/
theorem field_columns_range (hmap : env.fieldMap = []) {name : String} {i : Ordinal} {m : Node}
    (h : (Context.aliases [(name, fields)] false).field env i = .ok m) : ∃ j < fields.length, i = (j : Nat) := by
  obtain ⟨f, hf, -⟩ := (field_aliases_iff hmap).mp h
  exact (nth?_isSome_iff fields i).mp (by rw [hf]; rfl)

/-! ## Select items -/

/-- An item has the value of what it names. -/
theorem Reading.value_namedItem {α : Type} (V : Reading E α) (n : Node) (name : String) :
    V.value (namedItem n name) = V.value n := by
  unfold namedItem
  split
  · rfl
  · have hidentifier : ∃ u, V.value (identifier name) = some u := by
      have hchildren : (identifier name).children = [] := by simp [identifier, children, Arg.children]
      rw [V.operation _ rfl, hchildren]
      exact ⟨_, rfl⟩
    obtain ⟨u, hu⟩ := hidentifier
    have hchildren : (Node.aliased n name).children = [n, identifier name] := by
      simp [Node.aliased, children, Arg.children]
    rw [V.operation _ rfl, hchildren]
    simp only [List.map_cons, List.map_nil, hu]
    cases V.value n with
    | none => rfl
    | some v => rfl

/-- The values of several nodes in their places. -/
theorem getElem?_together {α γ : Type} {os : List (Option (α → γ))} {v : α → List γ} (h : together os = some v)
    {i : Nat} (hi : i < os.length) : ∃ u, os[i] = some u ∧ ∀ a, (v a)[i]? = some (u a) := by
  induction os generalizing v i with
  | nil => simp at hi
  | cons o os ih =>
    cases o with
    | none => cases h
    | some u =>
      simp only [together, Option.map_eq_some_iff] at h
      obtain ⟨w, hw, rfl⟩ := h
      cases i with
      | zero => exact ⟨u, rfl, fun a => rfl⟩
      | succ i =>
        obtain ⟨u', hu', hget⟩ := ih hw (Nat.lt_of_succ_lt_succ hi)
        exact ⟨u', by simpa using hu', fun a => by simpa using hget a⟩

/-- The items of a list under the names of columns, each with the row that they put out. -/
theorem value_of_items {ns : List Node} (hfull : ns.length = fields.length) {α : Type} (V : Reading E α)
    (hone : ∀ m ∈ ns, ∀ u, V.value m = some u → ∀ a, u a = [single (u a)]) {v : α → List (List Datum)}
    (hv : together (ns.map V.value) = some v) {i : Nat} (hi : i < fields.length) :
    ∃ m ∈ ns, ns[i]? = some m ∧ V.Shows m fun a => (((v a).map single)[i]?).getD .null := by
  have hi' : i < ns.length := hfull ▸ hi
  obtain ⟨u, hu, hget⟩ := getElem?_together hv (i := i) (by simpa using hi')
  have hvalue : V.value ns[i] = some u := by simpa using hu
  refine ⟨ns[i], List.getElem_mem hi', by simp, ?_⟩
  rw [Reading.Shows, hvalue]
  refine congrArg some (funext fun a => ?_)
  rw [hone _ (List.getElem_mem hi') u hvalue a]
  simp [hget]

/-- The items of a list show the row that they put out. -/
theorem showsRow_items {ns : List Node} (hfull : ns.length = fields.length) (hitems : ∀ m ∈ ns, Item m) {α : Type}
    (V : Reading E α) (hone : ∀ m ∈ ns, ∀ u, V.value m = some u → ∀ a, u a = [single (u a)])
    {v : α → List (List Datum)} (hv : together (ns.map V.value) = some v) (groupByAlias : Bool) :
    (Context.selectList (namedItems ns fields) false groupByAlias).ShowsRow env V fields.length
      (fun a => (v a).map single) where
  field i hi := by
    obtain ⟨m, hm, hget, hshows⟩ := value_of_items hfull V hone hv hi
    have hitem : (namedItems ns fields)[i]? = some (namedItem m fields[i].name) := by
      simp [namedItems, List.getElem?_zipWith, hi, hget]
    refine ⟨m, ?_, hshows⟩
    simp only [Context.field, nth?_whole, hitem]
    exact itemField_namedItem (hitems m hm) _ _
  literal l := by simp [literalIn]

/-- In HAVING, the items of a list or their names show the row that the items put out. -/
theorem showsRow_having {n : Node} {ns : List Node} (hlisted : Listed fields n ns) (hnodup : fields.names.Nodup)
    (outer : Names) {v : Focus → List (List Datum)}
    (hv : together (ns.map (scalar E db (n.fromNames db outer))) = some v) (groupByAlias : Bool) :
    (Context.selectList (namedItems ns fields) E.havingAlias groupByAlias).ShowsRow env
      (Reading.scalar E db (n.havingNames E db outer)) fields.length (fun a => (v a).map single) := by
  have hone : ∀ m ∈ ns, ∀ u, (Reading.scalar E db (n.fromNames db outer)).value m = some u →
      ∀ a, u a = [single (u a)] := fun m hm u hu => (hlisted.items m hm).oneValued.scalar hu
  cases halias : E.havingAlias with
  | false =>
    have hnames : n.havingNames E db outer = n.fromNames db outer := by simp [havingNames, halias]
    rw [hnames]
    exact showsRow_items hlisted.full hlisted.items _ hone hv groupByAlias
  | true =>
    refine ⟨fun i hi => ?_, fun l => by simp [literalIn]⟩
    obtain ⟨m, hm, hget, hshows⟩ := value_of_items hlisted.full _ hone hv hi
    have hitem : (namedItems ns fields)[i]? = some (namedItem m fields[i].name) := by
      simp [namedItems, List.getElem?_zipWith, hi, hget]
    have hlist : n.list "expressions" = namedItems ns fields := by
      have := hlisted.list
      rw [selectList?] at this
      simp [Node.list, this]
    have hitemNames : n.itemNames = fields.names := by
      rw [itemNames, hlist, outputNames_namedItems hlisted.full]
    -- the name of the column stands for the item at its place
    have hplace : Names.itemPlace? n.itemNames none fields[i].name = some i := by
      rw [hitemNames]
      exact itemPlace?_of_count (by simp [RowType.names, hi]) (List.nodup_iff_count_le_one.mp hnodup _)
    have hcolumn : (Reading.scalar E db (n.havingNames E db outer)).Shows (Node.column fields[i].name)
        fun a => (((v a).map single)[i]?).getD .null := by
      have hbare : (Node.column fields[i].name).name = fields[i].name
          ∧ (Node.column fields[i].name).qualifier? = none := by
        simp [Node.column, Node.name, text, innerText, identifier, qualifier?, kept, child?]
      have hitemAt : n.itemAt E db (n.fromNames db outer) i
          = some fun a => (((v a).map single)[i]?).getD .null := by
        have hvalue : (namedItem m fields[i].name).scalar E db (n.fromNames db outer)
            = some fun a => [(((v a).map single)[i]?).getD .null] := by
          rw [show (namedItem m fields[i].name).scalar E db (n.fromNames db outer)
            = (Reading.scalar E db (n.fromNames db outer)).value (namedItem m fields[i].name) from rfl,
            Reading.value_namedItem]
          exact hshows
        simp only [itemAt, hlist, hitem, Option.bind_some, hvalue, Option.map_some]
        rfl
      change (Node.column fields[i].name).scalar E db (n.havingNames E db outer) = _
      rw [scalar_of_column rfl, hbare.1, hbare.2, havingNames, if_pos halias]
      simp only [Names.itemsFirst, hplace, hitemAt, Option.map_some]
    simp only [Context.field, nth?_whole, hitem]
    rcases itemField_namedItem_byName (hlisted.items m hm) fields[i].name (i : Nat) with hfield | ⟨⟨table, rfl⟩, hfield⟩
    · exact ⟨_, hfield, hcolumn⟩
    · refine ⟨_, hfield, ?_⟩
      cases table with
      | none => exact hcolumn
      | some table =>
        -- a qualified column is no name of an item
        change (Node.column fields[i].name (some table)).scalar E db (n.havingNames E db outer) = _
        have hsame : (Node.column fields[i].name (some table)).scalar E db (n.havingNames E db outer)
            = (Node.column fields[i].name (some table)).scalar E db (n.fromNames db outer) := by
          rw [scalar_of_column rfl, scalar_of_column rfl]
          have hqualifier : (Node.column fields[i].name (some table)).qualifier? = some table := by
            simp [Node.column, qualifier?, kept, child?, Node.table, text, innerText, identifier]
          rw [hqualifier, havingNames, if_pos halias]
          rfl
        rw [hsame]
        exact hshows

end AlgebraSql.Convert
