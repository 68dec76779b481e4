import AlgebraSql.Proofs.SourcedOperators

/-!
# Sources of leaves and joins — operators on no input or on several place their queries among new names.

Tables and constant rows are read under names of their own.  Joins put sources beside each other, set
operations hide them, and what tests for partners or is an argument of a table function is a level of its own.
A row pattern stands beside its input.
-/

namespace AlgebraSql.Convert

open Sql Node

variable {env : Env} {sub : Rel → ConvertM Node} {L : Level} {s₀ s₁ s s' t : State} {ctx : Context} {n m : Node}

/-! ## Plans of a level -/

/-- **`ClearPlan`** — the levels inside a part of a level read no tables that have the name of one of its
sources, and tables are read under admissible names. -/
structure ClearPlan (L : Level) (rel : Rel) : Prop where
  clear : rel.satisfies levelsClear = true
  reads : rel.satisfies (readsOnly L.reads) = true
  queries : rel.satisfies (queriesRead (clearName L.tables)) = true
  partners : rel.satisfies (partnersClear L.tables) = true

/-- **`Holds`** — the plan is part of the level. -/
structure Level.Holds (L : Level) (rel : Rel) : Prop where
  tables : rel.tables ⊆ L.tables
  clear : L.assumed → ClearPlan L rel

namespace Level.Holds

variable {rel part : Rel}

/-- An input of a part of the level is a part of it. -/
theorem input (h : L.Holds rel) (htables : part.tables ⊆ rel.tables)
    (hsatisfies : ∀ k, rel.satisfies k = true → part.satisfies k = true) : L.Holds part where
  tables := List.Subset.trans htables h.tables
  clear hassumed := by
    obtain ⟨hclear, hreads, hqueries, hpartners⟩ := h.clear hassumed
    exact ⟨hsatisfies _ hclear, hsatisfies _ hreads, hsatisfies _ hqueries, hsatisfies _ hpartners⟩

/-- An expression of a part of the level is clear of the level. -/
theorem expr (h : L.Holds rel) {fields : Bool} {e : Expr}
    (hsatisfies : ∀ k, rel.satisfies k = true → e.satisfies k fields = true) : L.Clear fields e := fun hassumed => by
  obtain ⟨hclear, hreads, hqueries, -⟩ := h.clear hassumed
  refine ⟨hsatisfies _ hclear, hsatisfies _ hreads, fun tables htables => ?_⟩
  rw [List.mem_singleton.mp htables]
  exact hsatisfies _ hqueries

end Level.Holds

/-- The level of a plan inside a level, with the names that are admissible there. -/
def Level.inside (L : Level) (rel : Rel) (reads : String → Bool) : Level := { L with tables := rel.tables, reads }

theorem Level.Converts.inside (h : L.Converts env sub) (rel : Rel) (reads : String → Bool) :
    (L.inside rel reads).Converts env sub := ⟨h.never, h.unmapped, h.required, h.grow, h.queries⟩

/-- A plan inside a level is a level of its own. -/
theorem Level.holds_inside {rel : Rel} {reads : String → Bool}
    (h : L.assumed → rel.allClear = true ∧ rel.satisfies (readsOnly reads) = true) : (L.inside rel reads).Holds rel where
  tables := List.Subset.refl _
  clear hassumed := by
    obtain ⟨hclear, hreads⟩ := h hassumed
    simp only [Rel.allClear, Rel.levelClear, Bool.and_eq_true] at hclear
    exact ⟨hclear.2, hreads, hclear.1.1, hclear.1.2⟩

/-! ## Queries without sources -/

/-- A node without sources anywhere. -/
abbrev Sourceless (L : Level) (n : Node) : Prop := Sourced L.assumed L.required (fun _ => False) n

theorem Sourceless.allSources (h : Sourceless L n) : n.allSources = [] := List.eq_nil_iff_forall_not_mem.mpr h.all

theorem Sourceless.innerSources (h : Sourceless L n) : n.innerSources = [] :=
  List.eq_nil_iff_forall_not_mem.mpr fun v hv => h.all v (innerSources_subset n hv)

/-- A node that passes on no sources and has sources only in expressions. -/
theorem settled_of_sourced {n : Node} (hnames : n.sourceNames = [])
    (h : Sourced L.assumed L.required (fun v => L.Brings s₀ s v ∧ L.Avoids s₀ s v) n) : Settled L s₀ s n where
  sound := h.sound
  distinct := by simp [hnames]
  visible := by simp [hnames]
  offered := by simp [hnames]
  source := by simp [hnames]
  all v hv := (h.all v hv).1
  inner v hv := (h.all v (innerSources_subset n hv)).2

/-- A SELECT without a FROM clause has the sources of its clauses. -/
theorem sourced_selectItems {ok : String → Prop} {B : Prop} {required : Bool} {items : List Node}
    (h : ∀ item ∈ items, Sourced B required ok item) :
    Sourced B required ok (Node.selectItems items) ∧ (Node.selectItems items).sourceNames = [] := by
  have hnames : (Node.selectItems items).sourceNames = [] := by
    rw [sourceNames_eq]
    simp [Node.selectItems, ownSource, isFromItem]
  refine ⟨⟨allSourcesSound_iff.mpr ⟨⟨?_, ?_, ?_⟩, fun c hc => ?_⟩, fun v hv => ?_⟩, hnames⟩
  · intro _
    simp [hnames]
  · intro _ _
    simp [hnames]
  · intro _ _ p hp hreads
    obtain rfl : p = ("expressions", .nodes items) := by simpa [Node.selectItems] using hp
    simp [Node.selectItems] at hreads
  · exact (h c (by simpa [Node.selectItems, children, Arg.children] using hc)).sound
  · rcases mem_allSources.mp hv with ⟨-, hv⟩ | ⟨c, hc, hv⟩
    · simp [hnames] at hv
    · exact (h c (by simpa [Node.selectItems, children, Arg.children] using hc)).all v hv

/-! ## Set operations -/

/-- A set operation hides the sources of its inputs. -/
theorem Settled.setOperation {l r : Node} (hl : Settled L s₀ s l) (hr : Settled L s₀ s r) (op : SetOperator)
    (distinct : Bool) : Settled L s₀ s (Node.setOperation (setKind op) l r distinct) := by
  have hpasses : passesOn (setKind op) = false := by cases op <;> rfl
  have hselect : setKind op ≠ .select := by cases op <;> decide
  have hreads : ∀ p ∈ (Node.setOperation (setKind op) l r distinct).args, p.2.children ≠ [] →
      readsAt (setKind op) p.1 = true := by
    intro p hp hchildren
    simp only [Node.setOperation, args_mk, List.mem_cons, List.not_mem_nil, or_false] at hp
    rcases hp with rfl | rfl | rfl
    · cases op <;> rfl
    · cases op <;> rfl
    · exact absurd rfl hchildren
  have hnames : (Node.setOperation (setKind op) l r distinct).sourceNames = [] := by
    rw [sourceNames_eq]
    cases op <;> simp [Node.setOperation, setKind, ownSource, isFromItem, passesOn]
  have hchildren : ∀ c ∈ (Node.setOperation (setKind op) l r distinct).children, c = l ∨ c = r := by
    intro c hc
    simpa [Node.setOperation, children, Arg.children] using hc
  constructor
  · refine allSourcesSound_iff.mpr ⟨sourcesSound_of_kind hpasses, fun c hc => ?_⟩
    exact (hchildren c hc).elim (fun h => h ▸ hl.sound) fun h => h ▸ hr.sound
  · simp [hnames]
  · simp [hnames]
  · simp [hnames]
  · simp [hnames]
  · intro v hv
    rcases mem_allSources.mp hv with ⟨hkind, -⟩ | ⟨c, hc, hv⟩
    · exact absurd hkind hselect
    · exact (hchildren c hc).elim (fun h => hl.all v (h ▸ hv)) fun h => hr.all v (h ▸ hv)
  · intro v hv
    obtain ⟨p, hp, c, hc, hv⟩ := mem_innerSources.mp hv
    have hmem : c ∈ (Node.setOperation (setKind op) l r distinct).children := List.mem_flatMap.mpr ⟨p, hp, hc⟩
    rw [show (Node.setOperation (setKind op) l r distinct).kind = setKind op from rfl,
      if_pos (hreads p hp (List.ne_nil_of_mem hc))] at hv
    exact (hchildren c hmem).elim (fun h => hl.inner v (h ▸ hv)) fun h => hr.inner v (h ▸ hv)

/-- Set operations from left to right. -/
theorem Settled.setOperations (op : SetOperator) (distinct : Bool) {ns : List Node} {n : Node} (hn : Settled L s₀ s n)
    (hplain : isPlainQuery n = true) (hns : ∀ m ∈ ns, Settled L s₀ s m) :
    Settled L s₀ s (ns.foldl (fun u n => Node.setOperation (setKind op) u n distinct) n)
      ∧ isPlainQuery (ns.foldl (fun u n => Node.setOperation (setKind op) u n distinct) n) = true := by
  induction ns generalizing n with
  | nil => exact ⟨hn, hplain⟩
  | cons m ns ih =>
    refine ih (hn.setOperation (hns m (by simp)) op distinct) ?_ fun k hk => hns k (by simp [hk])
    cases op <;> rfl

/-! ## Leaves -/

/-- The parts of a table read from nothing. -/
theorem sourceless_table {path : List String} (h : Node.table? path = .ok n) : Sourceless L n := by
  have hidentifier : ∀ s, Sourceless L (table?.identifier s) := fun s => sourced_leaf rfl (by simp [table?.identifier, children])
  have htable : ∀ name db catalog, Sourceless L (table?.tableIn name db catalog) := by
    intro name db catalog
    refine (sourced_iff rfl).mpr ?_
    cases db <;> cases catalog <;> simp [table?.tableIn, kept, children, hidentifier]
  unfold Node.table? at h
  split at h
  · cases h
  all_goals
    cases h
    exact htable _ _ _

/-- A table is known by the last part of its path. -/
theorem getLast?_of_table {path : List String} {own : String} (h : Node.table? path = .ok n) (hown : n.aliasOf? = some own) :
    path.getLast? = some own := by
  rw [List.getLast?_eq_head?_reverse]
  unfold Node.table? at h
  split at h
  · cases h
  all_goals
    rename_i hreverse
    cases h
    rw [hreverse, List.head?_cons, ← hown]
    simp [table?.tableIn, table?.identifier, aliasOf?, aliasName, nameUnder, kept, name, text, innerText]

/-- **A table** is placed under its own name if that is new. -/
theorem placed_scanResult (hL : L.Converts env sub) {path : List String} {fields : RowType} {r : Result}
    (hrel : L.Holds (.scan path fields)) (h : (scanResult env path (.scan path fields)).Gives s r s') :
    Placed L s s' r ∧ r.node.allSources = [] ∧ r.node.kind = .table := by
  simp only [scanResult, ConvertM.gives_bind, ConvertM.gives_lift] at h
  obtain ⟨n, t, ⟨hn, rfl⟩, h⟩ := h
  have hpath : path ≠ [] := by
    rintro rfl
    cases hn
  obtain ⟨table, own, htable, hkind, hown, -, -⟩ := table?_traits hpath
  obtain rfl : table = n := by simpa [htable] using hn
  have hlast : path.getLast? = some own := getLast?_of_table htable hown
  have hoffered : own ∈ "t" :: L.tables := List.mem_cons_of_mem _ (hrel.tables (by simp [Rel.tables, hlast]))
  have hnone := sourceless_table (L := L) htable
  have hnames : table.sourceNames = [Text.lower own] := by
    rw [sourceNames_eq]
    simp [ownSource, isFromItem, hkind, hown, passesOn]
  have hreads : L.assumed → Text.lower own ∉ s.usedNames ∨ L.reads (Text.lower own) = true := fun hassumed => by
    have hread := (hrel.clear hassumed).reads
    exact .inr (by simpa [Rel.satisfies, readsOnly, hlast] using hread)
  have hnode : r.node = table := (makeResult_traits h).1
  refine ⟨placed_makeItem hL.never hnone.sound hown (by simp [isReadable, hkind]) hnames hnone.allSources
    (mayBeNamed_of_mem hoffered (numberedAs_self own)) (L.offers_unique _ hoffered) hreads h, ?_, ?_⟩
  · rw [hnode]
    exact hnone.allSources
  · rw [hnode]
    exact hkind

/-- A settled query is placed when it is recorded. -/
theorem placed_query (henv : env.NeverQualifies) {n : Node} {clauses : List Clause} {rel : Rel} {aliases : Option Aliases}
    {r : Result} (hbefore : s₀.usedNames ⊆ s.usedNames) (hn : Settled L s₀ s n) (hplain : isPlainQuery n = true)
    (h : (makeResult env n clauses rel aliases).Gives s r s') : Placed L s₀ s' r := by
  refine placed_makeResult henv hbefore (hn.later (subset_afterRecording _ _ _)) (aliasOf?_of_plainQuery hplain)
    (.inl hplain) (fun v hv => (hn.inner v hv).1) (fun hkind => ?_) h
  rw [isPlainQuery_iff, hkind] at hplain
  simp [Kind.isSetOperation] at hplain

/-- An item without expressions, under a new name. -/
theorem settled_named {item : Node} {name : String} (hitem : Sourceless L item) (hnames : item.sourceNames = [Text.lower name])
    (hoffers : L.Offers (Text.lower name)) (hbrings : L.Brings s₀ s (Text.lower name)) : Settled L s₀ s item where
  sound := hitem.sound
  distinct := by simp [hnames]
  visible _ v _ := by simp [hitem.innerSources]
  offered := by simpa [hnames] using hoffers
  source := by simpa [hnames] using hbrings
  all := by simp [hitem.allSources]
  inner := by simp [hitem.innerSources]

/-- No rows, as one row under a new name that is filtered out. -/
theorem placed_noRows (henv : env.NeverQualifies) {item : Node} {clauses : List Clause} {rel : Rel} {r : Result}
    (hitem : Sourceless L item) (hnames : item.sourceNames = [Text.lower (s.usedNames.unique "t")]) (hnamed : Named L item)
    (h : (makeResult env (Node.selectWhere item Node.alwaysFalse) clauses rel none).Gives s r s') : Placed L s s' r := by
  have hsourceless : Sourceless L (wrap .where Node.alwaysFalse) :=
    sourced_wrap rfl (inherited_binary inherited_sourced rfl (inherited_number inherited_sourced _)
      (inherited_number inherited_sourced _))
  have hown : (Node.selectWhere item Node.alwaysFalse).aliasOf? = none := aliasOf?_select rfl
  have hused : Text.lower (s.usedNames.unique "t")
      ∈ (afterRecording s (Node.selectWhere item Node.alwaysFalse) rel).usedNames := by
    have hmem := lower_mem_afterRecording s (Node.selectWhere item Node.alwaysFalse) rel
    rwa [givenName, hown] at hmem
  have hbrings : L.Brings s (afterRecording s (Node.selectWhere item Node.alwaysFalse) rel)
      (Text.lower (s.usedNames.unique "t")) := brought_of_free (List.Subset.refl _) (UsedNames.has_unique _ _) hused
  have hselect := (settled_named hitem hnames (L.offers_unique _ (by simp)) hbrings).selectFrom hnamed
  have hinner : (Node.selectWhere item Node.alwaysFalse).innerSources = [] := by
    refine List.eq_nil_iff_forall_not_mem.mpr fun v hv => ?_
    rw [selectWhere_eq] at hv
    rcases mem_innerSources_set hv with hv | ⟨c, hc, hv⟩
    · rw [innerSources_selectFrom, hitem.innerSources] at hv
      cases hv
    · obtain rfl : c = wrap .where Node.alwaysFalse := by simpa using hc
      exact hsourceless.all v hv
  refine placed_makeResult henv (List.Subset.refl _) ?_ hown (.inl rfl) (by simp [hinner]) (fun hkind => by cases hkind) h
  rw [selectWhere_eq]
  refine hselect.set rfl (by decide) fun c hc => ?_
  obtain rfl : c = wrap .where Node.alwaysFalse := by simpa using hc
  exact hsourceless.mono fun _ hfalse => hfalse.elim

/-- **Constant rows** are placed under a new name. -/
theorem placed_valuesResult (hL : L.Converts env sub) {fields : RowType} {tuples : List (List Literal)} {rel : Rel}
    {r : Result} (h : (valuesResult env fields tuples rel).Gives s r s') : Placed L s s' r := by
  simp only [valuesResult, ConvertM.gives_bind, ConvertM.gives_nextName, ConvertM.gives_lift] at h
  obtain ⟨_, t, ⟨rfl, rfl⟩, n, t', ⟨hn, rfl⟩, h⟩ := h
  have hne : s.usedNames.unique "t" ≠ "" := UsedNames.unique_ne_empty_of_ne (by decide)
  have hnulls : ∀ n ∈ fields.map fun f => typedNull env.dialect f.type, Sourceless L n := by
    intro n hn
    obtain ⟨f, -, rfl⟩ := List.mem_map.mp hn
    exact inherited_typedNull inherited_sourced _ _
  have hvalues : ∀ {rows : List Node}, (∀ n ∈ rows, Sourceless L n) →
      Sourceless L (valuesItem (s.usedNames.unique "t") fields.names rows)
        ∧ (valuesItem (s.usedNames.unique "t") fields.names rows).sourceNames = [Text.lower (s.usedNames.unique "t")] := by
    intro rows hrows
    refine ⟨(sourced_iff rfl).mpr fun c hc => ?_, ?_⟩
    · have hcases : c ∈ rows ∨ c = tableAlias (s.usedNames.unique "t") fields.names := by
        simpa [valuesItem, children, Arg.children] using hc
      rcases hcases with hc | rfl
      · exact hrows c hc
      · exact ⟨sound_tableAlias _ _, by simp⟩
    · rw [sourceNames_eq, ownSource, aliasOf?_valuesItem hne]
      simp [valuesItem, isFromItem, passesOn]
  have hselected : ∀ {ns : List Node}, (∀ n ∈ ns, Sourceless L n) →
      Sourceless L (namedSelect fields ns) ∧ (namedSelect fields ns).sourceNames = [] := fun hns =>
    sourced_selectItems (inherited_namedConstants inherited_sourced hns fields)
  by_cases haliased : env.dialect.capabilities.aliasedValues = true
  · simp only [haliased, if_true, aliasedValues] at hn
    split at hn
    · cases hn
      have hrow : ∀ n ∈ [Node.tuple (fields.map fun f => typedNull env.dialect f.type)], Sourceless L n := by
        simpa using inherited_tuple inherited_sourced hnulls
      obtain ⟨hitem, hnames⟩ := hvalues hrow
      exact placed_noRows hL.never hitem hnames (fun _ hkind => by cases hkind) h
    · simp only [bind_eq_ok_iff, pure_eq_ok_iff] at hn
      obtain ⟨rows, hrows, rfl⟩ := hn
      have hconstant : ∀ n ∈ rows, Sourceless L n := forall_of_mapM hrows fun tuple _ n hn => by
        simp only [bind_eq_ok_iff, pure_eq_ok_iff] at hn
        obtain ⟨literals, hliterals, rfl⟩ := hn
        exact inherited_tuple inherited_sourced (inherited_literalNodes inherited_sourced _ _ hliterals)
      obtain ⟨hitem, hnames⟩ := hvalues hconstant
      have hfree := UsedNames.has_unique s.usedNames "t"
      have hsame : s.usedNames.unique (s.usedNames.unique "t") = s.usedNames.unique "t" := by
        rcases UsedNames.unique_eq s.usedNames (s.usedNames.unique "t") with ⟨-, hsame⟩ | ⟨hused, -⟩
        · exact hsame
        · rw [hfree] at hused
          cases hused
      refine placed_makeItem hL.never hitem.sound (aliasOf?_valuesItem hne _ rows) ?_ hnames hitem.allSources
        (L.offers_unique _ (by simp)) (by rw [hsame]; exact L.offers_unique _ (by simp))
        (fun _ => .inl (lower_not_mem_of_free hfree)) h
      simp [isReadable, valuesItem, Node.hasAlias, child?]
  · simp only [haliased, Bool.false_eq_true, if_false, unionValues, bind_eq_ok_iff] at hn
    obtain ⟨ns, hns, hn⟩ := hn
    have hrows : ∀ n ∈ ns, (Sourceless L n ∧ n.sourceNames = []) ∧ isPlainQuery n = true :=
      forall_of_mapM hns fun tuple _ n hn => by
        simp only [bind_eq_ok_iff, pure_eq_ok_iff] at hn
        obtain ⟨literals, hliterals, rfl⟩ := hn
        exact ⟨hselected (inherited_literalNodes inherited_sourced _ _ hliterals), rfl⟩
    split at hn
    · simp only [bind_eq_ok_iff, pure_eq_ok_iff] at hn
      obtain ⟨item, hitem, rfl⟩ := hn
      obtain rfl : derived (namedSelect fields _) (some (s.usedNames.unique "t")) = item := by
        simpa [asFromItem_of_plainQuery (n := namedSelect fields _) rfl] using hitem
      obtain ⟨hnone, -⟩ := hselected hnulls
      refine placed_noRows hL.never ⟨?_, ?_⟩ (sourceNames_derived _ (by simpa using hne)) (fun _ _ => rfl) h
      · refine allSourcesSound_iff.mpr ⟨sourcesSound_of_kind rfl, fun c hc => ?_⟩
        have hcases : c = namedSelect fields (fields.map fun f => typedNull env.dialect f.type)
            ∨ c = tableAlias (s.usedNames.unique "t") := by simpa [Convert.derived, children, Arg.children] using hc
        rcases hcases with rfl | rfl
        · exact hnone.sound
        · exact sound_tableAlias _ _
      · rw [allSources_derived]
        exact hnone.all
    · rename_i first rest
      obtain rfl := (pure_eq_ok_iff _ _).mp hn
      have hsettled : ∀ n ∈ first :: rest, Settled L s s n := fun n hn =>
        settled_of_sourced (hrows n hn).1.2 ((hrows n hn).1.1.mono fun _ hfalse => hfalse.elim)
      obtain ⟨hn, hplain⟩ := Settled.setOperations .union false (hsettled first (by simp)) (hrows first (by simp)).2
        fun n hn => hsettled n (List.mem_cons_of_mem _ hn)
      exact placed_query hL.never (List.Subset.refl _) hn hplain h

/-! ## Lists of queries -/

/-- The query with a select list for a placed result is settled. -/
theorem Placed.selected (hL : L.Converts env sub) {r : Result} (h : Placed L s₀ s r) (hbefore : s₀.usedNames ⊆ s.usedNames)
    (hm : (r.asSelect env).Gives s m s') : Settled L s₀ s' m ∧ isPlainQuery m = true := by
  obtain ⟨hsettled, hkind, -⟩ := h.asSelect hL.never hL.required hbefore hm
  refine ⟨hsettled, ?_⟩
  by_cases hselect : r.node.kind = .select
  · obtain ⟨rfl, rfl⟩ := (ConvertM.gives_asSelect_of_select hselect m s s').mp hm
    rcases h.form with hform | hform | hform
    · exact hform
    · simp [isReadable, hselect] at hform
    · rw [hselect] at hform
      cases hform
  · have hwrapped := (ConvertM.gives_asSelect_of_ne_select hL.never hselect m s s').mp hm
    obtain ⟨-, ⟨item, rfl⟩, -⟩ := h.toSettled.wrapSelect hL.never hL.required hbefore h.form hwrapped
    exact isPlainQuery_selectFrom item

/-- **A set operation** on queries of its level. -/
theorem placed_setOpResult (henv : env.NeverQualifies) {op : SetOperator} {all : Bool} {selects : List Node} {rel : Rel}
    {r : Result} (hbefore : s₀.usedNames ⊆ s.usedNames)
    (hselects : ∀ n ∈ selects, Settled L s₀ s n ∧ isPlainQuery n = true)
    (h : (setOpResult env op all rel selects).Gives s r s') : Placed L s₀ s' r := by
  unfold setOpResult at h
  cases selects with
  | nil => exact absurd h (ConvertM.gives_throw _ _ _ _)
  | cons first rest =>
    obtain ⟨hfirst, hplain⟩ := hselects first (by simp)
    obtain ⟨hn, hplain⟩ := Settled.setOperations op (!all) hfirst hplain
      fun n hn => (hselects n (List.mem_cons_of_mem _ hn)).1
    exact placed_query henv hbefore hn hplain h

/-- **A table function** has the sources of its arguments in an expression. -/
theorem placed_tableFunctionResult (hL : L.Converts env sub) {call : Expr} {rel : Rel} {selects : List Node} {r : Result}
    (hs : OnTheWay s₀ s) (hcall : L.Clear true call)
    (hselects : ∀ n ∈ selects, Sourced L.assumed L.required (fun v => L.Brings s₀ s v ∧ L.Avoids s₀ s v) n)
    (h : (tableFunctionResult env sub call rel selects).Gives s r s') : Placed L s₀ s' r := by
  simp only [tableFunctionResult, ConvertM.gives_bind] at h
  obtain ⟨n, t, hn, h⟩ := h
  obtain ⟨hafter, -⟩ := (steady_scalarNode (steadyQueries_of_grow hL.grow []) _ true call
    (Scalar.satisfies_trivial (trivial_growing []) true call) s n t hn).1
  have hsourced : Sourced L.assumed L.required (fun v => L.Brings s₀ t v ∧ L.Avoids s₀ t v) n := by
    refine post_of_steady (s := s) (steady_scalarNode (steady_below hL.grow t.usedNames) _ true call
      (Scalar.satisfies_trivial (trivial_growing _) true call)) (inherited_scalarNode ?_ call hcall) hs.columns hn
    refine admits_sourced hL.unmapped hL.grow hL.queries (fun i c hc => ?_) fun v hbrings havoids => ?_
    · simp only [Context.field] at hc
      split at hc
      · rename_i hmem
        cases hc
        exact (hselects _ (mem_of_nth? hmem)).mono fun v hv =>
          ⟨hv.1.mono (List.Subset.refl _) hafter, hv.2.mono (List.Subset.refl _) hafter⟩
      · cases hc
    · exact ⟨hbrings.mono hs.before (List.Subset.refl _),
        (havoids L.tables (by simp)).mono hs.before (List.Subset.refl _)⟩
  have hitem : Settled L s₀ t (wrap .tableFunction n) := by
    refine settled_of_sourced ?_ (sourced_wrap rfl hsourced)
    rw [sourceNames_eq]
    simp [wrap, ownSource, isFromItem, aliasOf?, aliasName, nameUnder, passesOn]
  exact placed_query hL.never (List.Subset.trans hs.before hafter) (hitem.selectFrom fun _ hkind => by cases hkind)
    (isPlainQuery_selectFrom _) h

/-! ## Joins -/

/-- The condition of a join has the sources of the queries in it. -/
theorem sourced_conditionNode (hL : L.Converts env sub) (hs : OnlyColumns s) {x y : Result} {levels : List (List String)}
    {condition : Expr} (hcondition : L.assumed → ClearExpr L.reads levels true condition)
    (h : (conditionNode env sub x.qualifiedContext y.qualifiedContext condition).Gives s n s') :
    Sourced L.assumed L.required
        (fun v => L.Brings s s' v ∧ ∀ tables ∈ levels, Brought L.assumed (clearName tables) s s' v) n
      ∧ OnlyColumns s' ∧ s.usedNames ⊆ s'.usedNames := by
  obtain ⟨hafter, hcolumns⟩ := (steady_conditionNode (steadyQueries_of_grow hL.grow []) _ _ condition
    (Scalar.satisfies_trivial (trivial_growing []) true condition) s n s' h).1
  refine ⟨?_, hcolumns hs, hafter⟩
  have hadmits : Admits env (below s'.usedNames sub) (fun t => OnlyColumns t ∧ s.usedNames ⊆ t.usedNames)
      (Sourced L.assumed L.required
        (fun v => L.Brings s s' v ∧ ∀ tables ∈ levels, Brought L.assumed (clearName tables) s s' v))
      (.join x.qualifiedContext y.qualifiedContext) (fun e => L.assumed → ClearExpr L.reads levels true e) :=
    admits_sourced hL.unmapped hL.grow hL.queries
      (.join (hasColumns_sourced.aliasField hL.unmapped x.aliases true)
        (hasColumns_sourced.aliasField hL.unmapped y.aliases true))
      fun v hbrings havoids => ⟨hbrings, havoids⟩
  exact post_of_steady (steady_conditionNode (steady_below hL.grow s'.usedNames) _ _ condition
    (Scalar.satisfies_trivial (trivial_growing _) true condition))
    (inherited_conditionNode hadmits (turning_clearExpr _) condition hcondition) hs h

/-- **Items beside each other**: the names of the second one were new when those of the first were in use. -/
theorem settled_joinNode {l r : Node} {kind : String} {on : Option Node} (hl : SettledItem L s₀ s₁ l)
    (hr : SettledItem L s₁ s r) (hbefore : s₀.usedNames ⊆ s₁.usedNames) (hmiddle : s₁.usedNames ⊆ s.usedNames)
    (hafter : s.usedNames ⊆ s'.usedNames)
    (hon : ∀ n, on = some n → Sourced L.assumed L.required (fun v => L.Brings s s' v ∧ L.Avoids s s' v) n) :
    Settled L s₀ s' (joinNode l r kind on) := by
  have hleft := hl.toSettled.later (List.Subset.trans hmiddle hafter)
  have hright := hr.toSettled.mono hbefore hafter
  have honto : ∀ v ∈ on.toList.flatMap allSources, L.Brings s s' v ∧ L.Avoids s s' v := by
    intro v hv
    obtain ⟨n, hn, hv⟩ := List.mem_flatMap.mp hv
    exact (hon n (by simpa using hn)).all v hv
  have hnames := sourceNames_joinNode l r kind on
  have hinner : ∀ v ∈ (joinNode l r kind on).innerSources,
      v ∈ l.innerSources ∨ v ∈ r.innerSources ∨ v ∈ on.toList.flatMap allSources := by
    intro v hv
    rw [innerSources_joinNode, List.append_assoc, List.mem_append, List.mem_append] at hv
    exact hv
  constructor
  · refine allSourcesSound_iff.mpr ⟨⟨fun hkind => (by cases hkind), fun _ hkind => (by cases hkind), ?_⟩, fun c hc => ?_⟩
    · intro hrequired _ p hp hreads c hc hkind
      have hcases : c = l ∨ c = r := by
        have hmem : p = ("this", .node l) ∨ p = ("expression", .node r) ∨ p = ("kind", .text kind)
            ∨ ∃ n, on = some n ∧ p = ("on", .node n) := by
          cases on <;> simpa [joinNode, Node.optional] using hp
        rcases hmem with rfl | rfl | rfl | ⟨n, -, rfl⟩
        · exact .inl (by simpa using hc)
        · exact .inr (by simpa using hc)
        · simp at hc
        · simp [joinNode] at hreads
      rcases hcases with rfl | rfl
      · exact hl.named hrequired hkind
      · exact hr.named hrequired hkind
    · have hcases : c = l ∨ c = r ∨ on = some c := by
        cases on <;> simpa [joinNode, Node.optional, children, eq_comm (a := c)] using hc
      rcases hcases with rfl | rfl | hc
      · exact hl.sound
      · exact hr.sound
      · exact (hon c hc).sound
  · rw [hnames, List.nodup_append]
    refine ⟨hl.distinct, hr.distinct, ?_⟩
    rintro v hvl _ hvr rfl
    exact hr.unused v hvr (hl.source v hvl).1
  · intro hassumed v hv hvi
    rw [hnames, List.mem_append] at hv
    rcases hv with hv | hv
    · have hused := (hl.source v hv).1
      rcases hinner v hvi with hvi | hvi | hvi
      · exact hl.visible hassumed v hv hvi
      · exact (hr.inner v hvi).ne hassumed hused (hl.offered v hv)
      · exact (honto v hvi).2.ne hassumed (hmiddle hused) (hl.offered v hv)
    · rcases hinner v hvi with hvi | hvi | hvi
      · exact hr.unused v hv (hl.inner v hvi).1
      · exact hr.visible hassumed v hv hvi
      · exact (honto v hvi).2.ne hassumed (hr.source v hv).1 (hr.offered v hv)
  · intro v hv
    rw [hnames, List.mem_append] at hv
    exact hv.elim (hl.offered v) (hr.offered v)
  · intro v hv
    rw [hnames, List.mem_append] at hv
    exact hv.elim (hleft.source v) (hright.source v)
  · intro v hv
    rw [allSources_joinNode, List.append_assoc, List.mem_append, List.mem_append] at hv
    rcases hv with hv | hv | hv
    · exact hleft.all v hv
    · exact hright.all v hv
    · exact (honto v hv).1.mono (List.Subset.trans hbefore hmiddle) (List.Subset.refl _)
  · intro v hv
    rcases hinner v hv with hv | hv | hv
    · exact hleft.inner v hv
    · exact hright.inner v hv
    · exact (honto v hv).2.mono (List.Subset.trans hbefore hmiddle) (List.Subset.refl _)

/-- **A join** of placed results. -/
theorem placed_joinResult (hL : L.Converts env sub) {condition : Expr} {type : JoinType} {ids : List String} {rel : Rel}
    {x y r : Result} (hx : Placed L s₀ s₁ x) (hy : Placed L s₁ s y) (hs : OnTheWay s₁ s)
    (hbefore : s₀.usedNames ⊆ s₁.usedNames) (hcondition : L.Clear true condition)
    (h : (joinResult env sub condition type ids rel x y).Gives s r s') : Placed L s₀ s' r := by
  simp only [joinResult, ConvertM.gives_bind, ConvertM.gives_lift] at h
  obtain ⟨u, t, hdeclared, l, t', ⟨hl, rfl⟩, m, t', ⟨hm, rfl⟩, h⟩ := h
  obtain ⟨hs', hused⟩ := hs.register hdeclared
  have hleft := hx.asFrom hl
  have hright := (hy.later hused).asFrom hm
  have hmade : ∀ {kind : String} {on : Option Node} {t₁ : State}, t.usedNames ⊆ t₁.usedNames →
      (∀ n, on = some n → Sourced L.assumed L.required (fun v => L.Brings t t₁ v ∧ L.Avoids t t₁ v) n) →
      (makeJoinResult env (joinNode l m kind on) x y rel).Gives t₁ r s' → Placed L s₀ s' r := by
    intro kind on t₁ hafter hon hr
    have hsettled : Settled L s₀ t₁ (joinNode l m kind on) := settled_joinNode hleft hright hbefore hs'.before hafter hon
    refine placed_makeResult hL.never (List.Subset.trans hbefore (List.Subset.trans hs'.before hafter))
      (hsettled.later (subset_afterRecording _ _ _)) ?_ (.inr (.inl rfl)) (fun v hv => (hsettled.inner v hv).1)
      (fun hkind => by cases hkind) hr
    simp [joinNode, aliasOf?, isFromItem]
  split at h
  · simp only [pure_bind] at h
    exact hmade (List.Subset.refl _) (fun n hn => by cases hn) h
  · simp only [ConvertM.gives_bind, ConvertM.gives_pure] at h
    obtain ⟨on, t₁, hon, n, t₂, ⟨rfl, rfl⟩, hr⟩ := h
    obtain ⟨hsourced, -, hafter⟩ := sourced_conditionNode hL hs'.columns hcondition hon
    refine hmade hafter (fun n hn => ?_) hr
    cases hn
    exact hsourced.mono fun v hv => ⟨hv.1, hv.2 L.tables (by simp)⟩

/-! ## Tests for partners -/

/-- Sources that came into use after `s₁`, or whose names the level avoids. -/
abbrev Late (L : Level) (s₁ s : State) (v : String) : Prop := L.Brings s₁ s v ∧ L.Avoids s₁ s v

/-- **`SELECT 1 FROM item WHERE condition`** has new sources, and the condition hides none of them. -/
theorem sourced_existenceQuery {inner : Level} {item on : Node} (hassumed : inner.assumed = L.assumed)
    (hrequired : inner.required = L.required) (hitem : SettledItem inner s₁ s item)
    (hreads : ∀ v ∈ item.allSources, Late L s₁ s v) (hbefore : s₁.usedNames ⊆ s.usedNames) (hafter : s.usedNames ⊆ t.usedNames)
    (hon : Sourced L.assumed L.required (fun v => Late L s t v ∧ inner.Avoids s t v) on) :
    Sourced L.assumed L.required (Late L s₁ t) (existenceQuery item on) := by
  have hnumber : Sourceless L (Node.number "1") := inherited_number inherited_sourced _
  have hnames : (existenceQuery item on).sourceNames = item.sourceNames := by
    rw [sourceNames_eq]
    simp [existenceQuery, ownSource, isFromItem, passesOn, Arg.children, sourceNames_wrapFrom]
  have hinner : ∀ v ∈ (existenceQuery item on).innerSources, v ∈ item.innerSources ∨ v ∈ on.allSources := by
    intro v hv
    have hfrom : (wrap .from item).innerSources = item.innerSources := by
      rw [innerSources_eq]
      simp [wrap, Arg.children]
    rw [innerSources_eq] at hv
    simpa [existenceQuery, Arg.children, hnumber.allSources, hfrom, allSources_wrap] using hv
  have hsource : ∀ v ∈ item.sourceNames, Late L s₁ t v := by
    intro v hv
    have hused := hafter (hitem.source v hv).1
    exact ⟨⟨hused, fun _ => .inl (hitem.unused v hv)⟩, hused, fun _ => .inl (hitem.unused v hv)⟩
  constructor
  · refine allSourcesSound_iff.mpr ⟨⟨fun _ => hnames ▸ hitem.distinct, fun hB _ v hv hvi => ?_, ?_⟩, fun c hc => ?_⟩
    · rw [hnames] at hv
      have hB' : inner.assumed := by rwa [hassumed]
      rcases hinner v hvi with hvi | hvi
      · exact hitem.visible hB' v hv hvi
      · exact (hon.all v hvi).2.ne hB' (hitem.source v hv).1 (hitem.offered v hv)
    · intro _ _ p hp hreads c hc hkind
      have hcases : p = ("expressions", .nodes [Node.number "1"]) ∨ p = ("from", .node (wrap .from item))
          ∨ p = ("where", .node (wrap .where on)) := by simpa [existenceQuery] using hp
      rcases hcases with rfl | rfl | rfl
      · simp [existenceQuery] at hreads
      · obtain rfl : c = wrap .from item := by simpa using hc
        cases hkind
      · simp [existenceQuery] at hreads
    · have hcases : c = Node.number "1" ∨ c = wrap .from item ∨ c = wrap .where on := by
        simpa [existenceQuery, children, Arg.children] using hc
      rcases hcases with rfl | rfl | rfl
      · exact hnumber.sound
      · have hsound := hitem.sound
        rw [hassumed, hrequired] at hsound
        exact sound_wrapFrom hsound fun h hkind => hitem.named (by rwa [hrequired]) hkind
      · exact (sourced_wrap rfl hon).sound
  · intro v hv
    rcases mem_allSources.mp hv with ⟨-, hv⟩ | ⟨c, hc, hv⟩
    · exact hsource v (hnames ▸ hv)
    · have hcases : c = Node.number "1" ∨ c = wrap .from item ∨ c = wrap .where on := by
        simpa [existenceQuery, children, Arg.children] using hc
      rcases hcases with rfl | rfl | rfl
      · exact (hnumber.all v hv).elim
      · rw [allSources_wrap (by decide)] at hv
        obtain ⟨hbrings, havoids⟩ := hreads v hv
        exact ⟨hbrings.mono (List.Subset.refl _) hafter, havoids.mono (List.Subset.refl _) hafter⟩
      · obtain ⟨⟨hbrings, havoids⟩, -⟩ := (sourced_wrap rfl hon).all v hv
        exact ⟨hbrings.mono hbefore (List.Subset.refl _), havoids.mono hbefore (List.Subset.refl _)⟩

/-- The query for the left input of a test reads sources that were in use before, or has a new one. -/
theorem Placed.leftQuery (hL : L.Converts env sub) {x : Result} (hx : Placed L s₀ s₁ x) (hbefore : s₀.usedNames ⊆ s₁.usedNames)
    (hmiddle : s₁.usedNames ⊆ s.usedNames) (hm : (Convert.leftQuery env x).Gives s m s') :
    Settled L s₀ s' m ∧ m.kind = .select ∧ isPlainQuery m = true
      ∧ ∀ v ∈ m.sourceNames, v ∈ s₁.usedNames ∧ L.Offers v ∨ v ∉ s.usedNames := by
  have hlater := hx.later hmiddle
  have hbefore' := List.Subset.trans hbefore hmiddle
  unfold Convert.leftQuery at hm
  split at hm
  · obtain ⟨hsettled, hplain⟩ := hlater.selected hL hbefore' hm
    obtain ⟨-, hkind, hnames⟩ := hlater.asSelect hL.never hL.required hbefore' hm
    refine ⟨hsettled, hkind, hplain, fun v hv => (hnames v hv).imp_left fun hv => ?_⟩
    exact ⟨(hx.source v hv).1, hx.offered v hv⟩
  · obtain ⟨hsettled, ⟨item, rfl⟩, hnames⟩ := hlater.subSelect hL.never hL.required hbefore' hm
    refine ⟨hsettled, rfl, isPlainQuery_selectFrom _, fun v hv => (hnames v hv).imp_left ?_⟩
    rintro ⟨item, hitem, hv⟩
    have hsource := hx.asFrom hitem
    exact ⟨(hsource.source v hv).1, hsource.offered v hv⟩

/-- **A join that only tests for partners** puts a query for the partner into a condition. -/
theorem placed_semiJoinResult (hL : L.Converts env sub) {inner : Level} {condition : Expr} {type : JoinType}
    {ids : List String} {rel : Rel} {x y r : Result} (hassumed : inner.assumed = L.assumed)
    (hrequired : inner.required = L.required) (hx : Placed L s₀ s₁ x) (hy : Placed inner s₁ s y) (hs : OnTheWay s₁ s)
    (hbefore : s₀.usedNames ⊆ s₁.usedNames)
    (hpartner : ∀ item, y.asFrom = .ok item → ∀ v ∈ item.allSources, Late L s₁ s v)
    (hcondition : L.assumed → ClearExpr L.reads [L.tables, inner.tables] true condition)
    (h : (semiJoinResult env sub condition type ids rel x y).Gives s r s') : Placed L s₀ s' r := by
  rw [semiJoinResult_eq] at h
  simp only [ConvertM.gives_bind, ConvertM.gives_lift] at h
  obtain ⟨u, s₂, hdeclared, on, s₃, hon, m, s₄, hm, item, s₅, ⟨hitem, rfl⟩, hr⟩ := h
  obtain ⟨hs₂, hused⟩ := hs.register hdeclared
  obtain ⟨honto, hcolumns, hafter⟩ := sourced_conditionNode hL hs₂.columns hcondition hon
  have hgrown : s₃.usedNames ⊆ s₄.usedNames := by
    refine Grow.subset (fun bound => ?_) hm
    unfold leftQuery
    split
    · exact x.steady_asSelect
    · exact x.steady_subSelect
  obtain ⟨hsettled, hkind, hplain, hnames⟩ :=
    hx.leftQuery hL hbefore (List.Subset.trans hs.before (List.Subset.trans hused hafter)) hm
  have hlate : ∀ v ∈ item.allSources, Late L s₁ s₂ v := fun v hv => by
    obtain ⟨hbrings, havoids⟩ := hpartner item hitem v hv
    exact ⟨hbrings.mono (List.Subset.refl _) hused, havoids.mono (List.Subset.refl _) hused⟩
  have hquery : Sourced L.assumed L.required (Late L s₁ s₃) (existenceQuery item on) := by
    refine sourced_existenceQuery hassumed hrequired ((hy.asFrom hitem).later hused) hlate hs₂.before hafter ?_
    refine honto.mono fun v hv => ⟨⟨hv.1, hv.2 L.tables (by simp)⟩, ?_⟩
    have havoids := hv.2 inner.tables (by simp)
    rwa [← hassumed] at havoids
  -- nothing in the test has the name of a source of the query
  have hfits : FitsIn L s₀ s₄ m (wrap .exists (existenceQuery item on)) := by
    refine (sourced_wrap rfl hquery).mono fun v hv => ?_
    refine ⟨hv.1.mono hbefore hgrown, hv.2.mono hbefore hgrown, fun hB hsource => ?_⟩
    rcases hnames v hsource with ⟨hold, hoffers⟩ | hnew
    · exact hv.2.ne hB hold hoffers
    · exact hnew hv.1.1
  have htest : FitsIn L s₀ s₄ m (partnerTest type m (wrap .exists (existenceQuery item on))) := by
    have htested : FitsIn L s₀ s₄ m (if type == .anti then Node.not (wrap .exists (existenceQuery item on))
        else wrap .exists (existenceQuery item on)) := by
      split
      · exact sourced_wrap rfl hfits
      · exact hfits
    unfold partnerTest
    dsimp only
    split
    · rename_i existing hexisting
      have hfits : FitsIn L s₀ s₄ m existing := (hsettled.condition hkind (by decide) hexisting).mono fun v hv =>
        hsettled.fits_name (List.Subset.trans hbefore (List.Subset.trans hs.before
          (List.Subset.trans hused (List.Subset.trans hafter hgrown)))) (List.Subset.refl _) (.inl hv)
      refine inherited_and inherited_fitsIn fun c hc => ?_
      rcases List.mem_cons.mp hc with rfl | hc
      · exact hfits
      · rwa [List.mem_singleton.mp hc]
    · exact htested
  refine placed_query hL.never ?_ (hsettled.set hkind (by decide) fun c hc => ?_) (isPlainQuery_set hplain (by decide) _) hr
  · exact List.Subset.trans hbefore (List.Subset.trans hs.before (List.Subset.trans hused (List.Subset.trans hafter hgrown)))
  · obtain rfl : c = wrap .where (partnerTest type m (wrap .exists (existenceQuery item on))) := by simpa using hc
    exact sourced_wrap rfl htest

/-! ## Row patterns -/

/-- A node without an alias has no name of its own. -/
theorem nameUnder_of_not_mem {key : String} : ∀ {args : Args}, (∀ p ∈ args, p.1 ≠ key) → nameUnder key args = ""
  | [], _ => rfl
  | (k, a) :: rest, h => by
    have hne : k ≠ key := h (k, a) (by simp)
    have hrest := nameUnder_of_not_mem fun p hp => h p (List.mem_cons_of_mem _ hp)
    cases a <;> simp [nameUnder, hne, hrest]

/-- **The rows that match a pattern** stand beside their input. -/
theorem settled_matchRecognize {item : Node} {rest : Args} (h : SettledItem L s₀ s item)
    (hkeys : ∀ p ∈ rest, p.1 ≠ "this" ∧ p.1 ≠ "alias") (hrest : ∀ p ∈ rest, ∀ c ∈ p.2.children, FitsIn L s₀ s item c) :
    Settled L s₀ s (.mk .matchRecognize (("this", .node item) :: rest))
      ∧ (Node.mk .matchRecognize (("this", .node item) :: rest)).sourceNames = item.sourceNames
      ∧ (Node.mk .matchRecognize (("this", .node item) :: rest)).aliasOf? = none := by
  have hown : (Node.mk .matchRecognize (("this", .node item) :: rest)).aliasOf? = none := by
    have hname : (Node.mk .matchRecognize (("this", .node item) :: rest)).aliasName = "" :=
      nameUnder_of_not_mem fun p hp => by
        rcases List.mem_cons.mp hp with rfl | hp
        · simp
        · exact (hkeys p hp).2
    simp [aliasOf?, isFromItem, hname]
  have hbelow : rest.filter (fun p => readsAt .matchRecognize p.1) = [] :=
    List.filter_eq_nil_iff.mpr fun p hp => by simpa using (hkeys p hp).1
  have hnames : (Node.mk .matchRecognize (("this", .node item) :: rest)).sourceNames = item.sourceNames := by
    rw [sourceNames_eq, ownSource, hown]
    simp only [kind_mk, args_mk, List.filter_cons, hbelow]
    simp [passesOn, Arg.children]
  have hinner : ∀ v ∈ (Node.mk .matchRecognize (("this", .node item) :: rest)).innerSources,
      v ∈ item.innerSources ∨ L.Brings s₀ s v ∧ L.Avoids s₀ s v ∧ (L.assumed → v ∉ item.sourceNames) := by
    intro v hv
    obtain ⟨p, hp, c, hc, hv⟩ := mem_innerSources.mp hv
    rcases List.mem_cons.mp hp with rfl | hp
    · obtain rfl : c = item := by simpa using hc
      exact .inl (by simpa using hv)
    · rw [if_neg (by simpa using (hkeys p hp).1)] at hv
      exact .inr ((hrest p hp c hc).all v hv)
  have hchildren : ∀ c ∈ (Node.mk .matchRecognize (("this", .node item) :: rest)).children,
      c = item ∨ FitsIn L s₀ s item c := by
    intro c hc
    obtain ⟨p, hp, hc⟩ := List.mem_flatMap.mp hc
    rcases List.mem_cons.mp hp with rfl | hp
    · exact .inl (by simpa using hc)
    · exact .inr (hrest p hp c hc)
  refine ⟨⟨?_, ?_, ?_, ?_, ?_, ?_, ?_⟩, hnames, hown⟩
  · refine allSourcesSound_iff.mpr ⟨⟨fun hkind => (by cases hkind), fun _ hkind => (by cases hkind), ?_⟩, fun c hc => ?_⟩
    · intro hrequired _ p hp hreads c hc hkind
      rcases List.mem_cons.mp hp with rfl | hp
      · obtain rfl : c = item := by simpa using hc
        exact h.named hrequired hkind
      · exact absurd (by simpa using hreads) (hkeys p hp).1
    · rcases hchildren c hc with rfl | hc
      · exact h.sound
      · exact hc.sound
  · rw [hnames]
    exact h.distinct
  · intro hB v hv hvi
    rw [hnames] at hv
    rcases hinner v hvi with hvi | hvi
    · exact h.visible hB v hv hvi
    · exact hvi.2.2 hB hv
  · rw [hnames]
    exact h.offered
  · rw [hnames]
    exact h.source
  · intro v hv
    rcases mem_allSources.mp hv with ⟨hkind, -⟩ | ⟨c, hc, hv⟩
    · cases hkind
    · rcases hchildren c hc with hsame | hfits
      · exact h.all v (hsame ▸ hv)
      · exact (hfits.all v hv).1
  · intro v hv
    exact (hinner v hv).elim (h.inner v) fun hv => hv.2.1

/-- Named expressions fit into the query or item that is open. -/
theorem Host.namedNodes (hL : L.Converts env sub) (h : Host L env s₀ s ctx n) {entries : List (String × Expr)}
    (hentries : ∀ p ∈ entries, L.Clear true p.2) {ns : List Node}
    (hgives : (Convert.namedNodes env sub ctx entries).Gives s ns s') :
    Host L env s₀ s' ctx n ∧ ∀ m ∈ ns, FitsIn L s₀ s' n m :=
  h.convert true (fun s' ns => ∀ m ∈ ns, FitsIn L s₀ s' n m) (fun bound => Convert.namedNodes env (below bound sub) ctx entries)
    hL (fun bound => .mapM _ fun p _ => .bind (steady_scalarNode (steady_below hL.grow bound) ctx true p.2
      (Scalar.satisfies_trivial (trivial_growing bound) true p.2)) fun _ => .pure)
    (fun _ hadmits => .mapM fun p hp => .bind (inherited_scalarNode hadmits p.2 (hentries p hp))
      fun _ hm => .pure (inherited_aliased inherited_fitsIn hm _)) hgives

/-- **Row pattern recognition** stands behind FROM. -/
theorem placed_rowPatternResult (hL : L.Converts env sub) {spec : RowPattern Expr} {rel : Rel} {x r : Result}
    (hx : Placed L s₀ s x) (hs : OnTheWay s₀ s)
    (hspec : ∀ e ∈ spec.pattern :: (spec.measures ++ spec.definitions).map (·.2), L.Clear true e)
    (h : (rowPatternResult env sub spec rel x).Gives s r s') : Placed L s₀ s' r := by
  simp only [rowPatternResult, ConvertM.gives_bind, ConvertM.gives_lift] at h
  obtain ⟨order, s₁, ⟨horder, rfl⟩, item, s₁, ⟨hitem, rfl⟩, partition, s₁, ⟨hpartition, rfl⟩, measures, s₁, hmeasured,
    pattern, s₂, hwritten, within, s₃, ⟨hwithin, rfl⟩, define, s₃, hdefined, hr⟩ := h
  have hsettled := hx.resetAlias.asFrom hitem
  have hhost : Host L env s₀ s (.rowPattern x.resetAlias.aliases false) item :=
    ⟨hs, hsettled.toSettled, fun i c hc => hasColumns_sourced.aliasField hL.unmapped x.resetAlias.aliases false i c hc⟩
  have hentry : ∀ p ∈ spec.measures ++ spec.definitions, L.Clear true p.2 := fun p hp =>
    hspec _ (List.mem_cons_of_mem _ (List.mem_map_of_mem hp))
  obtain ⟨hhost₁, hmeasures⟩ := hhost.namedNodes hL (fun p hp => hentry p (List.mem_append_left _ hp)) hmeasured
  obtain ⟨hhost₂, hpattern⟩ := hhost₁.scalarNode hL (hspec _ List.mem_cons_self) hwritten
  obtain ⟨hhost₃, hdefine⟩ := hhost₂.namedNodes hL (fun p hp => hentry p (List.mem_append_right _ hp)) hdefined
  have hmiddle : s₁.usedNames ⊆ s₂.usedNames :=
    Grow.subset (fun bound => steady_scalarNode (steadyQueries_of_grow hL.grow bound) _ true spec.pattern
      (Scalar.satisfies_trivial (trivial_growing bound) true _)) hwritten
  have hlater : s₂.usedNames ⊆ s₃.usedNames :=
    Grow.subset (fun bound => steady_namedNodes (steadyQueries_of_grow hL.grow bound) _
      (Scalar.namedSatisfy_trivial (trivial_growing bound) _)) hdefined
  have hfield : ∀ i c, (Context.rowPattern x.resetAlias.aliases false).field env i = .ok c → FitsIn L s₀ s₃ item c :=
    hhost₃.fields
  have hplaced : ∀ {rest : Args}, (∀ p ∈ rest, (p.1 ≠ "this" ∧ p.1 ≠ "alias") ∧ ∀ c ∈ p.2.children, FitsIn L s₀ s₃ item c) →
      (makeResult env (.mk .matchRecognize (("this", .node item) :: rest)) [.from] rel none).Gives s₃ r s' →
      Placed L s₀ s' r := by
    intro rest hrest hr
    obtain ⟨hn, hnames, hown⟩ := settled_matchRecognize ⟨hhost₃.settled, hsettled.form, hsettled.named, hsettled.unused⟩
      (fun p hp => (hrest p hp).1) fun p hp => (hrest p hp).2
    refine placed_makeResult hL.never hhost₃.before (hn.later (subset_afterRecording _ _ _)) hown (.inr (.inr rfl))
      (fun v hv => (hn.inner v hv).1) (fun _ v hv => ?_) hr
    exact ⟨(hn.source v hv).1, hsettled.unused v (hnames ▸ hv)⟩
  have hoptional : ∀ {key : String} {o : Option Node}, key ≠ "this" ∧ key ≠ "alias" →
      (∀ c, o = some c → FitsIn L s₀ s₃ item c) → ∀ p ∈ Node.optional key o, (p.1 ≠ "this" ∧ p.1 ≠ "alias")
        ∧ ∀ c ∈ p.2.children, FitsIn L s₀ s₃ item c := by
    intro key o hkey ho p hp
    cases o with
    | none => cases hp
    | some c =>
      obtain rfl : p = (key, .node c) := by simpa [Node.optional] using hp
      exact ⟨hkey, by simpa using ho c rfl⟩
  have hafter : ∀ c, afterSymbol spec.after = some c → FitsIn L s₀ s₃ item c := by
    intro c hc
    unfold afterSymbol at hc
    split at hc <;> cases hc
    exact inherited_identifier inherited_fitsIn _ _
  have hsubset : ∀ c ∈ spec.subsets.map subsetNode, FitsIn L s₀ s₃ item c := by
    intro c hc
    obtain ⟨p, -, rfl⟩ := List.mem_map.mp hc
    exact inherited_aliased inherited_fitsIn
      (inherited_tuple inherited_fitsIn (by simp [inherited_identifier inherited_fitsIn])) _
  have hlimit : ∀ c, within = some c → FitsIn L s₀ s₃ item c := by
    rintro c rfl
    cases hspec : spec.within with
    | none => simp [hspec] at hwithin
    | some l =>
      rw [hspec] at hwithin
      cases hl : literalIn env (.rowPattern x.resetAlias.aliases false) l with
      | error e => simp [hl, Functor.map, Except.map] at hwithin
      | ok m =>
        obtain rfl : m = c := by simpa [hl, Functor.map, Except.map] using hwithin
        exact inherited_literalIn inherited_fitsIn hl
  simp only [List.cons_append, List.nil_append, List.append_assoc] at hr
  refine hplaced ?_ hr
  have hkeys : ∀ c ∈ order, FitsIn L s₀ s₃ item c :=
    inherited_collationsNodes inherited_fitsIn (fun c _ => hfield c.key) horder
  have hordered : ∀ p ∈ (if order.isEmpty then [] else [("order", Arg.node (Node.order order))] : Args),
      (p.1 ≠ "this" ∧ p.1 ≠ "alias") ∧ ∀ c ∈ p.2.children, FitsIn L s₀ s₃ item c := by
    intro p hp
    split at hp
    · cases hp
    · obtain rfl := List.mem_singleton.mp hp
      exact ⟨by simp, by simpa using inherited_order inherited_fitsIn hkeys⟩
  have hlist : ∀ {key : String} {cs : List Node}, key ≠ "this" ∧ key ≠ "alias" → (∀ c ∈ cs, FitsIn L s₀ s₃ item c) →
      (key ≠ "this" ∧ key ≠ "alias") ∧ ∀ c ∈ (Arg.nodes cs).children, FitsIn L s₀ s₃ item c := fun hkey hcs =>
    ⟨hkey, by simpa using hcs⟩
  have hplain : ∀ {key : String} {a : Arg}, key ≠ "this" ∧ key ≠ "alias" → a.children = [] →
      (key ≠ "this" ∧ key ≠ "alias") ∧ ∀ c ∈ a.children, FitsIn L s₀ s₃ item c := fun hkey ha => ⟨hkey, by simp [ha]⟩
  simp only [List.forall_mem_cons, List.forall_mem_append]
  refine ⟨hlist (by decide) (forall_of_mapM hpartition fun i _ c hc => hfield i c hc), hordered,
    hlist (by decide) fun c hc => (hmeasures c hc).later (List.Subset.trans hmiddle hlater), hplain (by decide) rfl,
    hplain (by decide) rfl, hoptional (by decide) hafter,
    ⟨by decide, by simpa using hpattern.later hlater⟩, hplain (by decide) rfl, hplain (by decide) rfl,
    hoptional (by decide) hlimit, hlist (by decide) hsubset, hlist (by decide) hdefine, by simp⟩

end AlgebraSql.Convert
