import AlgebraSql.Proofs.JoinSides

/-!
# Rows of joins — the statement for a join of two inputs returns the join of their rows.

A join that keeps columns of both inputs is a FROM item whose condition sees a row of each.  A semi join or an anti
join filters the left input by EXISTS, whose query stands for the partners of one row.  Either way the rows are those
of the two inputs joined as bags; which of them match is decided by the value of the condition.
-/

namespace AlgebraSql.Convert

open Sql Node

variable {env : Env} {sub : Rel → ConvertM Node} {s s' : State} {schema : Schema}

/-! ## Joined items -/

section

variable {E : Engine} {db : Database} {outer : Names} {l r : Node} {v w : Focus → List Row}

/-- **A joined item** has the rows of both sides, joined where its condition holds. -/
theorem tuples_joinNode (hl : l.tuples E db outer = some v) (hr : r.tuples E db outer = some w) {kind : String}
    {on : Option Node} {c : Focus → List Datum}
    (hc : (joinNode l r kind on).clause "on" always
      (scalar E db (Names.within (l.frame db.schema ++ r.frame db.schema) outer)) = some c) :
    (joinNode l r kind on).tuples E db outer = some fun f =>
      joinRows (kind == "LEFT" || kind == "FULL") (kind == "RIGHT" || kind == "FULL") (l.frame db.schema).cells.length
        (r.frame db.schema).cells.length (fun a b => holds (c (⟨a ++ b, [a ++ b]⟩ :: f))) (v f) (w f) := by
  obtain ⟨hleft, hright⟩ := child?_joinNode l r kind on
  have hkind : (joinNode l r kind on).text "kind" = kind := by simp [joinNode, text]
  have hstep : ∀ parts, tuplesStep E db (joinNode l r kind on) parts outer = (do
      let left ← (parts.only "this").tuples outer
      let right ← (parts.only "expression").tuples outer
      let on' ← conditionOf (joinNode l r kind on) "on" ((parts.only "on").scalar
        (Names.within ((joinNode l r kind on).frame db.schema) outer))
      return fun f => joinRows
        ((joinNode l r kind on).text "kind" == "LEFT" || (joinNode l r kind on).text "kind" == "FULL")
        ((joinNode l r kind on).text "kind" == "RIGHT" || (joinNode l r kind on).text "kind" == "FULL")
        (widthOf db ((joinNode l r kind on).child? "this")) (widthOf db ((joinNode l r kind on).child? "expression"))
        (fun a b => holds (on' (⟨a ++ b, [a ++ b]⟩ :: f))) (left f) (right f)) := fun _ => rfl
  rw [tuples_eq, hstep, only_partsOf hleft, only_partsOf hright, conditionOf_scalar, frame_joinNode,
    hkind, hleft, hright, hc]
  rw [show (l.meaning E db).tuples outer = some v from hl, show (r.meaning E db).tuples outer = some w from hr]
  rfl

/-- Joined rows are as wide as both sides. -/
theorem length_joinRows {left right : Bool} {leftWidth rightWidth : Nat} {partners : Row → Row → Bool} {ls rs : List Row}
    (hls : ∀ row ∈ ls, row.length = leftWidth) (hrs : ∀ row ∈ rs, row.length = rightWidth) :
    ∀ row ∈ joinRows left right leftWidth rightWidth partners ls rs, row.length = leftWidth + rightWidth := by
  intro row hrow
  simp only [joinRows, List.mem_append, List.mem_flatMap, List.mem_map, List.mem_filter] at hrow
  rcases hrow with (⟨a, ha, b, ⟨hb, -⟩, rfl⟩ | hkept) | hkept
  · rw [List.length_append, hls a ha, hrs b hb]
  · split at hkept
    · obtain ⟨a, ha, rfl⟩ := List.mem_map.mp hkept
      rw [List.length_append, hls a (List.mem_filter.mp ha).1, nulls, List.length_replicate]
    · cases hkept
  · split at hkept
    · obtain ⟨b, hb, rfl⟩ := List.mem_map.mp hkept
      rw [List.length_append, hrs b (List.mem_filter.mp hb).1, nulls, List.length_replicate]
    · cases hkept

/-! ## Tests for rows -/

theorem holds_bool (b : Bool) : holds [.bool b] = b := by cases b <;> rfl

/-- EXISTS is true if its query has rows. -/
theorem scalar_exists {q : Node} (h : q.rows E db outer = some v) :
    (wrap .exists q).scalar E db outer = some fun f => [.bool !(v f).isEmpty] := by
  have hquery : (wrap .exists q).child? "this" = some q := by simp [wrap, child?]
  rw [scalar_eq, scalarStep, show (wrap .exists q).manner = .exists from rfl, only_partsOf hquery]
  simp only [show (q.meaning E db).rows outer = some v from h, Option.map_some]

/-- A test of a semi join or of an anti join is true if the query has rows, or has none. -/
theorem scalar_partnerTest {q : Node} (h : q.rows E db outer = some v) (type : JoinType) (item : Node) :
    (partnerTest type (selectFrom item) (wrap .exists q)).scalar E db outer
      = some fun f => [.bool ((!(v f).isEmpty) != (type == .anti))] := by
  have hshows : (Reading.scalar E db outer).Shows (wrap .exists q) fun f => .bool !(v f).isEmpty := scalar_exists h
  rw [partnerTest, show (selectFrom item).condition? "where" = none by simp [selectFrom, condition?, child?]]
  cases type == .anti with
  | false => simpa using scalar_exists h
  | true =>
    refine (Reading.shows_not hshows).trans (congrArg some (funext fun f => ?_))
    simp [Datum.not]

/-- **The query of EXISTS** has rows if its item has some on which the condition holds. -/
theorem rows_existenceQuery {item on : Node} (hitem : item.tuples E db outer = some w) {c : Focus → List Datum}
    (hc : on.scalar E db (Names.within (item.frame db.schema) outer) = some c) :
    ∃ v, (existenceQuery item on).rows E db outer = some v
      ∧ ∀ f, (v f).isEmpty = !(w f).any fun row => holds (c (⟨row, [row]⟩ :: f)) := by
  have hfrom : (existenceQuery item on).child? "from" = some (wrap .from item) := by simp [existenceQuery, child?]
  have hwhere : (existenceQuery item on).child? "where" = some (wrap .where on) := by simp [existenceQuery, child?]
  have hlist : (existenceQuery item on).list "expressions" = [Node.number "1"] := by simp [existenceQuery, list, list?]
  have hselect : RowSelect (existenceQuery item on) :=
    { kind := rfl
      absent := fun key hkey => by
        simp only [List.mem_cons, List.not_mem_nil, or_false] at hkey
        rcases hkey with rfl | rfl | rfl | rfl | rfl <;> simp [existenceQuery, child?]
      items := fun item hitem => by
        rw [hlist, List.mem_singleton] at hitem
        rw [hitem, Bool.eq_false_iff]
        exact (congruent_aggregates False).number "1"
      order := by simp [existenceQuery, child?] }
  have hnames : (existenceQuery item on).fromNames db outer = Names.within (item.frame db.schema) outer := by
    rw [fromNames, frame_select rfl hfrom]
  have hselected : (existenceQuery item on).selected E db outer
      = some fun f => (w f).filter fun row => holds (c (⟨row, [row]⟩ :: f)) := by
    simp only [selected, clause, hfrom, hwhere, hnames, scalar_condition (show Kind.where ∈ _ by simp), hc, tuples_from, hitem, Option.bind_eq_bind,
      Option.bind_some, Option.pure_def]
  obtain ⟨out, houtput⟩ : ∃ out : Focus → Row,
      (existenceQuery item on).output E db ((existenceQuery item on).fromNames db outer) = some fun s => out s.focus := by
    have hone : (Node.number "1").scalar E db ((existenceQuery item on).fromNames db outer)
        = some fun _ => [Datum.ofDigits "1"] :=
      Reading.shows_number (V := Reading.scalar E db ((existenceQuery item on).fromNames db outer)) "1"
    refine ⟨fun _ => [Datum.ofDigits "1"], ?_⟩
    rw [output, hlist]
    simp only [List.map_singleton, analytic_of_scalar hone, together, Option.map_some]
    rfl
  obtain ⟨v, hv, hbag⟩ := hselect.exists_rows hselected houtput (by simp [existenceQuery, child?])
  refine ⟨v, hv, fun f => ?_⟩
  have hflag : (existenceQuery item on).flag "distinct" = false := by simp [existenceQuery, flag]
  have hlength := congrArg Multiset.card (hbag f)
  rw [hflag] at hlength
  simp only [distinctBag, Bool.false_eq_true, if_false, Multiset.coe_card, List.length_map] at hlength
  rw [Bool.eq_iff_iff, List.isEmpty_iff_length_eq_zero, hlength, List.length_eq_zero_iff, List.filter_eq_nil_iff]
  simp

end

/-- The literal TRUE is true for every pair of rows. -/
theorem partners_of_isLiteralTrue {condition : Expr} (h : condition.isLiteralTrue = true) (P : Patterns) (E : Engine)
    (d : Dialect) (row row' : Row) : condition.partners P (constantValue E d) row row' = true := by
  cases condition with
  | literal l =>
    obtain ⟨value, type⟩ := l
    cases value with
    | boolean b =>
      obtain rfl : b = true := h
      rfl
    | _ => cases h
  | _ => cases h

/-! ## Rows of both sides -/

section

variable {E : Engine} {db : Database} {L R : Rel} {x y : Result} {a b : String} {l r : Node} {v w : Focus → List Row}

/-- A side has the rows of its query under all names. -/
theorem Side.tuples_alone {rel : Rel} {name : String} {item : Node} (h : Side schema rel x name item)
    (hdb : db.schema = schema) (hv : x.query.rows E db Names.none = some v) (names : Names) :
    ∃ u, item.tuples E db names = some u ∧ ∀ f, u f = v [] := by
  obtain ⟨u, hu, hsame⟩ := rows_of_alone hv names
  exact ⟨u, (h.tuples E db names hdb).trans hu, hsame⟩

theorem Side.length_cells {rel : Rel} {name : String} {item : Node} (h : Side schema rel x name item)
    (hdb : db.schema = schema) : (item.frame db.schema).cells.length = rel.fields.length := by
  rw [hdb, h.frame]
  simp [Frame.cells, RowType.names]

/-- **`Joins`** — a query returns the rows of both sides, joined as bags where a condition is true. -/
def Joins (env : Env) (schema : Schema) (L R : Rel) (x y : Result) (condition : Expr) (type : JoinType) (n : Node) :
    Prop :=
  ∀ (E : Engine) (P : Patterns) (db : Database) (v w : Focus → List Row), db.schema = schema →
    x.query.rows E db Names.none = some v → y.query.rows E db Names.none = some w →
    ∃ rows, n.rows E db Names.none = some rows ∧ ((rows [] : List Row) : Multiset Row)
      = type.onBags (condition.partners P (constantValue E env.dialect)) L.fields.length R.fields.length (v []) (w [])

namespace SidePair

variable (p : SidePair schema L R x y a b l r)

include p

/-- The columns of both sides are told apart by the names of the sides. -/
theorem distinctNames (hL : L.fields.names.Nodup) (hR : R.fields.names.Nodup) :
    Context.Distinct ([(a, L.fields)] ++ [(b, R.fields)]) true := Context.distinct_pair p.ne hL hR

/-- A star over the joined sides returns their joined rows. -/
theorem rows_joinNode (hdb : db.schema = schema) (hv : x.query.rows E db Names.none = some v)
    (hw : y.query.rows E db Names.none = some w) {kind : String} {on : Option Node} {c : Focus → List Datum}
    (hc : (joinNode l r kind on).clause "on" always (scalar E db (Names.within
      (Context.frame ([(a, L.fields)] ++ [(b, R.fields)])) Names.none)) = some c)
    (partners : Row → Row → Bool)
    (hpartners : ∀ f row row', holds (c (⟨row ++ row', [row ++ row']⟩ :: f)) = partners row row') :
    ∃ rows, (selectFrom (joinNode l r kind on)).rows E db Names.none = some rows
      ∧ rows [] = joinRows (kind == "LEFT" || kind == "FULL") (kind == "RIGHT" || kind == "FULL") L.fields.length
        R.fields.length partners (v []) (w []) := by
  obtain ⟨v', hv', hsame⟩ := p.left.tuples_alone hdb hv Names.none
  obtain ⟨w', hw', hsame'⟩ := p.right.tuples_alone hdb hw Names.none
  have hframe : l.frame db.schema ++ r.frame db.schema = Context.frame ([(a, L.fields)] ++ [(b, R.fields)]) := by
    rw [hdb, p.left.frame, p.right.frame]
    rfl
  rw [← hframe] at hc
  have htuples := tuples_joinNode hv' hw' hc
  simp only [p.left.length_cells hdb, p.right.length_cells hdb, hpartners, hsame, hsame'] at htuples
  refine ⟨_, (Convert.rows_selectFrom fun u hu f row hrow => ?_).trans htuples, rfl⟩
  obtain rfl : _ = u := Option.some.inj (htuples.symm.trans hu)
  rw [frame_joinNode, Frame.cells, List.flatMap_append, List.length_append]
  refine Eq.trans ?_ (congrArg₂ (· + ·) (p.left.length_cells hdb) (p.right.length_cells hdb)).symm
  exact length_joinRows (p.left.width hdb hv []) (p.right.width hdb hw []) row hrow

/-- **A join that keeps columns of both inputs** returns the rows of both, joined where its condition is true. -/
theorem rows_join (hmap : env.fieldMap = []) (hL : L.fields.names.Nodup) (hR : R.fields.names.Nodup)
    {condition : Expr} {n : Node}
    (hn : Weighs env (.join (.aliases [(a, L.fields)] true) (.aliases [(b, R.fields)] true))
      (L.fields.length + R.fields.length) condition n)
    {type : JoinType} (htype : type.keepsLeftOnly = false) (P : Patterns) (hdb : db.schema = schema)
    (hv : x.query.rows E db Names.none = some v) (hw : y.query.rows E db Names.none = some w) :
    ∃ rows, (selectFrom (joinNode l r type.toText (some n))).rows E db Names.none = some rows
      ∧ rows [] = joinRows type.keepsLeft type.keepsRight L.fields.length R.fields.length
        (condition.partners P (constantValue E env.dialect)) (v []) (w []) := by
  have hrow := Context.showsRow_join hmap (p.distinctNames hL hR) E db Names.none
  rw [Context.width_pair] at hrow
  have hvalue := hn P hrow fun _ _ h => shows_constant h E db _
  have hclause : (joinNode l r type.toText (some n)).clause "on" always (scalar E db (Names.within
      (Context.frame ([(a, L.fields)] ++ [(b, R.fields)])) Names.none))
      = some fun f => [condition.valueWith P (constantValue E env.dialect) f.row] := by
    rw [clause, show (joinNode l r type.toText (some n)).child? "on" = some n by simp [joinNode, Node.optional, child?]]
    exact hvalue
  obtain ⟨rows, hrows, heq⟩ := p.rows_joinNode hdb hv hw hclause
    (condition.partners P (constantValue E env.dialect)) fun _ _ _ => rfl
  refine ⟨rows, hrows, heq.trans ?_⟩
  cases type with
  | semi | anti => cases htype
  | inner | left | right | full => rfl

/-- **A join without a condition** returns every pair of rows. -/
theorem rows_product {kind : String} (hkind : kind ∉ ["LEFT", "RIGHT", "FULL"]) (hdb : db.schema = schema)
    (hv : x.query.rows E db Names.none = some v) (hw : y.query.rows E db Names.none = some w) :
    ∃ rows, (selectFrom (joinNode l r kind none)).rows E db Names.none = some rows
      ∧ rows [] = joinRows false false L.fields.length R.fields.length (fun _ _ => true) (v []) (w []) := by
  have hclause : (joinNode l r kind none).clause "on" always (scalar E db (Names.within
      (Context.frame ([(a, L.fields)] ++ [(b, R.fields)])) Names.none)) = some always := by
    simp [clause, joinNode, Node.optional, child?]
  obtain ⟨rows, hrows, heq⟩ := p.rows_joinNode hdb hv hw hclause (fun _ _ => true) fun _ _ _ => rfl
  simp only [List.mem_cons, List.not_mem_nil, or_false, not_or] at hkind
  refine ⟨rows, hrows, ?_⟩
  rw [heq, beq_eq_false_iff_ne.mpr hkind.1, beq_eq_false_iff_ne.mpr hkind.2.1, beq_eq_false_iff_ne.mpr hkind.2.2]
  rfl

/-- **A join that only tests for partners** returns the rows of the left side that have one, or that have none. -/
theorem rows_semiJoin (hmap : env.fieldMap = []) (hL : L.fields.names.Nodup) (hR : R.fields.names.Nodup)
    {condition : Expr} {n : Node}
    (hn : Weighs env (.join (.aliases [(a, L.fields)] true) (.aliases [(b, R.fields)] true))
      (L.fields.length + R.fields.length) condition n)
    (type : JoinType) (P : Patterns) (hdb : db.schema = schema)
    (hv : x.query.rows E db Names.none = some v) (hw : y.query.rows E db Names.none = some w) :
    ∃ rows, ((selectFrom l).set "where" (some (.node (wrap .where
        (partnerTest type (selectFrom l) (wrap .exists (existenceQuery r n))))))).rows E db Names.none = some rows
      ∧ rows [] = (v []).filter fun row =>
        (w []).any (condition.partners P (constantValue E env.dialect) row) != (type == .anti) := by
  obtain ⟨v', hv', hsame⟩ := p.left.tuples_alone hdb hv Names.none
  obtain ⟨w', hw', hsame'⟩ := p.right.tuples_alone hdb hw (Names.within (Context.frame [(a, L.fields)]) Names.none)
  -- inside EXISTS the condition reads the row of the left side from the query around
  have hrow := Context.showsRow_exists hmap (p.distinctNames hL hR) E db Names.none
  rw [Context.width_pair] at hrow
  have hvalue : n.scalar E db (Names.within (r.frame db.schema) (Names.within (Context.frame [(a, L.fields)]) Names.none))
      = some fun f => [condition.valueWith P (constantValue E env.dialect)
        (behindOuter (Context.width [(a, L.fields)]) f)] := by
    rw [hdb, p.right.frame_eq]
    exact hn P hrow fun _ _ h => shows_constant h E db _
  obtain ⟨u, hu, hempty⟩ := rows_existenceQuery hw' hvalue
  have htest := scalar_partnerTest hu type l
  rw [← p.left.frame_eq, ← hdb] at htest
  have hwide : ∀ f, ∀ row ∈ v' f, row.length = (l.frame db.schema).cells.length := fun f row hrow => by
    rw [p.left.length_cells hdb, p.left.width hdb hv [] row (hsame f ▸ hrow)]
  refine ⟨_, rows_selectWhere hv' hwide htest, ?_⟩
  simp only [hsame]
  refine List.filter_congr fun row hmem => ?_
  have hown : ∀ row', behindOuter (Context.width [(a, L.fields)]) (⟨row', [row']⟩ :: ⟨row, [row]⟩ :: []) = row ++ row' :=
    fun row' => behindOuter_cons (by simpa [Context.width] using p.left.width hdb hv [] row hmem) _ _
  rw [holds_bool, hempty, Bool.not_not, hsame']
  simp only [hown]
  rfl

/-- The condition of a join is written as a node that weighs it. -/
theorem exists_on (sub : Rel → ConvertM Node) (hmap : env.fieldMap = []) (hd : env.dialect.AddsNumbers) {condition : Expr}
    (hc : condition.Criterion (L.fields.length + R.fields.length)) :
    ∃ n, (∀ s, (conditionNode env sub x.resetAlias.qualifiedContext y.resetAlias.qualifiedContext condition).Gives s n s)
      ∧ Weighs env (.join (.aliases [(a, L.fields)] true) (.aliases [(b, R.fields)] true))
        (L.fields.length + R.fields.length) condition n := by
  rw [Result.qualifiedContext, Result.qualifiedContext, p.left.aliases, p.right.aliases]
  refine exists_conditionNode hd (fun i hi => Context.exists_field_join hmap ?_) hc
  simpa [Context.width] using hi

/-- **A join that keeps columns of both inputs** converts, and its statement joins their rows. -/
theorem exists_joinResult (sub : Rel → ConvertM Node) (henv : env.NeverQualifies) (hmap : env.fieldMap = [])
    (hd : env.dialect.AddsNumbers) (hL : L.fields.names.Nodup) (hR : R.fields.names.Nodup) {condition : Expr}
    (hc : condition.Criterion (L.fields.length + R.fields.length)) {type : JoinType} (htype : type.keepsLeftOnly = false)
    (ids : List String) (rel : Rel) (s : State) :
    ∃ res s₁ n s', (joinResult env sub condition type ids rel x.resetAlias y.resetAlias).Gives s res s₁
      ∧ (res.asStatement env).Gives s₁ n s' ∧ Joins env schema L R x y condition type n := by
  obtain ⟨on, hon, hweighs⟩ := p.exists_on sub hmap hd hc
  -- either way the FROM item is recorded, and the statement is a star over it
  have hjoined : ∀ kind on t, ∃ res s', (makeJoinResult env (joinNode l r kind on) x.resetAlias y.resetAlias rel).Gives t
      res s' ∧ (res.asStatement env).Gives s' (selectFrom (joinNode l r kind on)) s' := by
    intro kind on t
    refine ⟨_, _, (ConvertM.gives_makeResult henv _ _ _ _ _ _ _).mpr ⟨rfl, rfl⟩, ?_⟩
    have hset : (joinNode l r kind on).isSetOperation = false := rfl
    have hread : isReadable (joinNode l r kind on) = true := (isReadable_iff _).mpr (.inr (.inl rfl))
    have hselect : (recorded (joinNode l r kind on) [.from] rel
        (some ((OrderedMap.putAll [] x.resetAlias.joinAliases).putAll y.resetAlias.joinAliases))
        (givenName t.usedNames (joinNode l r kind on))).node.kind ≠ .select := by
      rw [recorded_node]
      show Kind.join ≠ Kind.select
      decide
    rw [Result.asStatement, recorded_node, hset, if_neg (by simp), ConvertM.gives_asSelect_of_ne_select henv hselect,
      recorded_node, ConvertM.gives_wrapSelect_of_readable henv hread]
    exact ⟨rfl, rfl⟩
  simp only [joinResult, ConvertM.gives_bind, ConvertM.gives_lift, p.left.asFrom, p.right.asFrom, Except.ok.injEq,
    ConvertM.gives_registerCorrelations]
  by_cases hproduct : isProduct condition type = true
  · obtain ⟨res, s', hres, hstatement⟩ := hjoined env.dialect.capabilities.crossJoin.toText none
      (s.declaring ids x.resetAlias.aliases)
    refine ⟨res, s', _, s', ⟨⟨⟩, _, rfl, l, _, ⟨rfl, rfl⟩, r, _, ⟨rfl, rfl⟩, ?_⟩, hstatement, ?_⟩
    · rw [if_pos hproduct]
      exact (ConvertM.gives_bind _ _ _ _ _).mpr ⟨_, _, (ConvertM.gives_pure _ _ _ _).mpr ⟨rfl, rfl⟩, hres⟩
    · intro E P db v w hdb hv hw
      obtain ⟨htrue, rfl⟩ : condition.isLiteralTrue = true ∧ type = .inner := by simpa [isProduct] using hproduct
      have hkind : env.dialect.capabilities.crossJoin.toText ∉ ["LEFT", "RIGHT", "FULL"] := by
        cases env.dialect.capabilities.crossJoin <;> decide
      obtain ⟨rows, hrows, heq⟩ := p.rows_product hkind hdb hv hw
      refine ⟨rows, hrows, ?_⟩
      rw [heq, JoinType.bag_joinRows, show condition.partners P (constantValue E env.dialect) = fun _ _ => true from
        funext fun row => funext fun row' => partners_of_isLiteralTrue htrue P E env.dialect row row']
      rfl
  · obtain ⟨res, s', hres, hstatement⟩ := hjoined type.toText (some on) (s.declaring ids x.resetAlias.aliases)
    refine ⟨res, s', _, s', ⟨⟨⟩, _, rfl, l, _, ⟨rfl, rfl⟩, r, _, ⟨rfl, rfl⟩, ?_⟩, hstatement, ?_⟩
    · rw [if_neg hproduct]
      exact (ConvertM.gives_bind _ _ _ _ _).mpr ⟨on, _, hon _,
        (ConvertM.gives_bind _ _ _ _ _).mpr ⟨_, _, (ConvertM.gives_pure _ _ _ _).mpr ⟨rfl, rfl⟩, hres⟩⟩
    · intro E P db v w hdb hv hw
      obtain ⟨rows, hrows, heq⟩ := p.rows_join hmap hL hR hweighs htype P hdb hv hw
      refine ⟨rows, hrows, ?_⟩
      rw [heq, JoinType.bag_joinRows]
      cases type with
      | semi | anti => cases htype
      | inner | left | right | full => rfl

/-- **A join that only tests for partners** converts, and its statement has the left rows that are asked for. -/
theorem exists_semiJoinResult (sub : Rel → ConvertM Node) (henv : env.NeverQualifies) (hmap : env.fieldMap = [])
    (hd : env.dialect.AddsNumbers) (hL : L.fields.names.Nodup) (hR : R.fields.names.Nodup) {condition : Expr}
    (hc : condition.Criterion (L.fields.length + R.fields.length)) {type : JoinType} (htype : type.keepsLeftOnly = true)
    (ids : List String) (rel : Rel) (s : State) :
    ∃ res s₁ n s', (semiJoinResult env sub condition type ids rel x.resetAlias y.resetAlias).Gives s res s₁
      ∧ (res.asStatement env).Gives s₁ n s' ∧ Joins env schema L R x y condition type n := by
  obtain ⟨on, hon, hweighs⟩ := p.exists_on sub hmap hd hc
  set q := (selectFrom l).set "where" (some (.node (wrap .where
    (partnerTest type (selectFrom l) (wrap .exists (existenceQuery r on)))))) with hq
  have hkind : q.kind = .select := rfl
  obtain ⟨res, s', hres, hnode⟩ : ∃ res s', (makeResult env q [.from, .where] rel none).Gives
      (s.declaring ids x.resetAlias.aliases) res s' ∧ res.node = q :=
    ⟨_, _, (ConvertM.gives_makeResult henv _ _ _ _ _ _ _).mpr ⟨rfl, rfl⟩, recorded_node _ _ _ _ _⟩
  refine ⟨res, s', q, s', ?_, ?_, fun E P db v w hdb hv hw => ?_⟩
  · rw [semiJoinResult_eq]
    simp only [ConvertM.gives_bind, ConvertM.gives_lift, p.right.asFrom, Except.ok.injEq,
      ConvertM.gives_registerCorrelations]
    exact ⟨⟨⟩, _, rfl, on, _, hon _, _, _, p.left.gives_leftQuery henv _, r, _, ⟨rfl, rfl⟩, hres⟩
  · rw [Result.asStatement, hnode, show q.isSetOperation = false from rfl, if_neg (by simp),
      ConvertM.gives_asSelect_of_select (by rw [hnode, hkind]), hnode]
    exact ⟨rfl, rfl⟩
  · obtain ⟨rows, hrows, heq⟩ := p.rows_semiJoin hmap hL hR hweighs type P hdb hv hw
    refine ⟨rows, hrows, ?_⟩
    rw [heq]
    cases type with
    | semi | anti =>
      rw [JoinType.onBags, Multiset.filter_coe]
      refine congrArg _ (List.filter_congr fun row _ => ?_)
      rw [JoinType.hasRow_coe]
      generalize (w []).any _ = found
      cases found <;> rfl
    | inner | left | right | full => cases htype

end SidePair

end

/-! ## Statements for joins -/

/-- The conversion of an input of a plan. -/
abbrev inputResult (d : Dialect) (plan input : Rel) : ConvertM Result :=
  relationResult (Env.plain d) (queryAt (Env.plain d) plan.queryDepth false) false input

/-- A plan on rows has no joins. -/
theorem joinFree_of_rowPlan {d : Dialect} (hd : d ∈ Dialect.all) {rel : Rel} (h : rel.RowPlan (tableColumns schema)) :
    rel.every (joinFree schema) = true := by
  induction h with
  | scan htable hcolumns hnames => simpa [Rel.every, joinFree] using hcolumns
  | values hfields hnames htuples =>
    simp only [Rel.every, joinFree, List.all_eq_true, beq_iff_eq]
    exact fun t ht => (htuples t ht).1
  | filter hinput hcondition ids ih => simpa [Rel.every, joinFree] using ih
  | project hinput hprojects hne hlength hnames distinct ids ih =>
    have houter : ∀ e ∈ _, readsOuter e = false := fun e he =>
      (queryFree_of_plain (Dialect.addsNumbers hd) (hprojects e he)).readsOuter_eq_false
    simpa [Rel.every, joinFree, hlength, ih] using houter
  | sort hinput hkeys ih => simpa [Rel.every, joinFree] using ih
  | setOp op all hlength hinputs hwidth ih =>
    simp only [Rel.every, joinFree, hlength, decide_true, Bool.true_and]
    exact (Rel.everyOf_iff _ _).mpr ih

section

variable {d : Dialect} {L R : Rel} {condition : Expr} {type : JoinType} {ids : List String} {x y : Result} {t u : State}

/-- **Two inputs without joins** that convert are joined by a statement that joins the rows of their queries. -/
theorem exists_joinStatement (hd : d ∈ Dialect.all) (hc : condition.Criterion (L.fields.length + R.fields.length))
    (hL : L.every (joinFree schema) = true) (hR : R.every (joinFree schema) = true) (hnames : L.fields.names.Nodup)
    (hnames' : R.fields.names.Nodup) (hx : (inputResult d (.join L R condition type ids) L).Gives {} x t)
    (hy : (inputResult d (.join L R condition type ids) R).Gives t y u)
    (hcolumns : x.query.columns schema = L.fields.names) (hcolumns' : y.query.columns schema = R.fields.names) :
    ∃ n, statement d (.join L R condition type ids) = .ok n ∧ Joins (Env.plain d) schema L R x y condition type n := by
  have henv := Env.neverQualifies_plain hd
  have hadds : (Env.plain d).dialect.AddsNumbers := Dialect.addsNumbers hd
  obtain ⟨a, b, l, r, p⟩ := exists_sides henv rfl (fun rel => grow_queryAt _ rel) hL hR hx hy hcolumns hcolumns'
  set sub := queryAt (Env.plain d) (Rel.join L R condition type ids).queryDepth false
  obtain ⟨res, s₁, n, s', hres, hn, hjoins⟩ : ∃ res s₁ n s', (if type.keepsLeftOnly then
        semiJoinResult (Env.plain d) sub condition type ids (.join L R condition type ids) x.resetAlias y.resetAlias
      else joinResult (Env.plain d) sub condition type ids (.join L R condition type ids) x.resetAlias y.resetAlias).Gives
        u res s₁
      ∧ (res.asStatement (Env.plain d)).Gives s₁ n s' ∧ Joins (Env.plain d) schema L R x y condition type n := by
    cases htype : type.keepsLeftOnly with
    | true => exact p.exists_semiJoinResult sub henv rfl hadds hnames hnames' hc htype ids _ u
    | false => exact p.exists_joinResult sub henv rfl hadds hnames hnames' hc htype ids _ u
  have hplan : (planResult (Env.plain d) (.join L R condition type ids)).Gives {} res s₁ := by
    rw [planResult, relationResult]
    simp only [ConvertM.gives_bind]
    exact ⟨x, t, hx, y, u, hy, hres⟩
  refine ⟨n, ?_, hjoins⟩
  rw [statement_eq, ConvertM.value_eq_ok_iff]
  exact ⟨s', (ConvertM.gives_bind _ _ _ _ _).mpr ⟨res, s₁, hplan, hn⟩⟩

/-- **Two plans on rows** are joined by a statement that joins, for every database, the bags that they denote over the
tables found under the names of their tables. -/
theorem exists_joinStatement_of_rowPlan (hd : d ∈ Dialect.all)
    (hc : condition.Criterion (L.fields.length + R.fields.length)) (hL : L.RowPlan (tableColumns schema))
    (hR : R.RowPlan (tableColumns schema)) (type : JoinType) (ids : List String) :
    ∃ n, statement d (.join L R condition type ids) = .ok n ∧ ∀ (E : Engine) (P : Patterns) (db : Database),
      db.schema = schema → ∃ rows, n.results (E.withOperators P) db = some rows ∧ (rows : Multiset Row)
        = type.onBags (condition.partners P (constantValue (E.withOperators P) d)) L.fields.length R.fields.length
          (L.bag P db.tableRows) (R.bag P db.tableRows) := by
  have henv := Env.neverQualifies_plain hd
  have hadds : (Env.plain d).dialect.AddsNumbers := Dialect.addsNumbers hd
  obtain ⟨x, t, hx, hleft⟩ := faithful_relationResult (queryAt (Env.plain d)
    (Rel.join L R condition type ids).queryDepth false) henv rfl hadds hL false {}
  obtain ⟨y, u, hy, hright⟩ := faithful_relationResult (queryAt (Env.plain d)
    (Rel.join L R condition type ids).queryDepth false) henv rfl hadds hR false t
  obtain ⟨n, hn, hjoins⟩ := exists_joinStatement hd hc (joinFree_of_rowPlan hd hL) (joinFree_of_rowPlan hd hR)
    hleft.distinct hright.distinct hx hy hleft.columns hright.columns
  refine ⟨n, hn, fun E P db hdb => ?_⟩
  obtain ⟨v, hv, hbag⟩ := hleft.returns E P db Names.none hdb
  obtain ⟨w, hw, hbag'⟩ := hright.returns E P db Names.none hdb
  obtain ⟨rows, hrows, hsame⟩ := hjoins (E.withOperators P) P db v w hdb hv hw
  refine ⟨rows [], Option.map_eq_some_iff.mpr ⟨rows, hrows, rfl⟩, hsame.trans ?_⟩
  rw [hbag, hbag']
  rfl

/-- Two plans on rows are joined as they denote in every database that holds their tables. -/
theorem exists_joinStatement_of_holds (hd : d ∈ Dialect.all)
    (hc : condition.Criterion (L.fields.length + R.fields.length)) {tables db : Database} (hL : L.RowPlan tables.schema)
    (hR : R.RowPlan tables.schema) (hdb : db.Holds tables (L.tablePaths ++ R.tablePaths)) (type : JoinType)
    (ids : List String) :
    ∃ n, statement d (.join L R condition type ids) = .ok n ∧ ∀ (E : Engine) (P : Patterns), ∃ rows,
      n.results (E.withOperators P) db = some rows ∧ (rows : Multiset Row)
        = type.onBags (condition.partners P (constantValue (E.withOperators P) d)) L.fields.length R.fields.length
          (L.bag P tables.rows) (R.bag P tables.rows) := by
  have hleft : L.tablePaths ⊆ L.tablePaths ++ R.tablePaths := List.subset_append_left _ _
  have hright : R.tablePaths ⊆ L.tablePaths ++ R.tablePaths := List.subset_append_right _ _
  obtain ⟨n, hn, hrows⟩ := exists_joinStatement_of_rowPlan hd hc (hdb.rowPlan hleft hL) (hdb.rowPlan hright hR) type ids
  refine ⟨n, hn, fun E P => ?_⟩
  obtain ⟨rows, hresults, hbag⟩ := hrows E P db rfl
  refine ⟨rows, hresults, hbag.trans ?_⟩
  rw [hdb.bag hleft hL, hdb.bag hright hR]

end

/-- The column of the right side is below that of the left side. -/
def rightBelowLeft : Expr := .call .lessThan [.inputRef (1 : Nat) .integer, .inputRef (0 : Nat) .integer] .boolean

/-- `SELECT * FROM t FULL JOIN t AS t0 ON t.a > t0.a`, with the sides of the comparison exchanged. -/
def smallerPartners : Rel := .join scanOneColumn scanOneColumn rightBelowLeft .full []

end AlgebraSql.Convert
