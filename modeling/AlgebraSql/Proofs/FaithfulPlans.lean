import AlgebraSql.Proofs.FaithfulRows
import AlgebraSql.Proofs.StoredTables

/-!
# Faithful plans — the statement for a plan on rows returns what the plan denotes.

By induction over a plan, every operator of it converts and keeps its bag, whichever way its query is stacked on
that of its input.  The result at the top is the statement, or becomes one as a star over itself.
-/

namespace AlgebraSql.Convert

open Sql Node

variable {env : Env} {sub : Rel → ConvertM Node} {s s' : State} {schema : Schema}

/-! ## Plans -/

/-- A filter over a plan on rows stands in WHERE. -/
theorem filterClause_of_rowPlan (hd : env.dialect.AddsNumbers) {columns : List String → List String} {input : Rel}
    (h : input.RowPlan columns)
    (condition : Expr) : filterClause env input condition = .where := by
  cases h with
  | project _ hprojects =>
    rw [filterClause, any_containsOver_eq_false fun e he => queryFree_of_plain hd (hprojects e he), Bool.and_false,
      Bool.false_and, if_neg (by simp)]
  | _ => rfl

/-- The columns of a plan on rows have different names. -/
theorem names_nodup_of_rowPlan {columns : List String → List String} {rel : Rel} (h : rel.RowPlan columns) : rel.fields.names.Nodup := by
  induction h with
  | scan _ _ hnames => exact hnames
  | values _ hnames => exact hnames
  | filter _ _ _ ih => exact ih
  | project _ _ _ hlength hnames => exact (names_project hlength).symm ▸ hnames
  | sort _ _ ih => exact ih
  | @setOp inputs _ _ hlength _ _ ih =>
    cases inputs with
    | nil => simp at hlength
    | cons input inputs => exact ih input List.mem_cons_self

/-- Queries for several plans, if the result for each of them is faithful. -/
theorem exists_relationSelects (sub : Rel → ConvertM Node) (henv : env.NeverQualifies) {rels : List Rel}
    (h : ∀ rel ∈ rels, ∀ s, ∃ x s', (relationResult env sub false rel).Gives s x s' ∧ Faithful schema rel x) (s : State) :
    ∃ ns s', (relationSelects env sub rels).Gives s ns s' ∧ List.Forall₂ (QueryOf schema) rels ns := by
  induction rels generalizing s with
  | nil => exact ⟨[], s, by rw [relationSelects, ConvertM.gives_pure]; exact ⟨rfl, rfl⟩, .nil⟩
  | cons rel rels ih =>
    obtain ⟨x, s₁, hx, hfaithful⟩ := h rel List.mem_cons_self s
    obtain ⟨n, s₂, hn, hselect⟩ := hfaithful.exists_asSelect henv s₁
    obtain ⟨ns, s₃, hns, hselects⟩ := ih (fun rel hrel => h rel (List.mem_cons_of_mem _ hrel)) s₂
    refine ⟨n :: ns, s₃, ?_, .cons hselect hselects⟩
    simp only [relationSelects, ConvertM.gives_bind, ConvertM.gives_pure]
    exact ⟨x, s₁, hx, n, s₂, hn, ns, s₃, hns, rfl, rfl⟩

/-- **`relationResult`** — every plan on rows converts, and its result is faithful. -/
theorem faithful_relationResult (sub : Rel → ConvertM Node) (henv : env.NeverQualifies) (hmap : env.fieldMap = [])
    (hd : env.dialect.AddsNumbers) {rel : Rel} (hrel : rel.RowPlan (tableColumns schema)) (root : Bool) (s : State) :
    ∃ r s', (relationResult env sub root rel).Gives s r s' ∧ Faithful schema rel r := by
  induction hrel generalizing root s with
  | scan htable hcolumns hnames =>
    rw [relationResult]
    exact Faithful.scan henv htable hcolumns hnames s
  | values hfields hnames htuples =>
    rw [relationResult]
    exact Faithful.values henv hfields hnames htuples s
  | filter hinput hcondition ids ih =>
    obtain ⟨x, s₁, hx, hfaithful⟩ := ih false s
    obtain ⟨r, s', hr, hdone⟩ :=
      hfaithful.filter sub henv hmap hd hcondition ids (filterClause_of_rowPlan hd hinput _) s₁
    refine ⟨r, s', ?_, hdone⟩
    rw [relationResult, ConvertM.gives_bind]
    exact ⟨x, s₁, hx, hr⟩
  | project hinput hprojects hne hlength hnames distinct ids ih =>
    obtain ⟨x, s₁, hx, hfaithful⟩ := ih false s
    obtain ⟨r, s', hr, hdone⟩ :=
      hfaithful.project sub henv hmap hd hprojects hne hlength hnames distinct ids s₁
    refine ⟨r, s', ?_, hdone⟩
    rw [relationResult, ConvertM.gives_bind]
    exact ⟨x, s₁, hx, hr⟩
  | sort hinput hkeys ih =>
    obtain ⟨x, s₁, hx, hfaithful⟩ := ih false s
    obtain ⟨r, s', hr, hdone⟩ := hfaithful.sort sub henv hmap hkeys root s₁
    refine ⟨r, s', ?_, hdone⟩
    rw [relationResult, ConvertM.gives_bind]
    exact ⟨x, s₁, hx, hr⟩
  | @setOp inputs op all hlength hinputs hwidth ih =>
    obtain ⟨ns, s₁, hns, hselects⟩ := exists_relationSelects sub henv (fun rel hrel => ih rel hrel false) s
    obtain ⟨r, s', hr, hdone⟩ := Faithful.setOp henv hlength hselects
      (names_nodup_of_rowPlan (.setOp op all hlength hinputs hwidth)) hwidth s₁
    refine ⟨r, s', ?_, hdone⟩
    rw [relationResult, ConvertM.gives_bind]
    exact ⟨ns, s₁, hns, hr⟩

/-- The statement for a plan on rows returns, for every database, what the plan denotes over the tables that are found
under the names of its tables. -/
theorem exists_statement_of_rowPlan {d : Dialect} (hd : d ∈ Dialect.all) {rel : Rel}
    (hrel : rel.RowPlan (tableColumns schema)) :
    ∃ n, statement d rel = .ok n ∧ ∀ (E : Engine) (P : Patterns) (db : Database), db.schema = schema →
      ∃ rows, n.results (E.withOperators P) db = some rows ∧ (rows : Multiset Row) = rel.bag P db.tableRows := by
  have henv := Env.neverQualifies_plain hd
  obtain ⟨r, s, hr, hfaithful⟩ := faithful_relationResult (queryAt (Env.plain d) rel.queryDepth false) henv rfl
    (Dialect.addsNumbers hd) hrel true {}
  obtain ⟨s', hn⟩ := hfaithful.flat.exists_asStatement henv s
  refine ⟨r.query, ?_, fun E P db hdb => ?_⟩
  · rw [statement_eq, ConvertM.value_eq_ok_iff]
    exact ⟨s', (ConvertM.gives_bind _ _ _ _ _).mpr ⟨r, s, hr, hn⟩⟩
  · obtain ⟨v, hv, hbag⟩ := hfaithful.returns E P db Names.none hdb
    exact ⟨v [], Option.map_eq_some_iff.mpr ⟨v, hv, rfl⟩, hbag []⟩

/-- **`statement`** — plans of tables, constant rows, filters, projections, set operations and sorts without limits.  A
plan whose tables are written under different names converts, and there are databases that hold the tables, whatever
they contain.  In every database that holds the tables of a plan its statement returns the bag of rows that the plan
denotes. -/
theorem statement_bag {d : Dialect} (hd : d ∈ Dialect.all) {columns : List String → List String} {rel : Rel}
    (hrel : rel.RowPlan columns) :
    (TablesApart rel.tablePaths →
      (∃ n, statement d rel = .ok n) ∧ ∀ tables : Database, ∃ db : Database, db.Holds tables rel.tablePaths)
    ∧ ∀ tables db : Database, tables.schema = columns → db.Holds tables rel.tablePaths →
      ∃ n, statement d rel = .ok n ∧ ∀ (E : Engine) (P : Patterns), ∃ rows,
        n.results (E.withOperators P) db = some rows ∧ (rows : Multiset Row) = rel.bag P tables.rows := by
  refine ⟨fun hapart => ⟨?_, fun tables => ⟨_, Database.holds_under tables hapart⟩⟩, fun tables db htables hdb => ?_⟩
  · have hempty := Database.holds_under ⟨columns, fun _ => [], by simp⟩ hapart
    obtain ⟨n, hn, -⟩ := exists_statement_of_rowPlan hd (hempty.rowPlan (List.Subset.refl _) hrel)
    exact ⟨n, hn⟩
  · subst htables
    obtain ⟨n, hn, hrows⟩ := exists_statement_of_rowPlan hd (hdb.rowPlan (List.Subset.refl _) hrel)
    refine ⟨n, hn, fun E P => ?_⟩
    obtain ⟨rows, hresults, hbag⟩ := hrows E P db rfl
    exact ⟨rows, hresults, hbag.trans (hdb.bag (List.Subset.refl _) hrel P)⟩

/-- `SELECT DISTINCT a FROM t WHERE a > 1`, and a row of nulls, in descending order. -/
def largeOrMissing : Rel :=
  .sort (.setOp .union true
    [.project (.filter scanOneColumn (aboveOneField 0 .integer) []) [.inputRef (0 : Nat) .integer] ["b"] true [],
      .values [⟨"c", .integer⟩] [[⟨.null, .integer⟩]]]) [⟨(0 : Nat), .descending, .last⟩] none none

/-- In a table of a value that occurs once and one that occurs twice, the larger one counts once. -/
theorem largeOrMissing_rows : Dialect.mysql ∈ Dialect.all ∧ largeOrMissing.RowPlan oneColumnSchema
    ∧ TablesApart largeOrMissing.tablePaths ∧ (∃ n, statement Dialect.mysql largeOrMissing = .ok n)
    ∧ oneTwoTwo.Holds oneTwoTwo largeOrMissing.tablePaths
    ∧ ∃ n, statement Dialect.mysql largeOrMissing = .ok n ∧ ∀ E : Engine, ∃ rows,
      n.results (E.withOperators ⟨fun _ => true, fun _ => true⟩) oneTwoTwo = some rows
        ∧ (rows : Multiset Row) = {[.number 2], [.null]} := by
  have hd : Dialect.mysql ∈ Dialect.all := by simp [Dialect.all]
  have hscan : scanOneColumn.RowPlan oneColumnSchema := .scan (by simp) rfl (by simp [RowType.names])
  have hfilter : (Rel.filter scanOneColumn (aboveOneField 0 .integer) []).RowPlan oneColumnSchema := by
    refine .filter hscan (.call (.comparison (by simp) _ _) (fun e he => ?_) _) []
    simp only [List.mem_cons, List.not_mem_nil, or_false] at he
    rcases he with rfl | rfl
    · exact .inputRef (by decide) _
    · exact .literal rfl
  have hproject : (Rel.project (.filter scanOneColumn (aboveOneField 0 .integer) []) [.inputRef (0 : Nat) .integer] ["b"]
      true []).RowPlan oneColumnSchema := by
    refine .project hfilter (fun e he => ?_) (by simp) rfl (by simp) true []
    obtain rfl := List.mem_singleton.mp he
    exact .inputRef (by decide) _
  have hvalues : (Rel.values [⟨"c", .integer⟩] [[⟨.null, .integer⟩]]).RowPlan oneColumnSchema := by
    refine .values (by simp) (by simp [RowType.names]) fun t ht => ?_
    obtain rfl := List.mem_singleton.mp ht
    exact ⟨rfl, fun l hl => by obtain rfl := List.mem_singleton.mp hl; rfl⟩
  have hrel : largeOrMissing.RowPlan oneColumnSchema := by
    refine .sort (.setOp .union true (by simp) (fun rel hrel => ?_) fun rel hrel => ?_) fun c hc => ?_
    · simp only [List.mem_cons, List.not_mem_nil, or_false] at hrel
      rcases hrel with rfl | rfl
      · exact hproject
      · exact hvalues
    · simp only [List.mem_cons, List.not_mem_nil, or_false] at hrel
      rcases hrel with rfl | rfl <;> rfl
    · obtain rfl := List.mem_singleton.mp hc
      exact ⟨0, by decide, rfl⟩
  have hapart : TablesApart largeOrMissing.tablePaths := by decide
  -- the name of the only table is its path
  have hholds : oneTwoTwo.Holds oneTwoTwo largeOrMissing.tablePaths :=
    ⟨fun path hpath => by obtain rfl := List.mem_singleton.mp hpath; rfl,
      fun path hpath => by obtain rfl := List.mem_singleton.mp hpath; rfl⟩
  obtain ⟨hconverts, hholding⟩ := statement_bag hd hrel
  obtain ⟨n, hn, hrows⟩ := hholding oneTwoTwo oneTwoTwo rfl hholds
  refine ⟨hd, hrel, hapart, (hconverts hapart).1, hholds, n, hn, fun E => ?_⟩
  obtain ⟨rows, hresults, hbag⟩ := hrows E ⟨fun _ => true, fun _ => true⟩
  exact ⟨rows, hresults, hbag.trans (by decide +kernel)⟩

/-! ## Tables under one name -/

/-- The table `d` in three qualifiers. -/
def deepTable : Rel := .scan ["a", "b", "c", "d"] [⟨"x", .integer⟩]

/-- The table `d` in two qualifiers, one of which has a dot in it. -/
def dottedTable : Rel := .scan ["a.b", "c", "d"] [⟨"x", .integer⟩]

/-- Tables of one column, of which only `deepTable` has a row. -/
def deepOnly : Database where
  schema _ := ["x"]
  rows path := if path = ["a", "b", "c", "d"] then [[.number 1]] else []
  width path row hrow := by
    split at hrow
    · obtain rfl := List.mem_singleton.mp hrow
      rfl
    · cases hrow

theorem rowPlan_namesakes {columns : List String → List String} (hdeep : columns ["a", "b", "c", "d"] = ["x"])
    (hdotted : columns ["a.b", "c", "d"] = ["x"]) : deepTable.RowPlan columns ∧ dottedTable.RowPlan columns :=
  ⟨.scan (by simp) hdeep (by simp [RowType.names]), .scan (by simp) hdotted (by simp [RowType.names])⟩

/-- Under one name the two tables have the same columns and rows. -/
theorem namesakes_alike {db : Database} (h : db.schema (tableName ["a", "b", "c", "d"]) = ["x"]) (P : Patterns) :
    (deepTable.RowPlan (tableColumns db.schema) ∧ dottedTable.RowPlan (tableColumns db.schema))
      ∧ dottedTable.bag P db.tableRows = deepTable.bag P db.tableRows := by
  have hname : tableName ["a.b", "c", "d"] = tableName ["a", "b", "c", "d"] := by decide
  refine ⟨rowPlan_namesakes h ((congrArg db.schema hname).trans h), ?_⟩
  show (db.rows (tableName _) : Multiset Row) = db.rows (tableName _)
  rw [hname]

/-- **Namesakes** — the rows of one table that do not lie in another one are written as those of one table that do not
lie in itself.  So the row of the first table is never returned, whatever a database holds under the name. -/
theorem namesakes_subtracted :
    let rel := Rel.setOp .except true [deepTable, dottedTable]
    rel.RowPlan deepOnly.schema ∧ (∀ P, rel.bag P deepOnly.rows = {[.number 1]})
      ∧ ∃ n, statement Dialect.ansi rel = .ok n ∧ ∀ (E : Engine) (P : Patterns) (db : Database),
        db.schema (tableName ["a", "b", "c", "d"]) = ["x"] → n.results (E.withOperators P) db = some [] := by
  intro rel
  have hrel : ∀ {columns : List String → List String}, deepTable.RowPlan columns ∧ dottedTable.RowPlan columns →
      rel.RowPlan columns := by
    rintro columns ⟨hdeep, hdotted⟩
    refine .setOp .except true (by simp) (fun input hinput => ?_) fun input hinput => ?_
    all_goals simp only [List.mem_cons, List.not_mem_nil, or_false] at hinput
    · rcases hinput with rfl | rfl
      · exact hdeep
      · exact hdotted
    · rcases hinput with rfl | rfl <;> rfl
  have hansi : Dialect.ansi ∈ Dialect.all := List.mem_cons_self
  have hcolumn : deepTable.RowPlan (tableColumns fun _ => ["x"]) ∧ dottedTable.RowPlan (tableColumns fun _ => ["x"]) :=
    rowPlan_namesakes rfl rfl
  obtain ⟨n, hn, -⟩ := exists_statement_of_rowPlan hansi (hrel hcolumn)
  refine ⟨hrel (rowPlan_namesakes rfl rfl), fun P => rfl, n, hn, fun E P db hdb => ?_⟩
  obtain ⟨hplans, hsame⟩ := namesakes_alike hdb P
  obtain ⟨m, hm, hrows⟩ := exists_statement_of_rowPlan hansi (hrel hplans)
  -- the statement depends on no database
  obtain rfl : n = m := Except.ok.inj (hn.symm.trans hm)
  obtain ⟨rows, hresults, hbag⟩ := hrows E P db rfl
  have hnone : rel.bag P db.tableRows = 0 := by
    show deepTable.bag P db.tableRows - dottedTable.bag P db.tableRows = 0
    rw [hsame]
    exact tsub_self _
  obtain rfl : rows = [] := (Multiset.coe_eq_zero rows).mp (hbag.trans hnone)
  exact hresults

end AlgebraSql.Convert
