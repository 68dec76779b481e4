import AlgebraSql.Proofs.PlanBags

/-!
# Stored tables — databases in which a statement finds the tables of a plan.

A plan knows tables by their paths, a statement by names of at most three parts.  A database holds the tables of a
plan if each of them lies under its name.  Whatever the tables contain, there is such a database if no two of them
share a name, and then a plan denotes the same over the tables as over the database.
-/

namespace AlgebraSql

open Sql AlgebraSql.Convert

namespace Rel

mutual

/-- The paths of the tables that a plan on rows reads. -/
def tablePaths : Rel → List (List String)
  | .scan path _ => [path]
  | .filter input _ _ | .project input _ _ _ _ | .sort input _ _ _ => tablePaths input
  | .setOp _ _ inputs => tablePathsOf inputs
  | _ => []

/-- The paths of the tables that several plans read. -/
def tablePathsOf : List Rel → List (List String)
  | [] => []
  | rel :: rels => tablePaths rel ++ tablePathsOf rels

end

theorem mem_tablePathsOf {rels : List Rel} {path : List String} :
    path ∈ tablePathsOf rels ↔ ∃ rel ∈ rels, path ∈ rel.tablePaths := by
  induction rels with
  | nil => simp [tablePathsOf]
  | cons rel rels ih => rw [tablePathsOf, List.mem_append, ih, List.exists_mem_cons_iff]

variable {columns columns' : List String → List String} {rel : Rel}

/-- Only the columns of the tables that it reads make a plan one on rows. -/
theorem RowPlan.congr (h : rel.RowPlan columns) (hsame : ∀ path ∈ rel.tablePaths, columns path = columns' path) :
    rel.RowPlan columns' := by
  induction h with
  | scan hpath hcolumns hnames => exact .scan hpath ((hsame _ List.mem_cons_self).symm.trans hcolumns) hnames
  | values hfields hnames htuples => exact .values hfields hnames htuples
  | filter _ hcondition ids ih => exact .filter (ih hsame) hcondition ids
  | project _ hprojects hne hlength hnames distinct ids ih =>
    exact .project (ih hsame) hprojects hne hlength hnames distinct ids
  | sort _ hkeys ih => exact .sort (ih hsame) hkeys
  | setOp op all hlength _ hwidth ih =>
    exact .setOp op all hlength (fun input hinput => ih input hinput fun path hpath =>
      hsame path (mem_tablePathsOf.mpr ⟨input, hinput, hpath⟩)) hwidth

/-- What a plan on rows denotes depends only on the rows of the tables that it reads. -/
theorem RowPlan.bag_congr (h : rel.RowPlan columns) (P : Patterns) {rows rows' : List String → List Row}
    (hsame : ∀ path ∈ rel.tablePaths, rows path = rows' path) : rel.bag P rows = rel.bag P rows' := by
  induction h with
  | scan => exact congrArg _ (hsame _ List.mem_cons_self)
  | values => rfl
  | filter _ _ _ ih => rw [bag, bag, ih hsame]
  | project _ _ _ _ _ _ _ ih => rw [bag, bag, ih hsame]
  | sort _ _ ih => rw [bag, bag, ih hsame]
  | @setOp inputs op all _ _ _ ih =>
    have hbags : bags P rows inputs = bags P rows' inputs := by
      rw [bags_eq_map, bags_eq_map]
      exact List.map_congr_left fun input hinput => ih input hinput fun path hpath =>
        hsame path (mem_tablePathsOf.mpr ⟨input, hinput, hpath⟩)
    rw [bag, bag, hbags]

end Rel

/-! ## Databases -/

/-- **`TablesApart`** — no two of some paths are written as one table. -/
def TablesApart (paths : List (List String)) : Prop :=
  ∀ p ∈ paths, ∀ q ∈ paths, tableName p = tableName q → p = q

instance (paths : List (List String)) : Decidable (TablesApart paths) :=
  inferInstanceAs (Decidable (∀ p ∈ paths, ∀ q ∈ paths, tableName p = tableName q → p = q))

/-- The first of some paths that is written under a name. -/
def pathNamed? (paths : List (List String)) (name : List String) : Option (List String) :=
  paths.find? fun path => tableName path == name

/-- A path among others is found by its name. -/
theorem TablesApart.pathNamed?_eq {paths : List (List String)} (h : TablesApart paths) {path : List String}
    (hpath : path ∈ paths) : pathNamed? paths (tableName path) = some path := by
  obtain ⟨found, hfound⟩ : ∃ found, pathNamed? paths (tableName path) = some found :=
    Option.isSome_iff_exists.mp (List.find?_isSome.mpr ⟨path, hpath, by simp⟩)
  have hsame : tableName found = tableName path := by simpa using List.find?_some hfound
  rw [hfound, h found (List.mem_of_find?_eq_some hfound) path hpath hsame]

namespace Sql.Database

/-- **`Holds`** — a database has tables, which are given by their paths, under their names. -/
structure Holds (db tables : Database) (paths : List (List String)) : Prop where
  columns : ∀ path ∈ paths, tableColumns db.schema path = tables.schema path
  rows : ∀ path ∈ paths, db.tableRows path = tables.rows path

/-- **`under`** — tables under the names of some paths. -/
def under (tables : Database) (paths : List (List String)) : Database where
  schema name := ((pathNamed? paths name).map tables.schema).getD []
  rows name := ((pathNamed? paths name).map tables.rows).getD []
  width name row hrow := by
    cases hname : pathNamed? paths name with
    | none => simp [hname] at hrow
    | some path =>
      rw [hname] at hrow
      exact tables.width path row hrow

/-- Tables with different names are held under them, whatever they contain. -/
theorem holds_under (tables : Database) {paths : List (List String)} (h : TablesApart paths) :
    (tables.under paths).Holds tables paths where
  columns path hpath := by
    show ((pathNamed? paths (tableName path)).map tables.schema).getD [] = _
    rw [h.pathNamed?_eq hpath]
    rfl
  rows path hpath := by
    show ((pathNamed? paths (tableName path)).map tables.rows).getD [] = _
    rw [h.pathNamed?_eq hpath]
    rfl

variable {db tables : Database} {rel : Rel}

/-- Over a database that holds its tables, a plan on rows is one. -/
theorem Holds.rowPlan {paths : List (List String)} (h : db.Holds tables paths) (hpaths : rel.tablePaths ⊆ paths)
    (hrel : rel.RowPlan tables.schema) : rel.RowPlan (tableColumns db.schema) :=
  hrel.congr fun path hpath => (h.columns path (hpaths hpath)).symm

/-- Over a database that holds its tables, a plan on rows denotes what it denotes over the tables. -/
theorem Holds.bag {paths : List (List String)} (h : db.Holds tables paths) (hpaths : rel.tablePaths ⊆ paths)
    (hrel : rel.RowPlan tables.schema) (P : Patterns) : rel.bag P db.tableRows = rel.bag P tables.rows :=
  hrel.bag_congr P fun path hpath => h.rows path (hpaths hpath)

end Sql.Database

end AlgebraSql
