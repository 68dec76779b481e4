import AlgebraSql.Proofs.Evaluation

/-!
# Stages — the clauses of a SELECT, from the nodes that they are.

The meaning of a SELECT is made from the meanings of its parts.  Here the same clauses are found from
the nodes themselves, so what one clause of a query does can be compared with what a clause of another
query does.
-/

namespace AlgebraSql.Sql.Node

variable (E : Engine) (db : Database)

/-! ## Clauses -/

/-- What a clause comes to, or a default where the clause is absent. -/
def clause {α : Type} (n : Node) (key : String) (absent : α) (value : Node → Option α) : Option α :=
  match n.child? key with
  | some c => value c
  | none => some absent

/-- A condition that always holds. -/
def always {α : Type} : α → List Datum := fun _ => [.bool true]

@[simp] theorem holds_always {α : Type} (a : α) : holds (always a) = true := rfl

/-- The names in the clauses of a query: those of its FROM clause. -/
def fromNames (n : Node) (outer : Names) : Names := Names.within (n.frame db.schema) outer

/-- The value of the select item at a place, outside of windowed calls. -/
def itemAt (n : Node) (names : Names) (place : Nat) : Option (Focus → Datum) :=
  ((n.list "expressions")[place]?).bind fun item =>
    (item.scalar E db names).map fun v f => single (v f)

/-- The names in GROUP BY. -/
def groupNames (n : Node) (outer : Names) : Names :=
  if E.groupByAlias then Names.itemsBehind (n.frame db.schema) n.itemNames
    (n.itemAt E db (n.fromNames db outer)) (n.fromNames db outer)
  else n.fromNames db outer

/-- The names in HAVING. -/
def havingNames (n : Node) (outer : Names) : Names :=
  if E.havingAlias then
    Names.itemsFirst n.itemNames (n.itemAt E db (n.fromNames db outer)) (n.fromNames db outer)
  else n.fromNames db outer

/-- The names in ORDER BY: the columns of the output lie behind those of FROM. -/
def orderNames (n : Node) (outer : Names) : Names :=
  Names.itemsFirst n.itemNames
    (fun place => some fun f => f.row.getD ((n.frame db.schema).cells.length + place) .null)
    (n.fromNames db outer)

/-- A limit as a number, if it is one. -/
def limitIn (names : Names) (c : Node) : Option (Focus → Option Datum) :=
  (c.scalar E db names.beside).map fun v f => some (single (v f.beside))

/-- The output of a query: the items of its list, or all columns. -/
def output (n : Node) (names : Names) : Option (Spot → Row) :=
  match n.list "expressions" with
  | [] => some fun s => (List.range (n.frame db.schema).cells.length).map fun i => s.focus.row.getD i .null
  | items => (together (items.map (analytic E db names))).map fun vs s => (vs s).map single

/-- The sort keys of an order. -/
def orderIn (width : Nat) (names : Names) (c : Node) : Option (Option (Spot → List Datum)) :=
  ((c.meaning E db).keys width names).map some

/-- The clauses of a SELECT up to its groups. -/
def groupingIn (n : Node) (outer : Names) : Option Grouping := do
  let source ← n.clause "from" (fun _ => [[]]) (tuples E db outer)
  let condition ← n.clause "where" always (scalar E db (n.fromNames db outer))
  let levels ← levelsOf E n ((n.child? "group").bind (scalar E db (n.groupNames E db outer)))
  return ⟨source, condition, levels⟩

/-- The clauses of a SELECT. -/
def stagesIn (n : Node) (outer : Names) : Option Stages := do
  let grouping ← n.groupingIn E db outer
  let having ← n.clause "having" always (scalar E db (n.havingNames E db outer))
  let qualify ← n.clause "qualify" always (analytic E db (n.fromNames db outer))
  let output ← n.output E db (n.fromNames db outer)
  let order ← n.clause "order" none
    (orderIn E db (n.frame db.schema).cells.length (n.orderNames db outer))
  let limit ← n.clause "limit" (fun _ => none) (limitIn E db outer)
  let offset ← n.clause "offset" (fun _ => none) (limitIn E db outer)
  return ⟨grouping, having, qualify, output, n.flag "distinct", order, limit, offset,
    (n.frame db.schema).cells.length⟩

/-! ## Equations -/

variable {E : Engine} {db : Database}

/-- A condition from the part of its name. -/
theorem conditionOf_partsOf {α : Type} (n : Node) (key : String)
    (value : Meaning → Option (α → List Datum)) :
    conditionOf n key (value ((n.partsOf E db).only key))
      = n.clause key always fun c => value (c.meaning E db) := by
  unfold conditionOf clause
  cases h : n.child? key with
  | none => rfl
  | some c => simp [only_partsOf h]

theorem conditionOf_scalar (n : Node) (key : String) (names : Names) :
    conditionOf n key (((n.partsOf E db).only key).scalar names)
      = n.clause key always (scalar E db names) := conditionOf_partsOf n key fun m => m.scalar names

theorem conditionOf_analytic (n : Node) (key : String) (names : Names) :
    conditionOf n key (((n.partsOf E db).only key).analytic names)
      = n.clause key always (analytic E db names) := conditionOf_partsOf n key fun m => m.analytic names

theorem limitOf_partsOf (n : Node) (key : String) (names : Names) :
    limitOf n key (((n.partsOf E db).only key).scalar names.beside)
      = n.clause key (fun _ => none) (limitIn E db names) := by
  unfold limitOf clause limitIn
  cases h : n.child? key with
  | none => rfl
  | some c => simp [only_partsOf h, scalar]

theorem orderOf_partsOf (n : Node) (width : Nat) (names : Names) :
    orderOf n (((n.partsOf E db).only "order").keys width names)
      = n.clause "order" none (orderIn E db width names) := by
  unfold orderOf clause orderIn
  cases h : n.child? "order" with
  | none => rfl
  | some c => simp [only_partsOf h]

theorem several_partsOf_list (n : Node) (h : n.list "expressions" ≠ []) :
    (n.partsOf E db).several "expressions" = (n.list "expressions").map (meaning E db) := by
  cases hlist : n.list? "expressions" with
  | none => simp [list, hlist] at h
  | some ns => simp [list, hlist, several_partsOf hlist]

theorem itemNames_eq_nil {n : Node} (h : n.list "expressions" = []) : n.itemNames = [] := by
  simp [itemNames, h]

/-- Without items there is no place of an item. -/
theorem itemPlace?_nil (qualifier : Option String) (name : String) :
    Names.itemPlace? [] qualifier name = none := by
  unfold Names.itemPlace?
  cases qualifier <;> rfl

theorem itemsFirst_nil (values : Nat → Option (Focus → Datum)) (names : Names) :
    Names.itemsFirst [] values names = names := by
  funext qualifier name
  simp [Names.itemsFirst, itemPlace?_nil]

theorem itemsBehind_nil (F : Frame) (values : Nat → Option (Focus → Datum)) (names : Names) :
    Names.itemsBehind F [] values names = names := by
  funext qualifier name
  simp [Names.itemsBehind, itemsFirst_nil]

/-- The values of select items from the parts or the nodes. -/
theorem itemValue_partsOf {n : Node} (h : n.list "expressions" ≠ []) (names : Names) :
    itemValue ((n.partsOf E db).several "expressions") names = n.itemAt E db names := by
  funext place
  simp only [itemValue, itemAt, several_partsOf_list n h, List.getElem?_map]
  cases (n.list "expressions")[place]? <;> rfl

theorem itemsFirst_partsOf (n : Node) (names : Names) :
    Names.itemsFirst n.itemNames (itemValue ((n.partsOf E db).several "expressions") names) names
      = Names.itemsFirst n.itemNames (n.itemAt E db names) names := by
  by_cases h : n.list "expressions" = []
  · simp [itemNames_eq_nil h, itemsFirst_nil]
  · rw [itemValue_partsOf h]

theorem itemsBehind_partsOf (n : Node) (F : Frame) (names : Names) :
    Names.itemsBehind F n.itemNames (itemValue ((n.partsOf E db).several "expressions") names) names
      = Names.itemsBehind F n.itemNames (n.itemAt E db names) names := by
  by_cases h : n.list "expressions" = []
  · simp [itemNames_eq_nil h, itemsBehind_nil]
  · rw [itemValue_partsOf h]

theorem levelsOf_partsOf (n : Node) (names : Names) :
    levelsOf E n (((n.partsOf E db).only "group").scalar names)
      = levelsOf E n ((n.child? "group").bind (scalar E db names)) := by
  unfold levelsOf
  cases h : n.child? "group" with
  | none => rfl
  | some g => simp [only_partsOf h, scalar]

/-- **The groups** of a SELECT, from its nodes. -/
theorem groupingOf_partsOf (n : Node) (outer : Names) :
    groupingOf E db n (n.partsOf E db) outer = n.groupingIn E db outer := by
  unfold groupingOf groupingIn
  simp only [conditionOf_scalar, itemsBehind_partsOf, levelsOf_partsOf]
  have hsource : sourceOf n (((n.partsOf E db).only "from").tuples outer)
      = n.clause "from" (fun _ => [[]]) (tuples E db outer) := by
    unfold sourceOf clause
    cases h : n.child? "from" with
    | none => rfl
    | some c =>
      simp only [Option.isSome_some, if_true, only_partsOf h]
      rfl
  rw [hsource]
  rfl

/-- The output of a SELECT, from its nodes. -/
theorem outputOf_partsOf (n : Node) (names : Names) :
    outputOf n (n.frame db.schema).cells.length ((n.partsOf E db).several "expressions") names
      = n.output E db names := by
  unfold outputOf output
  cases h : n.list "expressions" with
  | nil => rfl
  | cons item items =>
    have hne : n.list "expressions" ≠ [] := by simp [h]
    simp only [several_partsOf_list n hne, h, List.map_map]
    rfl

/-- **The clauses of a SELECT**, from its nodes. -/
theorem stagesOf_partsOf (n : Node) (outer : Names) :
    stagesOf E db n (n.partsOf E db) outer = n.stagesIn E db outer := by
  unfold stagesOf stagesIn
  simp only [groupingOf_partsOf, conditionOf_scalar, conditionOf_analytic, outputOf_partsOf,
    itemsFirst_partsOf, orderOf_partsOf, limitOf_partsOf]
  rfl

/-- **The rows of a SELECT**. -/
theorem rows_select {n : Node} (hn : n.kind = .select) (outer : Names) :
    n.rows E db outer = (n.stagesIn E db outer).map (Stages.run E) := by
  rw [rows_eq, ← stagesOf_partsOf]
  simp only [rowsStep, hn]

/-- The groups of a query by itself. -/
theorem groups_eq (n : Node) :
    n.groups E db = (n.groupingIn E db Names.none).map fun g => g.run [] := by
  rw [groups, groupingOf_partsOf]

end AlgebraSql.Sql.Node
