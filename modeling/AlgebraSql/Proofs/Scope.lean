import AlgebraSql.Proofs.Fold

/-!
# Scopes — which columns a query exposes, and whether a column reference finds one.

A FROM clause is a frame: its items under their names, each with the columns that it exposes.  A
column with a qualifier has to name one item of its own SELECT or of a SELECT around it, and one
column of that item.  A column without one has to name one column of its own FROM clause or, in
ORDER BY, one item of the select list.
-/

namespace AlgebraSql.Sql

/-- The columns of the tables of a database, by the parts of a table's name. -/
abbrev Schema := List String → List String

/-- The items of a FROM clause under their names, each with the columns that it exposes. -/
abbrev Frame := List (String × List String)

/-- All columns of a frame, from left to right. -/
def Frame.columns (F : Frame) : List String := F.flatMap (·.2)

@[simp]
theorem Frame.columns_single (name : String) (columns : List String) :
    Frame.columns [(name, columns)] = columns := by
  simp [Frame.columns]

@[simp]
theorem Frame.columns_append (F G : Frame) : Frame.columns (F ++ G) = F.columns ++ G.columns := by
  simp [Frame.columns]

namespace Node

/-! ## Exposed columns -/

/-- The name of a select item, empty if it has none. -/
def outputName (item : Node) : String := item.aliasOf?.getD ""

/-- What a node exposes: the columns of a query, and the frame of a FROM clause. -/
structure Outline where
  columns : List String := []
  frame : Frame := []

/-- The columns of a SELECT with a list over a frame; a missing or empty list is written as a star
and stands for all columns. -/
def selectColumns (items : Option (List Node)) (F : Frame) : List String :=
  match items with
  | some (item :: items) => (item :: items).map outputName
  | _ => F.columns

/-- What a node exposes, from what its children expose. -/
def outlineStep (schema : Schema) (kind : Kind) (args : Args) (parts : OrderedMap (List Outline)) :
    Outline :=
  let n := Node.mk kind args
  let inner (key : String) : Outline := (((parts.get? key).getD []).head?).getD {}
  match kind with
  | .table => { frame := [(n.outputName, schema n.parts)] }
  | .subquery => { frame := [(n.outputName, (inner "this").columns)] }
  | .values => { frame := [(n.outputName, n.aliasColumns)] }
  | .join => { frame := (inner "this").frame ++ (inner "expression").frame }
  | .from => { frame := (inner "this").frame }
  | .select =>
    { columns := selectColumns n.selectList? (inner "from").frame, frame := (inner "from").frame }
  | .union | .intersect | .except => { columns := (inner "this").columns }
  | _ => {}

/-- What a node exposes. -/
def outline (schema : Schema) (n : Node) : Outline := n.fold (outlineStep schema)

/-- The columns of a query. -/
def columns (schema : Schema) (n : Node) : List String := (n.outline schema).columns

/-- The frame of a FROM item or, for a SELECT, of its FROM clause. -/
def frame (schema : Schema) (n : Node) : Frame := (n.outline schema).frame

/-! ## References -/

/-- What column references may name. -/
structure Scope where
  /-- The FROM clause of the SELECT itself. -/
  own : Frame := []
  /-- Those of the SELECTs around it. -/
  outer : Frame := []
  /-- In ORDER BY, the names of the select list. -/
  items : List String := []

/-- The frames of a scope and of those around it. -/
def Scope.visible (sc : Scope) : Frame := sc.own ++ sc.outer

/-- Exactly one visible item has the qualifier as its name, and it exposes exactly one column of the
name. -/
def findsQualified (F : Frame) (table name : String) : Bool :=
  match F.filter (·.1 == table) with
  | [item] => item.2.count name == 1
  | _ => false

/-- Exactly one column of the FROM clause, or one item of the select list, has the name. -/
def findsPlain (sc : Scope) (name : String) : Bool :=
  sc.own.columns.count name == 1 || sc.items.count name == 1

/-- A column finds what it names. -/
def findsColumn (n : Node) (sc : Scope) : Bool :=
  if (n.child? "table").isSome then findsQualified sc.visible n.table n.name
  else findsPlain sc n.name

/-- The scope of an argument of a SELECT: its FROM clause sees nothing of itself. -/
def selectScope (F : Frame) (items : Option (List Node)) (sc : Scope) (key : String) : Scope :=
  if key = "from" then { outer := sc.visible }
  else
    { own := F, outer := sc.visible
      items := if key = "order" then (items.getD []).map outputName else [] }

/-- The scope of an argument of a join: its condition sees the items that it joins. -/
def joinScope (F : Frame) (sc : Scope) (key : String) : Scope :=
  if key = "on" then { own := F, outer := sc.outer } else sc

/-- The scope of an argument of a node. -/
def innerScope (schema : Schema) (n : Node) (sc : Scope) (key : String) : Scope :=
  match n.kind with
  | .select => selectScope (n.frame schema) n.selectList? sc key
  | .join => joinScope (n.frame schema) sc key
  | _ => sc

/-- Every column in a node finds what it names, from the same of its children. -/
def resolvesStep (schema : Schema) (kind : Kind) (args : Args)
    (parts : OrderedMap (List (Scope → Bool))) (sc : Scope) : Bool :=
  let n := Node.mk kind args
  (kind != .column || n.findsColumn sc)
    && parts.all fun p => p.2.all fun child => child (n.innerScope schema sc p.1)

/-- **`resolves`** — every column in a node finds what it names. -/
def resolves (schema : Schema) (n : Node) : Scope → Bool := n.fold (resolvesStep schema)

/-! ## Equations -/

variable {schema : Schema}

theorem outline_mk (kind : Kind) (args : Args) :
    (mk kind args).outline schema
      = outlineStep schema kind args (childValues (outlineStep schema) args) := by
  rw [outline, fold_mk]

/-- The outline under a name among those of the children. -/
def innerOutline (parts : OrderedMap (List Outline)) (key : String) : Outline :=
  (((parts.get? key).getD []).head?).getD {}

/-- The outline of the node under a name. -/
theorem innerOutline_eq {kind : Kind} {args : Args} {key : String} {c : Node}
    (h : (mk kind args).child? key = some c) :
    innerOutline (childValues (outlineStep schema) args) key = c.outline schema := by
  have harg : args.get? key = some (.node c) := (child?_eq_some_iff _ _ _).mp h
  simp [innerOutline, get?_childValues, harg, Arg.children, outline]

/-- The frame of a SELECT is that of what it reads from. -/
theorem frame_select {n i : Node} (hn : n.kind = .select)
    (hfrom : n.child? "from" = some (wrap .from i)) :
    n.frame schema = i.frame schema := by
  obtain ⟨k, args⟩ := n
  obtain rfl : k = .select := hn
  have hitem : (wrap .from i).frame schema = i.frame schema := by
    have hthis : (wrap .from i).child? "this" = some i := by simp [wrap, child?]
    unfold frame
    rw [show wrap .from i = mk .from [("this", .node i)] from rfl, outline_mk]
    show (innerOutline _ "this").frame = _
    rw [innerOutline_eq hthis]
  rw [← hitem]
  unfold frame
  rw [outline_mk]
  show (innerOutline _ "from").frame = _
  rw [innerOutline_eq hfrom]

/-- Only the FROM clause of a SELECT decides about its frame. -/
theorem frame_set {n : Node} (hn : n.kind = .select) {key : String} (hkey : key ≠ "from") (a : Arg) :
    (n.set key (some a)).frame schema = n.frame schema := by
  obtain ⟨k, args⟩ := n
  obtain rfl : k = .select := hn
  unfold frame
  rw [set, kind_mk, args_mk, outline_mk, outline_mk]
  show (innerOutline _ "from").frame = (innerOutline _ "from").frame
  simp only [innerOutline, get?_childValues, OrderedMap.get?_put_of_ne _ _ hkey]

/-- The columns of a SELECT are those of its list, or of what it reads from. -/
theorem columns_select {n : Node} (hn : n.kind = .select) :
    n.columns schema = selectColumns n.selectList? (n.frame schema) := by
  obtain ⟨k, args⟩ := n
  obtain rfl : k = .select := hn
  unfold columns frame
  rw [outline_mk]
  rfl

/-- `SELECT * FROM item` has the columns of the item. -/
theorem columns_selectFrom (item : Node) :
    (selectFrom item).columns schema = (item.frame schema).columns := by
  have hlist : (selectFrom item).selectList? = none := by simp [selectFrom, selectList?, list?]
  have hfrom : (selectFrom item).child? "from" = some (wrap .from item) := by
    simp [selectFrom, child?]
  rw [columns_select rfl, frame_select rfl hfrom, hlist]
  rfl

/-- A set operation has the columns of its left branch. -/
theorem columns_setOperation {n left : Node} (hn : n.kind ∈ [Kind.union, .intersect, .except])
    (hleft : n.child? "this" = some left) : n.columns schema = left.columns schema := by
  obtain ⟨k, args⟩ := n
  unfold columns
  rw [outline_mk]
  simp only [List.mem_cons, List.not_mem_nil, or_false, kind_mk] at hn
  rcases hn with rfl | rfl | rfl <;>
    (show (innerOutline _ "this").columns = _; rw [innerOutline_eq hleft])

/-- A query in parentheses exposes the columns of the query. -/
theorem frame_subquery {n q : Node} (hn : n.kind = .subquery) (hquery : n.child? "this" = some q) :
    n.frame schema = [(n.outputName, q.columns schema)] := by
  obtain ⟨k, args⟩ := n
  obtain rfl : k = .subquery := hn
  unfold frame columns
  rw [outline_mk]
  show [(_, (innerOutline _ "this").columns)] = _
  rw [innerOutline_eq hquery]

theorem frame_table {n : Node} (hn : n.kind = .table) :
    n.frame schema = [(n.outputName, schema n.parts)] := by
  obtain ⟨k, args⟩ := n
  obtain rfl : k = .table := hn
  rw [frame, outline_mk]
  rfl

theorem frame_values {n : Node} (hn : n.kind = .values) :
    n.frame schema = [(n.outputName, n.aliasColumns)] := by
  obtain ⟨k, args⟩ := n
  obtain rfl : k = .values := hn
  rw [frame, outline_mk]
  rfl

/-- The frame of a join has the items of both sides. -/
theorem frame_join {n l r : Node} (hn : n.kind = .join)
    (hleft : n.child? "this" = some l) (hright : n.child? "expression" = some r) :
    n.frame schema = l.frame schema ++ r.frame schema := by
  obtain ⟨k, args⟩ := n
  obtain rfl : k = .join := hn
  unfold frame
  rw [outline_mk]
  show (innerOutline _ "this").frame ++ (innerOutline _ "expression").frame = _
  rw [innerOutline_eq hleft, innerOutline_eq hright]

/-- **A node resolves** when it finds what it names, if it is a column, and its children resolve in
their scopes. -/
theorem resolves_iff (n : Node) (sc : Scope) :
    n.resolves schema sc = true ↔
      (n.kind = .column → n.findsColumn sc = true)
        ∧ ∀ p ∈ n.args, ∀ c ∈ p.2.children, c.resolves schema (n.innerScope schema sc p.1) = true := by
  obtain ⟨kind, args⟩ := n
  rw [resolves, fold_mk]
  simp only [resolvesStep, Bool.and_eq_true, Bool.or_eq_true, bne_iff_ne, List.all_eq_true,
    childValues, List.forall_mem_map, kind_mk, args_mk, resolves]
  constructor
  · rintro ⟨hcolumn, hchildren⟩
    exact ⟨fun hk => hcolumn.resolve_left (fun hne => hne hk), hchildren⟩
  · rintro ⟨hcolumn, hchildren⟩
    refine ⟨?_, hchildren⟩
    by_cases hk : kind = .column
    · exact .inr (hcolumn hk)
    · exact .inl hk

end Node
end AlgebraSql.Sql
