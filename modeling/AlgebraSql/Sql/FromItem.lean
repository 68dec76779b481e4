import AlgebraSql.Sql.Build

/-!
# FROM items — what a query can read from, and the names it is known by.
-/

namespace AlgebraSql.Sql.Node

/-- A node that may carry an alias of its own in a FROM clause. -/
def isFromItem (n : Node) : Bool :=
  match n.kind with
  | .table | .subquery | .tableFunction | .values | .matchRecognize => true
  | _ => false

/-- The name by which a surrounding query knows a node: its alias, the last part of a table's path,
or the name of a column. -/
def aliasOf? (n : Node) : Option String :=
  match n.kind with
  | .aliased => some n.aliasName
  | .table => if n.aliasName != "" then some n.aliasName else some n.name
  | .column => some n.name
  | _ => if n.isFromItem && n.aliasName != "" then some n.aliasName else none

/-- The column names that the alias of a FROM item declares. -/
def aliasColumns (n : Node) : List String :=
  match n.child? "alias" with
  | some a => if a.is .tableAlias then (a.list "columns").map name else []
  | none => []

/-- A node as a FROM item under a name.  An item is renamed and keeps the names of its columns; a
query is put into parentheses. -/
def asFromItem (n : Node) (aliasName : String) : Except Error Node :=
  if n.isFromItem then .ok (n.set "alias" (some (.node (tableAlias aliasName n.aliasColumns))))
  else if n.isQuery then
    .ok (.mk .subquery [("this", .node n), ("alias", .node (tableAlias aliasName))])
  else .error (.notFromItem n.kind.key)

end AlgebraSql.Sql.Node
