import AlgebraSql.Error
import AlgebraSql.Sql.Node

/-!
# Building nodes — one function for each shape that a conversion writes.
-/

namespace AlgebraSql.Sql

namespace Node

/-- An argument that may be missing. -/
def optional (key : String) (n : Option Node) : List (String × Arg) :=
  match n with
  | some n => [(key, .node n)]
  | none => []

/-- An argument whose place is kept if it is missing. -/
def kept (key : String) (n : Option Node) : String × Arg := (key, (n.map .node).getD .missing)

/-- A node around another one. -/
def wrap (kind : Kind) (inner : Node) : Node := .mk kind [("this", .node inner)]

/-! ## Names and constants -/

/-- A name, quoted only where it has to be. -/
def identifier (name : String) (quoted : Bool := false) : Node :=
  .mk .identifier [("this", .text name), ("quoted", .flag quoted)]

/-- A column, with the name of the table it belongs to if there is one. -/
def column (name : String) (table : Option String := none) : Node :=
  .mk .column [("this", .node (identifier name)), kept "table" (table.map identifier)]

/-- `inner AS name` -/
def aliased (inner : Node) (name : String) : Node :=
  .mk .aliased [("this", .node inner), ("alias", .node (identifier name))]

/-- `inner.field` -/
def dot (inner : Node) (field : String) : Node :=
  .mk .dot [("this", .node inner), ("expression", .node (identifier field))]

def star : Node := .mk .star []

def null : Node := .mk .null []

def string (s : String) : Node := .mk .literal [("this", .text s), ("is_string", .flag true)]

/-- A number by its digits. -/
def number (digits : String) : Node :=
  .mk .literal [("this", .text digits), ("is_string", .flag false)]

def boolean (b : Bool) : Node := .mk .boolean [("this", .flag b)]

/-- A word that is written as it is. -/
def word (s : String) : Node := .mk .word [("this", .text s)]

/-- `WORD 'text'` -/
def typedLiteral (word text : String) : Node :=
  .mk .typedLiteral [("this", .node (string text)), ("kind", .text word)]

/-- A data type by its name and parameters. -/
def dataType (name : String) (params : List String := []) : Node :=
  .mk .dataType [("this", .text (Text.upper name)), ("expressions", .nodes (params.map number))]

/-! ## Operations -/

/-- An operation on two operands. -/
def binary (kind : Kind) (left right : Node) : Node :=
  .mk kind [("this", .node left), ("expression", .node right)]

/-- Joins conditions from left to right, `unit` for none of them. -/
def connect (kind : Kind) (unit : Node) : List Node → Node
  | [] => unit
  | n :: ns => ns.foldl (binary kind) n

/-- A conjunction, `TRUE` for no conditions. -/
def and (conditions : List Node) : Node := connect .and (boolean true) conditions

/-- A disjunction, `FALSE` for no conditions. -/
def or (conditions : List Node) : Node := connect .or (boolean false) conditions

def not (n : Node) : Node := wrap .not n

def neg (n : Node) : Node := wrap .neg n

/-- `left IS [NOT] right` -/
def isTest (left right : Node) (negated : Bool) : Node :=
  .mk .is [("this", .node left), ("expression", .node right), ("negated", .flag negated)]

/-- `n IS NULL` -/
def isNull (n : Node) : Node := .mk .is [("this", .node n), ("expression", .node null)]

/-- `1 = 0` -/
def alwaysFalse : Node := binary .eq (number "1") (number "0")

/-- `left [NOT] IN (items)` -/
def inList (left : Node) (items : List Node) (negated : Bool := false) : Node :=
  .mk .in [("this", .node left), ("expressions", .nodes items), ("negated", .flag negated)]

/-- `left [NOT] IN (query)` -/
def inQuery (left query : Node) (negated : Bool) : Node :=
  .mk .in [("this", .node left), ("query", .node query), ("negated", .flag negated)]

/-- `NAME(args)` -/
def call (name : String) (args : List Node) : Node :=
  .mk .call [("this", .text name), ("expressions", .nodes args)]

/-- `NAME([DISTINCT] args)` for an aggregate function. -/
def aggregate (name : String) (args : List Node) (distinct : Bool := false) : Node :=
  .mk .aggregate [("this", .text name), ("expressions", .nodes args), ("distinct", .flag distinct)]

def tuple (items : List Node) : Node := .mk .tuple [("expressions", .nodes items)]

/-- `WHEN condition THEN value` -/
def branch (condition value : Node) : Node :=
  .mk .branch [("this", .node condition), ("true", .node value)]

/-- `ORDER BY items` -/
def order (items : List Node) : Node := .mk .order [("expressions", .nodes items)]

/-! ## Tables and queries -/

/-- A table by its path; all but the last two parts form one qualifier. -/
def table? (path : List String) : Except Error Node :=
  match path.reverse with
  | [] => .error .emptyTableName
  | [name] => .ok (tableIn name none none)
  | [name, db] => .ok (tableIn name (some db) none)
  | name :: db :: outer => .ok (tableIn name (some db) (some (".".intercalate outer.reverse)))
where
  /-- A part of a path as it stands in a table node. -/
  identifier (name : String) : Node := .mk .identifier [("this", .text name)]
  /-- A table, with the database and the catalog it lies in as far as they are named. -/
  tableIn (name : String) (db catalog : Option String) : Node :=
    .mk .table [("this", .node (identifier name)), kept "db" (db.map identifier),
      kept "catalog" (catalog.map identifier)]

/-- The alias of an item, with names for its columns if there are any. -/
def tableAlias (name : String) (columns : List String := []) : Node :=
  .mk .tableAlias [("this", .node (identifier name)),
    ("columns", if columns.isEmpty then .missing else .nodes (columns.map identifier))]

/-- A query in parentheses. -/
def subquery (query : Node) : Node := wrap .subquery query

/-- `SELECT * FROM item` -/
def selectFrom (item : Node) : Node := .mk .select [("from", .node (wrap .from item))]

/-- `SELECT * FROM item WHERE condition` -/
def selectWhere (item condition : Node) : Node :=
  .mk .select [("from", .node (wrap .from item)), ("where", .node (wrap .where condition))]

/-- `SELECT items` without a table. -/
def selectItems (items : List Node) : Node := .mk .select [("expressions", .nodes items)]

/-- `left UNION [ALL] right` and its relatives. -/
def setOperation (kind : Kind) (left right : Node) (distinct : Bool) : Node :=
  .mk kind [("this", .node left), ("expression", .node right), ("distinct", .flag distinct)]

end Node

end AlgebraSql.Sql
