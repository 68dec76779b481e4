import AlgebraSql.Render.Precedence
import AlgebraSql.Render.Quoting
import AlgebraSql.Sql.Inspect

/-!
# Rendering — the text of a statement.

Each kind of node has a rule that puts the texts of its parts together.  A rule sees the node and,
for each part, a `Piece`: the part's own text and the texts of the part's arguments.  The texts are
still to be computed, so a rule decides which of them are computed and in which order, and the
notices come in that order.  A kind without a rule is written as a function of its `expressions`.
-/

namespace AlgebraSql.Render

open AlgebraSql.Sql

/-! ## Pieces -/

/-- A part of a node, ready to be written. -/
structure Piece where
  node : Node
  /-- The text of the part. -/
  text : RenderM String
  /-- The text of an argument of the part. -/
  part : String → RenderM String

/-- The nodes of an argument as pieces. -/
inductive View where
  | one (p : Piece)
  | many (ps : List Piece)

/-- The pieces of a node under the names of its arguments. -/
abbrev Views := OrderedMap View

namespace Views

/-- The single piece under a name. -/
def one? (views : Views) (key : String) : Option Piece :=
  match views.get? key with
  | some (.one p) => some p
  | _ => none

/-- The pieces under a name, none if there is no list. -/
def many (views : Views) (key : String) : List Piece :=
  match views.get? key with
  | some (.many ps) => ps
  | _ => []

end Views

/-- A node with its pieces, to which a rule is applied. -/
structure Target where
  setting : Setting
  node : Node
  views : Views

/-- Texts of pieces with a separator between them. -/
def joined (pieces : List Piece) (separator : String := ", ") : RenderM String := do
  return separator.intercalate (← pieces.mapM (·.text))

/-- The text of a piece that may be missing. -/
def textOf (piece : Option Piece) : RenderM String :=
  match piece with
  | some p => p.text
  | none => pure ""

/-- `text`, preceded by `before`, if there is any text. -/
def preceded (before text : String) : String :=
  if text == "" then "" else before ++ text

/-- The texts that are not empty, with blanks between them. -/
def spaced (texts : List String) : String :=
  " ".intercalate (texts.filter (· != ""))

namespace Target

/-- The text of an argument: that of a node, or a text itself. -/
def part (t : Target) (key : String) : RenderM String :=
  match t.views.one? key with
  | some p => p.text
  | none => pure (((t.node.arg? key).map (·.textOnly)).getD "")

/-- The pieces under a name. -/
def many (t : Target) (key : String) : List Piece := t.views.many key

/-- The texts of the expressions with commas between them. -/
def list (t : Target) : RenderM String := joined (t.many "expressions")

/-- An operand, in parentheses if it binds weaker than `minimum`. -/
def operand (t : Target) (key : String) (minimum : Strength) : RenderM String := do
  let text ← textOf (t.views.one? key)
  return parenthesized ((Strength.ofNode (t.node.child? key)).below minimum) text

/-- An alias behind an item, if the node has one. -/
def aliasSuffix (t : Target) : RenderM String := do
  return preceded " AS " (← t.part "alias")

/-! ## Names and constants -/

/-- `table.name` -/
def columnText (t : Target) : RenderM String := do
  let table ← t.part "table"
  let name ← t.part "this"
  return if table == "" then name else table ++ "." ++ name

/-- `catalog.db.name AS alias` -/
def tableText (t : Target) : RenderM String := do
  let parts ← ["catalog", "db", "this"].mapM t.part
  return ".".intercalate (parts.filter (· != "")) ++ (← t.aliasSuffix)

/-- `name (column, …)` -/
def tableAliasText (t : Target) : RenderM String := do
  let name ← t.part "this"
  let columns := t.many "columns"
  if columns.isEmpty then return name
  return name ++ " (" ++ (← joined columns) ++ ")"

/-- A constant: a text in quotes or digits as they are. -/
def literalText (t : Target) : String :=
  let value := t.node.text "this"
  if t.node.isString then t.setting.style.quoteText value else value

/-- A quoted number of units that may lose its quotes. -/
def plainQuantity? (t : Target) : Option String :=
  match t.node.child? "this" with
  | some q =>
    let digits := q.text "this"
    if t.setting.style.plainIntervals && q.is .literal && q.isString && digits != ""
        && digits.toList.all Char.isDigit then some digits
    else none
  | none => none

/-- `INTERVAL quantity unit` -/
def intervalText (t : Target) : RenderM String := do
  let quantity ← match t.plainQuantity? with
    | some digits => pure digits
    | none => t.part "this"
  let sign := if t.node.flag "negative" then "-" else ""
  return "INTERVAL " ++ sign ++ quantity ++ " " ++ (← t.part "unit")

/-- A type by the dialect's name, with its parameters. -/
def dataTypeText (t : Target) : RenderM String := do
  let name := t.node.name
  let written := (t.setting.style.typeNames.get? name).getD name
  if (t.many "expressions").isEmpty then return written
  return written ++ "(" ++ (← t.list) ++ ")"

/-! ## Operations -/

/-- `left op right` -/
def binaryText (t : Target) (op : String) : RenderM String := do
  let left ← textOf (t.views.one? "this")
  let right ← textOf (t.views.one? "expression")
  return parenthesized (wrapsLeft t.node.kind (t.node.child? "this")) left ++ " " ++ op ++ " "
    ++ parenthesized (wrapsRight t.node.kind (t.node.child? "expression")) right

/-- `NOT ` before an operator that is denied. -/
def denied (t : Target) (op : String) : String :=
  if t.node.flag "negated" then "NOT " ++ op else op

/-- `left [NOT] op right ESCAPE escape` -/
def likeText (t : Target) (op : String) : RenderM String := do
  let text ← t.binaryText (t.denied op)
  return text ++ preceded " ESCAPE " (← t.part "escape")

/-- `left IS [NOT] right` -/
def isText (t : Target) : RenderM String := do
  let left ← t.operand "this" .concat
  let op := if t.node.flag "negated" then "IS NOT" else "IS"
  return left ++ " " ++ op ++ " " ++ (← textOf (t.views.one? "expression"))

/-- `left [NOT] IN (…)` -/
def inText (t : Target) : RenderM String := do
  let left ← t.operand "this" .concat
  let values ← match t.views.one? "query" with
    | some query => query.text
    | none => do pure ("(" ++ (← t.list) ++ ")")
  return left ++ " " ++ t.denied "IN" ++ " " ++ values

/-- `WHEN condition THEN value` for a branch. -/
def branchText (branch : Piece) : RenderM String := do
  let condition ← branch.part "this"
  return "WHEN " ++ condition ++ " THEN " ++ (← branch.part "true")

/-- `CASE subject WHEN … THEN … ELSE … END` -/
def caseText (t : Target) : RenderM String := do
  let subject ← (t.views.one? "this").mapM (·.text)
  let branches ← ((t.many "ifs").filter (·.node.is .branch)).mapM branchText
  let fallback ← (t.views.one? "default").mapM (·.text)
  return " ".intercalate
    (["CASE"] ++ subject.toList ++ branches ++ (fallback.map ("ELSE " ++ ·)).toList ++ ["END"])

/-- `CAST(value AS type)` -/
def castText (t : Target) : RenderM String := do
  let value ← t.part "this"
  return "CAST(" ++ value ++ " AS " ++ (← t.part "to") ++ ")"

/-- `NAME([DISTINCT] args)` -/
def callText (t : Target) (name : String) (distinct : Bool) : RenderM String := do
  return name ++ "(" ++ (if distinct then "DISTINCT " else "") ++ (← t.list) ++ ")"

/-- `KEY(args)` for a kind without a rule, with a notice. -/
def fallbackText (t : Target) : RenderM String := do
  notify (.noRule t.node.kind.key)
  t.callText t.node.kind.key.toUpper false

/-! ## Windows -/

/-- `PARTITION BY …`, empty without keys. -/
def partitionText (t : Target) : RenderM String := do
  let keys := t.many "partition_by"
  if keys.isEmpty then return ""
  return "PARTITION BY " ++ (← joined keys)

/-- `call OVER (…)` -/
def windowText (t : Target) : RenderM String := do
  let call ← t.part "this"
  let partition ← t.partitionText
  let order ← (t.views.one? "order").mapM (·.text)
  let spec ← (t.views.one? "spec").mapM (·.text)
  let keys := if (t.many "partition_by").isEmpty then [] else [partition]
  return call ++ " OVER (" ++ " ".intercalate (keys ++ order.toList ++ spec.toList) ++ ")"

/-- One end of a frame. -/
def boundText (t : Target) (key side : String) : RenderM String := do
  let sideText := ((t.node.arg? side).map (·.textOnly)).getD ""
  match t.node.arg? key with
  | some (.text "CURRENT ROW") => return "CURRENT ROW"
  | some (.text "UNBOUNDED") => return "UNBOUNDED " ++ sideText
  | some (.node _) => return (← textOf (t.views.one? key)) ++ " " ++ sideText
  | _ => return ""

/-- `ROWS BETWEEN … AND …` -/
def frameText (t : Target) : RenderM String := do
  let kind ← t.part "kind"
  let kind := if kind == "" then "ROWS" else kind
  let start ← t.boundText "start" "start_side"
  if (t.node.arg? "end").isNone then return kind ++ " " ++ start
  return kind ++ " BETWEEN " ++ start ++ " AND " ++ (← t.boundText "end" "end_side")

/-- `call WORD (clause)` -/
def suffixedText (t : Target) (word : String) : RenderM String := do
  let call ← t.part "this"
  return call ++ " " ++ word ++ " (" ++ (← t.part "expression") ++ ")"

/-! ## Clauses -/

/-- `WORD argument` -/
def clauseText (t : Target) (word : String) : RenderM String := do
  return word ++ " " ++ (← t.part "this")

/-- `GROUP BY …`, or the empty grouping. -/
def groupText (t : Target) : RenderM String := do
  if (t.many "expressions").isEmpty then return "GROUP BY ()"
  return "GROUP BY " ++ (← t.list)

/-- A sort key.  A style that cannot place rows without a value complains and leaves the placement
out. -/
def orderedText (t : Target) : RenderM String := do
  let key ← t.part "this"
  let key := if t.node.flag "desc" then key ++ " DESC" else key
  match (t.node.arg? "nulls_first").bind (·.flag?) with
  | none => return key
  | some first =>
    let placement := if first then "NULLS FIRST" else "NULLS LAST"
    if t.setting.style.nullOrdering then return key ++ " " ++ placement
    t.setting.unsupported ("'" ++ placement ++ "' is not supported")
    return key

/-- The clauses that limit the rows of a query, in the order of the style. -/
def limitTexts (t : Target) : RenderM (List String) := do
  let limit ← ((t.views.one? "limit").map (·.part "this")).getD (pure "")
  let offset ← ((t.views.one? "offset").map (·.part "this")).getD (pure "")
  match t.setting.style.limitForm with
  | .limit => return [preceded "LIMIT " limit, preceded "OFFSET " offset]
  | .fetch =>
    return [if offset == "" then "" else "OFFSET " ++ offset ++ " ROWS",
      if limit == "" then "" else "FETCH NEXT " ++ limit ++ " ROWS ONLY"]

/-! ## FROM items -/

/-- `left KIND JOIN right ON condition`; a join on the right is put in parentheses. -/
def joinText (t : Target) : RenderM String := do
  let left ← t.part "this"
  let right ← textOf (t.views.one? "expression")
  let right := parenthesized ((t.node.child? "expression").any (·.is .join)) right
  let kind := t.node.text "kind"
  if kind == "COMMA" then return left ++ ", " ++ right
  return left ++ " " ++ kind ++ " JOIN " ++ right ++ preceded " ON " (← t.part "on")

/-- `before(…) AS alias` -/
def enclosedText (t : Target) (before : String) : RenderM String := do
  let inner ← t.part "this"
  return before ++ "(" ++ inner ++ ")" ++ (← t.aliasSuffix)

/-- `VALUES rows`, in parentheses before an alias. -/
def valuesText (t : Target) : RenderM String := do
  let rows := "VALUES " ++ (← t.list)
  let aliasName ← t.part "alias"
  return if aliasName == "" then rows else "(" ++ rows ++ ") AS " ++ aliasName

/-- `alias word this` for an item that is named before it is described. -/
def namedFirst (word : String) (item : Piece) : RenderM String := do
  let name ← item.part "alias"
  return name ++ word ++ (← item.part "this")

/-! ## Row patterns -/

/-- Patterns one after the other; alternatives are put in parentheses. -/
def patternConcatText (t : Target) : RenderM String := do
  let texts ← (t.many "expressions").mapM fun p => do
    return parenthesized (p.node.is .patternAlternation) (← p.text)
  return " ".intercalate texts

/-- A repetition count as it is written. -/
def countText : Option Arg → String
  | some (.number q) => q.toText
  | some (.text s) => s
  | some (.flag b) => if b then "true" else "false"
  | some (.node n) => n.inspect
  | some (.nodes ns) => ",".intercalate (ns.map Node.inspect)
  | some .missing | none => "undefined"

/-- Two repetition counts are the same. -/
def sameCount : Option Arg → Option Arg → Bool
  | some (.number a), some (.number b) => a.sameValue b
  | some (.text a), some (.text b) => a == b
  | some (.flag a), some (.flag b) => a == b
  | none, none => true
  | _, _ => false

/-- A repetition count is the given number. -/
def isCount (n : Int) : Option Arg → Bool
  | some (.number q) => q.isInt n
  | _ => false

/-- The sign for a repetition between two counts. -/
def quantifierText (min max : Option Arg) : String :=
  if isCount 0 min && isCount (-1) max then "*"
  else if isCount 1 min && isCount (-1) max then "+"
  else if isCount 0 min && isCount 1 max then "?"
  else if isCount (-1) max then "\x7b" ++ countText min ++ ",\x7d"
  else if sameCount min max then "\x7b" ++ countText min ++ "\x7d"
  else "\x7b" ++ countText min ++ "," ++ countText max ++ "\x7d"

/-- A repeated pattern; one of several parts is put in parentheses. -/
def patternQuantifierText (t : Target) : RenderM String := do
  let operand := t.node.child? "this"
  let text ← textOf (t.views.one? "this")
  let several := operand.any fun n => n.is .patternConcat || n.is .patternAlternation
  let term := parenthesized several text
  return term ++ quantifierText (t.node.arg? "min") (t.node.arg? "max")
    ++ (if t.node.flag "reluctant" then "?" else "")

/-- `input MATCH_RECOGNIZE (…)` -/
def matchText (t : Target) : RenderM String := do
  let partition ← t.partitionText
  let order ← (t.views.one? "order").mapM (·.text)
  let measures ← joined (t.many "measures")
  let rows ← t.part "rows"
  let after ← t.part "after"
  let symbol ← if after == "" then pure "" else t.part "after_variable"
  let pattern ← t.part "pattern"
  let within ← t.part "within"
  let subsets ← (t.many "subsets").mapM (namedFirst " = ")
  let define ← (t.many "define").mapM (namedFirst " AS ")
  let start := if t.node.flag "strict_start" then "^" else ""
  let stop := if t.node.flag "strict_end" then "$" else ""
  let clauses :=
    (if (t.many "partition_by").isEmpty then [] else [partition])
      ++ order.toList
      ++ (if (t.many "measures").isEmpty then [] else ["MEASURES " ++ measures])
      ++ (if rows == "" then [] else [rows])
      ++ (if after == "" then [] else ["AFTER MATCH " ++ after ++ preceded " " symbol])
      ++ ["PATTERN (" ++ start ++ pattern ++ stop ++ ")"]
      ++ (if within == "" then [] else ["WITHIN " ++ within])
      ++ (if (t.many "subsets").isEmpty then [] else ["SUBSET " ++ ", ".intercalate subsets])
      ++ ["DEFINE " ++ ", ".intercalate define]
  let input ← t.part "this"
  return input ++ " MATCH_RECOGNIZE (" ++ " ".intercalate clauses ++ ")" ++ (← t.aliasSuffix)

/-! ## Queries -/

/-- `SELECT … FROM … WHERE …` -/
def selectText (t : Target) : RenderM String := do
  let distinct := if t.node.flag "distinct" then " DISTINCT" else ""
  let items ← if (t.many "expressions").isEmpty then pure "*" else t.list
  let clauses ← ["from", "where", "group", "having", "qualify", "order"].mapM t.part
  return spaced (["SELECT" ++ distinct ++ " " ++ items] ++ clauses ++ (← t.limitTexts))

/-- A query that sorts or limits its rows. -/
def isModified (n : Node) : Bool :=
  n.is .select
    && ((n.child? "order").isSome || (n.child? "limit").isSome || (n.child? "offset").isSome)

/-- A branch of a set operation needs parentheses: it sorts or limits its rows, or is a set
operation that would be read in another grouping without them. -/
def wrapsBranch (parent : Kind) (branch : Option Node) (isRight : Bool) : Bool :=
  match branch with
  | some n => (n.isSetOperation && (isRight || n.kind != parent)) || isModified n
  | none => false

/-- `left OP [ALL] right` -/
def setOperationText (t : Target) (op : String) : RenderM String := do
  let left ← textOf (t.views.one? "this")
  let right ← textOf (t.views.one? "expression")
  let all := if (t.node.arg? "distinct").bind (·.flag?) == some false then " ALL" else ""
  return parenthesized (wrapsBranch t.node.kind (t.node.child? "this") false) left
    ++ " " ++ op ++ all ++ " "
    ++ parenthesized (wrapsBranch t.node.kind (t.node.child? "expression") true) right

/-! ## All kinds -/

/-- The text of a node by the rule of its kind. -/
def render (t : Target) : RenderM String :=
  match t.node.kind with
  | .identifier => pure (t.setting.nameText t.node.name (t.node.flag "quoted"))
  | .star => pure "*"
  | .column => t.columnText
  | .dot => do
    let row ← t.operand "this" .atom
    return row ++ "." ++ (← t.part "expression")
  | .bracket => do
    let collection ← t.operand "this" .atom
    return collection ++ "[" ++ (← t.list) ++ "]"
  | .tableAlias => t.tableAliasText
  | .table => t.tableText
  | .aliased => do
    let inner ← t.part "this"
    return inner ++ " AS " ++ (← t.part "alias")
  | .literal => pure t.literalText
  | .boolean => pure (if t.node.flag "this" then "TRUE" else "FALSE")
  | .null => pure "NULL"
  | .word => pure t.node.name
  | .typedLiteral => do return t.node.text "kind" ++ " " ++ (← t.part "this")
  | .interval => t.intervalText
  | .hexString => pure ("X'" ++ t.node.name ++ "'")
  | .placeholder => pure "?"
  | .dataType => t.dataTypeText
  | .binary => t.binaryText "undefined"
  | .eq => t.binaryText "="
  | .neq => t.binaryText "<>"
  | .gt => t.binaryText ">"
  | .gte => t.binaryText ">="
  | .lt => t.binaryText "<"
  | .lte => t.binaryText "<="
  | .and => t.binaryText "AND"
  | .or => t.binaryText "OR"
  | .add => t.binaryText "+"
  | .sub => t.binaryText "-"
  | .mul => t.binaryText "*"
  | .div => t.binaryText "/"
  | .mod => t.binaryText "%"
  | .concat => t.binaryText "||"
  | .like => t.likeText "LIKE"
  | .similarTo => t.likeText "SIMILAR TO"
  | .isDistinctFrom =>
    t.binaryText (if t.node.flag "negated" then "IS NOT DISTINCT FROM" else "IS DISTINCT FROM")
  | .is => t.isText
  | .not => do return "NOT " ++ (← t.operand "this" .concat)
  | .neg => do return "-" ++ (← t.operand "this" .atom)
  | .in => t.inText
  | .exists => do return "EXISTS (" ++ (← t.part "this") ++ ")"
  | .tuple => do return "(" ++ (← t.list) ++ ")"
  | .case => t.caseText
  | .cast => t.castText
  | .call => t.callText t.node.name (t.node.flag "distinct")
  | .aggregate => t.callText t.node.name (t.node.flag "distinct")
  | .window => t.windowText
  | .windowSpec => t.frameText
  | .filter => t.suffixedText "FILTER"
  | .withinGroup => t.suffixedText "WITHIN GROUP"
  | .cursor => do return "CURSOR (" ++ (← t.part "this") ++ ")"
  | .from => t.clauseText "FROM"
  | .where => t.clauseText "WHERE"
  | .group => t.groupText
  | .groupingSets => do return "GROUPING SETS (" ++ (← t.list) ++ ")"
  | .rollup => do return "ROLLUP(" ++ (← t.list) ++ ")"
  | .cube => do return "CUBE(" ++ (← t.list) ++ ")"
  | .having => t.clauseText "HAVING"
  | .qualify => t.clauseText "QUALIFY"
  | .order => do return "ORDER BY " ++ (← t.list)
  | .ordered => t.orderedText
  | .join => t.joinText
  | .subquery => t.enclosedText ""
  | .tableFunction => t.enclosedText "TABLE"
  | .matchRecognize => t.matchText
  | .patternConcat => t.patternConcatText
  | .patternAlternation => joined (t.many "expressions") " | "
  | .patternQuantifier => t.patternQuantifierText
  | .select => t.selectText
  | .union => t.setOperationText "UNION"
  | .intersect => t.setOperationText "INTERSECT"
  | .except => t.setOperationText "EXCEPT"
  | .values => t.valuesText
  | .expression | .condition | .predicate | .function | .connector | .negatableBinary | .branch
  | .limit | .offset | .setOperation => t.fallbackText

end Target

/-! ## Trees -/

mutual

/-- A tree ready to be written. -/
def piece (s : Setting) : Node → Piece
  | .mk kind args =>
    let target : Target := ⟨s, .mk kind args, viewsOf s args⟩
    ⟨.mk kind args, target.render, target.part⟩

/-- The pieces of arguments. -/
def viewsOf (s : Setting) : List (String × Arg) → Views
  | [] => []
  | (key, .node n) :: rest => (key, .one (piece s n)) :: viewsOf s rest
  | (key, .nodes ns) :: rest => (key, .many (pieces s ns)) :: viewsOf s rest
  | (_, .text _) :: rest => viewsOf s rest
  | (_, .number _) :: rest => viewsOf s rest
  | (_, .flag _) :: rest => viewsOf s rest
  | (_, .missing) :: rest => viewsOf s rest

/-- The pieces of a list of nodes. -/
def pieces (s : Setting) : List Node → List Piece
  | [] => []
  | n :: ns => piece s n :: pieces s ns

end

/-- The text of a statement. -/
def render (s : Setting) (n : Node) : RenderM String := (piece s n).text

/-- The text of a statement, or why it has none, and the notices left behind. -/
def run (s : Setting) (n : Node) : Except Error String × List Notice :=
  (render s n).run.run []

end AlgebraSql.Render
