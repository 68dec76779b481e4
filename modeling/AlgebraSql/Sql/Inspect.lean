import AlgebraSql.Sql.Node
import AlgebraSql.Text.Json

/-!
# Inspection — a node written out with all its arguments.

The text names the kind and lists the arguments as a JSON object, in the order in which they stand
in the node.  A node inside an argument is an object with the single member `args`; a missing
argument is left out.
-/

namespace AlgebraSql.Sql.Node

/-- A quantity in JSON, which has no word for what is not a finite number. -/
def quantityJson : Quantity → String
  | .finite d => d.toText
  | .infinite _ | .undefined => "null"

mutual

/-- A node as a JSON object. -/
def json : Node → String
  | .mk _ args => Text.jsonObject [("args", Text.jsonObject (jsonOfArgs args))]

/-- Arguments with their values in JSON. -/
def jsonOfArgs : List (String × Arg) → List (String × String)
  | [] => []
  | (key, .node n) :: rest => (key, json n) :: jsonOfArgs rest
  | (key, .nodes ns) :: rest => (key, Text.jsonArray (jsonOfList ns)) :: jsonOfArgs rest
  | (key, .text s) :: rest => (key, Text.jsonString s) :: jsonOfArgs rest
  | (key, .number q) :: rest => (key, quantityJson q) :: jsonOfArgs rest
  | (key, .flag b) :: rest => (key, if b then "true" else "false") :: jsonOfArgs rest
  | (_, .missing) :: rest => jsonOfArgs rest

/-- A list of nodes in JSON. -/
def jsonOfList : List Node → List String
  | [] => []
  | n :: ns => json n :: jsonOfList ns

end

/-- The kind of a node with its arguments. -/
def inspect (n : Node) : String :=
  n.kind.name ++ "(" ++ Text.jsonObject (jsonOfArgs n.args) ++ ")"

end AlgebraSql.Sql.Node
