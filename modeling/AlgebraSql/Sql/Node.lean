import AlgebraSql.Numeric.Quantity
import AlgebraSql.OrderedMap
import AlgebraSql.Sql.Kind

/-!
# Nodes — the syntax tree of a statement.

A node has a kind and named arguments in the order in which they were given.  An argument is a node,
a list of nodes, a text, a number or a truth value; a missing one may have its place kept.  Trees
need not be well formed: an argument may be missing or of another sort than its kind expects, and
every question below has an answer then.
-/

namespace AlgebraSql.Sql

mutual

/-- A node of a statement. -/
inductive Node where
  | mk (kind : Kind) (args : List (String × Arg))

/-- An argument of a node. -/
inductive Arg where
  | node (child : Node)
  | nodes (children : List Node)
  | text (s : String)
  | number (q : Quantity)
  | flag (b : Bool)
  /-- No argument, in the place where one would stand. -/
  | missing

end

/-- The arguments of a node under their names. -/
abbrev Args := OrderedMap Arg

instance : Inhabited Node := ⟨.mk .null []⟩
instance : Inhabited Arg := ⟨.flag false⟩

/-! ## Equality -/

mutual

/-- Whether two nodes are the same. -/
def Node.same : Node → Node → Bool
  | .mk kind args, .mk kind' args' => kind == kind' && Node.sameArgs args args'

def Node.sameArgs : List (String × Arg) → List (String × Arg) → Bool
  | [], [] => true
  | (key, a) :: rest, (key', a') :: rest' => key == key' && Arg.same a a' && Node.sameArgs rest rest'
  | _, _ => false

def Arg.same : Arg → Arg → Bool
  | .node n, .node n' => n.same n'
  | .nodes ns, .nodes ns' => Node.sameList ns ns'
  | .text s, .text s' => s == s'
  | .number q, .number q' => q == q'
  | .flag b, .flag b' => b == b'
  | .missing, .missing => true
  | _, _ => false

def Node.sameList : List Node → List Node → Bool
  | [], [] => true
  | n :: ns, n' :: ns' => n.same n' && Node.sameList ns ns'
  | _, _ => false

end

mutual

theorem Node.same_iff : ∀ n n' : Node, n.same n' = true ↔ n = n'
  | .mk kind args, .mk kind' args' => by simp [Node.same, Node.sameArgs_iff args args']

theorem Node.sameArgs_iff : ∀ args args' : List (String × Arg), Node.sameArgs args args' = true ↔ args = args'
  | [], [] => by simp [Node.sameArgs]
  | [], _ :: _ => by simp [Node.sameArgs]
  | _ :: _, [] => by simp [Node.sameArgs]
  | (key, a) :: rest, (key', a') :: rest' => by
    simp [Node.sameArgs, Arg.same_iff a a', Node.sameArgs_iff rest rest', and_assoc]

theorem Arg.same_iff : ∀ a a' : Arg, a.same a' = true ↔ a = a'
  | .node n, a' => by cases a' <;> simp [Arg.same, Node.same_iff n]
  | .nodes ns, a' => by cases a' <;> simp [Arg.same, Node.sameList_iff ns]
  | .text s, a' => by cases a' <;> simp [Arg.same]
  | .number q, a' => by cases a' <;> simp [Arg.same]
  | .flag b, a' => by cases a' <;> simp [Arg.same]
  | .missing, a' => by cases a' <;> simp [Arg.same]

theorem Node.sameList_iff : ∀ ns ns' : List Node, Node.sameList ns ns' = true ↔ ns = ns'
  | [], [] => by simp [Node.sameList]
  | [], _ :: _ => by simp [Node.sameList]
  | _ :: _, [] => by simp [Node.sameList]
  | n :: ns, n' :: ns' => by simp [Node.sameList, Node.same_iff n n', Node.sameList_iff ns ns']

end

instance : DecidableEq Node := fun n n' => decidable_of_iff _ (Node.same_iff n n')

/-! ## Arguments -/

namespace Arg

/-- The node that an argument is. -/
def node? : Arg → Option Node
  | .node n => some n
  | _ => none

/-- The list of nodes that an argument is. -/
def nodes? : Arg → Option (List Node)
  | .nodes ns => some ns
  | _ => none

/-- The truth value that an argument is. -/
def flag? : Arg → Option Bool
  | .flag b => some b
  | _ => none

/-- The text that an argument is, empty for any other argument. -/
def textOnly : Arg → String
  | .text s => s
  | _ => ""

/-- There is an argument, and not only a place for one. -/
def isGiven : Arg → Bool
  | .missing => false
  | _ => true

/-- The nodes that stand directly in an argument. -/
def children : Arg → List Node
  | .node n => [n]
  | .nodes ns => ns
  | _ => []

end Arg

namespace Node

/-- The kind of a node. -/
def kind : Node → Kind
  | .mk k _ => k

/-- The arguments of a node. -/
def args : Node → Args
  | .mk _ a => a

@[simp] theorem kind_mk (k : Kind) (a : Args) : (Node.mk k a).kind = k := rfl

@[simp] theorem args_mk (k : Kind) (a : Args) : (Node.mk k a).args = a := rfl

/-- The kind of the node is `k` or lies below it. -/
def isA (n : Node) (k : Kind) : Bool := n.kind.isA k

/-- The node has exactly this kind. -/
def is (n : Node) (k : Kind) : Bool := n.kind == k

/-- The argument under a name. -/
def arg? (n : Node) (key : String) : Option Arg := (n.args.get? key).filter (·.isGiven)

/-- The single node under a name. -/
def child? (n : Node) (key : String) : Option Node := (n.arg? key).bind (·.node?)

/-- The list of nodes under a name, if there is a list. -/
def list? (n : Node) (key : String) : Option (List Node) := (n.arg? key).bind (·.nodes?)

/-- The list of nodes under a name, empty if there is none. -/
def list (n : Node) (key : String) : List Node := (n.list? key).getD []

/-- The argument under a name is the truth value `true`. -/
def flag (n : Node) (key : String) : Bool := (n.arg? key).bind (·.flag?) == some true

/-- The node with an argument put under a name, or without it.  An argument whose name has a place
takes that place, any other one the last. -/
def set (n : Node) (key : String) (value : Option Arg) : Node :=
  match value with
  | some a => .mk n.kind (n.args.put key a)
  | none => .mk n.kind (n.args.erase key)

/-- The nodes that stand directly in the arguments, in order. -/
def children (n : Node) : List Node := n.args.flatMap (·.2.children)

/-! ## Names -/

/-- The text that a node stands for inside another one. -/
def innerText (n : Node) : String :=
  match n.kind with
  | .star => ""
  | .null => "null"
  | _ => ((n.arg? "this").map (·.textOnly)).getD ""

/-- The text under a name: a text itself, or what the node there stands for. -/
def text (n : Node) (key : String) : String :=
  match n.arg? key with
  | some (.text s) => s
  | some (.node c) => c.innerText
  | _ => ""

mutual

/-- The name of a node: what it is called by, empty if nothing. -/
def name : Node → String
  | .mk kind args =>
    match kind with
    | .star => "*"
    | .dot => text (.mk kind args) "expression"
    | .aliased => nameUnder "alias" args
    | _ => text (.mk kind args) "this"

/-- The name of the first argument under a key. -/
def nameUnder (key : String) : List (String × Arg) → String
  | [] => ""
  | (k, .node c) :: rest => if k = key then name c else nameUnder key rest
  | (k, .text s) :: rest => if k = key then s else nameUnder key rest
  | (k, .nodes _) :: rest => if k = key then "" else nameUnder key rest
  | (k, .number _) :: rest => if k = key then "" else nameUnder key rest
  | (k, .flag _) :: rest => if k = key then "" else nameUnder key rest
  | (k, .missing) :: rest => if k = key then "" else nameUnder key rest

end

/-- The name that a node is given in its surroundings, empty if none. -/
def aliasName (n : Node) : String := nameUnder "alias" n.args

/-- A node stands under `alias`. -/
def hasAlias (n : Node) : Bool := (n.child? "alias").isSome

/-- The qualifier of a column, empty if it has none. -/
def table (n : Node) : String := n.text "table"

/-- A literal holds a text. -/
def isString (n : Node) : Bool := n.flag "is_string"

/-- The kind of the node and, if it has one, its name. -/
def label (n : Node) : String :=
  if n.name == "" then n.kind.key else n.kind.key ++ ":" ++ n.name

/-- The node is a query by itself. -/
def isQuery (n : Node) : Bool := n.kind.isQuery

/-- The node is a set operation. -/
def isSetOperation (n : Node) : Bool := n.kind.isSetOperation

/-! ## Parts of a query -/

/-- The select list, missing for `SELECT *`. -/
def selectList? (n : Node) : Option (List Node) := n.list? "expressions"

/-- The node under `this`. -/
def this? (n : Node) : Option Node := n.child? "this"

/-- What a query reads from. -/
def fromItem? (n : Node) : Option Node := (n.child? "from").bind (·.this?)

/-- The condition of a clause. -/
def condition? (n : Node) (key : String) : Option Node := (n.child? key).bind (·.this?)

/-- The grouping items of a query, missing if it does not group. -/
def groupBy? (n : Node) : Option (List Node) := (n.child? "group").map (·.list "expressions")

/-- The name parts of a table, outermost qualifier first. -/
def parts (n : Node) : List String :=
  (["catalog", "db", "this"].map n.text).filter (· != "")

end Node

end AlgebraSql.Sql
