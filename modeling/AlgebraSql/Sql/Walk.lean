import AlgebraSql.Sql.Node

/-!
# Walks — visiting the nodes of a statement in order.

A walk keeps the nodes that are still to be visited.  It takes the first of them and puts its
children in front of the others (depth first) or behind them (breadth first).  Children of a pruned
node are left out.  The scope of a node is what a walk reaches without entering a nested query;
`inScope` lists it by recursion on the tree.
-/

namespace AlgebraSql.Sql

namespace Node

/-! ## Size -/

mutual

/-- The number of nodes of a tree. -/
def size : Node → Nat
  | .mk _ args => sizeOfArgs args + 1

/-- The number of nodes in arguments. -/
def sizeOfArgs : List (String × Arg) → Nat
  | [] => 0
  | (_, .node n) :: rest => size n + sizeOfArgs rest
  | (_, .nodes ns) :: rest => sizeOfList ns + sizeOfArgs rest
  | (_, .text _) :: rest => sizeOfArgs rest
  | (_, .number _) :: rest => sizeOfArgs rest
  | (_, .flag _) :: rest => sizeOfArgs rest
  | (_, .missing) :: rest => sizeOfArgs rest

/-- The number of nodes in a list of trees. -/
def sizeOfList : List Node → Nat
  | [] => 0
  | n :: ns => size n + sizeOfList ns

end

theorem sizeOfList_append (as bs : List Node) :
    sizeOfList (as ++ bs) = sizeOfList as + sizeOfList bs := by
  induction as with
  | nil => simp [sizeOfList]
  | cons a as ih => simp [sizeOfList, ih, Nat.add_assoc]

theorem sizeOfArgs_eq (args : List (String × Arg)) :
    sizeOfArgs args = sizeOfList (args.flatMap (·.2.children)) := by
  induction args with
  | nil => rfl
  | cons p rest ih =>
    obtain ⟨key, a⟩ := p
    cases a <;> simp [sizeOfArgs, sizeOfList, Arg.children, sizeOfList_append, ih]

/-- A tree has one node more than its children together. -/
theorem size_eq (n : Node) : n.size = sizeOfList n.children + 1 := by
  obtain ⟨k, args⟩ := n
  simp only [size, children, args_mk, sizeOfArgs_eq]

/-! ## Walks -/

/-- The order of a walk. -/
inductive WalkOrder where
  | depthFirst | breadthFirst
  deriving Repr, DecidableEq

/-- Where the children of a visited node go among the pending ones. -/
def WalkOrder.enqueue (order : WalkOrder) (children pending : List Node) : List Node :=
  match order with
  | .depthFirst => children ++ pending
  | .breadthFirst => pending ++ children

/-- The children that a walk goes on to. -/
def next (prune : Node → Bool) (n : Node) : List Node :=
  if prune n then [] else n.children

theorem sizeOfList_enqueue (order : WalkOrder) (children pending : List Node) :
    sizeOfList (order.enqueue children pending) = sizeOfList children + sizeOfList pending := by
  cases order <;> simp [WalkOrder.enqueue, sizeOfList_append, Nat.add_comm]

theorem sizeOfList_next_lt (prune : Node → Bool) (n : Node) :
    sizeOfList (next prune n) < n.size := by
  unfold next
  split
  · simp [sizeOfList, size_eq n]
  · simp [size_eq n]

/-- The walk through the pending nodes and all below them; it ends because each step leaves fewer
nodes to visit. -/
def walkFrom (order : WalkOrder) (prune : Node → Bool) : List Node → List Node
  | [] => []
  | n :: pending => n :: walkFrom order prune (order.enqueue (next prune n) pending)
termination_by pending => sizeOfList pending
decreasing_by
  have := sizeOfList_next_lt prune n
  simp only [sizeOfList_enqueue, sizeOfList]
  omega

/-- The walk through a tree. -/
def walk (n : Node) (order : WalkOrder := .breadthFirst) (prune : Node → Bool := fun _ => false) :
    List Node :=
  walkFrom order prune [n]

/-- The first node of one of the given kinds, level by level. -/
def find? (n : Node) (kinds : List Kind) : Option Node :=
  n.walk.find? fun m => kinds.any m.isA

/-! ## Scope -/

/-- A nested query, in parentheses or bare, whose inside is another scope. -/
def isScopeBoundary (n : Node) : Bool := n.is .subquery || n.isQuery

/-- The walk that does not enter nested queries; the start is entered whatever it is. -/
def walkInScope (n : Node) (order : WalkOrder := .breadthFirst) : List Node :=
  n :: walkFrom order isScopeBoundary n.children

/-- The nodes of the given kinds in the scope. -/
def findAllInScope (n : Node) (kinds : List Kind) (order : WalkOrder := .breadthFirst) :
    List Node :=
  (n.walkInScope order).filter fun m => kinds.any m.isA

/-- The first node of one of the given kinds in the scope. -/
def findInScope? (n : Node) (kinds : List Kind) (order : WalkOrder := .breadthFirst) :
    Option Node :=
  (n.findAllInScope kinds order).head?

mutual

/-- A node below the start of a scope and what belongs to the scope below it. -/
def scopeBelow : Node → List Node
  | .mk kind args =>
    .mk kind args :: (if isScopeBoundary (.mk kind args) then [] else scopeOfArgs args)

/-- What belongs to the scope in arguments. -/
def scopeOfArgs : List (String × Arg) → List Node
  | [] => []
  | (_, .node n) :: rest => scopeBelow n ++ scopeOfArgs rest
  | (_, .nodes ns) :: rest => scopeOfList ns ++ scopeOfArgs rest
  | (_, .text _) :: rest => scopeOfArgs rest
  | (_, .number _) :: rest => scopeOfArgs rest
  | (_, .flag _) :: rest => scopeOfArgs rest
  | (_, .missing) :: rest => scopeOfArgs rest

/-- What belongs to the scope in a list of nodes. -/
def scopeOfList : List Node → List Node
  | [] => []
  | n :: ns => scopeBelow n ++ scopeOfList ns

/-- All nodes of a tree, each before those below it. -/
def subnodes : Node → List Node
  | .mk kind args => .mk kind args :: subnodesOfArgs args

/-- All nodes in arguments. -/
def subnodesOfArgs : List (String × Arg) → List Node
  | [] => []
  | (_, .node n) :: rest => subnodes n ++ subnodesOfArgs rest
  | (_, .nodes ns) :: rest => subnodesOfList ns ++ subnodesOfArgs rest
  | (_, .text _) :: rest => subnodesOfArgs rest
  | (_, .number _) :: rest => subnodesOfArgs rest
  | (_, .flag _) :: rest => subnodesOfArgs rest
  | (_, .missing) :: rest => subnodesOfArgs rest

/-- All nodes of a list of trees. -/
def subnodesOfList : List Node → List Node
  | [] => []
  | n :: ns => subnodes n ++ subnodesOfList ns

end

/-- The nodes of a scope, each before those below it. -/
def inScope (n : Node) : List Node := n :: scopeOfArgs n.args

end Node

end AlgebraSql.Sql
