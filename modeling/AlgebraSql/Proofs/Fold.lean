import AlgebraSql.Proofs.Nodes

/-!
# Folds — computing something of a tree from what is computed of its children.

A property of statements that looks at a node and at the values of its children is a fold.  Its one
equation replaces a recursion through the nested lists of arguments.
-/

namespace AlgebraSql.Sql.Node

variable {β : Type}

mutual

/-- The value of a tree: `f` is given the kind, the arguments, and under the name of each argument
the values of the nodes that stand in it. -/
def fold (f : Kind → Args → OrderedMap (List β) → β) : Node → β
  | .mk kind args => f kind args (foldArgs f args)

/-- The values of the nodes in each argument. -/
def foldArgs (f : Kind → Args → OrderedMap (List β) → β) :
    List (String × Arg) → List (String × List β)
  | [] => []
  | (key, .node n) :: rest => (key, [fold f n]) :: foldArgs f rest
  | (key, .nodes ns) :: rest => (key, foldList f ns) :: foldArgs f rest
  | (key, .text _) :: rest => (key, []) :: foldArgs f rest
  | (key, .number _) :: rest => (key, []) :: foldArgs f rest
  | (key, .flag _) :: rest => (key, []) :: foldArgs f rest
  | (key, .missing) :: rest => (key, []) :: foldArgs f rest

/-- The values of several trees. -/
def foldList (f : Kind → Args → OrderedMap (List β) → β) : List Node → List β
  | [] => []
  | n :: ns => fold f n :: foldList f ns

end

variable (f : Kind → Args → OrderedMap (List β) → β)

/-- The values under the name of each argument. -/
def childValues (args : Args) : OrderedMap (List β) := args.map fun p => (p.1, p.2.children.map (fold f))

theorem foldList_eq (ns : List Node) : foldList f ns = ns.map (fold f) := by
  induction ns with
  | nil => rfl
  | cons n ns ih => simp only [foldList, List.map_cons, ih]

theorem foldArgs_eq (args : Args) : foldArgs f args = childValues f args := by
  induction args with
  | nil => rfl
  | cons p rest ih =>
    obtain ⟨key, a⟩ := p
    cases a <;> simp only [foldArgs, childValues, List.map_cons, List.map_nil, Arg.children, foldList_eq,
      ih]

/-- **`fold`** — the value of a node from the values of its children. -/
theorem fold_mk (kind : Kind) (args : Args) :
    fold f (.mk kind args) = f kind args (childValues f args) := by
  rw [fold, foldArgs_eq]

section

variable {f} {P : β → Prop}

mutual

/-- **Induction along a fold** — what each step keeps holds of the value of every tree. -/
theorem fold_induction (h : ∀ kind args parts, (∀ p ∈ parts, ∀ b ∈ p.2, P b) → P (f kind args parts)) :
    ∀ n : Node, P (fold f n)
  | .mk kind args => by
    rw [fold]
    exact h kind args _ (foldArgs_induction h args)

theorem foldArgs_induction
    (h : ∀ kind args parts, (∀ p ∈ parts, ∀ b ∈ p.2, P b) → P (f kind args parts)) :
    ∀ args : List (String × Arg), ∀ p ∈ foldArgs f args, ∀ b ∈ p.2, P b
  | [] => by simp [foldArgs]
  | (key, .node n) :: rest => by
    rw [foldArgs, List.forall_mem_cons]
    exact ⟨by simpa using fold_induction h n, foldArgs_induction h rest⟩
  | (key, .nodes ns) :: rest => by
    rw [foldArgs, List.forall_mem_cons]
    exact ⟨foldList_induction h ns, foldArgs_induction h rest⟩
  | (key, .text _) :: rest | (key, .number _) :: rest | (key, .flag _) :: rest
  | (key, .missing) :: rest => by
    rw [foldArgs, List.forall_mem_cons]
    exact ⟨by simp, foldArgs_induction h rest⟩

theorem foldList_induction
    (h : ∀ kind args parts, (∀ p ∈ parts, ∀ b ∈ p.2, P b) → P (f kind args parts)) :
    ∀ ns : List Node, ∀ b ∈ foldList f ns, P b
  | [] => by simp [foldList]
  | n :: ns => by
    rw [foldList, List.forall_mem_cons]
    exact ⟨fold_induction h n, foldList_induction h ns⟩

end

end

/-- The values under a name are those of the nodes in the argument of that name. -/
theorem get?_childValues (args : Args) (key : String) :
    (childValues f args).get? key = (args.get? key).map fun a => a.children.map (fold f) := by
  induction args with
  | nil => rfl
  | cons p rest ih =>
    obtain ⟨k, a⟩ := p
    by_cases hk : k = key
    · simp [childValues, hk]
    · simpa [childValues, hk] using ih

end AlgebraSql.Sql.Node
