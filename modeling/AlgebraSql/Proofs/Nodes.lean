import AlgebraSql.Sql.FromItem

/-!
# Arguments of nodes — reading what was put into a node.

The lemmas of this module let `simp` read the arguments of nodes that are written out, and say that
putting an argument into a node changes that argument and no other.
-/

namespace AlgebraSql

namespace OrderedMap

variable {α : Type}

@[simp]
theorem get?_nil (key : String) : get? ([] : OrderedMap α) key = none := rfl

@[simp]
theorem get?_cons (k key : String) (v : α) (rest : OrderedMap α) :
    get? ((k, v) :: rest) key = if k = key then some v else get? rest key := rfl

/-- A key that no entry has has no value. -/
theorem has_eq_false {m : OrderedMap α} {key : String} (h : ∀ p ∈ m, p.1 ≠ key) :
    m.has key = false := by
  induction m with
  | nil => rfl
  | cons p rest ih =>
    obtain ⟨k, v⟩ := p
    have hk : k ≠ key := h (k, v) (by simp)
    have hrest := ih fun q hq => h q (by simp [hq])
    simpa [has, hk] using hrest

end OrderedMap

namespace Sql

/-! ## Arguments -/

namespace Arg

@[simp]
theorem filter_node (n : Node) : (some (Arg.node n)).filter (·.isGiven) = some (.node n) := rfl

@[simp]
theorem filter_nodes (ns : List Node) :
    (some (Arg.nodes ns)).filter (·.isGiven) = some (.nodes ns) := rfl

@[simp]
theorem filter_text (s : String) : (some (Arg.text s)).filter (·.isGiven) = some (.text s) := rfl

@[simp]
theorem filter_flag (b : Bool) : (some (Arg.flag b)).filter (·.isGiven) = some (.flag b) := rfl

@[simp]
theorem filter_number (q : Quantity) :
    (some (Arg.number q)).filter (·.isGiven) = some (.number q) := rfl

@[simp]
theorem filter_missing : (some Arg.missing).filter (·.isGiven) = none := rfl

@[simp] theorem node?_node (n : Node) : (Arg.node n).node? = some n := rfl
@[simp] theorem node?_nodes (ns : List Node) : (Arg.nodes ns).node? = none := rfl
@[simp] theorem node?_text (s : String) : (Arg.text s).node? = none := rfl
@[simp] theorem node?_number (q : Quantity) : (Arg.number q).node? = none := rfl
@[simp] theorem node?_flag (b : Bool) : (Arg.flag b).node? = none := rfl
@[simp] theorem nodes?_nodes (ns : List Node) : (Arg.nodes ns).nodes? = some ns := rfl
@[simp] theorem nodes?_node (n : Node) : (Arg.node n).nodes? = none := rfl
@[simp] theorem nodes?_text (s : String) : (Arg.text s).nodes? = none := rfl
@[simp] theorem nodes?_number (q : Quantity) : (Arg.number q).nodes? = none := rfl
@[simp] theorem nodes?_flag (b : Bool) : (Arg.flag b).nodes? = none := rfl
@[simp] theorem flag?_flag (b : Bool) : (Arg.flag b).flag? = some b := rfl
@[simp] theorem textOnly_text (s : String) : (Arg.text s).textOnly = s := rfl

end Arg

namespace Node

@[simp]
theorem arg?_mk (k : Kind) (args : Args) (key : String) :
    (Node.mk k args).arg? key = (OrderedMap.get? args key).filter (·.isGiven) := rfl

@[simp]
theorem is_mk (k other : Kind) (args : Args) : (Node.mk k args).is other = (k == other) := rfl

theorem is_eq_true_iff (n : Node) (k : Kind) : n.is k = true ↔ n.kind = k := by
  simp [is]

/-- A node stands under a name exactly when it is the argument there. -/
theorem child?_eq_some_iff (n : Node) (key : String) (c : Node) :
    n.child? key = some c ↔ n.args.get? key = some (.node c) := by
  unfold child? arg?
  cases n.args.get? key with
  | none => simp
  | some a => cases a <;> simp

/-- A list of nodes stands under a name exactly when it is the argument there. -/
theorem list?_eq_some_iff (n : Node) (key : String) (cs : List Node) :
    n.list? key = some cs ↔ n.args.get? key = some (.nodes cs) := by
  unfold list? arg?
  cases n.args.get? key with
  | none => simp
  | some a => cases a <;> simp

theorem mem_of_get? {args : Args} {key : String} {a : Arg} (h : args.get? key = some a) :
    (key, a) ∈ args := by
  induction args with
  | nil => simp at h
  | cons p rest ih =>
    obtain ⟨k, v⟩ := p
    by_cases hk : k = key
    · obtain rfl : v = a := by simpa [hk] using h
      simp [hk]
    · exact List.mem_cons_of_mem _ (ih (by simpa [hk] using h))

/-- The node under a name stands in an argument of that name. -/
theorem mem_args_of_child? {n : Node} {key : String} {c : Node} (h : n.child? key = some c) :
    (key, .node c) ∈ n.args := mem_of_get? ((child?_eq_some_iff n key c).mp h)

/-- The nodes under a name stand in an argument of that name. -/
theorem mem_args_of_list? {n : Node} {key : String} {cs : List Node} (h : n.list? key = some cs) :
    (key, .nodes cs) ∈ n.args := mem_of_get? ((list?_eq_some_iff n key cs).mp h)

/-! ## Putting arguments -/

@[simp]
theorem kind_set (n : Node) (key : String) (value : Option Arg) :
    (n.set key value).kind = n.kind := by
  cases value <;> rfl

@[simp]
theorem arg?_set_self (n : Node) (key : String) (a : Arg) :
    (n.set key (some a)).arg? key = (some a).filter (·.isGiven) := by
  simp [set]

theorem arg?_set_of_ne (n : Node) {key other : String} (a : Arg) (h : key ≠ other) :
    (n.set key (some a)).arg? other = n.arg? other := by
  simp [set, OrderedMap.get?_put_of_ne _ _ h, arg?]

@[simp]
theorem child?_set_self (n : Node) (key : String) (c : Node) :
    (n.set key (some (.node c))).child? key = some c := by
  simp [child?]

theorem child?_set_of_ne (n : Node) {key other : String} (a : Arg) (h : key ≠ other) :
    (n.set key (some a)).child? other = n.child? other := by
  simp [child?, arg?_set_of_ne n a h]

theorem list?_set_of_ne (n : Node) {key other : String} (a : Arg) (h : key ≠ other) :
    (n.set key (some a)).list? other = n.list? other := by
  simp [list?, arg?_set_of_ne n a h]

/-- The alias under which an item was put is its alias, unless it is empty. -/
theorem nameUnder_put (args : Args) (key : String) (n : Node) :
    nameUnder key (args.put key (.node n)) = n.name := by
  induction args with
  | nil => simp [OrderedMap.put, nameUnder]
  | cons p rest ih =>
    obtain ⟨k, a⟩ := p
    by_cases hk : k = key
    · simp [OrderedMap.put, hk, nameUnder]
    · cases a <;> simp [OrderedMap.put, hk, nameUnder, ih]

/-! ## Names of built nodes -/

@[simp]
theorem name_identifier (s : String) (quoted : Bool) : (identifier s quoted).name = s := rfl

@[simp]
theorem name_tableAlias (s : String) (columns : List String) : (tableAlias s columns).name = s := rfl

theorem aliasName_set (n : Node) (s : String) (columns : List String) :
    (n.set "alias" (some (.node (tableAlias s columns)))).aliasName = s := by
  simp [set, aliasName, nameUnder_put]

theorem name_column (s : String) (table : Option String) : (column s table).name = s := rfl

theorem child?_column (s : String) (table : Option String) :
    (column s table).child? "table" = table.map identifier := by
  cases table <;> simp [column, child?, kept]

theorem table_column (s : String) (table : Option String) : (column s table).table = table.getD "" := by
  cases table <;> simp [column, Node.table, text, innerText, identifier, kept]

/-- A column is known by its name. -/
@[simp]
theorem aliasOf?_column (s : String) (table : Option String) :
    (column s table).aliasOf? = some s := rfl

/-- A named item is known by its name. -/
@[simp]
theorem aliasOf?_aliased (n : Node) (s : String) : (aliased n s).aliasOf? = some s := rfl

/-- An item under an alias is known by it. -/
theorem aliasOf?_set {n : Node} (h : n.isFromItem = true) {s : String} (hs : s ≠ "")
    (columns : List String) :
    (n.set "alias" (some (.node (tableAlias s columns)))).aliasOf? = some s := by
  have hitem : (n.set "alias" (some (.node (tableAlias s columns)))).isFromItem = true := by
    simpa only [isFromItem, kind_set] using h
  unfold aliasOf?
  rw [aliasName_set]
  unfold isFromItem at h
  cases hk : n.kind <;> simp_all

end Node
end Sql
end AlgebraSql
