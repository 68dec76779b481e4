import AlgebraSql.Proofs.Names
import AlgebraSql.Proofs.Nodes
import AlgebraSql.Proofs.Run

/-!
# Results, step by step — what making, reading and wrapping a result gives.

None of the known dialects ever has to qualify a field of a single input.  For such an environment
each operation on results has one equation that tells its value and the names that it takes.
-/

namespace AlgebraSql.Convert

open Sql

/-! ## Environments -/

/-- Fields of a single input are never qualified, whatever the conversion remembers. -/
structure Env.NeverQualifies (env : Env) : Prop where
  implicitTableAlias : env.dialect.capabilities.implicitTableAlias = true
  columnNamedAsTable : env.dialect.capabilities.columnNamedAsTable = true

/-- The environment of a dialect in which fields stand for their names. -/
def Env.plain (d : Dialect) : Env := { dialect := d }

theorem Env.ofFields_nil (d : Dialect) : Env.ofFields d [] = Env.plain d := rfl

/-- The statement for a plan, unless names are to be dropped from it. -/
theorem statement_eq (d : Dialect) (rel : Rel) :
    statement d rel = (planStatement (Env.plain d) rel).value := by
  unfold statement
  rw [Env.ofFields_nil]
  cases (planStatement (Env.plain d) rel).value <;> rfl

@[simp]
theorem Env.mapped?_plain (d : Dialect) (name : String) : (Env.plain d).mapped? name = none := rfl

/-- The known dialects never have to qualify. -/
theorem Env.neverQualifies_plain {d : Dialect} (hd : d ∈ Dialect.all) :
    (Env.plain d).NeverQualifies := by
  simp only [Dialect.all, List.mem_cons, List.not_mem_nil, or_false] at hd
  rcases hd with rfl | rfl | rfl | rfl | rfl | rfl <;> exact ⟨rfl, rfl⟩

variable {env : Env}

theorem Env.NeverQualifies.mustQualify (h : env.NeverQualifies) (s : State) :
    env.mustQualify s = false := by
  simp [Env.mustQualify, Env.nameClash, h.implicitTableAlias, h.columnNamedAsTable]

namespace ConvertM

/-! ## Names -/

/-- A fresh name is the unique form of the given one and is taken from then on. -/
theorem outcome_freshName (name : String) (s : State) :
    (freshName name).outcome s = (.ok (s.usedNames.unique name),
      { s with usedNames := s.usedNames.record (s.usedNames.unique name) }) := rfl

@[simp]
theorem gives_freshName (name chosen : String) (s s' : State) :
    (freshName name).Gives s chosen s' ↔
      s.usedNames.unique name = chosen
        ∧ { s with usedNames := s.usedNames.record (s.usedNames.unique name) } = s' := by
  simp [Gives, outcome_freshName]

/-- The next name stays free. -/
@[simp]
theorem gives_nextName (name : String) (s s' : State) :
    nextName.Gives s name s' ↔ s.usedNames.unique "t" = name ∧ s = s' := by
  have hout : nextName.outcome s = (.ok (s.usedNames.unique "t"), s) := rfl
  simp [Gives, hout]

/-- Making fields known to sub-queries changes nothing else. -/
@[simp]
theorem gives_registerCorrelations (ids : List String) (inputs : Aliases) (u : Unit)
    (s s' : State) :
    (registerCorrelations ids inputs).Gives s u s' ↔
      { s with
        correlations :=
          s.correlations.putAll (ids.map fun id => (id, Context.aliases inputs true)) } = s' :=
  gives_modify _ _ _ _

end ConvertM

/-! ## Making results -/

/-- The name that a query of its own name, if it has one, gets from names in use. -/
def givenName (used : UsedNames) (n : Node) : String := used.unique (n.aliasOf?.getD "t")

/-- The result that records a query under a name: several named inputs are kept, and the query must
be referred to by its name then; otherwise the query itself is the only input. -/
def recorded (n : Node) (clauses : List Clause) (rel : Rel) (aliases : Option Aliases)
    (name : String) : Result :=
  match aliases with
  | some (a :: b :: rest) =>
    { node := n, clauses, neededAlias := some name, fields := declaredFields rel n
      aliases := a :: b :: rest }
  | _ =>
    { node := n, clauses, fields := declaredFields rel n
      neededAlias := if n.aliasOf? != some name then some name else none
      aliases := [(name, declaredFields rel n)] }

@[simp]
theorem recorded_node (n : Node) (clauses : List Clause) (rel : Rel) (aliases : Option Aliases)
    (name : String) : (recorded n clauses rel aliases name).node = n := by
  unfold recorded
  split <;> rfl

@[simp]
theorem recorded_clauses (n : Node) (clauses : List Clause) (rel : Rel) (aliases : Option Aliases)
    (name : String) : (recorded n clauses rel aliases name).clauses = clauses := by
  unfold recorded
  split <;> rfl

@[simp]
theorem recorded_fields (n : Node) (clauses : List Clause) (rel : Rel) (aliases : Option Aliases)
    (name : String) : (recorded n clauses rel aliases name).fields = declaredFields rel n := by
  unfold recorded
  split <;> rfl

/-- A query that is recorded without named inputs is its own input. -/
@[simp]
theorem recorded_aliases_none (n : Node) (clauses : List Clause) (rel : Rel) (name : String) :
    (recorded n clauses rel none name).aliases = [(name, declaredFields rel n)] := rfl

/-- Referring to a query by its name makes that name its only input. -/
@[simp]
theorem resetAlias_recorded_none (n : Node) (clauses : List Clause) (rel : Rel) (name : String) :
    (recorded n clauses rel none name).resetAlias = recorded n clauses rel none name := by
  unfold recorded Result.resetAlias
  by_cases hown : n.aliasOf? = some name <;> simp [hown]

@[simp]
theorem joinAliases_recorded_none (n : Node) (clauses : List Clause) (rel : Rel) (name : String) :
    (recorded n clauses rel none name).joinAliases = [(name, declaredFields rel n)] := by
  unfold recorded Result.joinAliases
  by_cases hown : n.aliasOf? = some name <;> simp [hown]

/-- The memory after a query has been recorded. -/
def afterRecording (s : State) (n : Node) (rel : Rel) : State :=
  { s with
    usedNames := s.usedNames.record (givenName s.usedNames n)
    tableNamedAsColumn :=
      (declaredFields rel n).any (·.name == tableNameOf (givenName s.usedNames n) rel) }

/-- **`makeResult`** — it never fails, takes the name of the query, and records the query under it. -/
theorem ConvertM.gives_makeResult (h : env.NeverQualifies) (n : Node) (clauses : List Clause)
    (rel : Rel) (aliases : Option Aliases) (r : Result) (s s' : State) :
    (makeResult env n clauses rel aliases).Gives s r s' ↔
      r = recorded n clauses rel aliases (givenName s.usedNames n)
        ∧ s' = afterRecording s n rel := by
  have hout : (makeResult env n clauses rel aliases).outcome s
      = (.ok (recorded n clauses rel aliases (givenName s.usedNames n)),
        afterRecording s n rel) := by
    unfold makeResult recorded
    simp only [outcome_bind, outcome_freshName, outcome_modify, outcome_get, h.mustQualify,
      Bool.false_or]
    rcases aliases with _ | (_ | ⟨a, _ | ⟨b, rest⟩⟩) <;>
      simp only [List.isEmpty_nil, List.isEmpty_cons, Bool.not_true, Bool.not_false, if_true,
        Bool.false_eq_true, if_false, outcome_pure, Bool.or_false, givenName,
        afterRecording]
    all_goals rfl
  simp only [Gives, hout, Prod.mk.injEq, Except.ok.injEq, eq_comm]

/-! ## Reading results -/

/-- A SELECT or a set operation, which carries no alias of its own. -/
def isPlainQuery (n : Node) : Bool := (n.is .select || n.isSetOperation) && !n.hasAlias

/-- A FROM item that can be read from as it is: a table, a join, or something under an alias. -/
def isReadable (n : Node) : Bool :=
  match n.kind with
  | .table | .join => true
  | .values | .subquery => n.hasAlias
  | _ => false

/-- `(query) AS name`, or without a name. -/
def derived (query : Node) (name : Option String) : Node :=
  match name with
  | some name => .mk .subquery [("this", .node query), ("alias", .node (Node.tableAlias name))]
  | none => Node.subquery query

theorem isPlainQuery_iff (n : Node) :
    isPlainQuery n = true ↔
      (n.kind = .select ∨ n.kind.isSetOperation = true) ∧ n.hasAlias = false := by
  simp [isPlainQuery, Node.is, Node.isSetOperation]

theorem isPlainQuery_selectFrom (item : Node) : isPlainQuery (Node.selectFrom item) = true := by
  simp [isPlainQuery, Node.selectFrom, Node.hasAlias, Node.child?]

/-- Putting anything but an alias into a plain query leaves one. -/
theorem isPlainQuery_set {n : Node} (h : isPlainQuery n = true) {key : String} (hkey : key ≠ "alias")
    (a : Arg) : isPlainQuery (n.set key (some a)) = true := by
  simp only [isPlainQuery, Node.is, Node.isSetOperation, Node.hasAlias, Node.kind_set,
    Node.child?_set_of_ne n a hkey] at h ⊢
  exact h

theorem isReadable_iff (n : Node) :
    isReadable n = true ↔ n.kind = .table ∨ n.kind = .join
      ∨ ((n.kind = .values ∨ n.kind = .subquery) ∧ n.hasAlias = true) := by
  unfold isReadable
  cases h : n.kind <;> simp

@[simp]
theorem isReadable_derived (query : Node) (name : String) :
    isReadable (derived query (some name)) = true := by
  simp [isReadable, derived, Node.hasAlias, Node.child?]

/-- A plain query becomes a FROM item in parentheses. -/
theorem asFromItem_of_plainQuery {n : Node} (h : isPlainQuery n = true) (name : String) :
    n.asFromItem name = .ok (derived n (some name)) := by
  rw [isPlainQuery_iff] at h
  unfold Node.asFromItem Node.isFromItem Node.isQuery Kind.isQuery derived
  rcases h.1 with h | h
  · simp [h]
  · cases hk : n.kind <;> simp_all [Kind.isSetOperation]

/-- A join is no FROM item that could take a name. -/
theorem asFromItem_join {n : Node} (h : n.kind = .join) (name : String) :
    n.asFromItem name = .error (.notFromItem "join") := by
  have hkey : Kind.join.key = "join" := by decide +kernel
  unfold Node.asFromItem Node.isFromItem Node.isQuery Kind.isQuery
  simp [h, Kind.isSetOperation, hkey]

/-- A query in parentheses takes a name. -/
theorem asFromItem_subquery (query : Node) (name : String) :
    (Node.subquery query).asFromItem name = .ok (derived query (some name)) := rfl

namespace ConvertM

/-- What can be read from as it is stands behind FROM unchanged. -/
theorem gives_wrapSelect_of_readable (h : env.NeverQualifies) {n : Node} (hn : isReadable n = true)
    (m : Node) (s s' : State) :
    (wrapSelect env n).Gives s m s' ↔ m = Node.selectFrom n ∧ s' = s := by
  rw [isReadable_iff] at hn
  have hlacks : lacksAlias env s n = false := by
    unfold lacksAlias
    rcases hn with hk | hk | ⟨hk | hk, halias⟩ <;> simp only [hk] <;> simp [h.mustQualify, *]
  have hitem : (n.isQuery && !(n.is .values && n.hasAlias)) = false := by
    unfold Node.isQuery Kind.isQuery Node.is
    rcases hn with hk | hk | ⟨hk | hk, halias⟩ <;> simp only [hk] <;>
      simp [Kind.isSetOperation, *]
  have hout : (wrapSelect env n).outcome s = (.ok (Node.selectFrom n), s) := by
    unfold wrapSelect
    simp only [outcome_bind, outcome_get, hlacks, hitem, Bool.false_eq_true, if_false, outcome_pure]
  simp [Gives, hout, eq_comm]

/-- The FROM item that a plain query becomes: in parentheses, under a name where the dialect wants
one. -/
def itemOf (env : Env) (s : State) (n : Node) : Node :=
  derived n (if env.dialect.capabilities.fromAliasRequired then some (s.usedNames.unique "t")
    else none)

/-- The memory after a plain query has become a FROM item. -/
def afterItem (env : Env) (s : State) : State :=
  if env.dialect.capabilities.fromAliasRequired then
    { s with usedNames := s.usedNames.record (s.usedNames.unique "t") }
  else s

/-- A plain query stands behind FROM in parentheses. -/
theorem gives_wrapSelect_of_plainQuery {n : Node} (hn : isPlainQuery n = true)
    (m : Node) (s s' : State) :
    (wrapSelect env n).Gives s m s' ↔
      m = Node.selectFrom (itemOf env s n) ∧ s' = afterItem env s := by
  rw [isPlainQuery_iff] at hn
  obtain ⟨hkind, halias⟩ := hn
  have hlacks : lacksAlias env s n = env.dialect.capabilities.fromAliasRequired := by
    unfold lacksAlias
    rw [halias]
    rcases hkind with hk | hk
    · simp [hk]
    · cases hk' : n.kind <;> simp_all [Kind.isSetOperation]
  have hquery : (n.isQuery && !(n.is .values && n.hasAlias)) = true := by
    unfold Node.isQuery Kind.isQuery
    rw [halias]
    rcases hkind with hk | hk
    · simp [hk]
    · cases hk' : n.kind <;> simp_all [Kind.isSetOperation]
  have hout : (wrapSelect env n).outcome s
      = (.ok (Node.selectFrom (itemOf env s n)), afterItem env s) := by
    unfold wrapSelect itemOf afterItem
    simp only [outcome_bind, outcome_get, hlacks, hquery, if_true]
    cases env.dialect.capabilities.fromAliasRequired
    · simp only [Bool.false_eq_true, if_false, outcome_pure, derived]
    · simp only [if_true, outcome_bind, outcome_freshName, asFromItem_subquery, outcome_lift,
        outcome_pure]
  simp [Gives, hout, eq_comm]

/-- A SELECT is the query of its result as it is. -/
theorem gives_asSelect_of_select {r : Result} (hr : r.node.kind = .select) (m : Node)
    (s s' : State) : (r.asSelect env).Gives s m s' ↔ m = r.node ∧ s' = s := by
  have hout : (r.asSelect env).outcome s = (.ok r.node, s) := by
    unfold Result.asSelect
    simp only [Node.is, hr, beq_self_eq_true, if_true, outcome_pure]
  simp [Gives, hout, eq_comm]

/-- Any other query of a result is read by a SELECT of its own. -/
theorem gives_asSelect_of_ne_select (h : env.NeverQualifies) {r : Result}
    (hr : r.node.kind ≠ .select) (m : Node) (s s' : State) :
    (r.asSelect env).Gives s m s' ↔ (wrapSelect env r.node).Gives s m s' := by
  have hout : (r.asSelect env).outcome s = (wrapSelect env r.node).outcome s := by
    unfold Result.asSelect
    simp [Node.is, hr, outcome_bind, outcome_get, h.mustQualify]
  simp [Gives, hout]

/-- A sub-query reads from the FROM item that the result is. -/
theorem gives_subSelect {r : Result} {item : Node} (hr : r.asFrom = .ok item) (m : Node)
    (s s' : State) : (r.subSelect env).Gives s m s' ↔ (wrapSelect env item).Gives s m s' := by
  have hout : (r.subSelect env).outcome s = (wrapSelect env item).outcome s := by
    unfold Result.subSelect
    simp only [outcome_bind, hr, outcome_lift]
  simp [Gives, hout]

end ConvertM

/-! ## Opening results -/

/-- The builder over a query that reads a result, where fields of one input are not qualified. -/
def Result.opened (env : Env) (r : Result) (rel : Rel) (select : Node) : Except Error Builder :=
  let clauses := if r.mustWrap env rel then r.expected else r.clauses ++ r.expected
  let qualified := decide (r.aliases.length > 1)
  match select.selectList?, r.newAlias? (r.mustWrap env rel) with
  | some items, _ =>
    .ok { rel, clauses, select, context := r.itemContext env rel items, aliases := some r.aliases }
  | none, some aliasName => do
    let inputs : Aliases := [(aliasName, ← Result.firstInputFields rel)]
    return { rel, clauses, select, context := .aliases inputs qualified
             aliases := some (if r.aliases.has aliasName then r.aliases else inputs) }
  | none, none =>
    .ok { rel, clauses, select, context := .aliases r.aliases qualified, aliases := some r.aliases }

/-- **`builder`** — the query is the result itself or wraps it, and the rest follows from the query. -/
theorem ConvertM.gives_builder (h : env.NeverQualifies) (r : Result) (rel : Rel) (b : Builder)
    (s s' : State) :
    (r.builder env rel).Gives s b s' ↔ ∃ m,
      (if r.mustWrap env rel then r.subSelect env else r.asSelect env).Gives s m s'
        ∧ r.opened env rel m = .ok b := by
  have hrun : ∀ c : ConvertM Node, (if r.mustWrap env rel then r.subSelect env else r.asSelect env) = c →
      (r.builder env rel).outcome s = match c.outcome s with
        | (.ok m, s₁) => (r.opened env rel m, s₁)
        | (.error e, s₁) => (.error e, s₁) := by
    rintro c rfl
    unfold Result.builder Result.opened
    cases hwrap : r.mustWrap env rel <;>
      simp only [Bool.false_eq_true, if_false, if_true, outcome_bind] <;>
      split <;> rename_i m s₁ hm <;> simp only [hm]
    all_goals
      generalize r.newAlias? _ = new
      cases m.selectList? with
      | some items => simp only [outcome_pure]
      | none =>
        cases new with
        | none => simp only [outcome_bind, outcome_get, outcome_pure, h.mustQualify, Bool.false_or]
        | some aliasName =>
          simp only [outcome_bind, outcome_lift, outcome_get, outcome_pure, h.mustQualify,
            Bool.false_or]
          cases Result.firstInputFields rel <;> rfl
  unfold Gives
  rw [hrun _ rfl]
  rcases (if r.mustWrap env rel then r.subSelect env else r.asSelect env).outcome s with ⟨m | m, s₁⟩
  · simp
  · constructor
    · intro hb
      simp only [Prod.mk.injEq] at hb
      exact ⟨m, by rw [hb.2], hb.1⟩
    · rintro ⟨m', hm, hb⟩
      simp only [Prod.mk.injEq, Except.ok.injEq] at hm
      simp only [hm.1, hm.2, hb]

/-! ## Select lists -/

/-- Items under the names of columns, as far as there are columns. -/
def namedItems (ns : List Node) (fields : RowType) : List Node :=
  List.zipWith (fun n (f : Field) => namedItem n f.name) ns fields

/-- **`addSelects`** — it gives the items that were there and the new ones under the names of the
next columns, and there are enough columns for all of them. -/
theorem addSelects_eq_ok {fields : RowType} {ns items out : List Node}
    (hitems : items.length ≤ fields.length) (h : addSelects fields items ns = .ok out) :
    items.length + ns.length ≤ fields.length
      ∧ out = items ++ namedItems ns (fields.drop items.length) := by
  induction ns generalizing items with
  | nil =>
    obtain rfl : items = out := by simpa [addSelects] using h
    exact ⟨by simpa using hitems, by simp [namedItems]⟩
  | cons n ns ih =>
    simp only [addSelects, List.foldlM_cons, bind_eq_ok_iff] at h
    obtain ⟨next, hnext, hrest⟩ := h
    unfold addSelect at hnext
    split at hnext
    · rename_i f hf
      cases hnext
      obtain ⟨hlt, hget⟩ := List.getElem?_eq_some_iff.mp hf
      have hlen : (items ++ [namedItem n f.name]).length ≤ fields.length := by
        simpa using Nat.succ_le_of_lt hlt
      obtain ⟨hroom, hout⟩ := ih hlen hrest
      simp only [List.length_append, List.length_singleton] at hroom hout
      refine ⟨by simp only [List.length_cons]; omega, ?_⟩
      rw [hout, List.drop_eq_getElem_cons hlt, hget]
      simp [namedItems]
    · cases hnext

theorem length_namedItems {ns : List Node} {fields : RowType} (h : ns.length ≤ fields.length) :
    (namedItems ns fields).length = ns.length := by
  rw [namedItems, List.length_zipWith, Nat.min_eq_left h]

/-- Only as many items are named as there are names. -/
theorem length_namedItems_le (ns : List Node) (fields : RowType) : (namedItems ns fields).length ≤ fields.length := by
  rw [namedItems, List.length_zipWith]
  exact Nat.min_le_right _ _

/-- An item under a name is known by it. -/
@[simp]
theorem aliasOf?_namedItem (n : Node) (name : String) : (namedItem n name).aliasOf? = some name := by
  unfold namedItem
  split
  · rename_i h
    simpa using h
  · simp

/-! ## Declared columns -/

/-- A query declares no column names of its own, or those of the relation: then its columns are those
of the relation. -/
theorem declaredFields_eq {rel : Rel} {n : Node}
    (h : ∀ m, leftmost n = some m → declaredNames rel.fields m = []
      ∨ declaredNames rel.fields m = rel.fields.names.map some) : declaredFields rel n = rel.fields := by
  have hsame : ∀ fields : RowType, List.zipWith (fun (f : Field) (name : Option String) =>
      { f with name := name.getD f.name }) fields (fields.names.map some) = fields := by
    intro fields
    induction fields with
    | nil => rfl
    | cons f fields ih =>
      obtain ⟨name, type⟩ := f
      simpa [RowType.names] using ih
  unfold declaredFields
  split
  · rfl
  · rename_i m hm
    simp only
    split
    · rename_i hlen
      rcases h m hm with hnone | hall
      · rw [hnone] at hlen
        rw [List.length_eq_zero_iff.mp hlen.symm]
        rfl
      · rw [hall, hsame]
    · rfl

/-- A node that is no set operation is its own leftmost query. -/
theorem leftmost_eq {n : Node} (h : n.isSetOperation = false) : leftmost n = some n := by
  obtain ⟨k, args⟩ := n
  rw [leftmost]
  simp only [Node.isSetOperation, Node.kind_mk] at h
  simp [h]

/-- Set operations from left to right start with the query that they start with. -/
theorem leftmost_foldl {kind : Kind} (hkind : kind.isSetOperation = true) (distinct : Bool)
    (ns : List Node) (n : Node) :
    leftmost (ns.foldl (fun u n => Node.setOperation kind u n distinct) n) = leftmost n := by
  induction ns generalizing n with
  | nil => rfl
  | cons m ns ih =>
    rw [List.foldl_cons, ih, Node.setOperation, leftmost]
    simp [hkind, leftmostOf]

/-! ## Tables -/

/-- A path with at least one part is a table, known by the last part. -/
theorem table?_traits {path : List String} (hpath : path ≠ []) :
    ∃ table name, Node.table? path = .ok table ∧ table.kind = .table
      ∧ table.aliasOf? = some name ∧ table.aliasColumns = [] ∧ name ∈ path := by
  unfold Node.table?
  cases h : path.reverse with
  | nil => exact absurd (List.reverse_eq_nil_iff.mp h) hpath
  | cons name rest =>
    have hmem : name ∈ path := List.mem_reverse.mp (by simp [h])
    rcases rest with _ | ⟨db, _ | ⟨first, outer⟩⟩ <;>
      refine ⟨_, name, rfl, rfl, ?_, ?_, hmem⟩ <;>
      simp [Node.table?.tableIn, Node.table?.identifier, Node.aliasOf?, Node.aliasName,
        Node.nameUnder, Node.kept, Node.name, Node.text, Node.innerText, Node.aliasColumns,
        Node.child?]

/-- The columns of a table are those of its scan. -/
theorem declaredFields_table {rel : Rel} {n : Node} (hkind : n.kind = .table)
    (hcolumns : n.aliasColumns = []) : declaredFields rel n = rel.fields := by
  refine declaredFields_eq fun m hm => .inl ?_
  rw [leftmost_eq (by simp [Node.isSetOperation, hkind, Kind.isSetOperation])] at hm
  obtain rfl : n = m := by simpa using hm
  simp [declaredNames, Node.is, hkind, hcolumns]

end AlgebraSql.Convert
