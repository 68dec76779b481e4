import AlgebraSql.Proofs.Contexts
import AlgebraSql.Proofs.Results

/-!
# Join trees — which trees of joins become a FROM clause.

The FROM clause of a join tree should hold one table for each leaf, from left to right and under
names of their own, and the condition of each join should find a field at the leaf that owns it.
`FromTree` states this for trees of any shape.  A conversion keeps the promise for a single table and
for a join of two tables.  A join whose input is a join fails instead: the result of a join gets a
name by which it must be referred to, and a join cannot carry one.
-/

namespace AlgebraSql.Convert

open Sql ConvertM

/-! ## Trees -/

/-- The six comparisons. -/
def comparisons : List Operator :=
  [Operator.equals, Operator.notEquals, Operator.greaterThan, Operator.greaterThanOrEqual,
    Operator.lessThan, Operator.lessThanOrEqual]

/-- A condition over `width` fields: `TRUE` or a comparison of two of the fields. -/
inductive JoinCondition (width : Nat) : Expr → Prop
  | always (type : DataType) : JoinCondition width (.literal ⟨.boolean true, type⟩)
  | comparison {op : Operator} {i j : Nat} (hop : op ∈ comparisons) (hi : i < width)
      (hj : j < width) (s t type : DataType) :
      JoinCondition width (.call op [.inputRef i s, .inputRef j t] type)

/-- A tree of joins over tables; semi joins and anti joins are none. -/
inductive JoinTree : Rel → Prop
  | table {path : List String} (fields : RowType) (hpath : path ≠ []) :
      JoinTree (.scan path fields)
  | join {left right : Rel} {condition : Expr} {type : JoinType} (correlations : List String)
      (hleft : JoinTree left) (hright : JoinTree right) (htype : type.keepsLeftOnly = false)
      (hcondition : JoinCondition (left.fields.length + right.fields.length) condition) :
      JoinTree (.join left right condition type correlations)

/-- The number of leaves of a tree of joins. -/
def leafCount : Rel → Nat
  | .join left right _ _ _ => leafCount left + leafCount right
  | _ => 1

/-! ## FROM clauses -/

/-- The item reads the table of a path and is known by a name. -/
def ReadsTable (item : Node) (path : List String) (name : String) : Prop :=
  item.aliasOf? = some name ∧
    ∃ table, Node.table? path = .ok table ∧ (item = table ∨ table.asFromItem name = .ok item)

/-- The node is field `i` of the inputs, qualified by the name of the input that owns it. -/
def IsField (inputs : Aliases) (i : Nat) (n : Node) : Prop :=
  ∃ name f, Context.owner? inputs i = some (name, f) ∧ n = Node.column f.name (some name)

/-- The node compares fields `i` and `j` of the inputs. -/
def Compares (inputs : Aliases) (op : Operator) (i j : Nat) (n : Node) : Prop :=
  ∃ kind l r, binaryKind? op.kind = some kind ∧ IsField inputs i l ∧ IsField inputs j r
    ∧ n = Node.binary kind l r

/-- The node is a join condition over the inputs; a comparison may be turned round. -/
inductive OnCondition (inputs : Aliases) : Expr → Node → Prop
  | always (type : DataType) :
      OnCondition inputs (.literal ⟨.boolean true, type⟩) (Node.boolean true)
  | asWritten {op : Operator} {i j : Nat} {n : Node} (s t type : DataType)
      (h : Compares inputs op i j n) :
      OnCondition inputs (.call op [.inputRef i s, .inputRef j t] type) n
  | turned {op : Operator} {i j : Nat} {n : Node} (s t type : DataType)
      (h : Compares inputs op.reversed j i n) :
      OnCondition inputs (.call op [.inputRef i s, .inputRef j t] type) n

/-- **`FromTree`** — the node is the FROM clause of a tree of joins: one table for each leaf from
left to right, under the names of `inputs`, and each condition over the leaves of its own join. -/
inductive FromTree : Rel → Node → Aliases → Prop
  | table {path : List String} {item : Node} {name : String} (fields : RowType)
      (h : ReadsTable item path name) : FromTree (.scan path fields) item [(name, fields)]
  | product {left right : Rel} {l r : Node} {ls rs : Aliases} {condition : Expr} {type : JoinType}
      (correlations : List String) (hleft : FromTree left l ls) (hright : FromTree right r rs)
      (hproduct : isProduct condition type = true) :
      FromTree (.join left right condition type correlations) (joinNode l r "CROSS" none) (ls ++ rs)
  | join {left right : Rel} {l r on : Node} {ls rs : Aliases} {condition : Expr} {type : JoinType}
      (correlations : List String) (hleft : FromTree left l ls) (hright : FromTree right r rs)
      (hproduct : isProduct condition type = false) (hon : OnCondition (ls ++ rs) condition on) :
      FromTree (.join left right condition type correlations) (joinNode l r type.toText (some on))
        (ls ++ rs)

/-- The statement for a tree of joins exists and reads from the tree, under names that differ
whatever letters they are written in. -/
def JoinsAsWritten (d : Dialect) (rel : Rel) : Prop :=
  ∃ n item inputs, statement d rel = .ok n ∧ n.fromItem? = some item ∧ FromTree rel item inputs
    ∧ (inputs.map fun input => Text.lower input.1).Nodup

/-- Each leaf of a FROM clause has one name. -/
theorem FromTree.length_eq {rel : Rel} {item : Node} {inputs : Aliases}
    (h : FromTree rel item inputs) : inputs.length = leafCount rel := by
  induction h with
  | table => rfl
  | product _ _ _ _ ihl ihr => simp [leafCount, ihl, ihr]
  | join _ _ _ _ _ ihl ihr => simp [leafCount, ihl, ihr]

/-! ## Conditions -/

section Conditions

variable {env : Env} (sub : Rel → ConvertM Node)

/-- A comparison operator becomes a comparison node, and so does its reversal. -/
theorem comparison_traits {op : Operator} (h : op ∈ comparisons) :
    op.reversed ∈ comparisons ∧ isFieldComparison op.kind = true
      ∧ ∃ kind, binaryKind? op.kind = some kind ∧
        ∀ l r, operationNode op [l, r] = .ok (Node.binary kind l r) := by
  simp only [comparisons, List.mem_cons, List.not_mem_nil, or_false] at h
  rcases h with rfl | rfl | rfl | rfl | rfl | rfl <;>
    exact ⟨by decide, rfl, _, rfl, fun _ _ => rfl⟩

/-- No conversion is dropped from a comparison of two fields. -/
theorem castSide_fields (d : Dialect) (kind : OperatorKind) (i j : Ordinal) (s t : DataType) :
    castSide d kind [(.inputRef i s : Expr), .inputRef j t] = .neither := by
  simp [castSide, Scalar.isCast]

/-- A comparison of two fields becomes a comparison of their nodes. -/
theorem gives_comparison {op : Operator} (hop : op ∈ comparisons) {ctx : Context} {i j : Nat}
    {l r : Node} (hl : ctx.field env i = .ok l) (hr : ctx.field env j = .ok r)
    (s t type : DataType) (st : State) :
    ∃ kind, binaryKind? op.kind = some kind ∧
      (scalarNode env sub ctx (.call op [.inputRef i s, .inputRef j t] type)).Gives st
        (Node.binary kind l r) st := by
  simp only [comparisons, List.mem_cons, List.not_mem_nil, or_false] at hop
  rcases hop with rfl | rfl | rfl | rfl | rfl | rfl <;>
    · refine ⟨_, rfl, ?_⟩
      simp only [scalarNode, Operator.equals, Operator.notEquals, Operator.greaterThan,
        Operator.greaterThanOrEqual, Operator.lessThan, Operator.lessThanOrEqual, castSide_fields,
        scalarNodes, gives_bind, gives_lift, gives_pure, hl, hr]
      exact ⟨_, _, ⟨_, _, ⟨rfl, rfl⟩, _, _, ⟨_, _, ⟨rfl, rfl⟩, _, _, ⟨rfl, rfl⟩, rfl, rfl⟩, rfl, rfl⟩,
        _, _, ⟨rfl, rfl⟩, rfl, rfl⟩

/-- The condition of a join over qualified inputs finds every field at its owner. -/
theorem gives_joinCondition (hmap : env.fieldMap = []) {l r : Aliases} {condition : Expr}
    (h : JoinCondition (Context.width l + Context.width r) condition) (st : State) :
    ∃ on, OnCondition (l ++ r) condition on ∧
      (conditionNode env sub (.aliases l true) (.aliases r true) condition).Gives st on st := by
  cases h with
  | always type =>
    refine ⟨_, .always type, ?_⟩
    simp [conditionNode]
  | @comparison op i j hop hi hj s t type =>
    have howner : ∀ k < Context.width l + Context.width r, ∃ n, IsField (l ++ r) k n
        ∧ (Context.join (.aliases l true) (.aliases r true)).field env k = .ok n := by
      intro k hk
      rw [← Context.width_append, ← Context.owner?_isSome_iff, Option.isSome_iff_exists] at hk
      obtain ⟨⟨name, f⟩, hk⟩ := hk
      exact ⟨_, ⟨name, f, hk, rfl⟩, Context.field_join hmap hk⟩
    obtain ⟨ni, hni, hfi⟩ := howner i hi
    obtain ⟨nj, hnj, hfj⟩ := howner j hj
    obtain ⟨hreversed, hfield, -⟩ := comparison_traits hop
    have hkind : op.kind ≠ .and ∧ op.kind ≠ .or := by
      constructor <;> rintro hk <;> rw [hk] at hfield <;> cases hfield
    have hcast : withoutCast env.dialect op [(.inputRef i s : Expr), .inputRef j t]
        = [.inputRef i s, .inputRef j t] := by
      simp only [withoutCast, castSide_fields]
    have hnode : conditionNode env sub (.aliases l true) (.aliases r true)
        (.call op [.inputRef i s, .inputRef j t] type)
        = scalarNode env sub (.join (.aliases l true) (.aliases r true))
          (leftFirst (Context.width l) op [.inputRef i s, .inputRef j t] type) := by
      rw [conditionNode]
      simp only [beq_iff_eq, hkind.1, hkind.2, if_false, hfield, if_true, hcast,
        Context.fieldCount]
    rw [hnode]
    unfold leftFirst
    simp only
    split
    · obtain ⟨kind, hbinary, hgives⟩ := gives_comparison sub hreversed hfj hfi t s type st
      exact ⟨_, .turned s t type ⟨kind, _, _, hbinary, hnj, hni, rfl⟩, hgives⟩
    · obtain ⟨kind, hbinary, hgives⟩ := gives_comparison sub hop hfi hfj s t type st
      exact ⟨_, .asWritten s t type ⟨kind, _, _, hbinary, hni, hnj, rfl⟩, hgives⟩

end Conditions

/-! ## Tables -/

section Trees

variable {env : Env} (sub : Rel → ConvertM Node)

/-- A result that a join can read as a single table. -/
structure TableResult (path : List String) (fields : RowType) (used : UsedNames) (r : Result)
    (name : String) (item : Node) : Prop where
  asFrom : r.asFrom = .ok item
  reads : ReadsTable item path name
  aliases : r.aliases = [(name, fields)]
  joinAliases : r.joinAliases = [(name, fields)]
  reset : r.resetAlias = r
  readable : isReadable r.node = true
  readsNode : ∃ own, ReadsTable r.node path own
  free : used.has name = false

/-- A table is read under a fresh name. -/
theorem gives_table (h : env.NeverQualifies) {path : List String} (fields : RowType)
    (hpath : path ≠ []) (root : Bool) (s : State) :
    ∃ r s' name item, (relationResult env sub root (.scan path fields)).Gives s r s'
      ∧ s'.usedNames = s.usedNames.record name
      ∧ TableResult path fields s.usedNames r name item := by
  obtain ⟨table, own, htable, hkind, hown, hcolumns, -⟩ := table?_traits hpath
  let rel := Rel.scan path fields
  let name := s.usedNames.unique own
  have hname : givenName s.usedNames table = name := by
    simp only [givenName, hown, Option.getD_some, name]
  have hfields : declaredFields rel table = fields := declaredFields_table hkind hcolumns
  have hfree : s.usedNames.has name = false := UsedNames.has_unique _ _
  refine ⟨recorded table [.from] rel none name, afterRecording s table rel, name, ?_⟩
  have hgives : (relationResult env sub root rel).Gives s (recorded table [.from] rel none name)
      (afterRecording s table rel) := by
    simp only [rel, relationResult, scanResult, gives_bind, gives_lift]
    refine ⟨table, s, ⟨htable, rfl⟩, ?_⟩
    rw [gives_makeResult h, hname]
    exact ⟨rfl, rfl⟩
  have hused : (afterRecording s table rel).usedNames = s.usedNames.record name := by
    simp only [afterRecording, hname]
  have hreadable : isReadable table = true := by
    simp [isReadable_iff, hkind]
  have hnode : ∃ own, ReadsTable table path own := ⟨own, hown, table, htable, .inl rfl⟩
  by_cases hsame : name = own
  · -- the table keeps its own name
    have hneeded : (recorded table [.from] rel none name).neededAlias = none := by
      simp [recorded, hown, hsame]
    refine ⟨table, hgives, hused, ?_⟩
    constructor
    · simp [Result.asFrom, hneeded]
    · exact ⟨by rw [hown, hsame], table, htable, .inl rfl⟩
    · simp [hfields]
    · simp [hfields]
    · simp
    · simpa using hreadable
    · simpa using hnode
    · exact hfree
  · -- the name is taken, so the table gets another one
    have hneeded : (recorded table [.from] rel none name).neededAlias = some name := by
      simp [recorded, hown, Ne.symm hsame]
    have hitem : table.asFromItem name
        = .ok (table.set "alias" (some (.node (Node.tableAlias name)))) := by
      simp [Node.asFromItem, Node.isFromItem, hkind, hcolumns]
    have halias := Node.aliasOf?_set (n := table) (by simp [Node.isFromItem, hkind])
      (UsedNames.unique_ne_empty hsame) []
    refine ⟨table.set "alias" (some (.node (Node.tableAlias name))), hgives, hused, ?_⟩
    constructor
    · simpa [Result.asFrom, hneeded] using hitem
    · exact ⟨halias, table, htable, .inr hitem⟩
    · simp [hfields]
    · simp [hfields]
    · simp
    · simpa using hreadable
    · simpa using hnode
    · exact hfree

/-- What a tree of joins that converts is: a FROM clause under names of its own.  Only a single table
can be read as a FROM item again. -/
structure TreeResult (rel : Rel) (r : Result) : Prop where
  readable : isReadable r.node = true
  tree : ∃ inputs, FromTree rel r.node inputs
    ∧ (inputs.map fun input => Text.lower input.1).Nodup
  asFrom : r.resetAlias.asFrom = .error (.notFromItem "join")
    ∨ leafCount rel = 1 ∧ ∃ item, r.resetAlias.asFrom = .ok item

/-- A join of two tables is a FROM clause of both, which cannot become a FROM item itself. -/
theorem gives_join_of_tables (h : env.NeverQualifies) (hmap : env.fieldMap = [])
    (hcross : env.dialect.capabilities.crossJoin = .cross) {p q : List String} (f g : RowType)
    (hp : p ≠ []) (hq : q ≠ []) {condition : Expr} {type : JoinType} (correlations : List String)
    (htype : type.keepsLeftOnly = false)
    (hcondition : JoinCondition (f.length + g.length) condition) (root : Bool) (s : State) :
    ∃ r s', (relationResult env sub root (.join (.scan p f) (.scan q g) condition type
        correlations)).Gives s r s'
      ∧ TreeResult (.join (.scan p f) (.scan q g) condition type correlations) r := by
  obtain ⟨l, s₁, a, litem, hl, hused, htable⟩ := gives_table sub h f hp false s
  obtain ⟨r, s₂, b, ritem, hr, -, htable'⟩ := gives_table sub h g hq false s₁
  have hab : Text.lower a ≠ Text.lower b := by
    refine UsedNames.lower_ne_of_has ?_ htable'.free
    rw [hused]
    exact UsedNames.has_record_self _ _
  let rel := Rel.join (.scan p f) (.scan q g) condition type correlations
  let inputs : Aliases := [(a, f)] ++ [(b, g)]
  have hinputs : (OrderedMap.putAll [] l.joinAliases).putAll r.joinAliases = inputs := by
    have hne : a ≠ b := fun he => hab (congrArg Text.lower he)
    simp [htable.joinAliases, htable'.joinAliases, OrderedMap.putAll, OrderedMap.put, hne, inputs]
  let s₃ : State :=
    { s₂ with
      correlations :=
        s₂.correlations.putAll (correlations.map fun id => (id, .aliases l.aliases true)) }
  -- the node of the join, whichever way the condition is written
  have hnode : ∃ node, FromTree rel node inputs ∧ node.kind = .join ∧
      (joinResult env sub condition type correlations rel l r).Gives s₂
        (recorded node [.from] rel (some inputs) (givenName s₃.usedNames node))
        (afterRecording s₃ node rel) := by
    unfold joinResult makeJoinResult
    simp only [gives_bind, gives_registerCorrelations, gives_lift, htable.asFrom, htable'.asFrom,
      hinputs]
    cases hproduct : isProduct condition type with
    | true =>
      refine ⟨_, .product correlations (.table f htable.reads) (.table g htable'.reads) hproduct,
        rfl, ⟨⟩, s₃, rfl, litem, s₃, ⟨rfl, rfl⟩, ritem, s₃, ⟨rfl, rfl⟩, ?_⟩
      simp only [if_true, hcross, CrossJoinStyle.toText, gives_bind, gives_pure,
        gives_makeResult h]
      exact ⟨_, s₃, ⟨rfl, rfl⟩, rfl, rfl⟩
    | false =>
      have hwidth : JoinCondition (Context.width l.aliases + Context.width r.aliases) condition := by
        simpa [htable.aliases, htable'.aliases, Context.width] using hcondition
      obtain ⟨on, hon, hgives⟩ := gives_joinCondition sub hmap hwidth s₃
      rw [htable.aliases, htable'.aliases] at hon
      refine ⟨_, .join correlations (.table f htable.reads) (.table g htable'.reads) hproduct hon,
        rfl, ⟨⟩, s₃, rfl, litem, s₃, ⟨rfl, rfl⟩, ritem, s₃, ⟨rfl, rfl⟩, ?_⟩
      simp only [Bool.false_eq_true, if_false, gives_bind, gives_pure, gives_makeResult h]
      exact ⟨on, s₃, hgives, _, s₃, ⟨rfl, rfl⟩, rfl, rfl⟩
  obtain ⟨node, htree, hkind, hgives⟩ := hnode
  refine ⟨recorded node [.from] rel (some inputs) (givenName s₃.usedNames node),
    afterRecording s₃ node rel, ?_, ?_⟩
  · simp only [relationResult, gives_bind, htype, Bool.false_eq_true, if_false]
    exact ⟨l, s₁, hl, r, s₂, hr, by simpa only [htable.reset, htable'.reset] using hgives⟩
  · constructor
    · simp [isReadable_iff, hkind]
    · exact ⟨inputs, by simpa using htree, by simpa [inputs] using hab⟩
    · left
      simp [recorded, inputs, Result.resetAlias, Result.asFrom, asFromItem_join hkind]

theorem leafCount_pos (rel : Rel) : 0 < leafCount rel := by
  induction rel using leafCount.induct with
  | case1 left right _ _ _ ihl _ => simp only [leafCount]; omega
  | case2 rel hrel => rw [leafCount.eq_2 rel hrel]; omega

/-- A tree with a single leaf is a table. -/
theorem JoinTree.eq_table {rel : Rel} (h : JoinTree rel) (hleaf : leafCount rel = 1) :
    ∃ path fields, path ≠ [] ∧ rel = .scan path fields := by
  cases h with
  | @table path fields hpath => exact ⟨path, fields, hpath, rfl⟩
  | @join left right =>
    have := leafCount_pos left
    have := leafCount_pos right
    simp only [leafCount] at hleaf
    omega

/-- **A tree of joins** converts if it has at most two leaves; otherwise some join has a join as its
input, and the conversion fails there. -/
theorem joinTree_outcome (h : env.NeverQualifies) (hmap : env.fieldMap = [])
    (hcross : env.dialect.capabilities.crossJoin = .cross) {rel : Rel} (hrel : JoinTree rel)
    (root : Bool) (s : State) :
    (leafCount rel ≤ 2 → ∃ r s', (relationResult env sub root rel).Gives s r s' ∧ TreeResult rel r)
      ∧ (2 < leafCount rel → (relationResult env sub root rel).Fails s (.notFromItem "join")) := by
  induction hrel generalizing root s with
  | @table path fields hpath =>
    refine ⟨fun _ => ?_, fun hleaves => by simp [leafCount] at hleaves⟩
    obtain ⟨r, s', name, item, hgives, -, htable⟩ := gives_table sub h fields hpath root s
    obtain ⟨own, hown⟩ := htable.readsNode
    refine ⟨r, s', hgives, htable.readable, ⟨_, .table fields hown, by simp⟩, .inr ⟨rfl, item, ?_⟩⟩
    rw [htable.reset]
    exact htable.asFrom
  | @join left right condition type correlations hleft hright htype hcondition ihl ihr =>
    have hposl := leafCount_pos left
    have hposr := leafCount_pos right
    constructor
    · intro hleaves
      simp only [leafCount] at hleaves
      obtain ⟨p, f, hp, rfl⟩ := hleft.eq_table (by omega)
      obtain ⟨q, g, hq, rfl⟩ := hright.eq_table (by omega)
      exact gives_join_of_tables sub h hmap hcross f g hp hq correlations htype hcondition root s
    · intro hleaves
      simp only [leafCount] at hleaves
      simp only [relationResult, fails_bind, htype, Bool.false_eq_true, if_false]
      by_cases hl : 2 < leafCount left
      · exact .inl ((ihl false s).2 hl)
      obtain ⟨l, s₁, hgivesl, hresl⟩ := (ihl false s).1 (by omega)
      refine .inr ⟨l, s₁, hgivesl, ?_⟩
      by_cases hr : 2 < leafCount right
      · exact .inl ((ihr false s₁).2 hr)
      obtain ⟨r, s₂, hgivesr, hresr⟩ := (ihr false s₁).1 (by omega)
      refine .inr ⟨r, s₂, hgivesr, ?_⟩
      unfold joinResult
      simp only [fails_bind, fails_lift, gives_registerCorrelations, gives_lift]
      refine .inr ⟨⟨⟩, _, rfl, ?_⟩
      rcases hresl.asFrom with hjoin | ⟨honel, item, hitem⟩
      · exact .inl hjoin
      · -- the left input is a table, so the right one is the join
        refine .inr ⟨item, _, ⟨hitem, rfl⟩, .inl ?_⟩
        rcases hresr.asFrom with hjoin | ⟨honer, -⟩
        · exact hjoin
        · omega

end Trees

/-! ## Statements -/

/-- A known dialect writes a product as a cross join. -/
theorem crossJoin_eq {d : Dialect} (hd : d ∈ Dialect.all) :
    d.capabilities.crossJoin = .cross := by
  simp only [Dialect.all, List.mem_cons, List.not_mem_nil, or_false] at hd
  rcases hd with rfl | rfl | rfl | rfl | rfl | rfl <;> rfl

/-- A tree of joins with at most two leaves is read as it is written. -/
theorem joinsAsWritten_of_le {d : Dialect} (hd : d ∈ Dialect.all) {rel : Rel} (hrel : JoinTree rel)
    (hleaves : leafCount rel ≤ 2) : JoinsAsWritten d rel := by
  have henv := Env.neverQualifies_plain hd
  obtain ⟨r, s, hgives, hres⟩ := (joinTree_outcome (queryAt (Env.plain d) rel.queryDepth false)
    henv rfl (crossJoin_eq hd) hrel true {}).1 hleaves
  obtain ⟨inputs, htree, hnodup⟩ := hres.tree
  refine ⟨Node.selectFrom r.node, r.node, inputs, ?_, ?_, htree, hnodup⟩
  · have hkind := (isReadable_iff r.node).mp hres.readable
    have hselect : r.node.kind ≠ .select := by
      rcases hkind with hk | hk | ⟨hk | hk, -⟩ <;> simp [hk]
    have hsetop : r.node.isSetOperation = false := by
      unfold Node.isSetOperation
      rcases hkind with hk | hk | ⟨hk | hk, -⟩ <;> simp [hk, Kind.isSetOperation]
    rw [statement_eq, value_eq_ok_iff]
    refine ⟨s, ?_⟩
    unfold planStatement planResult Result.asStatement
    rw [gives_bind]
    refine ⟨r, s, hgives, ?_⟩
    simp only [hsetop, Bool.false_eq_true, if_false]
    rw [gives_asSelect_of_ne_select henv hselect, gives_wrapSelect_of_readable henv hres.readable]
    exact ⟨rfl, rfl⟩
  · simp [Node.selectFrom, Node.fromItem?, Node.this?, Node.child?, Node.wrap]

/-- A tree of joins with more than two leaves does not convert. -/
theorem statement_eq_error_of_lt {d : Dialect} (hd : d ∈ Dialect.all) {rel : Rel}
    (hrel : JoinTree rel) (hleaves : 2 < leafCount rel) :
    statement d rel = .error (.notFromItem "join") := by
  have hfails := (joinTree_outcome (queryAt (Env.plain d) rel.queryDepth false)
    (Env.neverQualifies_plain hd) rfl (crossJoin_eq hd) hrel true {}).2 hleaves
  rw [statement_eq, value_eq_error_iff]
  unfold planStatement planResult
  rw [fails_bind]
  exact .inl hfails

/-- **A tree of joins is read as it is written** exactly when it has at most two leaves; with more of
them the conversion fails because a join would have to become a FROM item. -/
theorem joinTree_joinsAsWritten_iff {d : Dialect} (hd : d ∈ Dialect.all) {rel : Rel}
    (hrel : JoinTree rel) :
    (JoinsAsWritten d rel ↔ leafCount rel ≤ 2)
      ∧ (2 < leafCount rel → statement d rel = .error (.notFromItem "join")) := by
  refine ⟨⟨?_, joinsAsWritten_of_le hd hrel⟩, statement_eq_error_of_lt hd hrel⟩
  rintro ⟨n, _, _, hn, -⟩
  by_contra hleaves
  rw [statement_eq_error_of_lt hd hrel (by omega)] at hn
  cases hn

/-- Two tables, joined where the second one's column equals the first one's. -/
def twoTables : Rel :=
  .join (.scan ["a"] [⟨"x", DataType.integer⟩]) (.scan ["b"] [⟨"y", DataType.integer⟩])
    (.call Operator.equals [.inputRef (.whole 1) DataType.integer, .inputRef (.whole 0) DataType.integer]
      DataType.boolean) .left []

/-- A full product of the two tables and a third one. -/
def threeTables : Rel :=
  .join twoTables (.scan ["c"] [⟨"z", DataType.integer⟩])
    (.literal ⟨.boolean true, DataType.boolean⟩) .inner []

theorem joinTree_twoTables : JoinTree twoTables := by
  refine .join [] (.table _ (by simp)) (.table _ (by simp)) rfl ?_
  have hop : Operator.equals ∈ comparisons := by simp [comparisons]
  exact .comparison (i := 1) (j := 0) hop (by decide) (by decide) _ _ _

theorem joinTree_threeTables : JoinTree threeTables :=
  .join [] joinTree_twoTables (.table _ (by simp)) rfl (.always _)

/-- Two tables are read as they are written, three of them are not. -/
theorem joinTree_joinsAsWritten_tables :
    JoinsAsWritten Dialect.postgres twoTables
      ∧ statement Dialect.postgres threeTables = .error (.notFromItem "join") :=
  have hd : Dialect.postgres ∈ Dialect.all := by simp [Dialect.all]
  ⟨(joinTree_joinsAsWritten_iff hd joinTree_twoTables).1.mpr (by decide),
    (joinTree_joinsAsWritten_iff hd joinTree_threeTables).2 (by decide)⟩

/-- A product of three tables has no statement at all. -/
theorem threeTables_not_joinsAsWritten : ¬JoinsAsWritten Dialect.ansi threeTables := by
  rintro ⟨n, _, _, hn, -⟩
  rw [statement_eq_error_of_lt (by simp [Dialect.all]) joinTree_threeTables (by decide)] at hn
  cases hn

end AlgebraSql.Convert
