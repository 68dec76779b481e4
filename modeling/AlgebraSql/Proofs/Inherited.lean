import AlgebraSql.Proofs.Resolving
import AlgebraSql.Proofs.Written

/-!
# Inherited properties — what a node has because the nodes in it have it.

Most nodes of an expression only put other nodes together.  A property that such nodes inherit from
their children holds of what is built of nodes that have it: of operations, case distinctions, searches,
constants, sort keys and frames.  Whether a column has it may depend on the table that the column names.
-/

namespace AlgebraSql.Convert

open Sql Node

/-! ## Properties -/

/-- Kinds of nodes that are calls, queries, parts of FROM or columns.  All others only put nodes together. -/
def isOrdinary : Kind → Bool
  | .column | .call | .aggregate | .window | .filter | .withinGroup | .select | .setOperation | .union | .intersect
  | .except | .values | .from | .join | .table | .tableFunction | .matchRecognize => false
  | _ => true

/-- **`Inherited`** — an ordinary node has the property if its children have it, and so has a row value.  A name without
a table has it. -/
structure Inherited (Good : Node → Prop) : Prop where
  node : ∀ {n : Node}, isOrdinary n.kind = true → (∀ c ∈ n.children, Good c) → Good n
  column : ∀ name, Good (Node.column name)
  row : ∀ {ns : List Node}, (∀ n ∈ ns, Good n) → Good (Node.call "ROW" ns)
  flipped : ∀ {n : Node}, isDeniable n.kind = true → Good n → Good (flipped n)

/-- The columns of all tables have the property. -/
def HasColumns (Good : Node → Prop) : Prop := ∀ name table, Good (Node.column name table)

variable {Good : Node → Prop}

/-- A column has the property if it inherits it from the names in it. -/
theorem HasColumns.of_children (hidentifier : ∀ s quoted, Good (Node.identifier s quoted))
    (hcolumn : ∀ {n : Node}, n.kind = .column → (∀ c ∈ n.children, Good c) → Good n) : HasColumns Good := by
  intro name table
  refine hcolumn rfl fun c hc => ?_
  cases table <;> simp only [Node.column, children, args_mk, Node.kept, Option.map_none, Option.map_some, Option.getD_none,
    Option.getD_some, List.flatMap_cons, children_node, children_missing, List.flatMap_nil, List.append_nil,
    List.singleton_append, List.mem_cons, List.not_mem_nil, or_false] at hc
  · exact hc ▸ hidentifier name false
  · rcases hc with rfl | rfl
    · exact hidentifier name false
    · exact hidentifier _ false

theorem Inherited.and {P Q : Node → Prop} (hP : Inherited P) (hQ : Inherited Q) : Inherited fun n => P n ∧ Q n where
  node := fun hkind h => ⟨hP.node hkind fun c hc => (h c hc).1, hQ.node hkind fun c hc => (h c hc).2⟩
  column := fun name => ⟨hP.column name, hQ.column name⟩
  row := fun h => ⟨hP.row fun n hn => (h n hn).1, hQ.row fun n hn => (h n hn).2⟩
  flipped := fun hkind h => ⟨hP.flipped hkind h.1, hQ.flipped hkind h.2⟩

/-- A property that is asked for on a condition only. -/
theorem Inherited.imp {P : Node → Prop} (p : Prop) (hP : Inherited P) : Inherited fun n => p → P n where
  node := fun hkind h hp => hP.node hkind fun c hc => h c hc hp
  column := fun name _ => hP.column name
  row := fun h hp => hP.row fun n hn => h n hn hp
  flipped := fun hkind h hp => hP.flipped hkind (h hp)

section Nodes

variable (hG : Inherited Good)

include hG

/-- A node that is written out. -/
theorem Inherited.of_args {kind : Kind} {args : Args} (hkind : isOrdinary kind = true)
    (h : ∀ c ∈ args.flatMap (·.2.children), Good c) : Good (.mk kind args) := hG.node hkind h

theorem Inherited.leaf {n : Node} (hkind : isOrdinary n.kind = true) (h : n.children = []) : Good n :=
  hG.node hkind (by simp [h])

/-! ## Names, constants and operations -/

theorem inherited_identifier (s : String) (quoted : Bool) : Good (Node.identifier s quoted) :=
  hG.leaf rfl rfl

theorem inherited_null : Good Node.null := hG.leaf rfl rfl

theorem inherited_string (s : String) : Good (Node.string s) := hG.leaf rfl rfl

theorem inherited_number (s : String) : Good (Node.number s) := hG.leaf rfl rfl

theorem inherited_boolean (b : Bool) : Good (Node.boolean b) := hG.leaf rfl rfl

theorem inherited_word (s : String) : Good (Node.word s) := hG.leaf rfl rfl

theorem inherited_star : Good Node.star := hG.leaf rfl rfl

theorem inherited_typedLiteral (word text : String) : Good (Node.typedLiteral word text) :=
  hG.of_args rfl (by simpa using inherited_string hG text)

theorem inherited_wrap {kind : Kind} (hkind : isOrdinary kind = true) {n : Node} (h : Good n) :
    Good (Node.wrap kind n) := hG.of_args hkind (by simpa using h)

theorem inherited_aliased {n : Node} (h : Good n) (name : String) : Good (Node.aliased n name) :=
  hG.of_args rfl (by simpa using ⟨h, inherited_identifier hG name _⟩)

theorem inherited_binary {kind : Kind} (hkind : isOrdinary kind = true) {l r : Node} (hl : Good l)
    (hr : Good r) : Good (Node.binary kind l r) := hG.of_args hkind (by simpa using ⟨hl, hr⟩)

theorem inherited_isNull {n : Node} (h : Good n) : Good (Node.isNull n) :=
  hG.of_args rfl (by simpa using ⟨h, inherited_null hG⟩)

theorem inherited_tuple {ns : List Node} (h : ∀ n ∈ ns, Good n) : Good (Node.tuple ns) :=
  hG.of_args rfl (by simpa using h)

theorem inherited_order {ns : List Node} (h : ∀ n ∈ ns, Good n) : Good (Node.order ns) :=
  hG.of_args rfl (by simpa using h)

theorem inherited_inList {n : Node} (h : Good n) {ns : List Node} (hns : ∀ m ∈ ns, Good m)
    (negated : Bool) : Good (Node.inList n ns negated) := by
  refine hG.of_args rfl fun c hc => ?_
  simp only [List.flatMap_cons, children_node, children_nodes, children_flag, List.flatMap_nil,
    List.append_nil, List.singleton_append, List.mem_cons] at hc
  rcases hc with rfl | hc
  · exact h
  · exact hns c hc

theorem inherited_foldl {kind : Kind} (hkind : isOrdinary kind = true) {ns : List Node}
    (hns : ∀ m ∈ ns, Good m) {n : Node} (hn : Good n) : Good (ns.foldl (Node.binary kind) n) := by
  induction ns generalizing n with
  | nil => exact hn
  | cons m ns ih =>
    exact ih (fun k hk => hns k (by simp [hk])) (inherited_binary hG hkind hn (hns m (by simp)))

theorem inherited_connect {kind : Kind} (hkind : isOrdinary kind = true) {unit : Node} (hunit : Good unit)
    {ns : List Node} (hns : ∀ m ∈ ns, Good m) : Good (Node.connect kind unit ns) := by
  cases ns with
  | nil => exact hunit
  | cons n ns => exact inherited_foldl hG hkind (fun m hm => hns m (by simp [hm])) (hns n (by simp))

theorem inherited_and {ns : List Node} (hns : ∀ m ∈ ns, Good m) : Good (Node.and ns) :=
  inherited_connect hG rfl (inherited_boolean hG _) hns

theorem inherited_or {ns : List Node} (hns : ∀ m ∈ ns, Good m) : Good (Node.or ns) :=
  inherited_connect hG rfl (inherited_boolean hG _) hns

theorem inherited_castNode (d : Dialect) {n : Node} (h : Good n) (t : DataType) : Good (d.castNode n t) := by
  have hparams : ∀ (s : String) (params : List String), Good (Node.dataType s params) := fun s params =>
    hG.of_args rfl fun c hc => by
      simp only [List.flatMap_cons, children_text, children_nodes, List.flatMap_nil, List.append_nil,
        List.nil_append, List.mem_map] at hc
      obtain ⟨p, -, rfl⟩ := hc
      exact inherited_number hG p
  refine hG.of_args rfl fun c hc => ?_
  simp only [List.flatMap_cons, children_node, List.flatMap_nil, List.append_nil, List.singleton_append,
    List.mem_cons, List.not_mem_nil, or_false] at hc
  rcases hc with rfl | rfl
  · exact h
  · unfold Dialect.typeSpec
    split <;> exact hparams _ _

/-! ## Calls -/

/-- A call of an operator that is written between, before or behind its operands. -/
theorem inherited_operationNode {op : Operator} {ns : List Node} {n : Node}
    (h : operationNode op ns = .ok n) (hform : op.form ≠ .function) (hns : ∀ m ∈ ns, Good m) : Good n := by
  unfold operationNode at h
  split at h
  · simp_all
  · split at h
    · rename_i kind hkind
      have hordinary : isOrdinary kind = true := by
        unfold binaryKind? at hkind
        split at hkind <;> cases hkind <;> rfl
      unfold binaryNode at h
      split at h <;> cases h
      exact inherited_binary hG hordinary (hns _ (by simp)) (hns _ (by simp))
    · cases h
    · rename_i first rest _
      have hfirst : Good first := hns first (by simp)
      have hrest : ∀ m ∈ rest, Good m := fun m hm => hns m (by simp [hm])
      have htest : ∀ negated r, Good r → Good (Node.isTest first r negated) := fun negated r hr =>
        hG.of_args rfl (by simpa using ⟨hfirst, hr⟩)
      have hnegatable : ∀ kind negated escape, isOrdinary kind = true →
          Good (negatable kind first rest negated escape) := by
        intro kind negated escape hkind
        refine hG.of_args hkind fun c hc => ?_
        simp only [List.flatMap_append, List.flatMap_cons, children_node, children_flag, List.flatMap_nil,
          List.append_nil, flatMap_optional, List.mem_append, List.mem_singleton] at hc
        rcases hc with (rfl | hc) | hc
        · exact hfirst
        · exact hrest c (List.mem_of_mem_head? (by simpa using hc))
        · split at hc
          · rw [flatMap_optional] at hc
            exact hrest c (List.mem_of_mem_drop (List.mem_of_mem_head? (by simpa using hc)))
          · cases hc
      unfold specialNode at h
      split at h <;> cases h
      · exact inherited_and hG hns
      · exact inherited_or hG hns
      · exact inherited_wrap hG rfl hfirst
      · exact inherited_wrap hG rfl hfirst
      · exact htest _ _ (inherited_null hG)
      · exact htest _ _ (inherited_null hG)
      · exact htest _ _ (inherited_boolean hG _)
      · exact htest _ _ (inherited_boolean hG _)
      · exact htest _ _ (inherited_boolean hG _)
      · exact htest _ _ (inherited_boolean hG _)
      · exact hnegatable _ _ _ rfl
      · exact hnegatable _ _ _ rfl
      · exact hnegatable _ _ _ rfl
      · exact hnegatable _ _ _ rfl
      · exact inherited_inList hG hfirst hrest _
      · exact inherited_inList hG hfirst hrest _
      · refine hG.of_args rfl fun c hc => ?_
        simp only [List.flatMap_cons, children_node, children_nodes, List.flatMap_nil, List.append_nil,
          List.singleton_append] at hc
        exact hns c hc
      · exact hG.row hns

theorem inherited_deny (source : Option OperatorKind) {n : Node} (h : Good n) : Good (deny source n) := by
  have hnot : Good (Node.not n) := inherited_wrap hG rfl h
  unfold deny
  by_cases hdeniable : isDeniable n.kind = true
  · have hflipped := hG.flipped hdeniable h
    split <;> simp only [hdeniable, if_true, Bool.false_eq_true, if_false, hnot, hflipped]
  · split <;> simp only [hdeniable, Bool.false_eq_true, if_false, hnot]

/-- The branches of a case distinction hold its conditions and values. -/
theorem inherited_branches {ns : List Node} (h : ∀ m ∈ ns, Good m) : ∀ b ∈ branches ns, Good b := by
  induction ns using branches.induct with
  | case1 condition value rest ih =>
    intro b hb
    rw [branches] at hb
    rcases List.mem_cons.mp hb with rfl | hb
    · exact hG.of_args rfl (by simpa using ⟨h condition (by simp), h value (by simp)⟩)
    · exact ih (fun m hm => h m (by simp [hm])) b hb
  | case2 ns hshort =>
    rw [branches.eq_2 _ hshort]
    simp

theorem inherited_caseNode {ns : List Node} (h : ∀ m ∈ ns, Good m) : Good (caseNode ns) := by
  have hinner : ∀ m ∈ ns.dropLast, Good m := fun m hm => h m (List.dropLast_subset _ hm)
  have hcase : ∀ (subject : Option Node) (pairs : List Node), (∀ m, subject = some m → Good m) →
      (∀ m ∈ pairs, Good m) → Good (.mk .case (Node.optional "this" subject
        ++ [("ifs", .nodes (branches pairs))] ++ Node.optional "default" ns.getLast?)) := by
    intro subject pairs hsubject hpairs
    refine hG.of_args rfl fun c hc => ?_
    simp only [List.flatMap_append, flatMap_optional, List.flatMap_cons, children_nodes, List.flatMap_nil,
      List.append_nil, List.mem_append, Option.mem_toList] at hc
    rcases hc with (hc | hc) | hc
    · exact hsubject c hc
    · exact inherited_branches hG hpairs c hc
    · exact h c (List.mem_of_mem_getLast? hc)
  unfold caseNode
  dsimp only
  split
  · exact hcase _ _ (fun m hm => hinner m (List.mem_of_mem_head? hm)) fun m hm => hinner m (List.mem_of_mem_drop hm)
  · exact hcase _ _ (fun m hm => by cases hm) hinner

theorem inherited_quantifierNode {ρ : Type} {pattern n : Node} {bounds : List (Scalar ρ)}
    (h : quantifierNode pattern bounds = .ok n) (hpattern : Good pattern) : Good n := by
  simp only [quantifierNode, bind_eq_ok_iff, pure_eq_ok_iff] at h
  obtain ⟨min, -, max, -, rfl⟩ := h
  exact hG.of_args rfl (by simpa using hpattern)

/-- A test with a sub-query has the property if the operand and the query have it. -/
theorem inherited_subQueryNode {op : Operator} {operand : Option Node} {query n : Node}
    (h : subQueryNode op operand query = .ok n) (hoperand : ∀ m, operand = some m → Good m)
    (hquery : Good query) : Good n := by
  have hsubquery : Good (Node.subquery query) := inherited_wrap hG rfl hquery
  unfold subQueryNode at h
  split at h <;> cases h
  · exact hG.of_args rfl (by simpa using ⟨hoperand _ rfl, hsubquery⟩)
  · exact hG.of_args rfl (by simpa using ⟨hoperand _ rfl, hsubquery⟩)
  · exact inherited_wrap hG rfl hquery
  · exact hsubquery

end Nodes

/-! ## Constants -/

mutual

theorem inherited_literalNode (hG : Inherited Good) (d : Dialect) : ∀ (l : Literal) {n : Node}, literalNode d l = .ok n → Good n
  | ⟨value, type⟩, n, h => by
    cases value with
    | row values =>
      simp only [literalNode, bind_eq_ok_iff, pure_eq_ok_iff] at h
      obtain ⟨ns, hns, rfl⟩ := h
      exact hG.row (inherited_literalNodes hG d values hns)
    | sarg _ => simp [literalNode] at h
    | timestamp text =>
      simp only [literalNode] at h
      split at h <;> cases h <;> exact inherited_typedLiteral hG _ _
    | interval text negative qualifier =>
      simp only [literalNode, Except.ok.injEq] at h
      subst h
      exact hG.of_args rfl (by simpa using ⟨inherited_string hG _, inherited_word hG _⟩)
    | date text =>
      simp only [literalNode, Except.ok.injEq] at h
      subst h
      exact inherited_typedLiteral hG _ _
    | time text =>
      simp only [literalNode, Except.ok.injEq] at h
      subst h
      exact inherited_typedLiteral hG _ _
    | _ =>
      simp only [literalNode, Except.ok.injEq] at h
      subst h
      exact hG.leaf rfl rfl

theorem inherited_literalNodes (hG : Inherited Good) (d : Dialect) : ∀ (ls : List Literal) {ns : List Node},
    literalNodes d ls = .ok ns → ∀ n ∈ ns, Good n
  | [], ns, h => by
    obtain rfl : [] = ns := by simpa [literalNodes] using h
    simp
  | l :: ls, ns, h => by
    simp only [literalNodes, bind_eq_ok_iff, pure_eq_ok_iff] at h
    obtain ⟨n, hn, ns, hns, rfl⟩ := h
    intro m hm
    rcases List.mem_cons.mp hm with rfl | hm
    · exact inherited_literalNode hG d l hn
    · exact inherited_literalNodes hG d ls hns m hm

end

section Constants

variable (hG : Inherited Good)

include hG

theorem inherited_literalIn {env : Env} {ctx : Context} {l : Literal} {n : Node}
    (h : literalIn env ctx l = .ok n) : Good n := by
  unfold literalIn at h
  split at h
  · cases h
    exact inherited_identifier hG _ _
  · exact inherited_literalNode hG _ l h

theorem inherited_typedNull (d : Dialect) (t : DataType) : Good (typedNull d t) := by
  unfold typedNull
  split
  · exact inherited_null hG
  · exact inherited_castNode hG d (inherited_null hG) t

/-! ## Search arguments -/

theorem inherited_endpointNode {d : Dialect} {type : DataType} {v : Value} {n : Node}
    (h : endpointNode d type v = .ok n) : Good n := by
  simp only [endpointNode, bind_eq_ok_iff] at h
  obtain ⟨l, -, h⟩ := h
  exact inherited_literalNode hG d l h

theorem inherited_compareNode {d : Dialect} {type : DataType} {operand n : Node} {kind : Kind} {v : Value}
    (hkind : isOrdinary kind = true) (hoperand : Good operand)
    (h : compareNode d type operand kind v = .ok n) : Good n := by
  simp only [compareNode, bind_eq_ok_iff, pure_eq_ok_iff] at h
  obtain ⟨e, he, rfl⟩ := h
  exact inherited_binary hG hkind hoperand (inherited_endpointNode hG he)

theorem inherited_rangeNode {d : Dialect} {type : DataType} {operand n : Node} {r : Range}
    (hoperand : Good operand) (h : rangeNode d type operand r = .ok n) : Good n := by
  simp only [rangeNode, bind_eq_ok_iff] at h
  obtain ⟨shape, -, h⟩ := h
  split at h
  · obtain rfl := (pure_eq_ok_iff _ _).mp h
    exact inherited_boolean hG _
  · exact inherited_compareNode hG rfl hoperand h
  · simp only [bind_eq_ok_iff, pure_eq_ok_iff] at h
    obtain ⟨below, hbelow, above, habove, rfl⟩ := h
    refine inherited_and hG fun m hm => ?_
    rcases List.mem_append.mp hm with hm | hm
    · refine forall_of_mapM (p := Good) hbelow (fun e _ k hk => inherited_compareNode hG ?_ hoperand hk) m hm
      split <;> rfl
    · refine forall_of_mapM (p := Good) habove (fun e _ k hk => inherited_compareNode hG ?_ hoperand hk) m hm
      split <;> rfl

theorem inherited_sargNode {d : Dialect} {type : DataType} {operand n : Node} {sarg : Sarg}
    (hoperand : Good operand) (h : sargNode d operand sarg type = .ok n) : Good n := by
  simp only [sargNode, bind_eq_ok_iff, pure_eq_ok_iff] at h
  obtain ⟨tests, htests, rfl⟩ := h
  refine inherited_or hG fun m hm => ?_
  rcases List.mem_append.mp hm with hm | hm
  · split at hm
    · obtain rfl : m = Node.isNull operand := by simpa using hm
      exact inherited_isNull hG hoperand
    · cases hm
  · simp only [rangeSetNodes, bind_eq_ok_iff] at htests
    obtain ⟨points, -, htests⟩ := htests
    split at htests
    · simp only [bind_eq_ok_iff] at htests
      obtain ⟨vs, -, htests⟩ := htests
      split at htests
      · obtain rfl := (pure_eq_ok_iff _ _).mp htests
        cases hm
      · simp only [bind_eq_ok_iff, pure_eq_ok_iff] at htests
        obtain ⟨test, htest, rfl⟩ := htests
        obtain rfl := List.mem_singleton.mp hm
        exact inherited_compareNode hG rfl hoperand htest
      · simp only [bind_eq_ok_iff, pure_eq_ok_iff] at htests
        obtain ⟨endpoints, hendpoints, rfl⟩ := htests
        obtain rfl := List.mem_singleton.mp hm
        exact inherited_inList hG hoperand
          (forall_of_mapM (p := Good) hendpoints fun v _ k hk => inherited_endpointNode hG hk) _
    · exact forall_of_mapM (p := Good) htests (fun r _ k hk => inherited_rangeNode hG hoperand hk) m hm

/-! ## Sort keys and frames -/

theorem inherited_sortKeys {d : Dialect} {tested n : Node} {direction : Direction} {nulls : NullPlacement}
    (htested : Good tested) (hn : Good n) : ∀ k ∈ sortKeys d tested n direction nulls, Good k := by
  have hordered : ∀ descending first, Good (orderedNode n descending first) := by
    intro descending first
    refine hG.of_args rfl ?_
    cases first <;> simpa using hn
  unfold sortKeys
  simp only
  split
  · simp [hordered]
  · split
    · rename_i test htest
      have hgood : Good test := by
        unfold Dialect.emulatePlacement at htest
        split at htest
        · cases htest
        · split at htest <;> cases htest
          · exact hG.of_args rfl (by simpa using inherited_isNull hG htested)
          · exact inherited_isNull hG htested
      simp [hordered, hgood]
    · simp [hordered]

theorem inherited_frameNode {rows : Bool} {start : FrameEnd} {stop : Option FrameEnd}
    (hstart : ∀ c ∈ start.offset.children, Good c)
    (hstop : ∀ e, stop = some e → ∀ c ∈ e.offset.children, Good c) : Good (frameNode rows start stop) := by
  have hargs : ∀ (key : String) (e : FrameEnd), (∀ c ∈ e.offset.children, Good c) →
      ∀ c ∈ (e.args key).flatMap (·.2.children), Good c := by
    intro key e he
    unfold FrameEnd.args
    split <;> simpa using he
  refine hG.of_args rfl fun c hc => ?_
  simp only [List.flatMap_append, List.flatMap_cons, children_text, List.flatMap_nil, List.append_nil,
    List.nil_append, List.mem_append] at hc
  rcases hc with hc | hc
  · exact hargs "start" start hstart c hc
  · cases stop with
    | none => cases hc
    | some e => exact hargs "end" e (hstop e rfl) c hc

end Constants

/-! ## Fields -/

variable {env : Env} {ctx : Context}

/-- Sort keys over input fields are fields, texts or positions. -/
theorem inherited_orderField (hG : Inherited Good) {i : Ordinal} (hfield : ∀ n, ctx.field env i = .ok n → Good n)
    {n : Node} (h : ctx.orderField env i = .ok n) : Good n := by
  unfold Context.orderField at h
  split at h
  · simp only [bind_eq_ok_iff, pure_eq_ok_iff] at h
    obtain ⟨m, hm, rfl⟩ := h
    cases hi : i.nat? with
    | none => simpa using hfield m hm
    | some k =>
      simp only [Option.map_some, Option.getD_some]
      unfold Context.sortKeyOf
      split
      · exact inherited_string hG _
      · split
        · exact inherited_number hG _
        · exact hfield m hm
  · exact hfield n h

theorem inherited_collationsNodes (hG : Inherited Good) {cs : List Collation}
    (hfield : ∀ c ∈ cs, ∀ n, ctx.field env c.key = .ok n → Good n) {ns : List Node}
    (h : collationsNodes env ctx cs = .ok ns) : ∀ n ∈ ns, Good n := by
  simp only [collationsNodes, bind_eq_ok_iff, pure_eq_ok_iff] at h
  obtain ⟨nss, hnss, rfl⟩ := h
  intro n hn
  obtain ⟨ns, hns, hmem⟩ := List.mem_flatten.mp hn
  refine forall_of_mapM (p := fun ns => ∀ n ∈ ns, Good n) hnss (fun c hc ns hns => ?_) ns hns n hmem
  simp only [collationNodes, bind_eq_ok_iff, pure_eq_ok_iff] at hns
  obtain ⟨tested, htested, key, hkey, rfl⟩ := hns
  exact inherited_sortKeys hG (hfield c hc _ htested) (inherited_orderField hG (hfield c hc) hkey)

/-- Grouping items are fields or names of select items. -/
theorem inherited_groupField (hG : Inherited Good) (hfield : ∀ i n, ctx.field env i = .ok n → Good n)
    {i : Ordinal} {n : Node} (h : ctx.groupField env i = .ok n) : Good n := by
  unfold Context.groupField at h
  split at h
  · split at h
    · split at h
      · cases h
        exact hG.column _
      · exact hfield i n h
    · exact hfield i n h
  · exact hfield i n h

theorem inherited_groupByNodes (hG : Inherited Good) (hfield : ∀ i n, ctx.field env i = .ok n → Good n)
    {keys : List Ordinal} {sets : List (List Ordinal)} {ns : List Node}
    (h : groupByNodes env ctx keys sets = .ok ns) : ∀ n ∈ ns, Good n := by
  have hkeys : ∀ {keys : List Ordinal} {ns : List Node}, keyNodes env ctx keys = .ok ns → ∀ n ∈ ns, Good n :=
    fun h => forall_of_mapM (p := Good) h fun i _ n hn => inherited_groupField hG hfield hn
  have hlist : ∀ (kind : Kind) {ns : List Node}, isOrdinary kind = true → (∀ n ∈ ns, Good n) →
      ∀ n ∈ [listNode kind ns], Good n := by
    intro kind ns hkind hns n hn
    obtain rfl := List.mem_singleton.mp hn
    exact hG.of_args hkind (by simpa using hns)
  simp only [groupByNodes] at h
  split at h
  · cases h
  split at h
  · exact hkeys h
  · simp only [bind_eq_ok_iff, pure_eq_ok_iff] at h
    obtain ⟨ms, hms, rfl⟩ := h
    exact hlist _ rfl (hkeys hms)
  · simp only [bind_eq_ok_iff, pure_eq_ok_iff] at h
    obtain ⟨ms, hms, rfl⟩ := h
    exact hlist _ rfl (hkeys hms)
  · simp only [bind_eq_ok_iff, pure_eq_ok_iff] at h
    obtain ⟨ms, hms, rfl⟩ := h
    refine hlist _ rfl (forall_of_mapM (p := Good) hms fun set _ n hn => ?_)
    unfold groupingSetNode at hn
    split at hn
    · exact inherited_groupField hG hfield hn
    · simp only [bind_eq_ok_iff, pure_eq_ok_iff] at hn
      obtain ⟨ks, hks, rfl⟩ := hn
      exact inherited_tuple hG (hkeys hks)

end AlgebraSql.Convert
