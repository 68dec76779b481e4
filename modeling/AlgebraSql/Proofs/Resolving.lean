import AlgebraSql.Proofs.Run
import AlgebraSql.Proofs.Scope

/-!
# Resolving — what is built from nodes that resolve resolves.

Only a column looks anything up, and only a SELECT and a join open a scope.  A node of any other kind
resolves exactly when the nodes in its arguments do, so every function that builds nodes keeps what
its operands have.
-/

namespace AlgebraSql.Sql.Node

/-- Every node of a list resolves. -/
def AllResolve (schema : Schema) (sc : Scope) (ns : List Node) : Prop :=
  ∀ n ∈ ns, n.resolves schema sc = true

/-- Nodes of this kind look nothing up and open no scope. -/
def isNeutral : Kind → Bool
  | .column | .select | .join => false
  | _ => true

variable {schema : Schema} {sc : Scope}

@[simp]
theorem allResolve_nil : AllResolve schema sc [] := by simp [AllResolve]

@[simp]
theorem allResolve_cons (n : Node) (ns : List Node) :
    AllResolve schema sc (n :: ns) ↔ n.resolves schema sc = true ∧ AllResolve schema sc ns := by
  simp [AllResolve]

@[simp]
theorem allResolve_append (ns ms : List Node) :
    AllResolve schema sc (ns ++ ms) ↔ AllResolve schema sc ns ∧ AllResolve schema sc ms := by
  simp [AllResolve, or_imp, forall_and]

theorem allResolve_flatten {nss : List (List Node)} (h : ∀ ns ∈ nss, AllResolve schema sc ns) :
    AllResolve schema sc nss.flatten := by
  intro n hn
  obtain ⟨ns, hns, hmem⟩ := List.mem_flatten.mp hn
  exact h ns hns n hmem

/-- **A node of a neutral kind** resolves exactly when its children do. -/
theorem resolves_iff_children {n : Node} (hn : isNeutral n.kind = true) :
    n.resolves schema sc = true ↔ AllResolve schema sc n.children := by
  have hscope : ∀ key, n.innerScope schema sc key = sc := by
    intro key
    unfold innerScope
    split <;> simp_all [isNeutral]
  have hcolumn : n.kind ≠ .column := by
    intro hk
    rw [hk] at hn
    cases hn
  rw [resolves_iff]
  simp only [hcolumn, false_implies, true_and, hscope, AllResolve, children, List.mem_flatMap,
    forall_exists_index, and_imp]
  exact ⟨fun h c p hp hc => h p hp c hc, fun h p hp c hc => h c p hp hc⟩

/-- The same for a node that is written out. -/
@[simp]
theorem resolves_mk (kind : Kind) (args : Args) (hkind : isNeutral kind = true) :
    (mk kind args).resolves schema sc = true
      ↔ AllResolve schema sc (args.flatMap (·.2.children)) :=
  resolves_iff_children hkind

/-! ## Arguments -/

@[simp] theorem children_node (n : Node) : (Arg.node n).children = [n] := rfl
@[simp] theorem children_nodes (ns : List Node) : (Arg.nodes ns).children = ns := rfl
@[simp] theorem children_text (s : String) : (Arg.text s).children = [] := rfl
@[simp] theorem children_number (q : Quantity) : (Arg.number q).children = [] := rfl
@[simp] theorem children_flag (b : Bool) : (Arg.flag b).children = [] := rfl
@[simp] theorem children_missing : Arg.missing.children = [] := rfl

@[simp]
theorem flatMap_optional (key : String) (n : Option Node) :
    (optional key n).flatMap (·.2.children) = n.toList := by
  cases n <;> simp [optional]

@[simp]
theorem children_kept (key : String) (n : Option Node) :
    (kept key n).2.children = n.toList := by
  cases n <;> rfl

/-- An argument after one was put is that one or an old one. -/
theorem mem_put {args : Args} {key : String} {a : Arg} {p : String × Arg}
    (h : p ∈ OrderedMap.put args key a) : p = (key, a) ∨ p ∈ args := by
  induction args with
  | nil => exact .inl (by simpa [OrderedMap.put] using h)
  | cons q rest ih =>
    obtain ⟨k, v⟩ := q
    unfold OrderedMap.put at h
    split at h
    · rcases List.mem_cons.mp h with h | h
      · exact .inl h
      · exact .inr (List.mem_cons_of_mem _ h)
    · rcases List.mem_cons.mp h with h | h
      · exact .inr (List.mem_cons.mpr (.inl h))
      · exact (ih h).imp_right (List.mem_cons_of_mem _)

/-- A node of a neutral kind still resolves when an argument is put that does. -/
theorem resolves_set {n : Node} (hn : isNeutral n.kind = true) {key : String} {a : Arg}
    (h : n.resolves schema sc = true) (ha : AllResolve schema sc a.children) :
    (n.set key (some a)).resolves schema sc = true := by
  rw [resolves_iff_children (by simpa using hn)]
  rw [resolves_iff_children hn] at h
  intro c hc
  obtain ⟨p, hp, hmem⟩ := List.mem_flatMap.mp hc
  rcases mem_put hp with rfl | hold
  · exact ha c hmem
  · exact h c (List.mem_flatMap.mpr ⟨p, hold, hmem⟩)

/-! ## Names, constants and operations -/

@[simp]
theorem resolves_identifier (s : String) (quoted : Bool) :
    (identifier s quoted).resolves schema sc = true := by
  simp (disch := decide) [identifier]

@[simp]
theorem resolves_null : null.resolves schema sc = true := by simp (disch := decide) [null]

@[simp]
theorem resolves_star : star.resolves schema sc = true := by simp (disch := decide) [star]

@[simp]
theorem resolves_string (s : String) : (string s).resolves schema sc = true := by
  simp (disch := decide) [string]

@[simp]
theorem resolves_number (s : String) : (number s).resolves schema sc = true := by
  simp (disch := decide) [number]

@[simp]
theorem resolves_boolean (b : Bool) : (boolean b).resolves schema sc = true := by
  simp (disch := decide) [boolean]

@[simp]
theorem resolves_word (s : String) : (word s).resolves schema sc = true := by
  simp (disch := decide) [word]

@[simp]
theorem resolves_typedLiteral (s t : String) : (typedLiteral s t).resolves schema sc = true := by
  simp (disch := decide) [typedLiteral]

@[simp]
theorem resolves_dataType (s : String) (params : List String) :
    (dataType s params).resolves schema sc = true := by
  simp (disch := decide) [dataType, AllResolve]

@[simp]
theorem resolves_wrap {kind : Kind} (hkind : isNeutral kind = true) (n : Node) :
    (wrap kind n).resolves schema sc = true ↔ n.resolves schema sc = true := by
  simp [wrap, resolves_mk _ _ hkind]

@[simp]
theorem resolves_aliased (n : Node) (s : String) :
    (aliased n s).resolves schema sc = true ↔ n.resolves schema sc = true := by
  simp (disch := decide) [aliased]

@[simp]
theorem resolves_dot (n : Node) (s : String) :
    (dot n s).resolves schema sc = true ↔ n.resolves schema sc = true := by
  simp (disch := decide) [dot]

@[simp]
theorem resolves_binary {kind : Kind} (hkind : isNeutral kind = true) (l r : Node) :
    (binary kind l r).resolves schema sc = true
      ↔ l.resolves schema sc = true ∧ r.resolves schema sc = true := by
  simp [binary, resolves_mk _ _ hkind]

/-- Operations from left to right resolve as their operands do. -/
theorem resolves_foldl_binary {kind : Kind} (hkind : isNeutral kind = true) (ns : List Node)
    (n : Node) :
    (ns.foldl (binary kind) n).resolves schema sc = true
      ↔ n.resolves schema sc = true ∧ AllResolve schema sc ns := by
  induction ns generalizing n with
  | nil => simp
  | cons m ns ih => simp [ih, resolves_binary hkind, and_assoc]

theorem resolves_connect {kind : Kind} (hkind : isNeutral kind = true) {unit : Node}
    (hunit : unit.resolves schema sc = true) (ns : List Node) :
    (connect kind unit ns).resolves schema sc = true ↔ AllResolve schema sc ns := by
  cases ns with
  | nil => simpa [connect] using hunit
  | cons n ns => simp [connect, resolves_foldl_binary hkind]

@[simp]
theorem resolves_and (ns : List Node) :
    (and ns).resolves schema sc = true ↔ AllResolve schema sc ns :=
  resolves_connect rfl (resolves_boolean _) ns

@[simp]
theorem resolves_or (ns : List Node) :
    (or ns).resolves schema sc = true ↔ AllResolve schema sc ns :=
  resolves_connect rfl (resolves_boolean _) ns

@[simp]
theorem resolves_not (n : Node) :
    (not n).resolves schema sc = true ↔ n.resolves schema sc = true := resolves_wrap rfl n

@[simp]
theorem resolves_neg (n : Node) :
    (neg n).resolves schema sc = true ↔ n.resolves schema sc = true := resolves_wrap rfl n

@[simp]
theorem resolves_isTest (l r : Node) (negated : Bool) :
    (isTest l r negated).resolves schema sc = true
      ↔ l.resolves schema sc = true ∧ r.resolves schema sc = true := by
  simp (disch := decide) [isTest]

@[simp]
theorem resolves_isNull (n : Node) :
    (isNull n).resolves schema sc = true ↔ n.resolves schema sc = true := by
  simp (disch := decide) [isNull]

@[simp]
theorem resolves_inList (n : Node) (ns : List Node) (negated : Bool) :
    (inList n ns negated).resolves schema sc = true
      ↔ n.resolves schema sc = true ∧ AllResolve schema sc ns := by
  simp (disch := decide) [inList]

@[simp]
theorem resolves_inQuery (n query : Node) (negated : Bool) :
    (inQuery n query negated).resolves schema sc = true
      ↔ n.resolves schema sc = true ∧ query.resolves schema sc = true := by
  simp (disch := decide) [inQuery]

@[simp]
theorem resolves_call (s : String) (ns : List Node) :
    (call s ns).resolves schema sc = true ↔ AllResolve schema sc ns := by
  simp (disch := decide) [call]

@[simp]
theorem resolves_aggregate (s : String) (ns : List Node) (distinct : Bool) :
    (aggregate s ns distinct).resolves schema sc = true ↔ AllResolve schema sc ns := by
  simp (disch := decide) [aggregate]

@[simp]
theorem resolves_tuple (ns : List Node) :
    (tuple ns).resolves schema sc = true ↔ AllResolve schema sc ns := by
  simp (disch := decide) [tuple]

@[simp]
theorem resolves_branch (l r : Node) :
    (branch l r).resolves schema sc = true
      ↔ l.resolves schema sc = true ∧ r.resolves schema sc = true := by
  simp (disch := decide) [branch]

@[simp]
theorem resolves_order (ns : List Node) :
    (order ns).resolves schema sc = true ↔ AllResolve schema sc ns := by
  simp (disch := decide) [order]

@[simp]
theorem resolves_subquery (n : Node) :
    (subquery n).resolves schema sc = true ↔ n.resolves schema sc = true := resolves_wrap rfl n

@[simp]
theorem resolves_tableAlias (s : String) (columns : List String) :
    (tableAlias s columns).resolves schema sc = true := by
  unfold tableAlias
  split <;> simp (disch := decide) [AllResolve]

end AlgebraSql.Sql.Node

namespace AlgebraSql

open Sql Node

variable {schema : Schema} {sc : Scope}

namespace Dialect

@[simp]
theorem resolves_typeSpec (d : Dialect) (t : DataType) :
    (d.typeSpec t).resolves schema sc = true := by
  unfold typeSpec
  split <;> simp

@[simp]
theorem resolves_castNode (d : Dialect) (n : Node) (t : DataType) :
    (d.castNode n t).resolves schema sc = true ↔ n.resolves schema sc = true := by
  simp (disch := decide) [castNode]

end Dialect

namespace Convert

/-! ## Calls -/

/-- An operation resolves if its operands do. -/
theorem resolves_operationNode {op : Operator} {ns : List Node} {n : Node}
    (h : operationNode op ns = .ok n) (hns : AllResolve schema sc ns) :
    n.resolves schema sc = true := by
  unfold operationNode at h
  split at h
  · cases h
    split <;> simpa using hns
  · split at h
    · rename_i kind hkind
      have hneutral : isNeutral kind = true := by
        unfold binaryKind? at hkind
        split at hkind <;> cases hkind <;> rfl
      unfold binaryNode at h
      split at h
      · cases h
        simpa [resolves_binary hneutral] using hns
      · cases h
    · cases h
    · rename_i first rest hkind
      rw [allResolve_cons] at hns
      have hhead : AllResolve schema sc rest.head?.toList := fun n hn =>
        hns.2 n (List.mem_of_mem_head? (by simpa using hn))
      have hescape : AllResolve schema sc rest[1]?.toList := fun n hn =>
        hns.2 n (List.mem_of_getElem? (by simpa using hn))
      unfold specialNode at h
      split at h <;> cases h <;>
        simp (disch := decide) [negatable, hns, hhead, hescape]

/-- A denial resolves if what it denies does. -/
theorem resolves_deny (source : Option OperatorKind) {n : Node} (h : n.resolves schema sc = true) :
    (deny source n).resolves schema sc = true := by
  have hflipped : isDeniable n.kind = true → (flipped n).resolves schema sc = true := by
    intro hdeniable
    refine resolves_set ?_ h (by simp)
    cases hk : n.kind <;> simp_all [isDeniable, isNeutral]
  unfold deny
  by_cases hdeniable : isDeniable n.kind = true
  · have := hflipped hdeniable
    split <;> simp [hdeniable, this, h]
  · split <;> simp [hdeniable, h]

/-- The branches of a case distinction resolve if its operands do. -/
theorem allResolve_branches {ns : List Node} (h : AllResolve schema sc ns) :
    AllResolve schema sc (branches ns) := by
  induction ns using branches.induct with
  | case1 condition value rest ih =>
    simp only [allResolve_cons] at h
    simp [branches, h, ih h.2.2]
  | case2 ns hshort =>
    rw [branches.eq_2 _ hshort]
    exact allResolve_nil

theorem resolves_caseNode {ns : List Node} (h : AllResolve schema sc ns) :
    (caseNode ns).resolves schema sc = true := by
  have hinner : AllResolve schema sc ns.dropLast := fun n hn => h n (List.dropLast_subset _ hn)
  have hsubject : AllResolve schema sc ns.dropLast.head?.toList := fun n hn =>
    hinner n (List.mem_of_mem_head? (by simpa using hn))
  have hpairs : AllResolve schema sc (ns.dropLast.drop 1) := fun n hn =>
    hinner n (List.mem_of_mem_drop hn)
  have hdefault : AllResolve schema sc ns.getLast?.toList := fun n hn =>
    h n (List.mem_of_mem_getLast? (by simpa using hn))
  unfold caseNode
  simp only
  split <;>
    simp (disch := decide) [hsubject, hdefault, allResolve_branches hinner,
      allResolve_branches hpairs, -List.drop_one]

/-- A test with a sub-query resolves if the operand and the query do. -/
theorem resolves_subQueryNode {op : Operator} {operand : Option Node} {query n : Node}
    (h : subQueryNode op operand query = .ok n)
    (hoperand : ∀ m, operand = some m → m.resolves schema sc = true)
    (hquery : query.resolves schema sc = true) : n.resolves schema sc = true := by
  unfold subQueryNode at h
  split at h <;> cases h
  · simpa [hquery] using hoperand _ rfl
  · simpa [hquery] using hoperand _ rfl
  · simpa (disch := decide) using hquery
  · simpa using hquery

theorem resolves_quantifierNode {ρ : Type} {pattern n : Node} {bounds : List (Scalar ρ)}
    (h : quantifierNode pattern bounds = .ok n) (hpattern : pattern.resolves schema sc = true) :
    n.resolves schema sc = true := by
  simp only [quantifierNode, bind_eq_ok_iff, pure_eq_ok_iff] at h
  obtain ⟨min, -, max, -, rfl⟩ := h
  simpa (disch := decide) using hpattern

/-! ## Constants -/

mutual

/-- A constant refers to nothing. -/
theorem resolves_literalNode (d : Dialect) : ∀ (l : Literal) {n : Node},
    literalNode d l = .ok n → n.resolves schema sc = true
  | ⟨value, type⟩, n, h => by
    cases value with
    | row values =>
      simp only [literalNode, bind_eq_ok_iff, pure_eq_ok_iff] at h
      obtain ⟨ns, hns, rfl⟩ := h
      simpa using allResolve_literalNodes d values hns
    | sarg _ => simp [literalNode] at h
    | timestamp text =>
      simp only [literalNode] at h
      split at h <;> cases h <;> simp [Dialect.timestampLiteral]
    | _ =>
      simp only [literalNode, Except.ok.injEq] at h
      subst h
      simp (disch := decide) [Dialect.dateLiteral, Dialect.timeLiteral]

/-- Constants refer to nothing. -/
theorem allResolve_literalNodes (d : Dialect) : ∀ (ls : List Literal) {ns : List Node},
    literalNodes d ls = .ok ns → AllResolve schema sc ns
  | [], ns, h => by
    cases h
    exact allResolve_nil
  | l :: ls, ns, h => by
    simp only [literalNodes, bind_eq_ok_iff, pure_eq_ok_iff] at h
    obtain ⟨n, hn, ms, hms, rfl⟩ := h
    exact (allResolve_cons _ _).mpr ⟨resolves_literalNode d l hn, allResolve_literalNodes d ls hms⟩

end

theorem resolves_literalIn {env : Env} {ctx : Context} {l : Literal} {n : Node}
    (h : literalIn env ctx l = .ok n) : n.resolves schema sc = true := by
  unfold literalIn at h
  split at h
  · cases h
    exact resolves_identifier _ _
  · exact resolves_literalNode _ _ h

@[simp]
theorem resolves_typedNull (d : Dialect) (t : DataType) :
    (typedNull d t).resolves schema sc = true := by
  unfold typedNull
  split <;> simp

/-! ## Search -/

theorem resolves_endpointNode {d : Dialect} {type : DataType} {v : Value} {n : Node}
    (h : endpointNode d type v = .ok n) : n.resolves schema sc = true := by
  simp only [endpointNode, bind_eq_ok_iff] at h
  obtain ⟨l, -, h⟩ := h
  exact resolves_literalNode d l h

theorem resolves_compareNode {d : Dialect} {type : DataType} {operand n : Node} {kind : Kind}
    {v : Value} (hkind : isNeutral kind = true) (h : compareNode d type operand kind v = .ok n)
    (hoperand : operand.resolves schema sc = true) : n.resolves schema sc = true := by
  simp only [compareNode, bind_eq_ok_iff, pure_eq_ok_iff] at h
  obtain ⟨m, hm, rfl⟩ := h
  exact (resolves_binary hkind _ _).mpr ⟨hoperand, resolves_endpointNode hm⟩

theorem resolves_rangeNode {d : Dialect} {type : DataType} {operand n : Node} {r : Range}
    (h : rangeNode d type operand r = .ok n) (hoperand : operand.resolves schema sc = true) :
    n.resolves schema sc = true := by
  unfold rangeNode at h
  simp only [bind_eq_ok_iff] at h
  obtain ⟨shape, -, h⟩ := h
  split at h
  · cases h
    exact resolves_boolean _
  · exact resolves_compareNode rfl h hoperand
  · simp only [bind_eq_ok_iff, pure_eq_ok_iff] at h
    obtain ⟨below, hbelow, above, habove, rfl⟩ := h
    rw [resolves_and, allResolve_append]
    constructor
    · refine forall_of_mapM hbelow fun e _ m hm => ?_
      unfold lowerNode at hm
      split at hm <;> exact resolves_compareNode rfl hm hoperand
    · refine forall_of_mapM habove fun e _ m hm => ?_
      unfold upperNode at hm
      split at hm <;> exact resolves_compareNode rfl hm hoperand

/-- The test of a search argument resolves if what it tests does. -/
theorem resolves_sargNode {d : Dialect} {type : DataType} {operand n : Node} {sarg : Sarg}
    (h : sargNode d operand sarg type = .ok n) (hoperand : operand.resolves schema sc = true) :
    n.resolves schema sc = true := by
  simp only [sargNode, bind_eq_ok_iff, pure_eq_ok_iff] at h
  obtain ⟨tests, htests, rfl⟩ := h
  have hall : AllResolve schema sc tests := by
    unfold rangeSetNodes at htests
    simp only [bind_eq_ok_iff] at htests
    obtain ⟨points, -, htests⟩ := htests
    split at htests
    · simp only [bind_eq_ok_iff] at htests
      obtain ⟨vs, -, htests⟩ := htests
      split at htests
      · cases htests
        exact allResolve_nil
      · simp only [bind_eq_ok_iff, pure_eq_ok_iff] at htests
        obtain ⟨m, hm, rfl⟩ := htests
        simpa using resolves_compareNode rfl hm hoperand
      · simp only [bind_eq_ok_iff, pure_eq_ok_iff] at htests
        obtain ⟨ms, hms, rfl⟩ := htests
        have hpoints : AllResolve schema sc ms :=
          forall_of_mapM hms fun v _ m hm => resolves_endpointNode hm
        simp [hoperand, hpoints]
    · exact forall_of_mapM htests fun r _ m hm => resolves_rangeNode hm hoperand
  rw [resolves_or, allResolve_append]
  refine ⟨?_, hall⟩
  split <;> simp [hoperand]

/-! ## Sort keys -/

/-- The sort keys for a key resolve if what they test and what they sort by do. -/
theorem allResolve_sortKeys {d : Dialect} {tested n : Node} {direction : Direction}
    {nulls : NullPlacement} (htested : tested.resolves schema sc = true)
    (hn : n.resolves schema sc = true) :
    AllResolve schema sc (sortKeys d tested n direction nulls) := by
  have hordered : ∀ descending first, (orderedNode n descending first).resolves schema sc = true := by
    intro descending first
    unfold orderedNode
    split <;> simp (disch := decide) [hn]
  unfold sortKeys
  simp only
  split
  · simp [hordered]
  · split
    · rename_i test htest
      have hresolves : test.resolves schema sc = true := by
        unfold Dialect.emulatePlacement at htest
        split at htest
        · cases htest
        · split at htest <;> cases htest <;> simp (disch := decide) [htested]
      simp [hordered, hresolves]
    · simp [hordered]

/-! ## Windows -/

theorem resolves_windowedNode {op : Operator} {args : List Node} {distinct : Bool}
    {parts : WindowParts} (hargs : AllResolve schema sc args)
    (hpartition : AllResolve schema sc parts.partition)
    (horder : AllResolve schema sc parts.order)
    (hframe : ∀ n, parts.frame = some n → n.resolves schema sc = true) :
    (windowedNode op args distinct parts).resolves schema sc = true := by
  have hspec : AllResolve schema sc parts.frame.toList := fun n hn => hframe n (by simpa using hn)
  have hover : ∀ name, (overNode name args distinct parts).resolves schema sc = true := by
    intro name
    unfold overNode
    split <;> simp (disch := decide) [hargs, hpartition, horder, hspec]
  unfold windowedNode
  split <;> simp [orZero, hover]

theorem resolves_frameNode {rows : Bool} {start : FrameEnd} {stop : Option FrameEnd}
    (hstart : AllResolve schema sc start.offset.children)
    (hstop : ∀ e, stop = some e → AllResolve schema sc e.offset.children) :
    (frameNode rows start stop).resolves schema sc = true := by
  have hargs : ∀ (key : String) (e : FrameEnd), AllResolve schema sc e.offset.children →
      AllResolve schema sc ((e.args key).flatMap (·.2.children)) := by
    intro key e he
    unfold FrameEnd.args
    split <;> simpa using he
  unfold frameNode
  cases stop with
  | none => simpa (disch := decide) using hargs "start" start hstart
  | some e => simp (disch := decide) [hargs "start" start hstart, hargs "end" e (hstop e rfl)]

end Convert

end AlgebraSql
