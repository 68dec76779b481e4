import AlgebraSql.Proofs.CallNesting
import AlgebraSql.Proofs.Sources

/-!
# Table qualifiers — the tables that the columns of a statement name.

Where a table has no alias of its own accord, a column can name a table only by an alias that is written: that of an
item behind FROM, of the SELECT to which the column belongs or of a SELECT around it that has this one in an expression.
A query behind FROM sees nothing of the SELECT that reads from it.
-/

namespace AlgebraSql.Sql.Node

open AlgebraSql.Convert

/-! ## Aliases -/

/-- The alias that is written behind an item of a FROM clause. -/
def ownAlias (n : Node) : List String := if n.isFromItem && n.hasAlias then [n.aliasName] else []

/-- The aliases behind the items of a FROM clause, from those in the children of a node. -/
def aliasStep (kind : Kind) (args : Args) (parts : OrderedMap (List (List String))) : List String :=
  ownAlias (.mk kind args) ++
    if passesOn kind then (parts.filter fun p => readsAt kind p.1).flatMap (·.2.flatten) else []

/-- The aliases behind the items of a FROM clause: those of the clause of a SELECT, or those in an item. -/
def itemAliases (n : Node) : List String := n.fold aliasStep

theorem itemAliases_eq (n : Node) :
    n.itemAliases = n.ownAlias ++ if passesOn n.kind then
      (n.args.filter fun p => readsAt n.kind p.1).flatMap fun p => p.2.children.flatMap itemAliases else [] := by
  obtain ⟨kind, args⟩ := n
  rw [itemAliases, fold_mk]
  simp only [aliasStep, childValues, kind_mk, args_mk, List.filter_map, List.map_map, Function.comp_def, List.flatMap_def]
  rfl

theorem itemAliases_wrapFrom (item : Node) : (wrap .from item).itemAliases = item.itemAliases := by
  rw [itemAliases_eq]
  simp [wrap, ownAlias, isFromItem, passesOn, Arg.children]

@[simp]
theorem itemAliases_selectFrom (item : Node) : (selectFrom item).itemAliases = item.itemAliases := by
  rw [itemAliases_eq]
  simp [selectFrom, ownAlias, isFromItem, passesOn, Arg.children, itemAliases_wrapFrom]

@[simp]
theorem itemAliases_existenceQuery (item condition : Node) :
    (existenceQuery item condition).itemAliases = item.itemAliases := by
  rw [itemAliases_eq]
  simp [existenceQuery, ownAlias, isFromItem, passesOn, Arg.children, itemAliases_wrapFrom]

/-- What a SELECT reads from decides about its aliases. -/
theorem itemAliases_set {n : Node} (hkind : n.kind = .select) {key : String} (hkey : key ≠ "from") (a : Arg) :
    (n.set key (some a)).itemAliases = n.itemAliases := by
  have hreads : readsAt n.kind key = false := by simp [hkind, hkey]
  have hown : ∀ m : Node, m.kind = .select → m.ownAlias = [] := fun m hm => by simp [ownAlias, isFromItem, hm]
  rw [itemAliases_eq, itemAliases_eq n, kind_set, hown n hkind, hown _ (by simpa using hkind)]
  rw [show (n.set key (some a)).args = n.args.put key a from rfl, filter_put hreads]

/-! ## Visible tables -/

/-- The tables that an argument of a node sees, given those that the node sees: a clause sees the items of its SELECT,
and the condition of a join what is joined. -/
def visibleAt (n : Node) (visible : List String) (key : String) : List String :=
  match n.kind with
  | .select => if key = "from" then visible else n.itemAliases ++ visible
  | .join => if key = "on" then n.itemAliases ++ visible else visible
  | _ => visible

/-- The columns in a node name visible tables only, from the same of its children. -/
def findsStep (kind : Kind) (args : Args) (parts : OrderedMap (List (List String → Bool))) (visible : List String) :
    Bool :=
  let n := Node.mk kind args
  (kind != .column || (n.child? "table").all fun t => visible.contains t.name)
    && parts.all fun p => p.2.all fun child => child (n.visibleAt visible p.1)

/-- **`findsTables`** — every table that a column in a node names is visible. -/
def findsTables (n : Node) : List String → Bool := n.fold findsStep

variable {n : Node} {visible visible' : List String}

theorem findsTables_iff (n : Node) (visible : List String) : n.findsTables visible = true ↔
    (n.kind = .column → ∀ t, n.child? "table" = some t → t.name ∈ visible)
      ∧ ∀ p ∈ n.args, ∀ c ∈ p.2.children, c.findsTables (n.visibleAt visible p.1) = true := by
  obtain ⟨kind, args⟩ := n
  rw [findsTables, fold_mk]
  simp only [findsStep, Bool.and_eq_true, Bool.or_eq_true, bne_iff_ne, List.all_eq_true, childValues,
    List.forall_mem_map, kind_mk, args_mk, findsTables, Option.all_eq_true, List.contains_iff_mem]
  exact and_congr_left fun _ => imp_iff_not_or.symm

theorem visibleAt_subset (n : Node) (h : visible ⊆ visible') (key : String) :
    n.visibleAt visible key ⊆ n.visibleAt visible' key := by
  have happend : n.itemAliases ++ visible ⊆ n.itemAliases ++ visible' := List.append_subset.mpr
    ⟨List.subset_append_left _ _, fun v hv => List.mem_append_right _ (h hv)⟩
  unfold visibleAt
  split
  · split
    · exact h
    · exact happend
  · split
    · exact happend
    · exact h
  · exact h

theorem subset_visibleAt (n : Node) (visible : List String) (key : String) : visible ⊆ n.visibleAt visible key := by
  unfold visibleAt
  split
  · split
    · exact List.Subset.refl _
    · exact List.subset_append_right _ _
  · split
    · exact List.subset_append_right _ _
    · exact List.Subset.refl _
  · exact List.Subset.refl _

/-- More tables may be visible. -/
theorem findsTables_mono (h : n.findsTables visible = true) (hsubset : visible ⊆ visible') :
    n.findsTables visible' = true := by
  have hmono : ∀ f : List String → Bool, f = n.findsTables →
      ∀ v v' : List String, v ⊆ v' → f v = true → f v' = true := by
    rintro f rfl
    -- the induction is on the node, for any two lists: below a SELECT both have the aliases of its items in front
    refine fold_induction (P := fun f : List String → Bool => ∀ v v', v ⊆ v' → f v = true → f v' = true) ?_ n
    intro kind args parts hparts v v' hvv' hv
    simp only [findsStep, Bool.and_eq_true, Bool.or_eq_true, bne_iff_ne, List.all_eq_true, Option.all_eq_true,
      List.contains_iff_mem] at hv ⊢
    refine ⟨hv.1.imp_right fun htable t ht => hvv' (htable t ht), fun p hp child hchild => ?_⟩
    exact hparts p hp child hchild _ _ (visibleAt_subset _ hvv' p.1) (hv.2 p hp child hchild)
  exact hmono _ rfl visible visible' hsubset h

/-- A node without tables to name sees as much as it likes. -/
theorem findsTables_of_nil (h : n.findsTables [] = true) (visible : List String) : n.findsTables visible = true :=
  findsTables_mono h (List.nil_subset _)

/-- Any node but a column names what its children name. -/
theorem findsTables_of_children (hkind : n.kind ≠ .column) (h : ∀ c ∈ n.children, c.findsTables visible = true) :
    n.findsTables visible = true := by
  refine (findsTables_iff n visible).mpr ⟨fun hcolumn => absurd hcolumn hkind, fun p hp c hc => ?_⟩
  exact findsTables_mono (h c (List.mem_flatMap.mpr ⟨p, hp, hc⟩)) (subset_visibleAt n visible p.1)

/-- Kinds of nodes whose children see what the node sees. -/
def seesAlike : Kind → Bool
  | .select | .join => false
  | _ => true

theorem findsTables_child (h : n.findsTables visible = true) (hkind : seesAlike n.kind = true) {c : Node}
    (hc : c ∈ n.children) : c.findsTables visible = true := by
  obtain ⟨p, hp, hmem⟩ := List.mem_flatMap.mp hc
  have hchild := ((findsTables_iff n visible).mp h).2 p hp c hmem
  have hsame : n.visibleAt visible p.1 = visible := by
    unfold visibleAt
    split <;> simp_all [seesAlike]
  rwa [hsame] at hchild

/-- What is put into a node whose children see what it sees has to see no more. -/
theorem findsTables_setAlike (hcolumn : n.kind ≠ .column) (halike : seesAlike n.kind = true)
    (h : n.findsTables visible = true) {key : String} {a : Arg} (ha : ∀ c ∈ a.children, c.findsTables visible = true) :
    (n.set key (some a)).findsTables visible = true := by
  refine findsTables_of_children (by simpa using hcolumn) fun c hc => ?_
  obtain ⟨p, hp, hmem⟩ := List.mem_flatMap.mp hc
  rcases mem_put hp with rfl | hold
  · exact ha c hmem
  · exact findsTables_child h halike (List.mem_flatMap.mpr ⟨p, hold, hmem⟩)

theorem findsTables_of_args {kind : Kind} {args : Args} (hkind : kind ≠ .column)
    (h : ∀ c ∈ args.flatMap (·.2.children), c.findsTables visible = true) : (mk kind args).findsTables visible = true :=
  findsTables_of_children hkind h

theorem findsTables_identifier (s : String) (quoted : Bool) : (identifier s quoted).findsTables visible = true :=
  findsTables_of_args (by decide) (by simp)

/-- A column names its table. -/
theorem findsTables_column {name : String} {table : Option String} (h : ∀ t, table = some t → t ∈ visible) :
    (column name table).findsTables visible = true := by
  refine (findsTables_iff _ _).mpr ⟨fun _ t ht => ?_, fun p hp c hc => ?_⟩
  · rw [child?_column] at ht
    obtain ⟨name, htable, rfl⟩ := Option.map_eq_some_iff.mp ht
    rw [name_identifier]
    exact h name htable
  · obtain ⟨s, rfl⟩ : ∃ s, c = identifier s := by
      simp only [column, args_mk, kept, List.mem_cons, List.not_mem_nil, or_false] at hp
      rcases hp with rfl | rfl
      · exact ⟨name, by simpa using hc⟩
      · cases table with
        | none => simp at hc
        | some t => exact ⟨t, by simpa using hc⟩
    exact findsTables_identifier s false

theorem findsTables_wrap {kind : Kind} (hkind : kind ≠ .column) (h : n.findsTables visible = true) :
    (wrap kind n).findsTables visible = true := findsTables_of_args hkind (by simpa using h)

theorem findsTables_tableAlias (name : String) (columns : List String) :
    (tableAlias name columns).findsTables visible = true := by
  refine findsTables_of_args (by decide) fun c hc => ?_
  obtain ⟨s, rfl⟩ : ∃ s, identifier s = c := by
    simp only [List.flatMap_cons, children_node, List.flatMap_nil, List.append_nil, List.mem_append,
      List.mem_singleton] at hc
    rcases hc with rfl | hc
    · exact ⟨name, rfl⟩
    · split at hc
      · cases hc
      · obtain ⟨s, -, rfl⟩ := List.mem_map.mp hc
        exact ⟨s, rfl⟩
  exact findsTables_identifier s false

/-! ## Queries -/

/-- The clauses of a SELECT see the items behind its FROM. -/
theorem findsTables_clause (hkind : n.kind = .select) (h : n.findsTables visible = true) {p : String × Arg}
    (hp : p ∈ n.args) (hkey : p.1 ≠ "from") {c : Node} (hc : c ∈ p.2.children) :
    c.findsTables (n.itemAliases ++ visible) = true := by
  have hclause := ((findsTables_iff n visible).mp h).2 p hp c hc
  simpa only [visibleAt, hkind, if_neg hkey] using hclause

/-- A clause that is put into a SELECT sees the items behind its FROM. -/
theorem findsTables_set (hkind : n.kind = .select) (h : n.findsTables visible = true) {key : String}
    (hkey : key ≠ "from") {a : Arg} (ha : ∀ c ∈ a.children, c.findsTables (n.itemAliases ++ visible) = true) :
    (n.set key (some a)).findsTables visible = true := by
  have hkind' : (n.set key (some a)).kind = .select := by rwa [kind_set]
  refine (findsTables_iff _ _).mpr ⟨fun hcolumn => by simp [hkind'] at hcolumn, fun p hp c hc => ?_⟩
  -- the items behind FROM stay, and so does what the other clauses see
  have hvisible : (n.set key (some a)).visibleAt visible p.1 = n.visibleAt visible p.1 := by
    simp only [visibleAt, hkind, hkind', itemAliases_set hkind hkey]
  rw [hvisible]
  rcases mem_put hp with rfl | hold
  · simpa only [visibleAt, hkind, if_neg hkey] using ha c hc
  · exact ((findsTables_iff n visible).mp h).2 p hold c hc

theorem findsTables_selectFrom (h : n.findsTables visible = true) : (selectFrom n).findsTables visible = true :=
  findsTables_of_args (by decide) (by simpa using findsTables_wrap (by decide) h)

/-- The condition of a test for partners sees the partners and what the test sees. -/
theorem findsTables_existenceQuery {item condition : Node} (hitem : item.findsTables visible = true)
    (hcondition : condition.findsTables (item.itemAliases ++ visible) = true) :
    (existenceQuery item condition).findsTables visible = true := by
  refine (findsTables_iff _ _).mpr ⟨fun hcolumn => (by cases hcolumn), fun p hp c hc => ?_⟩
  have hvisible : ∀ key, key ≠ "from" →
      (existenceQuery item condition).visibleAt visible key = item.itemAliases ++ visible := by
    intro key hkey
    rw [visibleAt, show (existenceQuery item condition).kind = .select from rfl]
    simp only [if_neg hkey, itemAliases_existenceQuery]
  simp only [existenceQuery, args_mk, List.mem_cons, List.not_mem_nil, or_false] at hp
  rcases hp with rfl | rfl | rfl
  · obtain rfl : c = number "1" := by simpa using hc
    exact findsTables_of_args (by decide) (by simp)
  · obtain rfl : c = wrap .from item := by simpa using hc
    exact findsTables_wrap (by decide) hitem
  · obtain rfl : c = wrap .where condition := by simpa using hc
    rw [hvisible "where" (by decide)]
    exact findsTables_wrap (by decide) hcondition

/-- Set operations name what their branches name. -/
theorem findsTables_setOperations {kind : Kind} (hkind : kind ≠ .column) {ns : List Node}
    (hns : ∀ m ∈ ns, m.findsTables visible = true) (h : n.findsTables visible = true) (distinct : Bool) :
    (ns.foldl (fun u n => setOperation kind u n distinct) n).findsTables visible = true := by
  induction ns generalizing n with
  | nil => exact h
  | cons m ns ih =>
    refine ih (fun q hq => hns q (List.mem_cons_of_mem _ hq)) (findsTables_of_args hkind ?_)
    simpa using ⟨h, hns m List.mem_cons_self⟩

/-- What becomes an item behind FROM has the alias under which it is put there, and names no other tables. -/
theorem findsTables_asFromItem {item : Node} {name : String} (h : n.findsTables visible = true)
    (hitem : n.asFromItem name = .ok item) :
    item.findsTables visible = true ∧ name ∈ item.itemAliases ∧ item.hasAlias = true
      ∧ item.isFromItem = true := by
  have hnamed : ∀ m : Node, m.isFromItem = true → m.child? "alias" ≠ none → m.aliasName = name →
      name ∈ m.itemAliases := by
    intro m hm halias hname
    have hhas : m.hasAlias = true := Option.isSome_iff_ne_none.mpr halias
    rw [itemAliases_eq, ownAlias, hm, hhas, hname]
    simp
  unfold asFromItem at hitem
  split at hitem
  · -- an item behind FROM gets another alias, and anything else is put in parentheses
    rename_i hfrom
    obtain rfl := Except.ok.inj hitem
    have hkinds : n.kind ≠ .column ∧ seesAlike n.kind = true := by
      unfold isFromItem at hfrom
      split at hfrom <;> simp_all [seesAlike]
    obtain ⟨hcolumn, halike⟩ := hkinds
    have hfrom' : (n.set "alias" (some (.node (tableAlias name n.aliasColumns)))).isFromItem = true := by
      simpa only [isFromItem, kind_set] using hfrom
    have hhas : (n.set "alias" (some (.node (tableAlias name n.aliasColumns)))).hasAlias = true := by simp [hasAlias]
    refine ⟨findsTables_setAlike hcolumn halike h ?_, hnamed _ hfrom' (by simp) (aliasName_set n name _), hhas, hfrom'⟩
    simpa using findsTables_tableAlias _ _
  · split at hitem
    · obtain rfl := Except.ok.inj hitem
      refine ⟨findsTables_of_args (by decide) ?_, hnamed _ rfl (by simp [child?]) ?_, by simp [hasAlias, child?], rfl⟩
      · simpa using ⟨h, findsTables_tableAlias name []⟩
      · simp [aliasName, nameUnder]
    · cases hitem

end AlgebraSql.Sql.Node

namespace AlgebraSql

/-- The check lets no reference to rows around and no pattern variable pass. -/
structure PlanCheck.Inward (k : PlanCheck) : Prop where
  call : ∀ fields op operands t, k.expression fields (.call op operands t) = true
  correlation : ∀ fields id t, k.expression fields (.correlation id t) = false
  patternField : ∀ fields symbol i t, k.expression fields (.patternField symbol i t) = false

namespace Convert

open Sql Node

variable {env : Env} {sub : Rel → ConvertM Node} {ctx : Context} {n : Node} {visible : List String}

/-! ## Expressions -/

/-- Expressions name the tables that their parts name. -/
theorem inherited_findsTables (visible : List String) : Inherited fun n => n.findsTables visible = true where
  node := fun {n} hkind h => findsTables_of_children (by rintro heq; rw [heq] at hkind; cases hkind) h
  column := fun name => findsTables_column (by simp)
  row := fun h => findsTables_of_args (by decide) (by simpa using h)
  flipped := fun {n} hkind hn => by
    have hkinds : n.kind ≠ .column ∧ seesAlike n.kind = true := by
      revert hkind
      cases n.kind <;> simp [isDeniable, seesAlike]
    obtain ⟨hcolumn, halike⟩ := hkinds
    exact findsTables_setAlike hcolumn halike hn fun c hc => by cases hc

/-- The fields of named inputs name the inputs. -/
theorem findsTables_aliasField (henv : env.fieldMap = []) {inputs : Aliases} (hinputs : ∀ p ∈ inputs, p.1 ∈ visible)
    (qualified : Bool) : FieldsHave (fun n => n.findsTables visible = true) env (.aliases inputs qualified) := by
  intro i n hn
  obtain ⟨k, name, f, -, howner, rfl⟩ := owner?_of_aliasField henv hn
  obtain ⟨fields, hmem, -⟩ := mem_of_owner? howner
  refine findsTables_column fun t ht => ?_
  cases qualified <;> simp only [Bool.false_eq_true, if_false, if_true, reduceCtorEq, Option.some.injEq] at ht
  exact ht ▸ hinputs _ hmem

theorem findsTables_orZero (h : n.findsTables visible = true) : (orZero n).findsTables visible = true :=
  findsTables_of_args (by decide) (by simpa using ⟨h, inherited_number (inherited_findsTables visible) _⟩)

/-- An expression names the tables that its fields name, if its queries name their own tables only. -/
theorem admits_findsTables {k : PlanCheck} (hk : k.Inward) {fields : Bool}
    (hsub : ∀ rel, rel.satisfies k = true →
      Maintains (fun _ => True) (fun n => n.findsTables [] = true) (sub rel))
    (hfields : FieldsHave (fun n => n.findsTables visible = true) env ctx) :
    Admits env sub (fun _ => True) (fun n => n.findsTables visible = true) ctx
      (fun e => e.satisfies k fields = true) where
  inherited := inherited_findsTables visible
  closed := partClosed_satisfies _ _
  field := fun _ hn => hfields _ _ hn
  correlated := fun he => by simp [Scalar.satisfies, hk.correlation] at he
  patternField := fun he => by simp [Scalar.satisfies, hk.patternField] at he
  query := fun he => (hsub _ (satisfies_of_subQuery he)).mono fun _ hn => findsTables_of_nil hn visible
  call := fun _ _ _ hns => by
    split <;> exact findsTables_of_args (by decide) (by simpa using hns)
  windowed := fun _ _ _ has _ hps _ hos hframe => by
    refine @good_windowedNode (fun n => n.findsTables visible = true) _ _ _ _ (fun name => ?_) findsTables_orZero
    refine findsTables_of_children (by simp [overNode]) fun c hc => ?_
    obtain ⟨p, hp, hmem⟩ := List.mem_flatMap.mp hc
    rcases mem_args_overNode hp with rfl | ⟨-, hparts⟩
    · obtain rfl := List.mem_singleton.mp hmem
      exact findsTables_of_args (by decide) (by simpa using has)
    · rcases hparts c hmem with hc | rfl | hc
      · exact hps c hc
      · exact inherited_order (inherited_findsTables visible) hos
      · exact (hframe c hc).2

/-- Comparisons may be turned round under such a check. -/
theorem turning_inward {k : PlanCheck} (hk : k.Inward) (d : Dialect) (fields : Bool) :
    ClosedUnderTurning d fun e => e.satisfies k fields = true :=
  closedUnderTurning (C := fun _ => True) (partClosed_satisfies _ _)
    (fun _ h => by simpa [Scalar.satisfies, hk.call, Scalar.allSatisfy_iff] using h) fun _ => ⟨trivial, trivial⟩

/-- An aggregate call names the tables that its fields name. -/
theorem findsTables_aggregateNode {call : AggregateCall}
    (hfields : FieldsHave (fun n => n.findsTables visible = true) env ctx) (h : aggregateNode env ctx call = .ok n) :
    n.findsTables visible = true := by
  have hG := inherited_findsTables visible
  refine good_aggregateNode hG hG (fun c _ => hfields c.key) (fun i _ => hfields i)
    (fun {op name args distinct} _ _ hargs => ?_) (fun {c condition} hc hcondition => ?_)
    (fun {c items} hc hitems => ?_) findsTables_orZero h
  · exact findsTables_of_args (by decide) (by simpa using hargs)
  · exact findsTables_of_args (by decide) (by simpa using ⟨hc, inherited_wrap hG rfl hcondition⟩)
  · exact findsTables_of_args (by decide) (by simpa using ⟨hc, inherited_order hG hitems⟩)

end Convert

end AlgebraSql
