import AlgebraSql.Proofs.CallNesting
import AlgebraSql.Proofs.OpenedOperators

/-!
# Group clauses — a property of every GROUP BY in a statement.

A statement has as many GROUP BY clauses as it has queries that group.  A property of all of them is kept by anything
that is built on nodes, and by every clause that is put into a query; a query that groups has to have it for its own
clause.
-/

namespace AlgebraSql.Convert

open Sql Node

variable {env : Env} {sub : Rel → ConvertM Node} {ctx : Context} {n : Node} {P : Node → Prop}

/-! ## Grouping clauses -/

/-- Every GROUP BY clause in a node has a property, however deep the query is that has the clause. -/
def GroupsHave (P : Node → Prop) (n : Node) : Prop :=
  ∀ q ∈ n.subnodes, q.kind = .select → ∀ g, q.child? "group" = some g → P g

theorem groupsHave_iff (n : Node) : GroupsHave P n ↔
    (n.kind = .select → ∀ g, n.child? "group" = some g → P g) ∧ ∀ c ∈ n.children, GroupsHave P c := by
  rw [GroupsHave, subnodes_eq]
  simp only [List.forall_mem_cons, List.mem_flatMap, forall_exists_index, and_imp, GroupsHave]
  exact ⟨fun h => ⟨h.1, fun c hc q hq => h.2 q c hc hq⟩, fun h => ⟨h.1, fun q c hc hq => h.2 c hc q hq⟩⟩

namespace GroupsHave

theorem child (h : GroupsHave P n) {c : Node} (hc : c ∈ n.children) : GroupsHave P c := ((groupsHave_iff n).mp h).2 c hc

theorem of_children (hkind : n.kind ≠ .select) (h : ∀ c ∈ n.children, GroupsHave P c) : GroupsHave P n :=
  (groupsHave_iff n).mpr ⟨fun hselect => absurd hselect hkind, h⟩

/-- A part that is put into a node has the property, and is no other GROUP BY clause. -/
theorem put (h : GroupsHave P n) {key : String} {a : Arg} (hgroup : ∀ g, a.node? = some g → key = "group" → P g)
    (ha : ∀ c ∈ a.children, GroupsHave P c) : GroupsHave P (n.set key (some a)) := by
  refine (groupsHave_iff _).mpr ⟨fun hkind g hg => ?_, fun c hc => ?_⟩
  · by_cases hkey : key = "group"
    · subst hkey
      simp only [child?, arg?_set_self] at hg
      exact hgroup g (by cases a <;> simp_all) rfl
    · rw [child?_set_of_ne _ _ hkey] at hg
      exact ((groupsHave_iff n).mp h).1 (by simpa using hkind) g hg
  · obtain ⟨p, hp, hmem⟩ := List.mem_flatMap.mp hc
    rcases mem_put hp with rfl | hold
    · exact ha c hmem
    · exact h.child (List.mem_flatMap.mpr ⟨p, hold, hmem⟩)

theorem set (h : GroupsHave P n) {key : String} (hkey : key ≠ "group") {a : Arg}
    (ha : ∀ c ∈ a.children, GroupsHave P c) : GroupsHave P (n.set key (some a)) :=
  h.put (fun _ _ heq => absurd heq hkey) ha

end GroupsHave

theorem hasColumns_groupsHave : HasColumns (GroupsHave P) :=
  .of_children (fun _ _ => .of_children (by simp [identifier]) (by simp [identifier, children]))
    fun hkind h => .of_children (by simp [hkind]) h

theorem inherited_groupsHave : Inherited (GroupsHave P) where
  node := fun {n} hkind h => .of_children (by rintro heq; rw [heq] at hkind; cases hkind) h
  column := fun name => hasColumns_groupsHave name none
  row := fun {ns} h => .of_children (by simp [Node.call]) (by simpa [Node.call, children] using h)
  flipped := fun {n} _ h => h.set (by decide) (by simp)

namespace GroupsHave

theorem tableAlias (name : String) (columns : List String) : GroupsHave P (Node.tableAlias name columns) := by
  have hidentifier : ∀ c, (∃ s, c = identifier s) → GroupsHave P c := by
    rintro c ⟨s, rfl⟩
    exact inherited_identifier inherited_groupsHave s _
  refine .of_children (by simp [Node.tableAlias]) fun c hc => ?_
  simp only [Node.tableAlias, children, args_mk, List.flatMap_cons, children_node, List.flatMap_nil, List.append_nil,
    List.mem_append, List.mem_singleton] at hc
  rcases hc with rfl | hc
  · exact hidentifier _ ⟨_, rfl⟩
  · split at hc
    · cases hc
    · obtain ⟨s, -, rfl⟩ := List.mem_map.mp hc
      exact hidentifier _ ⟨_, rfl⟩

theorem selectFrom {item : Node} (h : GroupsHave P item) : GroupsHave P (Node.selectFrom item) := by
  refine (groupsHave_iff _).mpr ⟨fun _ g hg => by simp [Node.selectFrom, child?, arg?] at hg, ?_⟩
  simpa [Node.selectFrom, children] using GroupsHave.of_children (n := Node.wrap .from item) (by simp [Node.wrap])
    (by simpa [Node.wrap, children] using h)

/-- A query as it stands behind FROM has the property. -/
theorem embeds {item : Node} (hn : GroupsHave P n) (h : Embeds n item) : GroupsHave P item := by
  induction h with
  | itself => exact hn
  | parenthesised name h ih =>
    refine .of_children (by cases name <;> simp [derived, Node.subquery, Node.wrap]) ?_
    cases name with
    | none => simpa [derived, Node.subquery, Node.wrap, children] using ih
    | some name => simpa [derived, children] using ⟨ih, tableAlias name []⟩
  | renamed name h hitem ih => exact ih.set (by decide) (by simpa using tableAlias name _)

theorem returned {m : Node} (hn : GroupsHave P n) (h : Returned n m) : GroupsHave P m := by
  cases h with
  | itself => exact hn
  | read h => exact (hn.embeds h).selectFrom

theorem table {path : List String} (h : Node.table? path = .ok n) : GroupsHave P n := by
  have hidentifier : ∀ s, GroupsHave P (table?.identifier s) := fun s =>
    .of_children (by simp [table?.identifier]) (by simp [table?.identifier, children])
  have htable : ∀ name db catalog, GroupsHave P (table?.tableIn name db catalog) := by
    intro name db catalog
    refine .of_children (by simp [table?.tableIn]) ?_
    cases db <;> cases catalog <;> simp [table?.tableIn, children, kept, hidentifier]
  unfold Node.table? at h
  split at h
  · cases h
  all_goals
    cases h
    exact htable _ _ _

/-- A condition in another clause. -/
theorem withCondition {m c : Node} (hm : GroupsHave P m) (hc : GroupsHave P c) (clause : Clause) :
    GroupsHave P (Convert.withCondition clause m c) := by
  have hconjoined : ∀ key, GroupsHave P (conjoined m key c) := by
    intro key
    unfold conjoined
    split
    · rename_i existing hexisting
      have hexisting : GroupsHave P existing := by
        unfold condition? at hexisting
        obtain ⟨wrapped, hwrapped, hthis⟩ := Option.bind_eq_some_iff.mp hexisting
        refine (hm.child (c := wrapped) ?_).child ?_
        · exact List.mem_flatMap.mpr ⟨_, mem_args_of_child? hwrapped, by simp⟩
        · exact List.mem_flatMap.mpr ⟨_, mem_args_of_child? hthis, by simp⟩
      exact inherited_and inherited_groupsHave (by simpa using ⟨hexisting, hc⟩)
    · exact hc
  have hwrap : ∀ {kind c}, isOrdinary kind = true → GroupsHave P c → GroupsHave P (Node.wrap kind c) :=
    fun hkind h => inherited_wrap inherited_groupsHave hkind h
  unfold Convert.withCondition
  split
  · exact hm.set (by decide) (by simpa using hwrap rfl (hconjoined _))
  · exact hm.set (by decide) (by simpa using hwrap rfl (hconjoined _))
  · exact hm.set (by decide) (by simpa using hwrap rfl hc)

theorem withList {m : Node} (hm : GroupsHave P m) {items : List Node} (hitems : ∀ item ∈ items, GroupsHave P item) :
    GroupsHave P (Convert.withList m items) := hm.set (by decide) (by simpa using hitems)

/-- A query with groups of its own. -/
theorem aggregated {m : Node} (hm : GroupsHave P m) {items groups : List Node} (hasCalls : Bool)
    (hitems : ∀ item ∈ items, GroupsHave P item) (hgroups : ∀ g ∈ groups, GroupsHave P g)
    (hP : P (listNode .group groups)) : GroupsHave P (Convert.aggregated m items groups hasCalls) := by
  have hlist : GroupsHave P (Convert.withList m (if items.isEmpty then [Node.number "1"] else items)) := by
    refine hm.withList ?_
    split
    · simpa using inherited_number inherited_groupsHave "1"
    · exact hitems
  unfold Convert.aggregated
  dsimp only
  split
  · exact hlist
  · refine hlist.put (fun g hg _ => ?_) ?_
    · cases hg
      exact hP
    · simpa [listNode] using GroupsHave.of_children (n := listNode .group groups) (by simp [listNode])
        (by simpa [listNode, children] using hgroups)

end GroupsHave

/-! ## Expressions -/

theorem OpenedAs.groupsHave {x : Result} {rel : Rel} {b : Builder} (henv : env.fieldMap = [])
    (hb : OpenedAs env x rel b) (hx : GroupsHave P x.node) :
    GroupsHave P b.select ∧ FieldsHave (GroupsHave P) env b.context := by
  constructor
  · rcases hb.select with ⟨-, hsame⟩ | ⟨item, hitem, hembeds⟩
    · rwa [hsame]
    · rw [hitem]
      exact (hx.embeds hembeds).selectFrom
  · rcases hb.context with ⟨items, byName, grouped, -, -, -, hlist, hctx⟩ | ⟨-, inputs, qualified, hctx⟩
    · rw [hctx]
      refine inherited_groupsHave.itemField (fun {n c} _ hn hc => ?_) (fun item hitem => ?_) _ _
      · exact hn.child (List.mem_flatMap.mpr ⟨_, mem_args_of_child? hc, by simp⟩)
      · exact hx.child (List.mem_flatMap.mpr ⟨_, mem_args_of_list? hlist, by simpa using hitem⟩)
    · rw [hctx]
      exact hasColumns_groupsHave.aliasField henv inputs qualified

theorem groupsHave_orZero {c : Node} (hc : GroupsHave P c) : GroupsHave P (orZero c) :=
  .of_children (by simp [orZero, Node.call])
    (by simpa [orZero, Node.call, children] using ⟨hc, inherited_number inherited_groupsHave _⟩)

/-- An expression has the groupings of its fields and sub-queries only. -/
theorem admits_groupsHave {k : PlanCheck} {fields : Bool} (henv : env.fieldMap = [])
    (hsub : ∀ rel, rel.satisfies k = true → Maintains OnlyColumns (GroupsHave P) (sub rel))
    (hfields : FieldsHave (GroupsHave P) env ctx) :
    Admits env sub OnlyColumns (GroupsHave P) ctx (fun e => e.satisfies k fields = true) where
  inherited := inherited_groupsHave
  closed := partClosed_satisfies _ _
  field := fun _ hn => hfields _ _ hn
  correlated := fun _ => maintains_correlatedField hasColumns_groupsHave henv _ _
  patternField := fun _ => hasColumns_groupsHave.patternField
  query := fun he => hsub _ (satisfies_of_subQuery he)
  call := fun _ _ _ hns => by
    split
    · exact .of_children (by simp [Node.aggregate]) (by simpa [Node.aggregate, children] using hns)
    · exact .of_children (by simp [Node.call]) (by simpa [Node.call, children] using hns)
  windowed := fun _ _ _ has _ hps _ hos hframe => by
    refine good_windowedNode (fun name => .of_children (by simp [overNode]) fun c hc => ?_) groupsHave_orZero
    obtain ⟨p, hp, hmem⟩ := List.mem_flatMap.mp hc
    rcases mem_args_overNode hp with rfl | ⟨-, hparts⟩
    · obtain rfl := List.mem_singleton.mp hmem
      exact .of_children (by simp [Node.aggregate]) (by simpa [Node.aggregate, children] using has)
    · rcases hparts c hmem with hc | rfl | hc
      · exact hps c hc
      · exact inherited_order inherited_groupsHave hos
      · exact (hframe c hc).2

/-- So does an aggregate call. -/
theorem groupsHave_aggregateNode {call : AggregateCall} (hfields : FieldsHave (GroupsHave P) env ctx)
    (h : aggregateNode env ctx call = .ok n) : GroupsHave P n := by
  have hG := inherited_groupsHave (P := P)
  refine good_aggregateNode hG hG (fun c _ => hfields c.key) (fun i _ => hfields i)
    (fun {op name args distinct} _ _ hargs => ?_) (fun {c condition} hc hcondition => ?_)
    (fun {c items} hc hitems => ?_) groupsHave_orZero h
  · exact .of_children (by simp [Node.aggregate]) (by simpa [Node.aggregate, children] using hargs)
  · exact .of_children (by simp [filtered]) (by simpa [filtered, children] using ⟨hc, inherited_wrap hG rfl hcondition⟩)
  · exact .of_children (by simp [withinGroup]) (by simpa [withinGroup, children] using ⟨hc, inherited_order hG hitems⟩)

end AlgebraSql.Convert
