import AlgebraSql.Proofs.Inherited
import AlgebraSql.Proofs.ListedNames

/-!
# Sources — the names of what the SELECTs of a statement read from.

The sources of a SELECT are the items of its FROM clause under their names: an alias, or the name of a table
without one.  Case does not count.  A query behind FROM has sources of its own, which nobody outside knows;
those of a query inside an expression hide the sources of the SELECTs around it.
-/

namespace AlgebraSql.Sql.Node

open AlgebraSql.Convert

/-! ## Names of sources -/

/-- What a node reads from stands in this argument. -/
def readsAt (kind : Kind) (key : String) : Bool :=
  match kind with
  | .select => key == "from"
  | .from | .subquery | .matchRecognize => key == "this"
  | .join | .union | .intersect | .except => key == "this" || key == "expression"
  | _ => false

@[simp] theorem readsAt_select (key : String) : readsAt .select key = (key == "from") := rfl

@[simp] theorem readsAt_from (key : String) : readsAt .from key = (key == "this") := rfl

@[simp] theorem readsAt_subquery (key : String) : readsAt .subquery key = (key == "this") := rfl

@[simp] theorem readsAt_matchRecognize (key : String) : readsAt .matchRecognize key = (key == "this") := rfl

@[simp] theorem readsAt_join (key : String) : readsAt .join key = (key == "this" || key == "expression") := rfl

/-- What a node of this kind reads from is a source beside others. -/
def passesOn : Kind → Bool
  | .select | .from | .join | .matchRecognize => true
  | _ => false

/-- The name of a source in small letters, if it has one. -/
def ownSource (n : Node) : List String := if n.isFromItem then (n.aliasOf?.map Text.lower).toList else []

/-- The names of sources in a node. -/
structure SourceNames where
  /-- Of those that stand side by side. -/
  beside : List String := []
  /-- Of all SELECTs. -/
  all : List String := []
  /-- Of the SELECTs in expressions. -/
  inner : List String := []

/-- The names of sources in a node, from those in its children. -/
def sourceStep (kind : Kind) (args : Args) (parts : OrderedMap (List SourceNames)) : SourceNames :=
  let read := parts.filter fun p => readsAt kind p.1
  let beside := ownSource (.mk kind args) ++ if passesOn kind then read.flatMap (·.2.flatMap (·.beside)) else []
  { beside
    all := (if kind == .select then beside else []) ++ parts.flatMap (·.2.flatMap (·.all))
    inner := parts.flatMap fun p => p.2.flatMap fun c => if readsAt kind p.1 then c.inner else c.all }

/-- The names of sources in a node. -/
def sources (n : Node) : SourceNames := n.fold sourceStep

/-- The names of the sources of a SELECT, or of an item of a FROM clause. -/
def sourceNames (n : Node) : List String := n.sources.beside

/-- The names of the sources of all SELECTs in a node. -/
def allSources (n : Node) : List String := n.sources.all

/-- The names of the sources of the SELECTs in expressions of a node. -/
def innerSources (n : Node) : List String := n.sources.inner

/-! ## Equations -/

theorem sourceNames_eq (n : Node) :
    n.sourceNames = n.ownSource ++ if passesOn n.kind then
      (n.args.filter fun p => readsAt n.kind p.1).flatMap fun p => p.2.children.flatMap sourceNames else [] := by
  obtain ⟨kind, args⟩ := n
  rw [sourceNames, sources, fold_mk]
  simp only [sourceStep, childValues, kind_mk, args_mk, List.filter_map, List.flatMap_map, Function.comp_def]
  rfl

theorem allSources_eq (n : Node) :
    n.allSources = (if n.kind == .select then n.sourceNames else []) ++ n.children.flatMap allSources := by
  obtain ⟨kind, args⟩ := n
  rw [allSources, sourceNames, sources, fold_mk, children]
  simp only [sourceStep, childValues, kind_mk, args_mk, List.flatMap_map, List.flatMap_assoc]
  rfl

theorem innerSources_eq (n : Node) :
    n.innerSources = n.args.flatMap fun p => p.2.children.flatMap fun c =>
      if readsAt n.kind p.1 then c.innerSources else c.allSources := by
  obtain ⟨kind, args⟩ := n
  rw [innerSources, sources, fold_mk]
  simp only [sourceStep, childValues, kind_mk, args_mk, List.flatMap_map]
  rfl

theorem mem_allSources {n : Node} {v : String} :
    v ∈ n.allSources ↔ (n.kind = .select ∧ v ∈ n.sourceNames) ∨ ∃ c ∈ n.children, v ∈ c.allSources := by
  rw [allSources_eq, List.mem_append, List.mem_flatMap]
  by_cases hkind : n.kind = .select <;> simp [hkind]

theorem mem_innerSources {n : Node} {v : String} :
    v ∈ n.innerSources ↔ ∃ p ∈ n.args, ∃ c ∈ p.2.children,
      if readsAt n.kind p.1 then v ∈ c.innerSources else v ∈ c.allSources := by
  rw [innerSources_eq, List.mem_flatMap]
  refine exists_congr fun p => and_congr_right fun _ => ?_
  rw [List.mem_flatMap]
  refine exists_congr fun c => and_congr_right fun _ => ?_
  split <;> rfl

/-- The SELECTs in expressions are among all SELECTs. -/
theorem innerSources_subset (n : Node) {v : String} (h : v ∈ n.innerSources) : v ∈ n.allSources := by
  have hstep : ∀ s : SourceNames, s = n.sources → s.inner ⊆ s.all := by
    rintro s rfl
    refine fold_induction (P := fun s : SourceNames => s.inner ⊆ s.all) ?_ n
    intro kind args parts hparts v hv
    simp only [sourceStep, List.mem_flatMap, List.mem_append] at hv ⊢
    obtain ⟨p, hp, c, hc, hv⟩ := hv
    refine .inr ⟨p, hp, c, hc, ?_⟩
    split at hv
    · exact hparts p hp c hc hv
    · exact hv
  exact hstep _ rfl h

/-! ## Sound sources -/

/-- **`SourcesSound`** — the sources of a SELECT have different names, and if `B` holds none of them has the name of
a source inside an expression of the SELECT.  A query behind FROM has a name if names are required. -/
structure SourcesSound (B : Prop) (required : Bool) (n : Node) : Prop where
  distinct : n.kind = .select → n.sourceNames.Nodup
  visible : B → n.kind = .select → ∀ v ∈ n.sourceNames, v ∉ n.innerSources
  named : required = true → passesOn n.kind = true → ∀ p ∈ n.args, readsAt n.kind p.1 = true →
    ∀ c ∈ p.2.children, c.kind = .subquery → c.hasAlias = true

/-- The sources of all SELECTs are sound. -/
def AllSourcesSound (B : Prop) (required : Bool) (n : Node) : Prop := ∀ m ∈ n.subnodes, SourcesSound B required m

section Sound

variable {B : Prop} {required : Bool}

theorem allSourcesSound_iff {n : Node} :
    AllSourcesSound B required n ↔ SourcesSound B required n ∧ ∀ c ∈ n.children, AllSourcesSound B required c := by
  unfold AllSourcesSound
  rw [subnodes_eq]
  simp only [List.mem_cons, forall_eq_or_imp, List.mem_flatMap, forall_exists_index, and_imp]
  exact and_congr_right fun _ => ⟨fun h c hc m hm => h m c hc hm, fun h m c hc hm => h c hc m hm⟩

/-- Only nodes with a FROM clause can have unsound sources. -/
theorem sourcesSound_of_kind {n : Node} (h : passesOn n.kind = false) : SourcesSound B required n where
  distinct := fun hkind => by rw [hkind] at h; cases h
  visible := fun _ hkind => by rw [hkind] at h; cases h
  named := fun _ hpasses => by rw [h] at hpasses; cases hpasses

end Sound

/-! ## Nodes without a FROM clause -/

/-- **`Sourced`** — the sources in a node are sound, and their names have a property. -/
structure Sourced (B : Prop) (required : Bool) (ok : String → Prop) (n : Node) : Prop where
  sound : AllSourcesSound B required n
  all : ∀ v ∈ n.allSources, ok v

section Sourced

variable {B : Prop} {required : Bool} {ok : String → Prop}

theorem Sourced.mono {ok' : String → Prop} {n : Node} (h : Sourced B required ok n) (hok : ∀ v, ok v → ok' v) :
    Sourced B required ok' n := ⟨h.sound, fun v hv => hok v (h.all v hv)⟩

/-- A node without a FROM clause has the sources of its children. -/
theorem sourced_iff {n : Node} (hkind : passesOn n.kind = false) :
    Sourced B required ok n ↔ ∀ c ∈ n.children, Sourced B required ok c := by
  have hselect : n.kind ≠ .select := by
    rintro hselect
    rw [hselect] at hkind
    cases hkind
  constructor
  · intro h c hc
    refine ⟨(allSourcesSound_iff.mp h.sound).2 c hc, fun v hv => h.all v (mem_allSources.mpr (.inr ⟨c, hc, hv⟩))⟩
  · intro h
    refine ⟨allSourcesSound_iff.mpr ⟨sourcesSound_of_kind hkind, fun c hc => (h c hc).sound⟩, fun v hv => ?_⟩
    rcases mem_allSources.mp hv with ⟨hkind', -⟩ | ⟨c, hc, hv⟩
    · exact absurd hkind' hselect
    · exact (h c hc).all v hv

theorem sourced_wrap {kind : Kind} (hkind : passesOn kind = false) {n : Node} (h : Sourced B required ok n) :
    Sourced B required ok (wrap kind n) :=
  (sourced_iff (by simpa [wrap] using hkind)).mpr (by simpa [wrap, children, Arg.children] using h)

/-- A node without children has no sources. -/
theorem sourced_leaf {n : Node} (hkind : passesOn n.kind = false) (h : n.children = []) : Sourced B required ok n :=
  (sourced_iff hkind).mpr (by simp [h])

end Sourced

/-! ## Queries that are built -/

@[simp]
theorem allSources_identifier (s : String) (quoted : Bool) : (identifier s quoted).allSources = [] := by
  simp [allSources_eq, identifier, children, Arg.children]

@[simp]
theorem allSources_tableAlias (s : String) (columns : List String) : (tableAlias s columns).allSources = [] := by
  rw [allSources_eq]
  cases columns <;> simp [tableAlias, children, Arg.children]

theorem filter_put {f : String → Bool} {key : String} (h : f key = false) (args : Args) (a : Arg) :
    (args.put key a).filter (fun p => f p.1) = args.filter fun p => f p.1 := by
  induction args with
  | nil => simp [OrderedMap.put, h]
  | cons p rest ih =>
    obtain ⟨k, v⟩ := p
    by_cases hk : k = key
    · subst hk
      simp [OrderedMap.put, h]
    · simp only [OrderedMap.put, hk, if_false, List.filter_cons, ih]

/-- What a SELECT reads from decides about its sources. -/
theorem sourceNames_set {n : Node} (hkind : n.kind = .select) {key : String} (hkey : key ≠ "from") (a : Arg) :
    (n.set key (some a)).sourceNames = n.sourceNames := by
  have hreads : readsAt n.kind key = false := by simp [hkind, hkey]
  have hown : ∀ m : Node, m.kind = .select → m.ownSource = [] := fun m hm => by simp [ownSource, isFromItem, hm]
  rw [sourceNames_eq, sourceNames_eq n, kind_set, hown n hkind, hown _ (by simpa using hkind)]
  rw [show (n.set key (some a)).args = n.args.put key a from rfl, filter_put hreads]

/-- A clause brings its sources into a SELECT. -/
theorem mem_allSources_set {n : Node} (hkind : n.kind = .select) {key : String} (hkey : key ≠ "from") {a : Arg}
    {v : String} (h : v ∈ (n.set key (some a)).allSources) : v ∈ n.allSources ∨ ∃ c ∈ a.children, v ∈ c.allSources := by
  rcases mem_allSources.mp h with ⟨-, hsource⟩ | ⟨c, hc, hv⟩
  · rw [sourceNames_set hkind hkey] at hsource
    exact .inl (mem_allSources.mpr (.inl ⟨hkind, hsource⟩))
  · obtain ⟨p, hp, hmem⟩ := List.mem_flatMap.mp hc
    rcases mem_put hp with rfl | hold
    · exact .inr ⟨c, hmem, hv⟩
    · exact .inl (mem_allSources.mpr (.inr ⟨c, List.mem_flatMap.mpr ⟨p, hold, hmem⟩, hv⟩))

theorem mem_innerSources_set {n : Node} {key : String} {a : Arg} {v : String}
    (h : v ∈ (n.set key (some a)).innerSources) : v ∈ n.innerSources ∨ ∃ c ∈ a.children, v ∈ c.allSources := by
  obtain ⟨p, hp, c, hc, hv⟩ := mem_innerSources.mp h
  rcases mem_put hp with rfl | hold
  · refine .inr ⟨c, hc, ?_⟩
    split at hv
    · exact innerSources_subset c hv
    · exact hv
  · exact .inl (mem_innerSources.mpr ⟨p, hold, c, hc, by simpa using hv⟩)

/-- A clause other than FROM belongs to the expressions of a SELECT. -/
theorem mem_innerSources_of_clause {n : Node} (hkind : n.kind = .select) {p : String × Arg} (hp : p ∈ n.args)
    (hkey : p.1 ≠ "from") {c : Node} (hc : c ∈ p.2.children) {v : String} (hv : v ∈ c.allSources) :
    v ∈ n.innerSources := by
  refine mem_innerSources.mpr ⟨p, hp, c, hc, ?_⟩
  rw [if_neg (by simp [hkind, hkey])]
  exact hv

theorem sourceNames_wrapFrom (item : Node) : (wrap .from item).sourceNames = item.sourceNames := by
  rw [sourceNames_eq]
  simp [wrap, ownSource, isFromItem, passesOn, Arg.children]

@[simp]
theorem sourceNames_selectFrom (item : Node) : (selectFrom item).sourceNames = item.sourceNames := by
  rw [sourceNames_eq]
  simp [selectFrom, ownSource, isFromItem, passesOn, Arg.children, sourceNames_wrapFrom]

theorem allSources_wrap {kind : Kind} (hkind : kind ≠ .select) (n : Node) :
    (wrap kind n).allSources = n.allSources := by
  rw [allSources_eq]
  simp [wrap, hkind, children, Arg.children]

@[simp]
theorem allSources_selectFrom (item : Node) : (selectFrom item).allSources = item.sourceNames ++ item.allSources := by
  rw [allSources_eq, sourceNames_selectFrom]
  simp [selectFrom, children, Arg.children, allSources_wrap]

@[simp]
theorem innerSources_selectFrom (item : Node) : (selectFrom item).innerSources = item.innerSources := by
  have hfrom : (wrap .from item).innerSources = item.innerSources := by
    rw [innerSources_eq]
    simp [wrap, Arg.children]
  rw [innerSources_eq]
  simp [selectFrom, Arg.children, hfrom]

/-- A query behind FROM has the sources of the query inside. -/
theorem allSources_derived (query : Node) (name : Option String) : (derived query name).allSources = query.allSources := by
  cases name with
  | none => exact allSources_wrap (by decide) query
  | some name =>
    rw [allSources_eq]
    simp [derived, children, Arg.children]

theorem innerSources_derived (query : Node) (name : Option String) :
    (derived query name).innerSources = query.innerSources := by
  rw [innerSources_eq]
  cases name <;> simp [derived, Node.subquery, wrap, Arg.children]

theorem sourceNames_derived (query : Node) {name : Option String} (hname : name ≠ some "") :
    (derived query name).sourceNames = (name.map Text.lower).toList := by
  rw [sourceNames_eq]
  cases name with
  | none => simp [derived, Node.subquery, wrap, ownSource, isFromItem, passesOn, aliasOf?, aliasName, nameUnder]
  | some name =>
    have hne : name ≠ "" := fun h => hname (by rw [h])
    simp [derived, ownSource, isFromItem, passesOn, aliasOf?, aliasName, nameUnder, hne]

/-- An item under another name. -/
def underAlias (n : Node) (name : String) (columns : List String) : Node :=
  n.set "alias" (some (.node (tableAlias name columns)))

@[simp]
theorem readsAt_alias (kind : Kind) : readsAt kind "alias" = false := by cases kind <;> decide

theorem sourceNames_underAlias {n : Node} (hitem : n.isFromItem = true) {name : String} (hname : name ≠ "")
    (columns : List String) : (n.underAlias name columns).sourceNames = Text.lower name :: if passesOn n.kind then
      (n.args.filter fun p => readsAt n.kind p.1).flatMap fun p => p.2.children.flatMap sourceNames else [] := by
  have hitem' : (n.underAlias name columns).isFromItem = true := by simpa only [underAlias, isFromItem, kind_set] using hitem
  rw [sourceNames_eq, ownSource, hitem', underAlias, aliasOf?_set hitem hname, kind_set,
    show (n.set "alias" (some (.node (tableAlias name columns)))).args
      = n.args.put "alias" (.node (tableAlias name columns)) from rfl, filter_put (readsAt_alias _)]
  rfl

theorem mem_allSources_underAlias {n : Node} (hkind : n.kind ≠ .select) {name : String} {columns : List String} {v : String}
    (h : v ∈ (n.underAlias name columns).allSources) : v ∈ n.allSources := by
  rcases mem_allSources.mp h with ⟨hkind', -⟩ | ⟨c, hc, hv⟩
  · exact absurd hkind' (by simpa [underAlias] using hkind)
  · obtain ⟨p, hp, hmem⟩ := List.mem_flatMap.mp hc
    rcases mem_put hp with rfl | hold
    · obtain rfl : c = tableAlias name columns := by simpa using hmem
      simp at hv
    · exact mem_allSources.mpr (.inr ⟨c, List.mem_flatMap.mpr ⟨p, hold, hmem⟩, hv⟩)

theorem mem_innerSources_underAlias {n : Node} {name : String} {columns : List String} {v : String}
    (h : v ∈ (n.underAlias name columns).innerSources) : v ∈ n.innerSources := by
  rcases mem_innerSources_set h with h | ⟨c, hc, hv⟩
  · exact h
  · obtain rfl : c = tableAlias name columns := by simpa using hc
    simp at hv

theorem sourceNames_joinNode (l r : Node) (kind : String) (on : Option Node) :
    (joinNode l r kind on).sourceNames = l.sourceNames ++ r.sourceNames := by
  rw [sourceNames_eq]
  cases on <;> simp [joinNode, optional, ownSource, isFromItem, passesOn, Arg.children]

theorem allSources_joinNode (l r : Node) (kind : String) (on : Option Node) :
    (joinNode l r kind on).allSources = l.allSources ++ r.allSources ++ on.toList.flatMap allSources := by
  rw [allSources_eq]
  cases on <;> simp [joinNode, optional, children, Arg.children]

theorem innerSources_joinNode (l r : Node) (kind : String) (on : Option Node) :
    (joinNode l r kind on).innerSources = l.innerSources ++ r.innerSources ++ on.toList.flatMap allSources := by
  rw [innerSources_eq]
  cases on <;> simp [joinNode, optional, Arg.children]

end AlgebraSql.Sql.Node

namespace AlgebraSql.Convert

open Sql Node

variable {B : Prop} {required : Bool} {ok : String → Prop}

theorem hasColumns_sourced : HasColumns (Sourced B required ok) :=
  .of_children (fun _ _ => sourced_leaf rfl rfl) fun hkind h => (sourced_iff (by rw [hkind]; rfl)).mpr h

/-- Expressions inherit the sources of their parts. -/
theorem inherited_sourced : Inherited (Sourced B required ok) where
  node := fun {n} hkind h => (sourced_iff (by revert hkind; cases n.kind <;> decide)).mpr h
  column := fun name => hasColumns_sourced name none
  row := fun h => (sourced_iff rfl).mpr (by simpa [Node.call, children, Arg.children] using h)
  flipped := fun {n} hkind hn => by
    have hpasses : passesOn n.kind = false := by
      revert hkind
      cases n.kind <;> decide
    rw [sourced_iff hpasses] at hn
    refine (sourced_iff (by simpa [Convert.flipped] using hpasses)).mpr fun c hc => ?_
    obtain ⟨p, hp, hmem⟩ := List.mem_flatMap.mp hc
    rcases mem_put hp with rfl | hold
    · cases hmem
    · exact hn c (List.mem_flatMap.mpr ⟨p, hold, hmem⟩)

/-- The name of an item has no sources. -/
theorem sound_tableAlias (name : String) (columns : List String) : AllSourcesSound B required (tableAlias name columns) := by
  have hidentifier : ∀ s, AllSourcesSound B required (identifier s) := fun s =>
    allSourcesSound_iff.mpr ⟨sourcesSound_of_kind rfl, by simp [identifier, children, Arg.children]⟩
  refine allSourcesSound_iff.mpr ⟨sourcesSound_of_kind rfl, fun c hc => ?_⟩
  simp only [tableAlias, children, args_mk, List.flatMap_cons, children_node, List.flatMap_nil,
    List.append_nil, List.mem_append, List.mem_singleton] at hc
  rcases hc with rfl | hc
  · exact hidentifier _
  · split at hc
    · cases hc
    · obtain ⟨s, -, rfl⟩ : ∃ s, s ∈ columns ∧ identifier s = c := by simpa using hc
      exact hidentifier s

end AlgebraSql.Convert
