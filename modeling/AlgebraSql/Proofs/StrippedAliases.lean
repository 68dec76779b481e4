import AlgebraSql.Convert.Statement
import AlgebraSql.Proofs.AssembledOperators
import AlgebraSql.Proofs.GroupValues

/-!
# Stripped aliases — what dropping the names of unnamed expressions changes.

The trivial names go from the select list of a statement and of each branch of a set operation at its top, and
nothing else changes.  A clause behind the select list that refers to an item by its name still does so, unless the
expression under a dropped name has the same name, which comes to light then.
-/

namespace AlgebraSql.Sql.Node

/-! ## Walks in a scope -/

theorem mem_enqueue {order : WalkOrder} {children pending : List Node} {m : Node} :
    m ∈ order.enqueue children pending ↔ m ∈ children ∨ m ∈ pending := by
  cases order <;> simp [WalkOrder.enqueue, or_comm]

theorem scopeBelow_eq (n : Node) : scopeBelow n = n :: (next isScopeBoundary n).flatMap scopeBelow := by
  obtain ⟨kind, args⟩ := n
  rw [scopeBelow, next]
  split
  · simp
  · rw [scopeOfArgs_eq, children, args_mk]

/-- A walk in a scope visits what is below its start in the scope. -/
theorem mem_walkFrom_iff (order : WalkOrder) {m : Node} (ns : List Node) :
    m ∈ walkFrom order isScopeBoundary ns ↔ ∃ n ∈ ns, m ∈ scopeBelow n := by
  fun_induction walkFrom order isScopeBoundary ns with
  | case1 => simp
  | case2 n pending ih =>
    have hbelow : m ∈ scopeBelow n ↔ m = n ∨ ∃ c ∈ next isScopeBoundary n, m ∈ scopeBelow c := by
      rw [scopeBelow_eq, List.mem_cons, List.mem_flatMap]
    simp only [List.mem_cons, ih, mem_enqueue, or_and_right, exists_or, exists_eq_left, hbelow, or_assoc]

theorem mem_walkInScope_iff (order : WalkOrder) {n m : Node} : m ∈ n.walkInScope order ↔ m ∈ n.inScope := by
  simp only [walkInScope, inScope, scopeOfArgs_eq, List.mem_cons, mem_walkFrom_iff, List.mem_flatMap, children]

/-! ## References -/

/-- **`RefersTo`** — a clause behind the select list has a column of the name without a qualifier. -/
def RefersTo (m : Node) (name : String) : Prop :=
  ∃ key ∈ referringClauses, ∃ clause, m.child? key = some clause
    ∧ ∃ c ∈ clause.inScope, c.kind = .column ∧ c.table = "" ∧ c.name = name

theorem isA_column_iff {n : Node} : n.isA .column = true ↔ n.kind = .column := by
  unfold isA
  cases n.kind <;> decide

theorem mem_referencedNames_iff {m : Node} {v : String} :
    v ∈ m.referencedNames ↔ ∃ name, m.RefersTo name ∧ Text.lower name = v := by
  simp only [referencedNames, findAllInScope, RefersTo, List.mem_flatMap, List.mem_filterMap, List.mem_map,
    List.mem_filter, mem_walkInScope_iff, List.any_cons, List.any_nil, Bool.or_false, isA_column_iff, beq_iff_eq]
  constructor
  · rintro ⟨clause, ⟨key, hkey, hclause⟩, c, ⟨⟨hc, hkind⟩, htable⟩, rfl⟩
    exact ⟨c.name, ⟨key, hkey, clause, hclause, c, hc, hkind, htable, rfl⟩, rfl⟩
  · rintro ⟨_, ⟨key, hkey, clause, hclause, c, hc, hkind, htable, rfl⟩, rfl⟩
    exact ⟨clause, ⟨key, hkey, hclause⟩, c, ⟨⟨hc, hkind⟩, htable⟩, rfl⟩

/-- An item is known by a name, in whatever letters. -/
def KnownBy (item : Node) (name : String) : Prop := item.aliasOf?.map Text.lower = some (Text.lower name)

/-- **`NamesOnly`** — a name is that of the `i`-th item and of no other. -/
def NamesOnly (items : List Node) (name : String) (i : Nat) : Prop :=
  ∀ j, (∃ item, items[j]? = some item ∧ KnownBy item name) ↔ j = i

/-! ## Dropped names -/

/-- An item whose trivial name no clause behind the select list refers to, and the expression under the name. -/
structure DropsName (m item inner : Node) : Prop where
  kind : item.kind = .aliased
  named : isTrivialAlias item.aliasName = true
  expression : item.this? = some inner
  unused : ∀ name, m.RefersTo name → Text.lower name ≠ Text.lower item.aliasName

theorem withoutTrivialAlias?_eq_some_iff {m item inner : Node} :
    withoutTrivialAlias? m.referencedNames item = some inner ↔ DropsName m item inner := by
  have hunused : (!m.referencedNames.contains (Text.lower item.aliasName)) = true
      ↔ ∀ name, m.RefersTo name → Text.lower name ≠ Text.lower item.aliasName := by
    rw [Bool.not_eq_true', ← Bool.not_eq_true, List.contains_iff_mem, mem_referencedNames_iff]
    simp
  unfold withoutTrivialAlias?
  constructor
  · intro h
    cases hthis : item.this? with
    | none => simp [hthis] at h
    | some e =>
      simp only [hthis, Option.ite_none_right_eq_some, Bool.and_eq_true, is_eq_true_iff, Option.some.injEq] at h
      obtain ⟨⟨⟨hkind, hnamed⟩, hcontains⟩, rfl⟩ := h
      exact ⟨hkind, hnamed, hthis, hunused.mp hcontains⟩
  · intro h
    rw [h.expression]
    simp only [is, h.kind, BEq.rfl, h.named, hunused.mpr h.unused, Bool.and_self, if_true]

/-- An item of a select list and what becomes of it: the same, or the expression under a trivial name. -/
inductive StripsItem : Node → Node → Prop
  | kept (item : Node) : StripsItem item item
  | bared {item inner : Node} (hkind : item.kind = .aliased) (hname : isTrivialAlias item.aliasName = true)
    (h : item.this? = some inner) : StripsItem item inner

/-- **`StripsList`** — a SELECT and what becomes of it: nothing but items of the select list has changed. -/
def StripsList (m m' : Node) : Prop :=
  (m.selectList? = none ∧ m' = m) ∨ ∃ items items', m.selectList? = some items ∧ m'.selectList? = some items'
    ∧ List.Forall₂ StripsItem items items' ∧ (m' = m ∨ m' = m.set "expressions" (some (.nodes items')))

/-- **`KeepsReferences`** — a name to which a clause refers as the name of one item is still the name of that item and
of no other. -/
def KeepsReferences (m m' : Node) : Prop :=
  ∀ items items', m.selectList? = some items → m'.selectList? = some items' →
    ∀ name, m.RefersTo name → ∀ i, NamesOnly items name i → NamesOnly items' name i

/-- **`Exposes`** — under a dropped name there is an expression with the name to which a clause refers as that of
another item. -/
def Exposes (m : Node) : Prop :=
  ∃ items name i j item inner, m.selectList? = some items ∧ m.RefersTo name ∧ NamesOnly items name i ∧ j ≠ i
    ∧ items[j]? = some item ∧ DropsName m item inner ∧ KnownBy inner name

section Select

variable {m : Node} {items : List Node}

/-- What becomes of an item of a SELECT. -/
def strippedItem (m item : Node) : Node := (withoutTrivialAlias? m.referencedNames item).getD item

theorem strippedItem_cases (m item : Node) :
    (strippedItem m item = item ∧ ∀ inner, ¬DropsName m item inner)
      ∨ ∃ inner, strippedItem m item = inner ∧ DropsName m item inner := by
  unfold strippedItem
  cases h : withoutTrivialAlias? m.referencedNames item with
  | none =>
    refine .inl ⟨rfl, fun inner hdrops => ?_⟩
    simp [withoutTrivialAlias?_eq_some_iff.mpr hdrops] at h
  | some inner => exact .inr ⟨inner, rfl, withoutTrivialAlias?_eq_some_iff.mp h⟩

/-- The select list becomes that of what becomes of its items. -/
theorem stripSelect_eq (h : m.selectList? = some items) :
    m.stripSelect.selectList? = some (items.map (strippedItem m))
      ∧ (m.stripSelect = m ∨ m.stripSelect = m.set "expressions" (some (.nodes (items.map (strippedItem m))))) := by
  have hlist : List.zipWith (fun item s => s.getD item) items (items.map (withoutTrivialAlias? m.referencedNames))
      = items.map (strippedItem m) := by
    rw [List.zipWith_map_right, List.zipWith_self]
    rfl
  unfold stripSelect
  simp only [h, hlist]
  split
  · exact ⟨Convert.selectList?_setSelect m _, .inr rfl⟩
  · rename_i hnone
    -- no item has a name to drop
    have hsame : items.map (strippedItem m) = items := by
      refine (List.map_congr_left fun item hitem => ?_).trans (List.map_id items)
      have hkept : withoutTrivialAlias? m.referencedNames item = none := by
        simpa using List.any_eq_false.mp (Bool.eq_false_iff.mpr hnone) _ (List.mem_map_of_mem hitem)
      rw [strippedItem, hkept]
      rfl
    exact ⟨by rw [h, hsame], .inl rfl⟩

theorem stripsList_stripSelect (m : Node) : StripsList m m.stripSelect := by
  cases hlist : m.selectList? with
  | none => exact .inl ⟨hlist, by simp [stripSelect, hlist]⟩
  | some items =>
    obtain ⟨hstripped, hrest⟩ := stripSelect_eq hlist
    refine .inr ⟨items, items.map (strippedItem m), hlist, hstripped, ?_, hrest⟩
    rw [List.forall₂_map_right_iff, List.forall₂_same]
    intro item _
    rcases strippedItem_cases m item with ⟨hkept, -⟩ | ⟨inner, hdropped, hdrops⟩
    · rw [hkept]
      exact .kept item
    · rw [hdropped]
      exact .bared hdrops.kind hdrops.named hdrops.expression

/-- A name to which a clause refers is not dropped. -/
theorem DropsName.not_knownBy {item inner : Node} (h : DropsName m item inner) {name : String}
    (hname : m.RefersTo name) : ¬KnownBy item name := by
  intro hknown
  have halias : item.aliasOf? = some item.aliasName := by rw [aliasOf?, h.kind]
  rw [KnownBy, halias, Option.map_some, Option.some.injEq] at hknown
  exact h.unused name hname hknown.symm

/-- **References** are kept by a SELECT unless an expression under a dropped name comes to light. -/
theorem keepsReferences_stripSelect_iff (m : Node) : KeepsReferences m m.stripSelect ↔ ¬Exposes m := by
  constructor
  · rintro hkeeps ⟨items, name, i, j, item, inner, hlist, hname, honly, hne, hitem, hdrops, hknown⟩
    have hkept := hkeeps items _ hlist (stripSelect_eq hlist).1 name hname i honly
    have hinner : strippedItem m item = inner := by
      rw [strippedItem, withoutTrivialAlias?_eq_some_iff.mpr hdrops, Option.getD_some]
    exact hne ((hkept j).mp ⟨inner, by rw [List.getElem?_map, hitem, Option.map_some, hinner], hknown⟩)
  · intro hhidden items items' hlist hstripped name hname i honly j
    obtain rfl : items.map (strippedItem m) = items' := Option.some.inj ((stripSelect_eq hlist).1.symm.trans hstripped)
    have hmapped : ∀ {item' : Node}, (items.map (strippedItem m))[j]? = some item'
        ↔ ∃ item, items[j]? = some item ∧ strippedItem m item = item' := by
      intro item'
      rw [List.getElem?_map, Option.map_eq_some_iff]
    constructor
    · rintro ⟨item', hitem', hknown⟩
      obtain ⟨item, hitem, rfl⟩ := hmapped.mp hitem'
      rcases strippedItem_cases m item with ⟨hkept, -⟩ | ⟨inner, hdropped, hdrops⟩
      · exact (honly j).mp ⟨item, hitem, hkept ▸ hknown⟩
      · -- another item of that name has come to light
        by_contra hne
        exact hhidden ⟨items, name, i, j, item, inner, hlist, hname, honly, hne, hitem, hdrops, hdropped ▸ hknown⟩
    · intro hj
      obtain ⟨item, hitem, hknown⟩ := (honly j).mpr hj
      refine ⟨strippedItem m item, hmapped.mpr ⟨item, hitem, rfl⟩, ?_⟩
      rcases strippedItem_cases m item with ⟨hkept, -⟩ | ⟨inner, -, hdrops⟩
      · rwa [hkept]
      · exact absurd hknown (hdrops.not_knownBy hname)

end Select

/-! ## Statements -/

mutual

/-- The SELECTs from which trivial names are dropped: the statement, or the branches of a set operation at its top. -/
def topSelects : Node → List Node
  | .mk kind args =>
    if kind.isSetOperation then selectsOfBranches args else if kind == .select then [.mk kind args] else []

/-- These SELECTs in the branches of a set operation. -/
def selectsOfBranches : List (String × Arg) → List Node
  | [] => []
  | (key, .node n) :: rest => (if key = "this" ∨ key = "expression" then topSelects n else []) ++ selectsOfBranches rest
  | (_, .nodes _) :: rest => selectsOfBranches rest
  | (_, .text _) :: rest => selectsOfBranches rest
  | (_, .number _) :: rest => selectsOfBranches rest
  | (_, .flag _) :: rest => selectsOfBranches rest
  | (_, .missing) :: rest => selectsOfBranches rest

end

mutual

/-- **`Strips`** — a statement and what becomes of it: at the top, or in each branch of a set operation there, a SELECT
is changed in some way, and everything else stays. -/
inductive Strips (R : Node → Node → Prop) : Node → Node → Prop
  | select {m m' : Node} (hkind : m.kind = .select) (h : R m m') : Strips R m m'
  | branches {kind : Kind} {args args' : List (String × Arg)} (hkind : kind.isSetOperation = true)
    (h : StripsBranches R args args') : Strips R (.mk kind args) (.mk kind args')
  | other {n : Node} (hselect : n.kind ≠ .select) (hset : n.kind.isSetOperation = false) : Strips R n n

/-- The branches of a set operation and what becomes of them. -/
inductive StripsBranches (R : Node → Node → Prop) : List (String × Arg) → List (String × Arg) → Prop
  | nil : StripsBranches R [] []
  | branch {key : String} {n n' : Node} {rest rest' : List (String × Arg)} (hkey : key = "this" ∨ key = "expression")
    (h : Strips R n n') (hrest : StripsBranches R rest rest') :
    StripsBranches R ((key, .node n) :: rest) ((key, .node n') :: rest')
  | other {p : String × Arg} {rest rest' : List (String × Arg)}
    (hp : ∀ key n, p = (key, .node n) → ¬(key = "this" ∨ key = "expression")) (hrest : StripsBranches R rest rest') :
    StripsBranches R (p :: rest) (p :: rest')

end

section Statements

variable {R : Node → Node → Prop}

variable {kind : Kind} {m m' n n' : Node} {key : String} {args args' rest rest' : List (String × Arg)}

theorem strips_select_iff (hkind : m.kind = .select) : Strips R m m' ↔ R m m' := by
  constructor
  · intro h
    cases h with
    | select _ h => exact h
    | branches hset => cases hset.symm.trans (congrArg Kind.isSetOperation hkind)
    | other hselect => exact absurd hkind hselect
  · exact .select hkind

theorem strips_branches_iff (hset : kind.isSetOperation = true) :
    Strips R (.mk kind args) (.mk kind args') ↔ StripsBranches R args args' := by
  constructor
  · intro h
    cases h with
    | select hkind =>
      obtain rfl : kind = .select := hkind
      cases hset
    | branches _ h => exact h
    | other _ hother => exact absurd hset (Bool.eq_false_iff.mp hother)
  · exact .branches hset

theorem stripsBranches_branch_iff (hkey : key = "this" ∨ key = "expression") :
    StripsBranches R ((key, .node n) :: rest) ((key, .node n') :: rest')
      ↔ Strips R n n' ∧ StripsBranches R rest rest' := by
  constructor
  · intro h
    cases h with
    | branch _ h hrest => exact ⟨h, hrest⟩
    | other hp => exact absurd hkey (hp key n rfl)
  · exact fun h => .branch hkey h.1 h.2

/-- What is no branch stays as it is. -/
theorem stripsBranches_other_iff {p : String × Arg}
    (hp : ∀ key n, p = (key, .node n) → ¬(key = "this" ∨ key = "expression")) :
    StripsBranches R (p :: rest) (p :: rest') ↔ StripsBranches R rest rest' := by
  constructor
  · intro h
    cases h with
    | branch hkey => exact absurd hkey (hp _ _ rfl)
    | other _ hrest => exact hrest
  · exact .other hp

mutual

/-- **Stripping** changes each of these SELECTs, and nothing else. -/
theorem strips_iff : ∀ n : Node, Strips R n n.stripTrivialAliases ↔ ∀ m ∈ n.topSelects, R m m.stripSelect
  | .mk kind args => by
    rw [stripTrivialAliases, topSelects]
    by_cases hset : kind.isSetOperation = true
    · rw [if_pos hset, if_pos hset, strips_branches_iff hset, stripsBranches_iff args]
    · rw [if_neg hset, if_neg hset]
      by_cases hselect : kind = .select
      · subst hselect
        simp only [BEq.rfl, if_true, List.forall_mem_singleton]
        exact strips_select_iff rfl
      · have hkind : (kind == .select) = false := by simpa using hselect
        simp only [hkind, Bool.false_eq_true, if_false, List.not_mem_nil, false_implies, implies_true, iff_true]
        exact .other hselect (by simpa using hset)

theorem stripsBranches_iff : ∀ args : List (String × Arg),
    StripsBranches R args (stripBranches args) ↔ ∀ m ∈ selectsOfBranches args, R m m.stripSelect
  | [] => by simpa [stripBranches, selectsOfBranches] using StripsBranches.nil
  | (key, .node n) :: rest => by
    rw [stripBranches, selectsOfBranches]
    by_cases hkey : key = "this" ∨ key = "expression"
    · rw [if_pos hkey, if_pos hkey, stripsBranches_branch_iff hkey, List.forall_mem_append, strips_iff n,
        stripsBranches_iff rest]
    · rw [if_neg hkey, if_neg hkey, List.nil_append, ← stripsBranches_iff rest]
      refine stripsBranches_other_iff fun key' n' h => ?_
      cases h
      exact hkey
  | (key, .nodes ns) :: rest => by
    rw [stripBranches, selectsOfBranches, ← stripsBranches_iff rest]
    exact stripsBranches_other_iff (by simp)
  | (key, .text s) :: rest => by
    rw [stripBranches, selectsOfBranches, ← stripsBranches_iff rest]
    exact stripsBranches_other_iff (by simp)
  | (key, .number q) :: rest => by
    rw [stripBranches, selectsOfBranches, ← stripsBranches_iff rest]
    exact stripsBranches_other_iff (by simp)
  | (key, .flag b) :: rest => by
    rw [stripBranches, selectsOfBranches, ← stripsBranches_iff rest]
    exact stripsBranches_other_iff (by simp)
  | (key, .missing) :: rest => by
    rw [stripBranches, selectsOfBranches, ← stripsBranches_iff rest]
    exact stripsBranches_other_iff (by simp)

end

end Statements

end AlgebraSql.Sql.Node
