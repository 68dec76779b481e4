import AlgebraSql.Proofs.OrderedAggregates
import AlgebraSql.Proofs.SortOrder

/-!
# Null keys — what the test for missing values tests.

A dialect without words for the placement of missing values sorts by a test for them first, and then by the key.
The key takes care of names that several select items have and of numbers, which ORDER BY reads as positions.  The
test is over the field as an expression, where neither is looked after: the two are about the same select item
unless that expression is the name of another item, or a number.
-/

namespace AlgebraSql.Convert

open Sql Node

variable {env : Env} {items : List Node} {i : Nat} {n item : Node}

/-! ## Reading ORDER BY over a select list -/

/-- A number that is read as a position. -/
def isInteger (n : Node) : Bool := isNumber n && (n.text "this").isInt

/-- A column without a qualifier. -/
def isBareName (n : Node) : Bool := n.is .column && n.table == ""

/-- Another item than the `i`-th is known by the name, in whatever letters. -/
def NamesOther (items : List Node) (i : Nat) (name : String) : Prop :=
  ∃ j other, items[j]? = some other ∧ j ≠ i ∧ other.aliasOf?.map Text.lower = some (Text.lower name)

/-- **`DenotesItem`** — what stands for a select item in ORDER BY: its position, a name that it alone is known by, or
the expression that it computes, with a text in place of a number. -/
inductive DenotesItem (items : List Node) (i : Nat) : Node → Prop
  | position {n : Node} (hn : isNumber n = true) (h : n.text "this" = toString (i + 1)) : DenotesItem items i n
  | name {n item : Node} (hitem : items[i]? = some item) (hn : isBareName n = true)
    (h : item.aliasOf? = some n.name ∨ item.expression? = some n) (hother : ¬NamesOther items i n.name) :
    DenotesItem items i n
  | expression {n e item : Node} (hitem : items[i]? = some item) (he : item.expression? = some e)
    (h : n = e ∨ n = asSortKey e) (hname : isBareName n = false) (hinteger : isInteger n = false) :
    DenotesItem items i n

/-- **`Misread`** — what stands for a select item is also the name of another one, or a number that is not the position
of the item. -/
def Misread (items : List Node) (i : Nat) (n : Node) : Prop :=
  isBareName n = true ∧ NamesOther items i n.name ∨ isInteger n = true ∧ n.text "this" ≠ toString (i + 1)

theorem isShadowed_iff {name : String} :
    Context.isShadowed items i (Text.lower name) = true ↔ NamesOther items i name := by
  rw [Context.isShadowed, List.any_eq_true]
  constructor
  · rintro ⟨⟨other, j⟩, hmem, h⟩
    simp only [Bool.and_eq_true, bne_iff_ne, ne_eq, beq_iff_eq] at h
    exact ⟨j, other, List.mk_mem_zipIdx_iff_getElem?.mp hmem, h.1, h.2⟩
  · rintro ⟨j, other, hother, hne, hname⟩
    refine ⟨(other, j), List.mk_mem_zipIdx_iff_getElem?.mpr hother, ?_⟩
    simp [hne, hname]

theorem isNumber_eq_false_of_isBareName (h : isBareName n = true) : isNumber n = false := by
  simp only [isBareName, Node.is, Bool.and_eq_true, beq_iff_eq] at h
  simp [isNumber, Node.is, h.1]

theorem isInteger_eq_false_of_isNumber (h : isNumber n = false) : isInteger n = false := by
  simp [isInteger, h]

/-! ## Fields of a select list -/

/-- What stands for a field of a select list: the name of its item, or what it computes. -/
theorem eq_of_itemField {byName : Bool} {k : Ordinal} (h : Context.itemField byName k item = .ok n) :
    isBareName n = true ∧ item.aliasOf? = some n.name ∨ item.expression? = some n := by
  unfold Context.itemField at h
  by_cases haliased : item.is .aliased = true
  · rw [if_pos haliased] at h
    have hkind : item.kind = .aliased := by simpa [Node.is] using haliased
    cases byName with
    | true =>
      obtain rfl : Node.column item.aliasName = n := by simpa using h
      exact .inl ⟨rfl, by rw [aliasOf?, hkind, name_column]⟩
    | false =>
      cases hthis : item.this? with
      | none => simp [hthis] at h
      | some inner =>
        obtain rfl : inner = n := by simpa [hthis] using h
        exact .inr (by rw [expression?, if_pos haliased, hthis])
  · rw [if_neg haliased] at h
    obtain rfl : item = n := by simpa using h
    exact .inr (by rw [expression?, if_neg haliased])

/-- **A field** stands for its item unless it is misread. -/
theorem denotesItem_field_iff {byName : Bool} {k : Ordinal} (hitem : items[i]? = some item)
    (h : Context.itemField byName k item = .ok n) : DenotesItem items i n ↔ ¬Misread items i n := by
  constructor
  · intro hdenotes
    cases hdenotes with
    | position hn htext =>
      rintro (⟨hname, -⟩ | ⟨-, hne⟩)
      · simp [isNumber_eq_false_of_isBareName hname] at hn
      · exact hne htext
    | name _ hn _ hother =>
      rintro (⟨-, hnamed⟩ | ⟨hinteger, -⟩)
      · exact hother hnamed
      · simp [isInteger_eq_false_of_isNumber (isNumber_eq_false_of_isBareName hn)] at hinteger
    | expression _ _ _ hname hinteger => simp [Misread, hname, hinteger]
  · intro hread
    rw [Misread, not_or] at hread
    by_cases hname : isBareName n = true
    · have hown : item.aliasOf? = some n.name ∨ item.expression? = some n := (eq_of_itemField h).imp_left And.right
      exact .name hitem hname hown fun hother => hread.1 ⟨hname, hother⟩
    · have hexpression : item.expression? = some n := (eq_of_itemField h).resolve_left fun hn => hname hn.1
      by_cases hinteger : isInteger n = true
      · have hnumber : isNumber n = true := by simpa using (Bool.and_eq_true _ _ ▸ hinteger).1
        exact .position hnumber (by_contra fun htext => hread.2 ⟨hinteger, htext⟩)
      · exact .expression hitem hexpression (.inl rfl) (by simpa using hname) (by simpa using hinteger)

/-- **A sort key** always stands for its item. -/
theorem denotesItem_sortKeyOf {byName : Bool} {k : Ordinal} (hitem : items[i]? = some item)
    (h : Context.itemField byName k item = .ok n) : DenotesItem items i (Context.sortKeyOf items i n) := by
  unfold Context.sortKeyOf
  split
  · -- a text in place of a number
    rename_i hnumber
    have hname : ¬isBareName n = true := fun hn =>
      absurd hnumber (Bool.eq_false_iff.mp (isNumber_eq_false_of_isBareName hn))
    have hexpression : item.expression? = some n := (eq_of_itemField h).resolve_left fun hn => hname hn.1
    exact .expression hitem hexpression (.inr (by rw [asSortKey, isNumber, if_pos hnumber])) rfl rfl
  · rename_i hnumber
    split
    · -- the position in place of a name
      exact .position rfl rfl
    · rename_i hshadowed
      refine (denotesItem_field_iff hitem h).mpr ?_
      rintro (⟨hname, hother⟩ | ⟨hinteger, -⟩)
      · rw [Bool.and_eq_true] at hshadowed
        exact hshadowed ⟨hname, isShadowed_iff.mpr hother⟩
      · rw [isInteger, Bool.and_eq_true] at hinteger
        exact hnumber hinteger.1

/-! ## Keys of one collation -/

/-- The test for missing values, which puts them first or last. -/
def nullTest (n : Node) (first : Bool) : Node := if first then orderedNode (Node.isNull n) true none else Node.isNull n

/-- The placement that a collation asks for has to be written: it is not what the dialect does anyway. -/
def Asked (d : Dialect) (c : Collation) : Prop := c.nulls ≠ .unspecified ∧ c.nulls ≠ d.defaultPlacement c.direction

instance (d : Dialect) (c : Collation) : Decidable (Asked d c) := inferInstanceAs (Decidable (_ ∧ _))

/-- A dialect without words for the placement tests for missing values if they would be elsewhere. -/
theorem emulatePlacement_eq {d : Dialect} (hd : d.capabilities.nullsOrdering = false) {c : Collation}
    (hnulls : c.nulls ≠ .unspecified) (n : Node) :
    d.emulatePlacement n (c.nulls == .first) (c.direction == .descending)
      = if Asked d c then some (nullTest n (c.nulls == .first)) else none := by
  rw [Dialect.emulatePlacement, hd, isDefaultPlacement_eq d c.direction hnulls, Bool.false_or]
  by_cases hsame : c.nulls = d.defaultPlacement c.direction
  · simp [hsame, Asked]
  · have hasked : Asked d c := ⟨hnulls, hsame⟩
    rw [if_neg (by simpa using hsame), if_pos hasked, nullTest]
    cases c.nulls == .first <;> rfl

/-- In such a dialect there are two keys where the placement has to be written, and else one. -/
theorem sortKeys_eq {d : Dialect} (hd : d.capabilities.nullsOrdering = false) (c : Collation) (tested key : Node) :
    sortKeys d tested key c.direction c.nulls
      = (if Asked d c then [nullTest tested (c.nulls == .first)] else [])
        ++ [orderedNode key (c.direction == .descending) none] := by
  unfold sortKeys
  by_cases hnulls : c.nulls = .unspecified
  · simp [hnulls, Asked]
  · simp only [beq_iff_eq, hnulls, if_false, emulatePlacement_eq hd hnulls]
    by_cases hasked : Asked d c
    · simp [hasked]
    · have hsame : c.nulls = d.defaultPlacement c.direction := by_contra fun h => hasked ⟨hnulls, h⟩
      simp [hasked, hsame]

/-- **`OrdersItem`** — the keys for a collation over a select list: the sort key, behind the test for missing values
where the placement has to be written.  The sort key stands for the item, and what is tested does unless it is
misread. -/
def OrdersItem (d : Dialect) (items : List Node) (byName : Bool) (c : Collation) (keys : List Node) : Prop :=
  ∃ (i : Nat) (item n key : Node), c.key = i ∧ items[i]? = some item ∧ Context.itemField byName c.key item = .ok n
    ∧ keys = (if Asked d c then [nullTest n (c.nulls == .first)] else [])
        ++ [orderedNode key (c.direction == .descending) none]
    ∧ DenotesItem items i key
    ∧ (DenotesItem items i n ↔ ¬Misread items i n)

/-- A collation over an item that computes something. -/
def SortsItem (items : List Node) (c : Collation) : Prop :=
  ∃ (i : Nat) (item : Node), c.key = i ∧ items[i]? = some item ∧ item.expression?.isSome = true

theorem ordersItem_collationNodes (hd : env.dialect.capabilities.nullsOrdering = false) {byName grouped : Bool}
    {c : Collation} {keys : List Node}
    (h : collationNodes env (.selectList items byName grouped) c = .ok keys) : OrdersItem env.dialect items byName c keys := by
  simp only [collationNodes, Context.orderField, bind_eq_ok_iff, pure_eq_ok_iff] at h
  obtain ⟨n, hn, key, ⟨m, hm, rfl⟩, rfl⟩ := h
  obtain rfl : n = m := Except.ok.inj (hn.symm.trans hm)
  rw [Context.field] at hn
  split at hn
  · rename_i item hitem
    obtain ⟨i, -, hi⟩ := (nth?_isSome_iff _ c.key).mp (by rw [hitem]; rfl)
    rw [hi, nth?_whole] at hitem
    refine ⟨i, item, n, Context.sortKeyOf items i n, hi, hitem, hn, ?_, denotesItem_sortKeyOf hitem hn,
      denotesItem_field_iff hitem hn⟩
    rw [hi, sortKeys_eq hd]
    rfl
  · cases hn

theorem collationNodes_of_sortsItem (byName grouped : Bool) {c : Collation} (h : SortsItem items c) :
    ∃ keys, collationNodes env (.selectList items byName grouped) c = .ok keys := by
  obtain ⟨i, item, hi, hitem, hsome⟩ := h
  obtain ⟨e, he⟩ := Option.isSome_iff_exists.mp hsome
  have hn : ∃ n, Context.itemField byName (i : Nat) item = .ok n := by
    unfold Context.itemField
    by_cases haliased : item.is .aliased = true
    · rw [expression?, if_pos haliased] at he
      cases byName <;> simp [haliased, he]
    · simp [haliased]
  obtain ⟨n, hn⟩ := hn
  have hfield : (Context.selectList items byName grouped).field env (i : Nat) = .ok n := by
    simp only [Context.field, nth?_whole, hitem, hn]
  refine ⟨sortKeys env.dialect n (Context.sortKeyOf items i n) c.direction c.nulls, ?_⟩
  simp only [collationNodes, Context.orderField, hi, hfield]
  rfl

/-- **Null keys** — over any select list, in a dialect that has no words for the placement of missing values, the items
of ORDER BY are the keys for the collations: each sort key stands for the item of its collation, and the test in front
of it is over an expression that stands for the same item unless it is misread. -/
theorem collationsNodes_ordersItem (hd : env.dialect.capabilities.nullsOrdering = false) (items : List Node)
    (byName grouped : Bool) (cs : List Collation) :
    ((∀ c ∈ cs, SortsItem items c) → ∃ nodes, collationsNodes env (.selectList items byName grouped) cs = .ok nodes)
      ∧ ∀ nodes, collationsNodes env (.selectList items byName grouped) cs = .ok nodes →
        ∃ groups, nodes = groups.flatten ∧ List.Forall₂ (OrdersItem env.dialect items byName) cs groups := by
  constructor
  · intro hcs
    induction cs with
    | nil => exact ⟨[], rfl⟩
    | cons c cs ih =>
      obtain ⟨keys, hkeys⟩ : ∃ keys, collationNodes env (.selectList items byName grouped) c = .ok keys :=
        collationNodes_of_sortsItem byName grouped (hcs c (by simp))
      obtain ⟨rest, hrest⟩ := ih fun c hc => hcs c (by simp [hc])
      simp only [collationsNodes, bind_eq_ok_iff, pure_eq_ok_iff] at hrest
      obtain ⟨groups, hgroups, -⟩ := hrest
      exact ⟨(keys :: groups).flatten, by rw [collationsNodes, List.mapM_cons, hkeys, hgroups]; rfl⟩
  · intro nodes h
    simp only [collationsNodes, bind_eq_ok_iff, pure_eq_ok_iff, mapM_eq_ok_iff] at h
    obtain ⟨groups, hgroups, rfl⟩ := h
    exact ⟨groups, rfl, hgroups.imp fun _ _ => ordersItem_collationNodes hd⟩

/-- A name, a sum with a name, and a number with a name. -/
def pricedItems : List Node :=
  [Node.column "name" (some "t"), Node.aliased (Node.binary .add (Node.column "a") (Node.number "1")) "price",
    Node.aliased (Node.number "7") "rank"]

/-- MySQL is asked for missing prices last and for missing ranks first. -/
def byPriceAndRank : List Collation := [⟨.whole 1, .ascending, .last⟩, ⟨.whole 2, .descending, .first⟩]

/-- Both placements have to be written, and both items are tested under their names. -/
theorem collationsNodes_ordersItem_priced :
    let env : Env := { dialect := Dialect.mysql }
    env.dialect.capabilities.nullsOrdering = false ∧ (∀ c ∈ byPriceAndRank, SortsItem pricedItems c)
      ∧ (∀ c ∈ byPriceAndRank, Asked env.dialect c)
      ∧ ∃ groups, collationsNodes env (.selectList pricedItems true true) byPriceAndRank = .ok groups.flatten
        ∧ List.Forall₂ (OrdersItem env.dialect pricedItems true) byPriceAndRank groups := by
  intro env
  have hsorts : ∀ c ∈ byPriceAndRank, SortsItem pricedItems c := by
    simp only [byPriceAndRank, List.forall_mem_cons]
    exact ⟨⟨1, _, rfl, rfl, rfl⟩, ⟨2, _, rfl, rfl, rfl⟩, fun c hc => by cases hc⟩
  obtain ⟨hsome, hall⟩ := collationsNodes_ordersItem (show env.dialect.capabilities.nullsOrdering = false from rfl) pricedItems
    true true byPriceAndRank
  obtain ⟨nodes, hnodes⟩ := hsome hsorts
  obtain ⟨groups, rfl, hgroups⟩ := hall nodes hnodes
  exact ⟨rfl, hsorts, by decide, groups, hnodes, hgroups⟩

/-- Two columns under names that differ in their letters only. -/
def ambiguousItems : List Node := [Node.aliased (Node.column "a") "x", Node.aliased (Node.column "b") "X"]

/-- Sorted by the first one with missing values last, the sort key is its position, and the test is over a name that
both of them have. -/
theorem ambiguousItems_testsAnother :
    let c : Collation := ⟨.whole 0, .ascending, .last⟩
    collationNodes ⟨.mysql, []⟩ (.selectList ambiguousItems true false) c
        = .ok [nullTest (Node.column "x") false, orderedNode (Node.number "1") false none]
      ∧ DenotesItem ambiguousItems 0 (Node.number "1") ∧ ¬DenotesItem ambiguousItems 0 (Node.column "x") := by
  have hfield : Context.itemField true (.whole 0) (Node.aliased (Node.column "a") "x") = .ok (Node.column "x") := rfl
  refine ⟨rfl, .position rfl rfl, ?_⟩
  rw [denotesItem_field_iff rfl hfield, not_not]
  exact .inl ⟨rfl, 1, _, rfl, by decide, by decide +kernel⟩

end AlgebraSql.Convert
