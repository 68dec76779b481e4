import AlgebraSql.Proofs.Contexts
import AlgebraSql.Proofs.ItemNames
import AlgebraSql.Proofs.Values

/-!
# Sort order — ORDER BY sorts as it is asked to, missing values included.

A database puts missing values where a sort key says, and where it says nothing, where the database always
puts them.  A dialect without words for it gets a sort key more, a test for missing values, which decides first.
Either way two rows are compared as the collations ask, one after the other.
-/

namespace AlgebraSql

open Sql Node

/-! ## Comparing rows -/

/-- Missing values go first if a sort key does not say where they go. -/
def NullCollation.nullsFirst (c : NullCollation) (descending : Bool) : Bool :=
  match c with
  | .high => descending
  | .low => !descending
  | .first => true
  | .last => false

/-- Two values in an order of values that are there, downwards or not, with missing ones first or last. -/
def Datum.sorted (order : Datum → Datum → Ordering) (descending nullsFirst : Bool) (a b : Datum) : Ordering :=
  if a = .null then if b = .null then .eq else if nullsFirst then .lt else .gt
  else if b = .null then if nullsFirst then .gt else .lt
  else if descending then (order a b).swap else order a b

/-- Missing values go first, if a collation asks for it or leaves it to the database. -/
def Collation.nullsFirst (c : Collation) (default : NullCollation) : Bool :=
  match c.nulls with
  | .first => true
  | .last => false
  | .unspecified => default.nullsFirst (c.direction == .descending)

/-- **`requested`** — how collations compare two rows: by their fields, one after the other. -/
def requested (order : Datum → Datum → Ordering) (default : NullCollation) (a b : Row) : List Collation → Ordering
  | [] => .eq
  | c :: cs =>
    (Datum.sorted order (c.direction == .descending) (c.nullsFirst default) ((nth? a c.key).getD .null)
      ((nth? b c.key).getD .null)).then (requested order default a b cs)

/-! ## Reading ORDER BY -/

/-- What an item of ORDER BY sorts by, and how. -/
structure OrderItem where
  value : Focus → Datum
  descending : Bool
  nullsFirst : Bool

namespace OrderItem

/-- How sort keys compare two rows, one key after the other. -/
def compare (order : Datum → Datum → Ordering) (a b : Focus) : List OrderItem → Ordering
  | [] => .eq
  | k :: ks => (Datum.sorted order k.descending k.nullsFirst (k.value a) (k.value b)).then (compare order a b ks)

/-- The item of ORDER BY as a sort key: a position in the output, or an expression over its names.  Without further
words it sorts upwards and leaves missing values to the database. -/
def read? (E : Engine) (db : Database) (names : Names) (default : NullCollation) (item : Node) : Option OrderItem := do
  let key ← if item.is .ordered then item.this? else some item
  let value ← if key.is .literal && !key.isString then (key.text "this").toNat?.map fun place f => f.row.getD (place - 1) .null
    else (key.scalar E db names).map fun v f => single (v f)
  let descending := item.is .ordered && item.flag "desc"
  let first := if item.is .ordered then (item.arg? "nulls_first").bind (·.flag?) else none
  return ⟨value, descending, first.getD (default.nullsFirst descending)⟩

theorem compare_append (order : Datum → Datum → Ordering) (a b : Focus) (ks ls : List OrderItem) :
    compare order a b (ks ++ ls) = (compare order a b ks).then (compare order a b ls) := by
  induction ks with
  | nil => rfl
  | cons k ks ih => rw [List.cons_append, compare, compare, ih, Ordering.then_assoc]

end OrderItem

/-! ## Items by their names -/

/-- A name stands for the only item of that name, in whatever letters. -/
def Sql.Names.ofItems (items : List String) : Names := fun _ name =>
  match (items.zipIdx.filter fun p => Text.lower p.1 == Text.lower name).map (·.2) with
  | [place] => some fun f => f.row.getD place .null
  | _ => Option.none

/-- Among different names each stands for its item. -/
theorem ofItems_eq {items : List String} (hdistinct : (items.map Text.lower).Nodup) {i : Nat} {name : String}
    (h : items[i]? = some name) (qualifier : Option String) :
    Names.ofItems items qualifier name = some fun f => f.row.getD i .null := by
  have hcount : items.countP (fun s => Text.lower s == Text.lower name) ≤ 1 := by
    have hmapped : (items.map Text.lower).count (Text.lower name) ≤ 1 := List.nodup_iff_count_le_one.mp hdistinct _
    rwa [List.count, List.countP_map] at hmapped
  have hplace := zipIdx_filter_of_countP (p := fun s => Text.lower s == Text.lower name) h (by simp) hcount 0
  unfold Names.ofItems
  rw [hplace]
  simp

namespace Convert

variable {env : Env} {ctx : Context} {names : List String}

/-- **`NamesItems`** — contexts in which each field is a column with the name of an item: the columns of named inputs,
and select items that are columns or are referred to by their aliases. -/
inductive NamesItems (env : Env) : Context → List String → Prop
  | aliases (hmap : env.fieldMap = []) (inputs : Aliases) (qualified : Bool) :
    NamesItems env (.aliases inputs qualified) (inputs.flatMap fun input => input.2.names)
  | rowPattern (hmap : env.fieldMap = []) (inputs : Aliases) (qualified : Bool) :
    NamesItems env (.rowPattern inputs qualified) (inputs.flatMap fun input => input.2.names)
  | selectList {items : List Node} {names : List String} (groupByAlias : Bool)
      (hitems : List.Forall₂ (fun item name => (item.kind = .aliased ∨ item.kind = .column)
        ∧ item.aliasOf? = some name) items names) :
    NamesItems env (.selectList items true groupByAlias) names

/-- The owner of a position has the field of that name. -/
theorem name_of_owner? {inputs : Aliases} {i : Nat} {name : String}
    (h : (inputs.flatMap fun input => input.2.names)[i]? = some name) :
    ∃ own f, Context.owner? inputs i = some (own, f) ∧ f.name = name := by
  induction inputs generalizing i with
  | nil => cases h
  | cons input rest ih =>
    obtain ⟨own, fields⟩ := input
    rw [List.flatMap_cons, List.getElem?_append] at h
    have hwidth : fields.names.length = fields.length := by simp [RowType.names]
    rw [Context.owner?]
    split at h
    · rename_i hi
      rw [RowType.names, List.getElem?_map, Option.map_eq_some_iff] at h
      obtain ⟨f, hf, rfl⟩ := h
      rw [hf]
      exact ⟨own, f, rfl, rfl⟩
    · rename_i hi
      rw [hwidth] at h hi
      rw [List.getElem?_eq_none (Nat.le_of_not_lt hi)]
      exact ih h

/-- **A field** in such a context is a column with the name of its item, in ORDER BY too. -/
theorem NamesItems.field (h : NamesItems env ctx names) (hdistinct : (names.map Text.lower).Nodup) {i : Nat}
    {name : String} (hi : names[i]? = some name) :
    ∃ n, ctx.field env (i : Nat) = .ok n ∧ ctx.orderField env (i : Nat) = .ok n ∧ n.kind = .column ∧ n.name = name := by
  cases h with
  | aliases hmap inputs qualified =>
    obtain ⟨own, f, howner, rfl⟩ := name_of_owner? hi
    have hfield := Context.field_aliases hmap qualified howner
    exact ⟨_, hfield, hfield, rfl, name_column _ _⟩
  | rowPattern hmap inputs qualified =>
    obtain ⟨own, f, howner, rfl⟩ := name_of_owner? hi
    have hfield : (Context.rowPattern inputs qualified).field env (i : Nat) = _ :=
      Context.field_aliases hmap qualified howner
    exact ⟨_, hfield, hfield, rfl, name_column _ _⟩
  | @selectList items _ groupByAlias hitems =>
    obtain ⟨hlength, hall⟩ := List.forall₂_iff_get.mp hitems
    obtain ⟨hlt, rfl⟩ := List.getElem?_eq_some_iff.mp hi
    have hlt' : i < items.length := by omega
    have hitem : items[i]? = some items[i] := List.getElem?_eq_getElem hlt'
    obtain ⟨hkind, hname⟩ := hall i (by omega) hlt
    simp only [List.get_eq_getElem] at hkind hname
    have hshadowed : Context.isShadowed items i (Text.lower names[i]) = false := by
      rw [Context.isShadowed, List.any_eq_false]
      rintro ⟨other, j⟩ hmem hother
      obtain ⟨hj, rfl⟩ := List.getElem?_eq_some_iff.mp (List.mk_mem_zipIdx_iff_getElem?.mp hmem)
      have hotherName := (hall j hj (by omega)).2
      simp only [List.get_eq_getElem] at hotherName
      simp only [Bool.and_eq_true, bne_iff_ne, ne_eq, beq_iff_eq, hotherName, Option.map_some, Option.some.injEq] at hother
      -- different places have different names
      have hi' : i < (names.map Text.lower).length := by simpa using hlt
      have hj' : j < (names.map Text.lower).length := by simp only [List.length_map]; omega
      have hplaces : (names.map Text.lower)[j] = (names.map Text.lower)[i] := by simpa using hother.2
      exact hother.1 ((List.Nodup.getElem_inj_iff hdistinct).mp hplaces)
    obtain ⟨n, hn, hcolumn, hnamed⟩ : ∃ n, Context.itemField true (i : Nat) items[i] = .ok n ∧ n.kind = .column
        ∧ n.name = names[i] := by
      rcases hkind with hkind | hkind
      · have haliased : items[i].aliasName = names[i] := by simpa [aliasOf?, hkind] using hname
        exact ⟨Node.column names[i], by simp [Context.itemField, Node.is, hkind, haliased], rfl, name_column _ _⟩
      · exact ⟨items[i], by simp [Context.itemField, Node.is, hkind], hkind, by simpa [aliasOf?, hkind] using hname⟩
    have hfield : (Context.selectList items true groupByAlias).field env (i : Nat) = .ok n := by
      simp only [Context.field, nth?_whole, hitem, hn]
    refine ⟨n, hfield, ?_, hcolumn, hnamed⟩
    simp only [Context.orderField, hfield]
    simp [Context.sortKeyOf, Node.is, hcolumn, hnamed, hshadowed]

/-! ## Sort keys -/

variable {E : Engine} {db : Database} {names : Names} {n : Node} {value : Focus → Datum}

/-- A node that is no number, read as a sort key. -/
theorem read?_orderedNode (hn : n.kind ≠ .literal) (hvalue : (Reading.scalar E db names).Shows n value)
    (default : NullCollation) (descending : Bool) (first : Option Bool) :
    OrderItem.read? E db names default (orderedNode n descending first)
      = some ⟨value, descending, first.getD (default.nullsFirst descending)⟩ := by
  have hscalar : n.scalar E db names = some fun f => [value f] := hvalue
  have hthis : (orderedNode n descending first).this? = some n := by
    cases first <;> simp [orderedNode, this?, child?, arg?, args]
  have hdescending : (orderedNode n descending first).flag "desc" = descending := by
    cases first <;> cases descending <;> simp [orderedNode, flag, arg?]
  have hfirst : ((orderedNode n descending first).arg? "nulls_first").bind (·.flag?) = first := by
    cases first <;> simp [orderedNode, arg?]
  have hkind : (orderedNode n descending first).is .ordered = true := rfl
  have hliteral : n.is .literal = false := by simpa [Node.is] using hn
  simp [OrderItem.read?, hkind, hthis, hdescending, hfirst, hliteral, hscalar, single]

theorem read?_isNull (hvalue : (Reading.scalar E db names).Shows n value) (default : NullCollation) :
    OrderItem.read? E db names default (Node.isNull n)
      = some ⟨fun f => .bool (decide (value f = .null)), false, default.nullsFirst false⟩ := by
  have hscalar : (Node.isNull n).scalar E db names = some fun f => [.bool (decide (value f = .null))] :=
    Reading.shows_isNull hvalue
  have hkind : (Node.isNull n).is .ordered = false := rfl
  have hliteral : (Node.isNull n).is .literal = false := rfl
  simp [OrderItem.read?, hkind, hliteral, hscalar, single]

/-! ## What a dialect does without saying so -/

/-- A placement has to be asked for exactly where the dialect does not put missing values anyway. -/
theorem isDefaultPlacement_eq (d : Dialect) (direction : Direction) {nulls : NullPlacement} (h : nulls ≠ .unspecified) :
    d.isDefaultPlacement (nulls == .first) (direction == .descending) = (nulls == d.defaultPlacement direction) := by
  unfold Dialect.isDefaultPlacement Dialect.defaultPlacement
  cases d.capabilities.nullCollation <;> cases direction <;> cases nulls <;> first | rfl | exact absurd rfl h

/-- What a dialect does without saying so is what its null collation says. -/
theorem defaultPlacement_eq (d : Dialect) (direction : Direction) :
    (d.defaultPlacement direction == .first) = d.capabilities.nullCollation.nullsFirst (direction == .descending) := by
  unfold Dialect.defaultPlacement NullCollation.nullsFirst
  cases d.capabilities.nullCollation <;> cases direction <;> rfl

/-- Truth values are sorted with the false one first. -/
structure FalseFirst (order : Datum → Datum → Ordering) : Prop where
  lt : order (.bool false) (.bool true) = .lt
  gt : order (.bool true) (.bool false) = .gt
  eq : ∀ b, order (.bool b) (.bool b) = .eq

/-- A test for missing values before a key decides where they go, whatever the key says about it. -/
theorem sorted_test {order : Datum → Datum → Ordering} (horder : FalseFirst order) (first descending any any' : Bool)
    (a b : Datum) :
    (Datum.sorted order first any (.bool (decide (a = .null))) (.bool (decide (b = .null)))).then
        (Datum.sorted order descending any' a b) = Datum.sorted order descending first a b := by
  by_cases ha : a = .null <;> by_cases hb : b = .null <;> cases first <;>
    simp [Datum.sorted, horder.lt, horder.gt, horder.eq, ha, hb]

/-- **One collation** becomes one or two items of ORDER BY that compare rows as it asks. -/
theorem sortKeys_compare {d : Dialect} (hn : n.kind ≠ .literal) (hvalue : (Reading.scalar E db names).Shows n value)
    (c : Collation) : ∃ keys, (sortKeys d n n c.direction c.nulls).mapM
        (OrderItem.read? E db names d.capabilities.nullCollation) = some keys
      ∧ ∀ order, FalseFirst order → ∀ a b, OrderItem.compare order a b keys
        = Datum.sorted order (c.direction == .descending) (c.nullsFirst d.capabilities.nullCollation) (value a) (value b) := by
  have hkey := read?_orderedNode hn hvalue d.capabilities.nullCollation (c.direction == .descending)
  -- a single item decides by itself
  have hsingle : ∀ k : OrderItem, ∀ order a b, OrderItem.compare order a b [k]
      = Datum.sorted order k.descending k.nullsFirst (k.value a) (k.value b) := fun k order a b => by
    simp [OrderItem.compare]
  unfold sortKeys
  by_cases hnulls : c.nulls = .unspecified
  · simp only [hnulls, beq_self_eq_true, if_true]
    refine ⟨[_], by rw [List.mapM_cons, hkey, List.mapM_nil]; rfl, fun order _ a b => ?_⟩
    rw [hsingle, Collation.nullsFirst, hnulls]
    rfl
  · have hasked : c.nullsFirst d.capabilities.nullCollation = (c.nulls == .first) := by
      unfold Collation.nullsFirst
      cases hc : c.nulls <;> first | rfl | exact absurd hc hnulls
    simp only [beq_iff_eq, hnulls, if_false, hasked]
    cases htest : d.emulatePlacement n (c.nulls == .first) (c.direction == .descending) with
    | none =>
      simp only
      refine ⟨[_], by rw [List.mapM_cons, hkey, List.mapM_nil]; rfl, fun order _ a b => ?_⟩
      rw [hsingle]
      by_cases hdefault : c.nulls = d.defaultPlacement c.direction
      · simp [hdefault, defaultPlacement_eq]
      · simp [hdefault]
    | some test =>
      -- the test goes first, upwards or downwards
      have hread : OrderItem.read? E db names d.capabilities.nullCollation test
          = some ⟨fun f => .bool (decide (value f = .null)), c.nulls == .first,
            d.capabilities.nullCollation.nullsFirst (c.nulls == .first)⟩ := by
        unfold Dialect.emulatePlacement at htest
        split at htest
        · cases htest
        · split at htest
          · rename_i hfirst
            cases htest
            rw [hfirst]
            exact read?_orderedNode (n := Node.isNull n) (by simp [Node.isNull]) (Reading.shows_isNull hvalue) _ true none
          · rename_i hfirst
            cases htest
            rw [Bool.eq_false_iff.mpr hfirst]
            exact read?_isNull hvalue _
      simp only
      refine ⟨[_, _], by rw [List.mapM_cons, hread, List.mapM_cons, hkey, List.mapM_nil]; rfl, fun order horder a b => ?_⟩
      have hpair : ∀ k l : OrderItem, OrderItem.compare order a b [k, l]
          = (Datum.sorted order k.descending k.nullsFirst (k.value a) (k.value b)).then
            (Datum.sorted order l.descending l.nullsFirst (l.value a) (l.value b)) := fun k l => by simp [OrderItem.compare]
      rw [hpair]
      exact sorted_test horder _ _ _ _ _ _

/-- A dialect without words for it is not told where missing values go. -/
theorem sortKeys_wordless {d : Dialect} (hd : d.capabilities.nullsOrdering = false) (c : Collation) {tested key : Node}
    (hkey : key ∈ sortKeys d tested n c.direction c.nulls) : key.arg? "nulls_first" = none := by
  have hplain : ∀ m descending, (orderedNode m descending none).arg? "nulls_first" = none := fun m descending => by
    simp [orderedNode, arg?]
  unfold sortKeys at hkey
  simp only at hkey
  split at hkey
  · rw [List.mem_singleton.mp hkey]
    exact hplain _ _
  · rename_i hnulls
    split at hkey
    · rename_i test htest
      rcases List.mem_cons.mp hkey with rfl | hkey
      · unfold Dialect.emulatePlacement at htest
        split at htest
        · cases htest
        · split at htest <;> cases htest
          · exact hplain _ true
          · simp [Node.isNull, arg?]
      · rw [List.mem_singleton.mp hkey]
        exact hplain _ _
    · rename_i htest
      -- without a test the dialect puts them there anyway
      have hdefault : (c.nulls == d.defaultPlacement c.direction) = true := by
        rw [← isDefaultPlacement_eq d c.direction (by simpa using hnulls)]
        unfold Dialect.emulatePlacement at htest
        split at htest
        · rename_i h
          simpa [hd] using h
        · split at htest <;> cases htest
      rw [List.mem_singleton.mp hkey, bne, hdefault]
      exact hplain _ _

/-- **Sort order** — over items with different names, the items of ORDER BY for a list of collations compare any two
rows as the collations ask, missing values included; and a dialect that has no words for the placement of missing
values is told none. -/
theorem collationsNodes_compare {env : Env} {ctx : Context} {items : List String} (hctx : NamesItems env ctx items)
    (hdistinct : (items.map Text.lower).Nodup) {collations : List Collation}
    (hcollations : ∀ c ∈ collations, ∃ i < items.length, c.key = (i : Nat)) :
    ∃ nodes, collationsNodes env ctx collations = .ok nodes
      ∧ (∀ (E : Engine) (db : Database), ∃ keys,
        nodes.mapM (OrderItem.read? E db (Names.ofItems items) env.dialect.capabilities.nullCollation) = some keys
        ∧ ∀ order, FalseFirst order → ∀ a b, OrderItem.compare order a b keys
          = requested order env.dialect.capabilities.nullCollation a.row b.row collations)
      ∧ (env.dialect.capabilities.nullsOrdering = false → ∀ n ∈ nodes, n.arg? "nulls_first" = none) := by
  induction collations with
  | nil => exact ⟨[], rfl, fun E db => ⟨[], rfl, fun _ _ _ _ => rfl⟩, fun _ n hn => by cases hn⟩
  | cons c cs ih =>
    obtain ⟨rest, hrest, hcompare, hwordless⟩ := ih fun c hc => hcollations c (List.mem_cons_of_mem _ hc)
    obtain ⟨i, hi, hkey⟩ := hcollations c List.mem_cons_self
    obtain ⟨n, hfield, horder, hcolumn, hname⟩ := hctx.field hdistinct (List.getElem?_eq_getElem hi)
    have hnode : collationNodes env ctx c = .ok (sortKeys env.dialect n n c.direction c.nulls) := by
      rw [collationNodes, hkey, hfield, horder]
      rfl
    simp only [collationsNodes, bind_eq_ok_iff, pure_eq_ok_iff] at hrest
    obtain ⟨groups, hgroups, rfl⟩ := hrest
    refine ⟨sortKeys env.dialect n n c.direction c.nulls ++ groups.flatten, ?_, fun E db => ?_, fun hd m hm => ?_⟩
    · rw [collationsNodes, List.mapM_cons, hnode, hgroups]
      rfl
    · obtain ⟨keys, hkeys, hsorted⟩ := hcompare E db
      have hvalue : (Reading.scalar E db (Names.ofItems items)).Shows n fun f => f.row.getD i .null := by
        show n.scalar E db (Names.ofItems items) = _
        rw [scalar_of_column hcolumn, hname, ofItems_eq hdistinct (List.getElem?_eq_getElem hi)]
        rfl
      obtain ⟨first, hfirst, hkeySorted⟩ := sortKeys_compare (d := env.dialect) (by simp [hcolumn]) hvalue c
      refine ⟨first ++ keys, by rw [List.mapM_append, hfirst, hkeys]; rfl, fun order hfalse a b => ?_⟩
      rw [OrderItem.compare_append, hkeySorted order hfalse, hsorted order hfalse, requested, hkey]
      rfl
    · rcases List.mem_append.mp hm with hm | hm
      · exact sortKeys_wordless hd c hm
      · exact hwordless hd m hm

/-- MySQL is asked for missing amounts last and missing names first, of which only the former has to be written. -/
theorem collationsNodes_compare_emulated :
    let items := [Node.aliased (Node.number "1") "amount", Node.column "name" (some "t")]
    let collations : List Collation := [⟨.whole 0, .ascending, .last⟩, ⟨.whole 1, .ascending, .first⟩]
    (["amount", "name"].map Text.lower).Nodup
      ∧ ∃ nodes, collationsNodes { dialect := Dialect.mysql } (.selectList items true false) collations = .ok nodes
      ∧ (∀ (E : Engine) (db : Database), ∃ keys,
        nodes.mapM (OrderItem.read? E db (Names.ofItems ["amount", "name"]) .low) = some keys
        ∧ ∀ order, FalseFirst order → ∀ a b, OrderItem.compare order a b keys = requested order .low a.row b.row collations)
      ∧ ∀ n ∈ nodes, n.arg? "nulls_first" = none := by
  intro items collations
  have hctx : NamesItems { dialect := Dialect.mysql } (.selectList items true false) ["amount", "name"] :=
    .selectList false (.cons ⟨.inl rfl, by decide⟩ (.cons ⟨.inr rfl, by decide⟩ .nil))
  have hdistinct : (["amount", "name"].map Text.lower).Nodup := by decide
  have hkeys : ∀ c ∈ collations, ∃ i < ["amount", "name"].length, c.key = (i : Nat) := by
    simp only [collations, List.forall_mem_cons]
    exact ⟨⟨0, by decide, rfl⟩, ⟨1, by decide, rfl⟩, fun c hc => by cases hc⟩
  obtain ⟨nodes, hnodes, hcompare, hwordless⟩ := collationsNodes_compare hctx hdistinct hkeys
  exact ⟨hdistinct, nodes, hnodes, hcompare, hwordless rfl⟩

end Convert
end AlgebraSql
