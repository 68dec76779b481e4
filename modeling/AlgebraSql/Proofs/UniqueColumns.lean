import AlgebraSql.Proofs.GroupingSets
import AlgebraSql.Proofs.Names

/-!
# Unique columns — no two columns of a relation that puts columns together share a name.

The search for a free name goes through the numbers from zero on and has no bound of its own.  It ends after at most
as many numbers as there are used names, since different numbers give different names.  An aggregation puts its keys
and calls together, a join the columns of both inputs, and row pattern recognition the columns that it keeps and its
measures; each of these columns takes the first form of its name that none before it has.
-/

namespace AlgebraSql

open AlgebraSql.Convert

/-! ## The search for a name -/

namespace UsedNames

variable {used : UsedNames} {name : String}

/-- **`Search`** — the search from a number on comes to a result: the first candidate that is not in use. -/
inductive Search (used : UsedNames) (name : String) : Nat → String → Prop
  | found {i : Nat} (h : Text.lower (name ++ toString i) ∉ used) : Search used name i (name ++ toString i)
  | further {i : Nat} {result : String} (h : Text.lower (name ++ toString i) ∈ used)
    (hnext : Search used name (i + 1) result) : Search used name i result

/-- **`Chooses`** — a name is chosen in place of a given one: the name itself if nothing in use agrees with it, and
otherwise, once the search has come to an end, the name with the least number behind it that nothing agrees with. -/
inductive Chooses (used : UsedNames) (name : String) : String → Prop
  | free (h : Text.lower name ∉ used) : Chooses used name name
  | numbered {k : Nat} (h : Text.lower name ∈ used) (hends : Search used name 0 (name ++ toString k))
    (hbound : k ≤ used.length) (hfree : Text.lower (name ++ toString k) ∉ used)
    (hleast : ∀ j < k, Text.lower (name ++ toString j) ∈ used) : Chooses used name (name ++ toString k)

theorem has_iff : used.has name = true ↔ Text.lower name ∈ used := by
  rw [has, List.contains_iff_mem]

theorem has_eq_false_iff : used.has name = false ↔ Text.lower name ∉ used := by
  rw [← has_iff, Bool.not_eq_true]

/-- The search ends at the first free number if all numbers before it are taken. -/
theorem search_of_least {k : Nat} (hfree : Text.lower (name ++ toString k) ∉ used) {i : Nat} (hik : i ≤ k)
    (htaken : ∀ j, i ≤ j → j < k → Text.lower (name ++ toString j) ∈ used) :
    Search used name i (name ++ toString k) := by
  -- on how far the number still is
  induction hd : k - i generalizing i with
  | zero =>
    obtain rfl : i = k := by omega
    exact .found hfree
  | succ d ih =>
    exact .further (htaken i (by omega) (by omega)) (ih (by omega) (fun j hj hjk => htaken j (by omega) hjk) (by omega))

/-- **`unique`** — the search ends, and its result is chosen. -/
theorem chooses_unique (used : UsedNames) (name : String) : used.Chooses name (used.unique name) := by
  rcases unique_eq used name with ⟨hfree, heq⟩ | ⟨htaken, k, heq, hfree, hleast⟩
  · rw [heq]
    exact .free (has_eq_false_iff.mp hfree)
  · rw [has_eq_false_iff] at hfree
    simp only [has_iff] at hleast htaken
    have hbound : k ≤ used.length := by
      by_contra hlt
      obtain ⟨j, hj, hjfree⟩ := exists_free used name
      exact has_eq_false_iff.mp hjfree (hleast j (by omega))
    rw [heq]
    exact .numbered htaken (search_of_least hfree k.zero_le fun j _ hj => hleast j hj) hbound hfree hleast

/-- A name that nothing in use agrees with is chosen itself. -/
theorem Chooses.eq_of_free {chosen : String} (h : used.Chooses name chosen) (hfree : Text.lower name ∉ used) :
    chosen = name := by
  cases h with
  | free => rfl
  | numbered htaken => exact absurd htaken hfree

/-- Each of several names is chosen behind those that were chosen before it. -/
theorem chooses_uniquifyAll {names : List String} {i : Nat} {chosen : String} (hname : names[i]? = some name)
    (hchosen : (used.uniquifyAll names).1[i]? = some chosen) :
    Chooses (used ++ ((used.uniquifyAll names).1.take i).map Text.lower) name chosen := by
  induction names generalizing used i with
  | nil => cases hname
  | cons first rest ih =>
    cases i with
    | zero =>
      obtain rfl : first = name := by simpa using hname
      obtain rfl : used.unique first = chosen := by simpa [uniquifyAll, uniquify] using hchosen
      simpa using chooses_unique used first
    | succ i =>
      -- the first name chosen is in use for the others
      have hname' : rest[i]? = some name := by simpa using hname
      have hchosen' : ((used.record (used.unique first)).uniquifyAll rest).1[i]? = some chosen := by
        simpa [uniquifyAll, uniquify] using hchosen
      simpa [uniquifyAll, uniquify, record] using ih hname' hchosen'

end UsedNames

/-! ## Columns put together -/

namespace RowType

/-- **`MadeUnique`** — columns under names of their own: the given ones in order, with the types they had.  Each takes
a form of its name that none before it has, which is the name itself if none before it has that. -/
structure MadeUnique (given columns : RowType) : Prop where
  types : columns.map (·.type) = given.map (·.type)
  distinct : (columns.names.map Text.lower).Nodup
  chosen : ∀ i f g, given[i]? = some f → columns[i]? = some g →
    UsedNames.Chooses ((columns.names.take i).map Text.lower) f.name g.name
  kept : ∀ i f g, given[i]? = some f → columns[i]? = some g →
    Text.lower f.name ∉ (columns.names.take i).map Text.lower → g.name = f.name

theorem MadeUnique.length_eq {given columns : RowType} (h : MadeUnique given columns) :
    columns.length = given.length := by
  simpa using congrArg List.length h.types

/-- New names do not change the types. -/
theorem types_unique (fields : RowType) : fields.unique.map (·.type) = fields.map (·.type) := by
  have htypes : ∀ (fs : RowType) (ns : List String), ns.length = fs.length →
      (List.zipWith (fun (field : Field) name => { field with name }) fs ns).map (·.type) = fs.map (·.type) := by
    intro fs
    induction fs with
    | nil => simp
    | cons f fs ih =>
      intro ns hns
      cases ns with
      | nil => cases hns
      | cons n ns => simp [ih ns (by simpa using hns)]
  exact htypes _ _ (by simp [UsedNames.length_uniquifyAll, names])

theorem madeUnique_unique (fields : RowType) : MadeUnique fields fields.unique := by
  have hchosen : ∀ i f g, fields[i]? = some f → fields.unique[i]? = some g →
      UsedNames.Chooses ((fields.unique.names.take i).map Text.lower) f.name g.name := by
    intro i f g hf hg
    have hname : fields.names[i]? = some f.name := by simp [names, hf]
    have hunique : fields.unique.names[i]? = some g.name := by simp [names, hg]
    rw [names_unique] at hunique ⊢
    simpa using UsedNames.chooses_uniquifyAll hname hunique
  refine ⟨types_unique fields, ?_, hchosen, fun i f g hf hg hfree => (hchosen i f g hf hg).eq_of_free hfree⟩
  rw [names_unique]
  exact (UsedNames.nodup_uniquifyAll [] fields.names).2

end RowType

/-! ## Relations that put columns together -/

namespace Rel

/-- **`KeyColumns`** — the columns of grouping keys: the fields at their positions, in ascending order. -/
def KeyColumns (fields : RowType) (keys : List Ordinal) (columns : RowType) : Prop :=
  ∃ positions : List Nat, (positions.map fun i : Nat => Ordinal.whole i).Perm keys ∧ positions.Pairwise (· ≤ ·)
    ∧ List.Forall₂ (fun i f => fields[i]? = some f) positions columns

/-- **`CallType`** — the type of an aggregate call over rows of the given fields: its own, or else a whole number for a
count, and the type of the first argument for any other function that has one. -/
inductive CallType (fields : RowType) (call : AggregateCall) : DataType → Prop
  | own {t : DataType} (h : call.type = some t) : CallType fields call t
  | count (h : call.type = none) (hcount : call.op.kind = .count) : CallType fields call .bigint
  | argument {i : Nat} {f : Field} (h : call.type = none) (hcount : call.op.kind ≠ .count)
    (harg : call.args.head? = some (.whole i)) (hf : fields[i]? = some f) : CallType fields call f.type
  | bare (h : call.type = none) (hcount : call.op.kind ≠ .count) (harg : call.args = []) : CallType fields call .any

/-- **`CallColumn`** — the column of the call behind so many other columns: its name, or else its place, and its type. -/
def CallColumn (fields : RowType) (offset : Nat) (call : AggregateCall × Nat) (column : Field) : Prop :=
  column.name = call.1.name.getD ("$f" ++ toString (offset + call.2)) ∧ CallType fields call.1 column.type

/-- The fields at positions that are in the row type. -/
theorem forall₂_pick {fields : RowType} {positions : List Nat} (h : ∀ i ∈ positions, i < fields.length) :
    List.Forall₂ (fun i f => fields[i]? = some f) positions (pick fields (positions.map fun i : Nat => Ordinal.whole i)) := by
  induction positions with
  | nil => exact .nil
  | cons i positions ih =>
    have hi : i < fields.length := h i (by simp)
    have hpick : pick fields ((i :: positions).map fun i : Nat => Ordinal.whole i)
        = fields[i] :: pick fields (positions.map fun i : Nat => Ordinal.whole i) := by
      simp [pick, List.getElem?_eq_getElem hi]
    rw [hpick]
    exact .cons (List.getElem?_eq_getElem hi) (ih fun j hj => h j (by simp [hj]))

/-- Positions whose keys are in ascending order are so themselves. -/
theorem pairwise_positions {keys : List Ordinal} {positions : List Nat}
    (h : positions.map (fun i : Nat => Ordinal.whole i) = Ordinal.ascending keys) : positions.Pairwise (· ≤ ·) := by
  have hsorted : (positions.map fun i : Nat => Ordinal.whole i).Pairwise fun a b => a.value.toRat ≤ b.value.toRat := by
    rw [h, Ordinal.ascending_eq]
    exact List.pairwise_insertionSort _ _
  refine (List.pairwise_map.mp hsorted).imp fun {i j} hij => ?_
  simpa [Ordinal.value, Decimal.toRat_ofInt] using hij

/-- A call that was checked has a type. -/
theorem callType_of_checked {input : Rel} {call : AggregateCall} (h : checkCall input call = .ok ()) :
    CallType input.fields call (aggregateType input.fields call) := by
  unfold aggregateType
  cases htype : call.type with
  | some t => exact .own htype
  | none =>
    by_cases hcount : call.op.kind = .count
    · simpa [hcount] using CallType.count htype hcount
    · cases hargs : call.args with
      | nil => simpa [hcount] using CallType.bare htype hcount hargs
      | cons k rest =>
        have hhead : call.args.head? = some k := by rw [hargs]; rfl
        cases hfield : nth? input.fields k with
        | none =>
          -- the check has looked the argument up
          simp only [checkCall, htype, hhead, beq_iff_eq, hcount, if_false, inputField, hfield] at h
          cases h
        | some f =>
          obtain ⟨i, -, rfl⟩ := (nth?_isSome_iff _ k).mp (by rw [hfield]; rfl)
          simpa [hcount, hfield] using CallType.argument htype hcount hhead hfield

theorem forall₂_aggregateFields {input : Rel} {calls : List AggregateCall} (offset : Nat)
    (h : ∀ call ∈ calls, checkCall input call = .ok ()) :
    List.Forall₂ (CallColumn input.fields offset) calls.zipIdx (aggregateFields input.fields offset calls) := by
  unfold aggregateFields
  rw [List.forall₂_map_right_iff, List.forall₂_same]
  rintro ⟨call, i⟩ hmem
  exact ⟨rfl, callType_of_checked (h call (List.fst_mem_of_mem_zipIdx hmem))⟩

/-- An aggregation has a column for each key and each call. -/
theorem madeUnique_aggregate {input r : Rel} {keys : List Ordinal} {calls : List AggregateCall}
    {sets : Option (List (List Ordinal))} (h : aggregate? input keys calls sets = .ok r) :
    ∃ keyColumns callColumns, KeyColumns input.fields keys keyColumns
      ∧ List.Forall₂ (CallColumn input.fields keyColumns.length) calls.zipIdx callColumns
      ∧ RowType.MadeUnique (keyColumns ++ callColumns) r.fields := by
  simp only [aggregate?, bind_eq_ok_iff, pure_eq_ok_iff] at h
  obtain ⟨u, hkeys, u', hcalls, rfl⟩ := h
  obtain ⟨positions, hpositions, hinside⟩ := positions_of_checked hkeys
  have hpick := forall₂_pick hinside
  have hlen : (pick input.fields (Ordinal.ascending keys)).length = (Ordinal.ascending keys).length := by
    rw [← hpositions, List.length_map, hpick.length_eq]
  rw [hpositions] at hpick
  refine ⟨pick input.fields (Ordinal.ascending keys),
    aggregateFields input.fields (Ordinal.ascending keys).length calls, ?_, ?_, ?_⟩
  · exact ⟨positions, by rw [hpositions]; exact ascending_perm keys, pairwise_positions hpositions, hpick⟩
  · rw [hlen]
    exact forall₂_aggregateFields _ ((forM_eq_ok_iff _ _).mp hcalls)
  · rw [fields]
    exact RowType.madeUnique_unique _

/-- Row pattern recognition has the columns that it keeps and a column for each measure. -/
theorem madeUnique_rowPattern {input r : Rel} {spec : RowPattern Expr} (h : rowPattern? input spec = .ok r) :
    ∃ kept, (if spec.allRows then kept = input.fields
        else List.Forall₂ (fun k f => nth? input.fields k = some f) spec.partition kept)
      ∧ RowType.MadeUnique (kept ++ spec.measures.map fun p => ⟨p.1, p.2.type⟩) r.fields := by
  have hunique : ∀ kept, RowType.MadeUnique (kept ++ spec.measures.map fun p => ⟨p.1, p.2.type⟩)
      (RowType.unique (kept ++ spec.measures.map fun p => ⟨p.1, p.2.type⟩)) := fun kept => RowType.madeUnique_unique _
  cases hall : spec.allRows with
  | true =>
    obtain rfl : Rel.rowPattern input spec = r := by simpa [rowPattern?, hall] using h
    refine ⟨input.fields, by simp, ?_⟩
    simpa [fields, patternFields, hall] using hunique input.fields
  | false =>
    simp only [rowPattern?, hall, Bool.false_eq_true, if_false, bind_eq_ok_iff, pure_eq_ok_iff] at h
    obtain ⟨u, hkeys, rfl⟩ := h
    obtain ⟨positions, hpositions, hinside⟩ := positions_of_checked hkeys
    refine ⟨pick input.fields spec.partition, ?_, ?_⟩
    · rw [← hpositions]
      simpa [List.forall₂_map_left_iff] using forall₂_pick hinside
    · simpa [fields, patternFields, hall] using hunique (pick input.fields spec.partition)

/-- **Unique columns** — a name is chosen by a search that ends, and exactly its small form is in use from then on.  The
columns of an aggregation, of a join that keeps both sides, and of row pattern recognition are the columns that these
put together, under names of their own. -/
theorem fields_madeUnique :
    (∀ (used : UsedNames) (name : String), used.Chooses name (used.uniquify name).1
        ∧ ∀ s, s ∈ (used.uniquify name).2 ↔ s ∈ used ∨ s = Text.lower (used.uniquify name).1)
      ∧ (∀ (input r : Rel) (keys : List Ordinal) (calls : List AggregateCall) (sets : Option (List (List Ordinal))),
        aggregate? input keys calls sets = .ok r →
        ∃ keyColumns callColumns, KeyColumns input.fields keys keyColumns
          ∧ List.Forall₂ (CallColumn input.fields keyColumns.length) calls.zipIdx callColumns
          ∧ RowType.MadeUnique (keyColumns ++ callColumns) r.fields)
      ∧ (∀ (left right : Rel) (condition : Expr) (type : JoinType) (correlations : List String),
        type ≠ .semi → type ≠ .anti →
        RowType.MadeUnique (left.fields ++ right.fields) (Rel.join left right condition type correlations).fields)
      ∧ ∀ (input r : Rel) (spec : RowPattern Expr), rowPattern? input spec = .ok r →
        ∃ kept, (if spec.allRows then kept = input.fields
            else List.Forall₂ (fun k f => nth? input.fields k = some f) spec.partition kept)
          ∧ RowType.MadeUnique (kept ++ spec.measures.map fun p => ⟨p.1, p.2.type⟩) r.fields := by
  refine ⟨fun used name => ⟨used.chooses_unique name, fun s => ?_⟩, fun _ _ _ _ _ => madeUnique_aggregate, ?_,
    fun _ _ _ => madeUnique_rowPattern⟩
  · show s ∈ used.record (used.unique name) ↔ _
    rw [UsedNames.record, List.mem_append, List.mem_singleton]
    rfl
  · intro left right condition type correlations hsemi hanti
    have hboth : type.keepsLeftOnly = false := by cases type <;> first | rfl | contradiction
    rw [fields, hboth]
    exact RowType.madeUnique_unique _

/-- Columns two of which have names that a number could turn into each other's. -/
def readings : Rel := .scan ["t"] [⟨"A0", .integer⟩, ⟨"x", .double⟩, ⟨"a", .varchar⟩]

/-- A count under the name of a key, and a sum without a name. -/
def countAndSum : List AggregateCall :=
  [{ op := Operator.count, args := [], name := some "a" }, { op := Operator.sum, args := [.whole 1] }]

/-- A pattern over the readings of each kind; the measure has the name of the partition key in other letters. -/
def perKind : RowPattern Expr :=
  { pattern := .literal (.char "P"), definitions := [], partition := [.whole 2],
    measures := [("A", .inputRef (.whole 1) .double)] }

/-- The keys keep their names, and the number zero behind the name of the count is taken. -/
theorem fields_madeUnique_readings :
    let grouped : Rel := .aggregate readings [.whole 0, .whole 2] [[.whole 0, .whole 2]] countAndSum
    let matched : Rel := .rowPattern readings perKind
    aggregate? readings [.whole 2, .whole 0] countAndSum = .ok grouped
      ∧ grouped.fields.names = ["A0", "a", "a1", "$f3"]
      ∧ (∃ keyColumns callColumns, KeyColumns readings.fields [.whole 2, .whole 0] keyColumns
        ∧ List.Forall₂ (CallColumn readings.fields keyColumns.length) countAndSum.zipIdx callColumns
        ∧ RowType.MadeUnique (keyColumns ++ callColumns) grouped.fields)
      ∧ RowType.MadeUnique (readings.fields ++ readings.fields)
        (Rel.join readings readings (.literal (.boolean true)) .left []).fields
      ∧ rowPattern? readings perKind = .ok matched
      ∧ ∃ kept, List.Forall₂ (fun k f => nth? readings.fields k = some f) perKind.partition kept
        ∧ RowType.MadeUnique (kept ++ perKind.measures.map fun p => ⟨p.1, p.2.type⟩) matched.fields := by
  intro grouped matched
  obtain ⟨-, haggregate, hjoin, hpattern⟩ := fields_madeUnique
  have hgrouped : aggregate? readings [.whole 2, .whole 0] countAndSum = .ok grouped := rfl
  have hmatched : rowPattern? readings perKind = .ok matched := rfl
  exact ⟨hgrouped, by decide +kernel, haggregate readings grouped _ _ none hgrouped,
    hjoin readings readings _ .left [] (by decide) (by decide), hmatched, hpattern readings matched perKind hmatched⟩

end Rel

end AlgebraSql
