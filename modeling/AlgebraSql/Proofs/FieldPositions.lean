import AlgebraSql.Proofs.Contexts

/-!
# Field positions — a position in joined inputs is a position in all their fields, one after the other.

Inputs are joined two at a time, and each side may itself be a join or a list of named inputs.  A join passes a
position on to one of its sides, less the width of what stands before it, and so does each named input.  At the end
the position has found the field that it points to when all the fields stand in one row, from left to right; where
there is none, the complaint names the position and the number of fields of the whole.
-/

namespace AlgebraSql.Convert

open Sql

/-! ## Mapped names -/

/-- An environment in which nodes are written for the fields of some names, given one after the other. -/
def Env.mapFields (env : Env) (mapping : List (String × Node)) : Env :=
  mapping.foldl (fun env p => env.mapField p.1 p.2) env

/-- The node that was given last for a name, in whatever letters. -/
def lastMapped? (mapping : List (String × Node)) (name : String) : Option Node :=
  (mapping.reverse.find? fun p => Text.lower p.1 == Text.lower name).map (·.2)

/-- What is written for a name, once a node is given for the fields of another one. -/
theorem mapped?_mapField (env : Env) (other name : String) (n : Node) :
    (env.mapField other n).mapped? name
      = if Text.lower other = Text.lower name then some n else env.mapped? name := by
  show (env.fieldMap.put (Text.lower other) n).get? (Text.lower name) = _
  split
  · next hsame => rw [hsame, OrderedMap.get?_put_self]
  · next hother => rw [OrderedMap.get?_put_of_ne _ _ hother, Env.mapped?]

/-- The node that was given last for a name counts, and before any was given, what the environment has. -/
theorem mapped?_mapFields (env : Env) (mapping : List (String × Node)) (name : String) :
    (env.mapFields mapping).mapped? name = (lastMapped? mapping name).or (env.mapped? name) := by
  induction mapping generalizing env with
  | nil => rfl
  | cons p rest ih =>
    obtain ⟨other, n⟩ := p
    show ((env.mapField other n).mapFields rest).mapped? name = _
    rw [ih, mapped?_mapField]
    simp only [lastMapped?, List.reverse_cons, List.find?_append]
    cases rest.reverse.find? fun p => Text.lower p.1 == Text.lower name with
    | some later => rfl
    | none => by_cases hsame : Text.lower other = Text.lower name <;> simp [hsame]

namespace Context

/-! ## Fields in a row -/

/-- **`OverInputs`** — a context of named inputs, joined in any way. -/
inductive OverInputs : Context → Prop
  | aliases (inputs : Aliases) (qualified : Bool) : OverInputs (.aliases inputs qualified)
  | rowPattern (inputs : Aliases) (qualified : Bool) : OverInputs (.rowPattern inputs qualified)
  | join {left right : Context} (hleft : OverInputs left) (hright : OverInputs right) :
    OverInputs (.join left right)

/-- The fields of joined inputs, from left to right, each with the qualifier that it is written with. -/
def inRow : Context → List (Option String × Field)
  | .aliases inputs qualified => (owned inputs).map fun p => (if qualified then some p.1 else none, p.2)
  | .rowPattern inputs qualified => (owned inputs).map fun p => (if qualified then some p.1 else none, p.2)
  | .join left right => left.inRow ++ right.inRow
  | .tableFunction _ | .selectList .. => []

theorem fieldCount_eq {ctx : Context} (h : ctx.OverInputs) : ctx.fieldCount = ctx.inRow.length := by
  induction h with
  | aliases inputs qualified => simp [fieldCount, inRow, width_eq]
  | rowPattern inputs qualified => simp [fieldCount, inRow, width_eq]
  | join _ _ ihleft ihright => simp [fieldCount, inRow, ihleft, ihright]

/-! ## Finding a field -/

variable {env : Env}

/-- What is written for a field with a qualifier: the node mapped to its name, or its column. -/
def written (env : Env) (slot : Option String × Field) : Node :=
  (env.mapped? slot.2.name).getD (Node.column slot.2.name slot.1)

/-- Named inputs write what stands at a position in the row. -/
theorem aliasField_eq (inputs : Aliases) (qualified : Bool) (ordinal : Ordinal) :
    aliasField env inputs qualified ordinal
      = match nth? ((owned inputs).map fun p => (if qualified then some p.1 else none, p.2)) ordinal with
        | some slot => .ok (written env slot)
        | none => .error (.ordinalOutOfRange ordinal (width inputs)) := by
  unfold aliasField nth?
  cases ordinal.nat? with
  | none => rfl
  | some i =>
    simp only [owner?_eq, List.getElem?_map]
    cases (owned inputs)[i]? with
    | none => rfl
    | some p => rfl

/-- Joined inputs write what stands at a position in the row, and complain where nothing does. -/
theorem field_eq {ctx : Context} (h : ctx.OverInputs) (ordinal : Ordinal) :
    ctx.field env ordinal
      = match nth? ctx.inRow ordinal with
        | some slot => .ok (written env slot)
        | none => .error (ctx.outOfRange ordinal) := by
  induction h generalizing ordinal with
  | aliases inputs qualified => exact aliasField_eq inputs qualified ordinal
  | rowPattern inputs qualified => exact aliasField_eq inputs qualified ordinal
  | @join left right hleft hright ihleft ihright =>
    have hcount : left.fieldCount = left.inRow.length := fieldCount_eq hleft
    have hcount' : right.fieldCount = right.inRow.length := fieldCount_eq hright
    cases hi : ordinal.nat? with
    | none => simp [field, nth?, hi, outOfRange, fieldCount]
    | some i =>
      -- the side that owns the position has a field there, so its own complaint never comes up
      by_cases hl : i < left.inRow.length
      · have hside : (Context.join left right).field env ordinal = left.field env (i : Nat) := by
          simp only [field, hi, hcount, hl, if_true]
        have hslot : nth? left.inRow (i : Nat) = some left.inRow[i] := by simp [hl]
        have hrow : nth? (Context.join left right).inRow ordinal = some left.inRow[i] := by
          simp [nth?, hi, inRow, List.getElem?_append_left hl, hl]
        rw [hside, ihleft, hslot, hrow]
      · by_cases hr : i < left.inRow.length + right.inRow.length
        · have hlt : i - left.inRow.length < right.inRow.length := by omega
          have hside : (Context.join left right).field env ordinal
              = right.field env (i - left.inRow.length : Nat) := by
            simp only [field, hi, hcount, hcount', hl, hr, if_true, if_false]
          have hslot : nth? right.inRow (i - left.inRow.length : Nat)
              = some right.inRow[i - left.inRow.length] := by simp [hlt]
          have hrow : nth? (Context.join left right).inRow ordinal = some right.inRow[i - left.inRow.length] := by
            simp [nth?, hi, inRow, List.getElem?_append_right (Nat.le_of_not_lt hl), hlt]
          rw [hside, ihright, hslot, hrow]
        · have hrow : nth? (Context.join left right).inRow ordinal = none := by
            simp only [nth?, hi, inRow, List.getElem?_eq_none_iff, List.length_append]
            omega
          rw [hrow]
          simp only [field, hi, hcount, hcount', hl, hr, if_false, outOfRange, fieldCount]

/-- **Field positions** — in a context of named inputs joined in any way, the positions are those of all fields in a
row.  For a field the node given last for its name is written, in whatever letters it was given, and otherwise its
column, with its input in front where the input is qualified.  Any other integer breaks the contract. -/
theorem field_inRow {ctx : Context} (h : ctx.OverInputs) (dialect : Dialect) (mapping : List (String × Node)) :
    let env : Env := Env.mapFields { dialect } mapping
    ctx.fieldCount = ctx.inRow.length
      ∧ (∀ (i : Nat) (hi : i < ctx.inRow.length), ctx.field env i
          = .ok ((lastMapped? mapping ctx.inRow[i].2.name).getD (Node.column ctx.inRow[i].2.name ctx.inRow[i].1)))
      ∧ ∀ i : Int, i < 0 ∨ ctx.fieldCount ≤ i →
        ctx.field env i = .error (ctx.outOfRange i) ∧ (ctx.outOfRange i).classify = .contract := by
  intro env
  have hmapped : ∀ name, env.mapped? name = lastMapped? mapping name := fun name => by
    rw [mapped?_mapFields]
    exact Option.or_none
  refine ⟨fieldCount_eq h, ?_, ?_⟩
  · intro i hi
    rw [field_eq h, nth?_whole, List.getElem?_eq_getElem hi]
    simp only [written, hmapped]
  · intro i hi
    refine ⟨?_, rfl⟩
    have hnone : nth? ctx.inRow (i : Ordinal) = none := by
      rcases hi with hneg | hbeyond
      · exact nth?_of_neg _ hneg
      · obtain ⟨k, rfl⟩ : ∃ k : Nat, i = k := ⟨i.toNat, by omega⟩
        rw [fieldCount_eq h] at hbeyond
        exact List.getElem?_eq_none (by omega)
    rw [field_eq h, hnone]

/-- Two qualified inputs, the first one without fields, joined to a pattern's input, and that to an input that is not
qualified. -/
def departmentsAndRanks : Context :=
  .join
    (.join (.aliases [("gap", []), ("d", [⟨"dno", .integer⟩, ⟨"Name", .varchar⟩])] true)
      (.rowPattern [("p", [⟨"name", .varchar⟩])] false))
    (.aliases [("e", [⟨"ename", .varchar⟩])] false)

/-- Something is to be written for the fields of one name, and then something else. -/
def labels : List (String × Node) := [("name", Node.null), ("NAME", Node.column "label")]

/-- The field of that name gives way to the node given last, and the position behind all fields is refused. -/
theorem field_inRow_departmentsAndRanks :
    let env : Env := Env.mapFields { dialect := .ansi } labels
    departmentsAndRanks.OverInputs
      ∧ departmentsAndRanks.field env (0 : Nat) = .ok (Node.column "dno" (some "d"))
      ∧ departmentsAndRanks.field env (1 : Nat) = .ok (Node.column "label")
      ∧ departmentsAndRanks.field env (3 : Nat) = .ok (Node.column "ename")
      ∧ departmentsAndRanks.field env (4 : Int) = .error (.ordinalOutOfRange (4 : Int) 4) := by
  intro env
  have hover : departmentsAndRanks.OverInputs :=
    .join (.join (.aliases _ true) (.rowPattern _ false)) (.aliases _ false)
  have hdno : lastMapped? labels "dno" = none := by decide +kernel
  have hname : lastMapped? labels "Name" = some (Node.column "label") := by decide +kernel
  have hename : lastMapped? labels "ename" = none := by decide +kernel
  obtain ⟨-, hfields, hbeyond⟩ := field_inRow hover .ansi labels
  refine ⟨hover, ?_, ?_, ?_, (hbeyond 4 (.inr (by decide))).1⟩
  · rw [hfields 0 (by decide)]
    exact congrArg (fun n => Except.ok (n.getD (Node.column "dno" (some "d")))) hdno
  · rw [hfields 1 (by decide)]
    exact congrArg (fun n => Except.ok (n.getD (Node.column "Name" (some "d")))) hname
  · rw [hfields 3 (by decide)]
    exact congrArg (fun n => Except.ok (n.getD (Node.column "ename"))) hename

end Context

end AlgebraSql.Convert
