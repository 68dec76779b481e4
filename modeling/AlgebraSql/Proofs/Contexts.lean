import AlgebraSql.Convert.Context

/-!
# Contexts, position by position — which input owns a field.

The positions of named inputs run across them from left to right, so they are the positions of the list
of all fields with their owners.  The owner of a position in two lists of inputs is found in the first
list or, behind its width, in the second one.
-/

namespace AlgebraSql.Convert.Context

open Sql

/-! ## Owners -/

/-- The fields of named inputs, from left to right, each with the name of the input that owns it. -/
def owned (inputs : Aliases) : List (String × Field) :=
  inputs.flatMap fun p => p.2.map fun f => (p.1, f)

theorem width_eq (inputs : Aliases) : width inputs = (owned inputs).length := by
  induction inputs with
  | nil => rfl
  | cons p rest ih => simp [width, owned, ih]

/-- The owner of a position is found where the position points to among the owned fields. -/
theorem owner?_eq (inputs : Aliases) (i : Nat) : owner? inputs i = (owned inputs)[i]? := by
  induction inputs generalizing i with
  | nil => rfl
  | cons p rest ih =>
    obtain ⟨name, fields⟩ := p
    show _ = (fields.map (fun f => (name, f)) ++ owned rest)[i]?
    rw [owner?, List.getElem?_append, List.length_map]
    by_cases hi : i < fields.length
    · simp [hi]
    · have hnone : fields[i]? = none := List.getElem?_eq_none (by omega)
      rw [hnone, if_neg hi]
      exact ih (i - fields.length)

theorem owned_append (l r : Aliases) : owned (l ++ r) = owned l ++ owned r := List.flatMap_append

theorem width_append (l r : Aliases) : width (l ++ r) = width l + width r := by
  rw [width_eq, width_eq, width_eq, owned_append, List.length_append]

/-- Every position inside the width has an owner, and no other has one. -/
theorem owner?_isSome_iff (inputs : Aliases) (i : Nat) :
    (owner? inputs i).isSome = true ↔ i < width inputs := by
  simp [owner?_eq, width_eq]

/-- The owner of a position in two lists of inputs, one behind the other. -/
theorem owner?_append (l r : Aliases) (i : Nat) :
    owner? (l ++ r) i = if i < width l then owner? l i else owner? r (i - width l) := by
  rw [owner?_eq, owner?_eq, owner?_eq, width_eq, owned_append, List.getElem?_append]

/-! ## Fields of named inputs -/

variable {env : Env}

/-- A field of named inputs is the column of its owner, with the owner's name in front if the
inputs are qualified. -/
theorem field_aliases (hmap : env.fieldMap = []) {inputs : Aliases} (qualified : Bool) {i : Nat}
    {name : String} {f : Field} (h : owner? inputs i = some (name, f)) :
    (Context.aliases inputs qualified).field env i
      = .ok (Node.column f.name (if qualified then some name else none)) := by
  simp [field, aliasField, h, Env.mapped?, hmap, OrderedMap.get?]

/-- A field of two lists of qualified inputs is the qualified column of its owner. -/
theorem field_join (hmap : env.fieldMap = []) {l r : Aliases} {i : Nat} {name : String} {f : Field}
    (h : owner? (l ++ r) i = some (name, f)) :
    (Context.join (.aliases l true) (.aliases r true)).field env i
      = .ok (Node.column f.name (some name)) := by
  have hi : i < width l + width r := by
    rw [← width_append, ← owner?_isSome_iff, h]
    rfl
  rw [owner?_append] at h
  by_cases hl : i < width l
  · rw [if_pos hl] at h
    have := field_aliases hmap true h
    simpa [field, fieldCount, hl] using this
  · rw [if_neg hl] at h
    have := field_aliases hmap true h
    simpa [field, fieldCount, hl, hi] using this

end AlgebraSql.Convert.Context
