import AlgebraSql.Proofs.Courses

/-!
# Correlation variables — what one stands for, until an operator declares it again.

An operator makes the fields of its input known under the ids of its correlation variables.  The memory
of a conversion holds this table beside the names in use, and nothing but a declaration changes it.  So a
variable stands for the same fields in all sub-queries of an operator, however deep they are nested, as
long as no operator of them declares it too.
-/

namespace AlgebraSql

/-- No operator declares the variable. -/
def undeclared (id : String) : PlanCheck where
  relation rel := !rel.declared.contains id
  expression _ _ := true

namespace OrderedMap

variable {α : Type}

theorem get?_putAll_of_not_mem {pairs : List (String × α)} {key : String} (h : key ∉ pairs.map (·.1))
    (m : OrderedMap α) : (m.putAll pairs).get? key = m.get? key := by
  induction pairs generalizing m with
  | nil => rfl
  | cons p pairs ih =>
    simp only [List.map_cons, List.mem_cons, not_or] at h
    rw [show m.putAll (p :: pairs) = (m.put p.1 p.2).putAll pairs from rfl, ih h.2,
      get?_put_of_ne _ _ (Ne.symm h.1)]

/-- Of several pairs with one value, each key has the value. -/
theorem get?_putAll_const {keys : List String} {key : String} (h : key ∈ keys) (value : α) (m : OrderedMap α) :
    (m.putAll (keys.map fun k => (k, value))).get? key = some value := by
  induction keys generalizing m with
  | nil => cases h
  | cons k keys ih =>
    rw [List.map_cons, show m.putAll ((k, value) :: keys.map fun k => (k, value))
      = (m.put k value).putAll (keys.map fun k => (k, value)) from rfl]
    by_cases hrest : key ∈ keys
    · exact ih hrest _
    · obtain rfl : key = k := by simpa [hrest] using h
      rw [get?_putAll_of_not_mem (by simpa using hrest), get?_put_self]

end OrderedMap

namespace Convert

open Sql

variable {α : Type} {id : String} {env : Env} {sub : Rel → ConvertM Node} {s s' : State}

/-- The course of conversions that leave what a correlation variable stands for. -/
def keeping (id : String) : Course where
  leads s s' := s'.correlations.get? id = s.correlations.get? id
  bounded _ := True
  declarable other := other != id
  refl _ := rfl
  trans h h' := h'.trans h
  recording _ _ := rfl
  comparing _ _ := rfl
  declaring s ids inputs h := OrderedMap.get?_putAll_of_not_mem (by simpa [Function.comp_def] using fun hid => h id hid) _
  bounded_of_leads _ h := h

theorem check_keeping (id : String) : (keeping id).check = undeclared id := by
  simp only [Course.check, undeclared, PlanCheck.mk.injEq, and_true]
  funext rel
  rw [Bool.eq_iff_iff]
  simp [keeping]
  exact ⟨fun h hid => h id hid rfl, fun h other hother heq => h (heq ▸ hother)⟩

/-- **`Spares`** — a conversion leaves what a correlation variable stands for. -/
abbrev Spares (id : String) (c : ConvertM α) : Prop := Takes (keeping id) c

theorem Spares.same {c : ConvertM α} (hc : Spares id c) {a : α} (h : c.Gives s a s') :
    s'.correlations.get? id = s.correlations.get? id := (hc s a s' h).1

/-- A declaration of other variables leaves what a variable stands for. -/
theorem spares_registerCorrelations {ids : List String} (h : id ∉ ids) (inputs : Aliases) :
    Spares id (registerCorrelations ids inputs) :=
  steady_registerCorrelations (fun other hother => by simpa [keeping] using fun heq : other = id => h (heq ▸ hother)) inputs

/-- Sub-queries leave what a variable stands for, unless they declare it. -/
abbrev SparesQueries (id : String) (sub : Rel → ConvertM Node) : Prop :=
  ∀ rel, rel.satisfies (undeclared id) = true → Spares id (sub rel)

/-- **`scalarNode`** — an expression leaves what a variable stands for, unless a sub-query declares it. -/
theorem spares_scalarNode (h : SparesQueries id sub) (ctx : Context) (fields : Bool) {e : Expr}
    (he : e.satisfies (undeclared id) fields = true) : Spares id (scalarNode env sub ctx e) := by
  rw [← check_keeping] at he
  exact steady_scalarNode (fun rel hrel => h rel (by rwa [← check_keeping])) ctx fields e he

/-- **`relationResult`** — a plan leaves what a variable stands for, unless an operator of it declares it. -/
theorem spares_relationResult (h : SparesQueries id sub) (root : Bool) {rel : Rel}
    (hrel : rel.satisfies (undeclared id) = true) : Spares id (relationResult env sub root rel) := by
  rw [← check_keeping] at hrel
  exact steady_relationResult (fun rel hrel => h rel (by rwa [← check_keeping])) root rel hrel

/-- **`queryAt`** — sub-queries of any depth leave what a variable stands for, unless they declare it. -/
theorem spares_queryAt (depth : Nat) (root : Bool) {rel : Rel} (hrel : rel.satisfies (undeclared id) = true) :
    Spares id (queryAt env depth root rel) := by
  rw [← check_keeping] at hrel
  exact steady_queryAt depth root hrel

end Convert

end AlgebraSql
