/-!
# Ordered maps — pairs of a key and a value in the order in which the keys first came.
-/

namespace AlgebraSql

/-- Values under keys, oldest key first. -/
abbrev OrderedMap (α : Type) := List (String × α)

namespace OrderedMap

variable {α : Type}

/-- The value under a key. -/
def get? (m : OrderedMap α) (key : String) : Option α :=
  match m with
  | [] => none
  | (k, v) :: rest => if k = key then some v else get? rest key

/-- The key has a value. -/
def has (m : OrderedMap α) (key : String) : Bool := (m.get? key).isSome

/-- Puts a value under a key; a key that is there keeps its place. -/
def put (m : OrderedMap α) (key : String) (value : α) : OrderedMap α :=
  match m with
  | [] => [(key, value)]
  | (k, v) :: rest => if k = key then (key, value) :: rest else (k, v) :: put rest key value

/-- Puts several pairs, one after the other. -/
def putAll (m : OrderedMap α) (pairs : List (String × α)) : OrderedMap α :=
  pairs.foldl (fun m p => m.put p.1 p.2) m

/-- The map of a list of pairs, the last of which counts for each key. -/
def ofList (pairs : List (String × α)) : OrderedMap α := putAll [] pairs

/-- The map without a key. -/
def erase (m : OrderedMap α) (key : String) : OrderedMap α :=
  m.filter fun p => p.1 != key

@[simp] theorem get?_put_self (m : OrderedMap α) (key : String) (value : α) :
    (m.put key value).get? key = some value := by
  induction m with
  | nil => simp [put, get?]
  | cons p rest ih => obtain ⟨k, v⟩ := p; by_cases h : k = key <;> simp_all [put, get?]

theorem get?_put_of_ne (m : OrderedMap α) {key other : String} (value : α) (h : key ≠ other) :
    (m.put key value).get? other = m.get? other := by
  induction m with
  | nil => simp [put, get?, h]
  | cons p rest ih =>
    obtain ⟨k, v⟩ := p
    by_cases hk : k = key
    · subst hk; simp [put, get?, h]
    · by_cases ho : k = other <;> simp_all [put, get?]

end OrderedMap

end AlgebraSql
