import AlgebraSql.Numeric.Binary

/-!
# Ordinal — positions that may lie outside the list they point into.

A position arrives from a plan as a number.  A whole number that is not negative points to the
element that has so many others before it.  A negative number and a number between two whole ones
point nowhere, but they are compared, put into order and named in complaints like any other.
-/

namespace AlgebraSql

/-- A position as it is given. -/
inductive Ordinal where
  | whole (i : Int)
  | between (value : Decimal)
  deriving Repr, DecidableEq

namespace Ordinal

instance : Inhabited Ordinal := ⟨.whole 0⟩

instance : Coe Int Ordinal := ⟨.whole⟩

instance : Coe Nat Ordinal := ⟨fun n => .whole n⟩

/-- The position that a number is. -/
def ofDecimal (d : Decimal) : Ordinal :=
  match d.reduced with
  | ⟨i, 0⟩ => .whole i
  | d => .between d

/-- The number that a position is. -/
def value : Ordinal → Decimal
  | .whole i => Decimal.ofInt i
  | .between d => d

/-- The number of elements before the one that a position may point to. -/
def nat? : Ordinal → Option Nat
  | .whole (.ofNat n) => some n
  | _ => none

/-- The text of a position. -/
def toText (i : Ordinal) : String := i.value.toText

/-! ## Order -/

/-- The first position is less than the second. -/
def lt (a b : Ordinal) : Bool :=
  match a, b with
  | .whole i, .whole j => i < j
  | _, _ => a.value.compare b.value == .lt

/-- The distance from the second position to the first, unless it is out of range. -/
def minus? (a b : Ordinal) : Option Ordinal :=
  match a, b with
  | .whole i, .whole j => some (.whole (i - j))
  | _, _ => (a.value.difference? b.value).map ofDecimal

/-- Puts a key into an ascending list, before the first that is not less. -/
def insertKey (key : Ordinal) : List Ordinal → List Ordinal
  | [] => [key]
  | k :: ks => if k.lt key then k :: insertKey key ks else key :: k :: ks

/-- Positions in ascending order. -/
def ascending (keys : List Ordinal) : List Ordinal :=
  keys.foldr insertKey []

@[simp] theorem nat?_whole (n : Nat) : nat? (.whole n) = some n := rfl

@[simp] theorem nat?_between (d : Decimal) : nat? (.between d) = none := rfl

theorem nat?_of_neg {i : Int} (h : i < 0) : nat? (.whole i) = none := by
  cases i with
  | ofNat n => exact absurd h (by simp)
  | negSucc n => rfl

theorem nat?_eq_some_iff {i : Ordinal} {n : Nat} : i.nat? = some n ↔ i = .whole n := by
  constructor
  · intro h
    cases i with
    | between d => cases h
    | whole i =>
      cases i with
      | negSucc k => cases h
      | ofNat k =>
        cases h
        rfl
  · rintro rfl
    rfl

end Ordinal

/-! ## Elements -/

/-- The element at a position, if there is one. -/
def nth? {α : Type} (xs : List α) (i : Ordinal) : Option α :=
  match i.nat? with
  | some n => xs[n]?
  | none => none

@[simp] theorem nth?_whole {α : Type} (xs : List α) (n : Nat) : nth? xs (.whole n) = xs[n]? := rfl

theorem nth?_of_neg {α : Type} (xs : List α) {i : Int} (h : i < 0) :
    nth? xs (.whole i) = none := by
  simp only [nth?, Ordinal.nat?_of_neg h]

@[simp] theorem nth?_between {α : Type} (xs : List α) (d : Decimal) :
    nth? xs (.between d) = none := rfl

theorem mem_of_nth? {α : Type} {as : List α} {k : Ordinal} {a : α} (h : nth? as k = some a) :
    a ∈ as := by
  unfold nth? at h
  split at h
  · exact List.mem_of_getElem? h
  · cases h

/-- A position holds an element exactly when it is a whole number inside the list. -/
theorem nth?_isSome_iff {α : Type} (xs : List α) (i : Ordinal) :
    (nth? xs i).isSome ↔ ∃ n < xs.length, i = .whole n := by
  unfold nth?
  cases h : i.nat? with
  | none =>
    constructor
    · intro hs
      cases hs
    · rintro ⟨n, -, rfl⟩
      cases h
  | some n =>
    rw [Ordinal.nat?_eq_some_iff] at h
    subst h
    constructor
    · intro hs
      exact ⟨n, by simpa using hs, rfl⟩
    · rintro ⟨m, hm, he⟩
      cases he
      simpa using hm

end AlgebraSql
