import AlgebraSql.Text.CaseMap

/-!
# Names — making names unique by numeric suffixes.

Two names are the same when their small forms are.  A name that is taken gets the first number
behind it that makes it free.  Among the first `n + 1` numbered candidates at most `n` can be taken
by `n` used names, so the search is over after as many steps as there are used names.
-/

namespace AlgebraSql

/-- The names in use, in small letters, oldest first. -/
abbrev UsedNames := List String

namespace UsedNames

/-- A name is in use, in whatever letters. -/
def has (used : UsedNames) (name : String) : Bool :=
  used.contains (Text.lower name)

/-- Records a name that is not in use yet. -/
def record (used : UsedNames) (name : String) : UsedNames :=
  used ++ [Text.lower name]

/-- The first free one of `name` followed by `i`, `i + 1`, …, looking at `fuel` candidates beyond
the first. -/
def numbered (used : UsedNames) (name : String) : Nat → Nat → String
  | 0, i => name ++ toString i
  | fuel + 1, i =>
    let candidate := name ++ toString i
    if used.has candidate then numbered used name fuel (i + 1) else candidate

/-- The name itself when it is free, otherwise its first free numbered form. -/
def unique (used : UsedNames) (name : String) : String :=
  if used.has name then used.numbered name used.length 0 else name

/-- A unique form of the name, now in use. -/
def uniquify (used : UsedNames) (name : String) : String × UsedNames :=
  let chosen := used.unique name
  (chosen, used.record chosen)

/-- Unique forms of several names, from left to right. -/
def uniquifyAll (used : UsedNames) : List String → List String × UsedNames
  | [] => ([], used)
  | name :: names =>
    let (chosen, used) := used.uniquify name
    let (rest, used) := uniquifyAll used names
    (chosen :: rest, used)

end UsedNames

end AlgebraSql
