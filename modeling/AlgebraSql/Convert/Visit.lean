import AlgebraSql.Convert.Relation

/-!
# Visits — driving a conversion relation by relation.

A caller may convert the relations of a plan one by one and combine the results itself.  Then it has
to keep to the order of a whole conversion: a result is extended only by the relation that announced
its clauses.  Relations are recognised by marks, because two relations that look alike may be
different ones.
-/

namespace AlgebraSql.Convert

open Sql

/-- A relation of a caller's plan.  Two of them are the same when they carry the same mark; one
without a mark is the same as no other. -/
structure Subject where
  rel : Rel
  mark : Option Nat := none

/-- The relation is the one with this mark. -/
def Subject.hasMark (s : Subject) (mark : Option Nat) : Bool :=
  s.mark.isSome && s.mark == mark

/-- A result with the mark of the relation that announced clauses for it. -/
structure Visit where
  result : Result
  parent : Option Nat := none

namespace Visit

variable (env : Env)

/-- The visit to a relation that has nothing above it. -/
def ofRoot (rel : Rel) : ConvertM Visit := do return { result := ← planResult env rel }

/-- The result of a visit after a relation has announced its clauses. -/
def expecting (v : Visit) (parent : Subject) (expected : List Clause)
    (ignoreClauses : Bool := false) : Visit :=
  { result := v.result.expecting expected ignoreClauses, parent := parent.mark }

/-- The visit to an input of a relation that announces its clauses. -/
def ofInput (parent : Subject) (i : Ordinal) (expected : List Clause) (ignoreClauses : Bool) :
    ConvertM Visit := do
  match nth? parent.rel.inputs i with
  | some input => return (← ofRoot env input).expecting parent expected ignoreClauses
  | none => throw (.noInput parent.rel.operatorName i)

/-- The visit with the name by which its result must be referred to as the only input. -/
def resetAlias (v : Visit) : Visit := { v with result := v.result.resetAlias }

/-- Opens the result for the clauses of the relation that announced them. -/
def builder (v : Visit) (subject : Subject) : ConvertM Builder := do
  if subject.hasMark v.parent then v.result.builder env subject.rel
  else throw (.foreignBuilder subject.rel.operatorName)

end Visit

end AlgebraSql.Convert
