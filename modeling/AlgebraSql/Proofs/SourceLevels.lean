import AlgebraSql.Proofs.Assembled
import AlgebraSql.Proofs.Sources
import Mathlib.Data.List.Infix

/-!
# Levels — which tables are read where, and which names a conversion takes for them.

The operators of a plan that are not inside an expression form a level: their queries stand behind FROM in each
other.  Expressions, partners of semi joins and arguments of table functions hold plans with levels of their
own.  Within a level all names are taken when they are given away.  A table that is read by itself, however,
is written under its own name even if that name has been taken, so a level inside an expression has to read
tables with names of their own.
-/

namespace AlgebraSql

/-! ## Names for tables -/

/-- A name in small letters is `base` with nothing or a number behind it. -/
def numberedAs (base v : String) : Bool :=
  v.toList.tails.any fun ds => ds.all Char.isDigit && Text.lower (base ++ String.ofList ds) == v

/-- A source of a level that reads the tables may have the name. -/
def mayBeNamed (tables : List String) (v : String) : Bool := ("t" :: tables).any fun base => numberedAs base v

theorem numberedAs_self (base : String) : numberedAs base (Text.lower base) = true := by
  rw [numberedAs, List.any_eq_true]
  exact ⟨[], by simp, by simp⟩

/-- A unique form of a name is the name with nothing or a number behind it. -/
theorem numberedAs_unique (used : UsedNames) (base : String) : numberedAs base (Text.lower (used.unique base)) = true := by
  rcases UsedNames.unique_eq used base with ⟨-, heq⟩ | ⟨-, k, heq, -, -⟩
  · rw [heq]
    exact numberedAs_self base
  · obtain ⟨stem, hstem⟩ := Text.lower_numbered base
    rw [heq, numberedAs, List.any_eq_true]
    refine ⟨Nat.toDigits 10 k, ?_, ?_⟩
    · rw [hstem, String.toList_ofList, List.mem_tails]
      exact List.suffix_append _ _
    · have hdigits : (Nat.toDigits 10 k).all Char.isDigit = true :=
        List.all_eq_true.mpr fun c hc => Nat.isDigit_of_mem_toDigits (by decide) (by decide) hc
      rw [hdigits, ← Nat.toString_eq_ofList_toDigits]
      simp

theorem mayBeNamed_of_mem {tables : List String} {base v : String} (hbase : base ∈ "t" :: tables)
    (h : numberedAs base v = true) : mayBeNamed tables v = true := List.any_eq_true.mpr ⟨base, hbase, h⟩

/-! ## Tables of a level -/

namespace Rel

mutual

/-- The tables that the level of a plan reads, by the last parts of their names. -/
def tables : Rel → List String
  | .scan path _ => path.getLast?.toList
  | .filter input _ _ => input.tables
  | .project input _ _ _ _ => input.tables
  | .aggregate input _ _ _ => input.tables
  | .join left right _ type _ => left.tables ++ if type.keepsLeftOnly then [] else right.tables
  | .setOp _ _ inputs => tablesOf inputs
  | .sort input _ _ _ => input.tables
  | .window input _ _ _ => input.tables
  | .tableFunction _ _ _ => []
  | .values _ _ => []
  | .rowPattern input _ => input.tables

/-- The tables that the levels of several plans read. -/
def tablesOf : List Rel → List String
  | [] => []
  | rel :: rels => rel.tables ++ tablesOf rels

end

/-- The relation is a table. -/
def isScan : Rel → Bool
  | .scan _ _ => true
  | _ => false

end Rel

/-! ## Checks -/

/-- Every table that is read, at whatever level, has an admissible name. -/
def readsOnly (ok : String → Bool) : PlanCheck where
  relation
    | .scan path _ => path.getLast?.all fun name => ok (Text.lower name)
    | _ => true
  expression _ _ := true

/-- Every query in an expression reads only tables with admissible names. -/
def queriesRead (ok : String → Bool) : PlanCheck where
  relation _ := true
  expression
    | _, .subQuery _ _ rel _ => rel.satisfies (readsOnly ok)
    | _, _ => true

/-- A name that no source of a level with these tables can have. -/
def clearName (tables : List String) (v : String) : Bool := !mayBeNamed tables v

/-- **`partnersClear`** — the partners of semi joins, unless they are tables themselves, and the arguments of table
functions read no table that has the name of a source of a level with these tables.  The condition of a semi
join is written inside the query for the partner, so its queries read none with the name of a source of that
query. -/
def partnersClear (tables : List String) : PlanCheck where
  relation
    | .join _ right condition type _ => !type.keepsLeftOnly
      || ((right.isScan || right.satisfies (readsOnly (clearName tables)))
        && condition.satisfies (queriesRead (clearName right.tables)) true)
    | .tableFunction inputs _ _ => inputs.all fun input => input.satisfies (readsOnly (clearName tables))
    | _ => true
  expression _ _ := true

/-- The levels inside a level do not read tables that have the name of one of its sources. -/
def Rel.levelClear (rel : Rel) : Bool :=
  rel.satisfies (queriesRead (clearName rel.tables)) && rel.satisfies (partnersClear rel.tables)

/-- All levels inside a plan are clear. -/
def levelsClear : PlanCheck where
  relation
    | .join _ right _ type _ => !type.keepsLeftOnly || right.levelClear
    | .tableFunction inputs _ _ => inputs.all Rel.levelClear
    | _ => true
  expression
    | _, .subQuery _ _ rel _ => rel.levelClear
    | _, _ => true

/-- **`allClear`** — no level of a plan reads a table that has the name of a source around it. -/
def Rel.allClear (rel : Rel) : Bool := rel.levelClear && rel.satisfies levelsClear

end AlgebraSql
