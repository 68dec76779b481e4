import AlgebraSql.Convert.Relation
import AlgebraSql.Sql.TrivialAlias

/-!
# Statements — a whole plan in the SQL of a dialect.

`statement` converts a plan into the node of a statement, and `statementText` writes it.  Some
fields may stand for something else than their names; this is how a plan is made part of a larger
query.
-/

namespace AlgebraSql.Convert

open Sql

/-- The environment of a dialect in which the fields of some names stand for nodes. -/
def Env.ofFields (d : Dialect) (fields : List (String × Node)) : Env :=
  fields.foldl (fun env f => env.mapField f.1 f.2) { dialect := d }

/-- A conversion from its start, without the memory that it leaves. -/
def ConvertM.value {α : Type} (c : ConvertM α) : Except Error α := (c.run.run {}).1

/-- The statement for a plan. -/
def planStatement (env : Env) (rel : Rel) : ConvertM Node := do
  (← planResult env rel).asStatement env

/-- The statement for a plan in a dialect; `strip` drops the names of unnamed expressions. -/
def statement (d : Dialect) (rel : Rel) (fields : List (String × Node) := [])
    (strip : Bool := false) : Except Error Node := do
  let n ← (planStatement (Env.ofFields d fields) rel).value
  return if strip then n.stripTrivialAliases else n

/-- The text of the statement for a plan in a dialect. -/
def statementText (d : Dialect) (rel : Rel) (fields : List (String × Node) := [])
    (strip : Bool := false) (options : Render.Options := {}) : Render.RenderM String := do
  d.render (← statement d rel fields strip) options

end AlgebraSql.Convert
