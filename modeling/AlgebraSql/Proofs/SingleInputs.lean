import AlgebraSql.Proofs.Results

/-!
# Single inputs — results whose fields are found through one named input.

Only a join has several named inputs.  The query for any other relation is its own only input, so its
parents never qualify a field, and opening it gives a builder whose context follows from the query.
-/

namespace AlgebraSql.Convert

open Sql Node

variable {env : Env} {s s' : State}

/-! ## Fields -/

/-- The fields of a single input are written as columns without qualifier. -/
theorem field_aliases_iff (hmap : env.fieldMap = []) {name : String} {fields : RowType} {k : Ordinal}
    {n : Node} : (Context.aliases [(name, fields)] false).field env k = .ok n ↔
      ∃ f, nth? fields k = some f ∧ n = Node.column f.name := by
  simp only [Context.field, Context.aliasField, Env.mapped?, hmap, OrderedMap.get?_nil,
    Option.getD_none, nth?]
  cases k.nat? with
  | none => simp
  | some i =>
    simp only [Context.owner?]
    cases fields[i]? with
    | none => simp
    | some f => simp [eq_comm]

/-! ## Results -/

namespace Result

/-- The query of the result is the only named input, and is referred to by its name if it needs one. -/
structure Single (r : Result) (name : String) : Prop where
  aliases : r.aliases = [(name, r.fields)]
  needed : r.neededAlias = none ∨ r.neededAlias = some name

/-- The context of a query that reads the result or is its query. -/
def contextOver (env : Env) (r : Result) (rel : Rel) (m : Node) : Context :=
  match m.selectList? with
  | some items => r.itemContext env rel items
  | none => .aliases r.aliases false

/-- The builder for a query that reads the result or is its query. -/
def builderOver (env : Env) (r : Result) (rel : Rel) (m : Node) : Builder where
  rel := rel
  clauses := if r.mustWrap env rel then r.expected else r.clauses ++ r.expected
  select := m
  context := r.contextOver env rel m
  aliases := some r.aliases

namespace Single

variable {r : Result} {name : String}

theorem expecting (h : r.Single name) (expected : List Clause) (ignores : Bool) :
    (r.expecting expected ignores).Single name := ⟨h.aliases, h.needed⟩

theorem newAlias?_eq (h : r.Single name) (wrapped : Bool) : r.newAlias? wrapped = none := by
  unfold newAlias?
  rcases h.needed with hneeded | hneeded
  · rw [hneeded]
  · have hhas : r.aliases.has name = true := by simp [h.aliases, OrderedMap.has]
    have hone : r.aliases.length = 1 := by simp [h.aliases]
    simp [hneeded, hhas, hone]

/-- **Opening a result** with a single input: the rest follows from the query that is opened. -/
theorem gives_builder (henv : env.NeverQualifies) (h : r.Single name) (rel : Rel) (b : Builder)
    (s s' : State) :
    (r.builder env rel).Gives s b s' ↔ ∃ m,
      (if r.mustWrap env rel then r.subSelect env else r.asSelect env).Gives s m s'
        ∧ b = r.builderOver env rel m := by
  have hopened : ∀ m, r.opened env rel m = .ok (r.builderOver env rel m) := by
    intro m
    have hone : decide (r.aliases.length > 1) = false := by simp [h.aliases]
    unfold opened builderOver contextOver
    rw [h.newAlias?_eq, hone]
    cases m.selectList? <;> rfl
  simp only [ConvertM.gives_builder henv, hopened, Except.ok.injEq, eq_comm (a := b)]

end Single

/-- Recording a query with at most one named input makes it the only input. -/
theorem single_recorded (n : Node) (clauses : List Clause) (rel : Rel) (aliases : Option Aliases)
    (name : String) (h : ∀ inputs, aliases = some inputs → inputs.length ≤ 1) :
    (recorded n clauses rel aliases name).Single name := by
  unfold recorded
  split
  · rename_i a b rest
    have := h _ rfl
    simp at this
  · refine ⟨rfl, ?_⟩
    dsimp only
    split
    · exact .inr rfl
    · exact .inl rfl

/-- What a builder over a result with a single input records has a single input. -/
theorem Single.gives_result (henv : env.NeverQualifies) {b : Builder} {r : Result} {inputs : Aliases}
    (hb : b.aliases = some inputs) (hlength : inputs.length ≤ 1) (h : (b.result env).Gives s r s') :
    ∃ name, r = recorded b.select b.clauses b.rel b.aliases name ∧ r.Single name
      ∧ name = givenName s.usedNames b.select ∧ s' = afterRecording s b.select b.rel := by
  obtain ⟨rfl, rfl⟩ := (ConvertM.gives_makeResult henv _ _ _ _ _ _ _).mp h
  refine ⟨_, rfl, single_recorded _ _ _ _ _ fun inputs' h' => ?_, rfl, rfl⟩
  obtain rfl : inputs = inputs' := by simpa [hb] using h'
  exact hlength

end Result

end AlgebraSql.Convert
