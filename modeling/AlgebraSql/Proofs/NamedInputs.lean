import AlgebraSql.Proofs.OpenedOperators
import AlgebraSql.Proofs.Names
import AlgebraSql.Proofs.SourcedExpressions

/-!
# Named inputs — the name under which the fields of a result are found, in any dialect.

Only a join has several named inputs.  The query for any other operator is found under one name: the fresh name under
which it was recorded, or, where fields are qualified and the operator went on with the query of its input, the name of
that input.
-/

namespace AlgebraSql.Convert

open Sql Node

variable {env : Env} {s s' : State} {rel : Rel} {x r : Result} {b : Builder} {n : Node} {a : String} {fields : RowType}

/-! ## Recording -/

/-- A query is found under the name that it takes: it is its own input. -/
structure OwnInput (env : Env) (given : Option Aliases) (name : String) (r : Result) : Prop where
  aliases : r.aliases = [(name, r.fields)]
  needed : r.neededAlias = none ∨ r.neededAlias = some name
  /-- Where fields are qualified, a query with named inputs is no input of its own, and the name is needed. -/
  qualified : (∀ t, env.mustQualify t = true) → r.neededAlias = some name ∧ ∀ a as, given ≠ some (a :: as)

/-- **`makeResult`** — a query takes a fresh name, and is its own input or keeps the named inputs that it has. -/
theorem inputs_makeResult {clauses : List Clause} {aliases : Option Aliases}
    (h : (makeResult env n clauses rel aliases).Gives s r s') :
    r.fields = declaredFields rel n ∧ s'.usedNames = s.usedNames.record (givenName s.usedNames n)
      ∧ ((∃ a as, aliases = some (a :: as) ∧ r.aliases = a :: as ∧ r.neededAlias = some (givenName s.usedNames n))
        ∨ OwnInput env aliases (givenName s.usedNames n) r) := by
  have hneeded : ∀ (own : Option String) (q : Bool) (name : String),
      (if (own != some name || q) then some name else none) = none
        ∨ (if (own != some name || q) then some name else none) = some name := by
    intro own q name
    split
    · exact .inr rfl
    · exact .inl rfl
  unfold makeResult at h
  simp only [ConvertM.gives_bind, ConvertM.gives_freshName, ConvertM.gives_modify, ConvertM.gives_get] at h
  obtain ⟨name, s₁, ⟨rfl, rfl⟩, -, s₂, rfl, s₃, s₄, ⟨rfl, rfl⟩, h⟩ := h
  rcases aliases with _ | (_ | ⟨a, as⟩)
  · obtain ⟨rfl, rfl⟩ := (ConvertM.gives_pure _ _ _ _).mp h
    exact ⟨rfl, rfl, .inr ⟨rfl, hneeded _ _ _, fun hq => ⟨by simp [hq, givenName], by simp⟩⟩⟩
  · obtain ⟨rfl, rfl⟩ := (ConvertM.gives_pure _ _ _ _).mp h
    exact ⟨rfl, rfl, .inr ⟨rfl, hneeded _ _ _, fun hq => ⟨by simp [hq, givenName], by simp⟩⟩⟩
  · simp only at h
    split at h
    · obtain ⟨rfl, rfl⟩ := (ConvertM.gives_pure _ _ _ _).mp h
      exact ⟨rfl, rfl, .inl ⟨a, as, rfl, rfl, rfl⟩⟩
    · rename_i hkeeps
      obtain ⟨rfl, rfl⟩ := (ConvertM.gives_pure _ _ _ _).mp h
      exact ⟨rfl, rfl, .inr ⟨rfl, hneeded _ _ _, fun hq => absurd (by simp [hq]) hkeeps⟩⟩

/-! ## Opening -/

/-- A new query over a result, whose name differs from that of its input, finds the fields under the name of the
result. -/
structure NewInput (env : Env) (x : Result) (rel : Rel) (a : String) (t : String) (fields : RowType) : Prop where
  wrapped : x.mustWrap env rel = true
  needed : x.neededAlias = some t
  differs : t ≠ a
  fields : Result.firstInputFields rel = .ok fields

theorem OpensKnown.subset {ids : List String} (h : OpensKnown env x rel ids s b s') : s.usedNames ⊆ s'.usedNames := by
  obtain ⟨t, hids, hb⟩ := h
  have hbefore : s.usedNames ⊆ t.usedNames := Grow.subset (fun _ => steady_registerCorrelations (fun _ _ => rfl) _) hids
  exact List.Subset.trans hbefore ((grow_builder _ _).subset hb)

/-- A SELECT that needs no new query is opened as it is. -/
theorem select_builder (hwrap : x.mustWrap env rel = false) (hkind : x.node.kind = .select)
    (h : (x.builder env rel).Gives s b s') : b.select = x.node := by
  unfold Result.builder at h
  simp only [hwrap, Bool.false_eq_true, if_false, ConvertM.gives_bind, ConvertM.gives_asSelect_of_select hkind] at h
  obtain ⟨m, s₁, ⟨rfl, rfl⟩, h⟩ := h
  split at h
  · obtain ⟨rfl, -⟩ := (ConvertM.gives_pure _ _ _ _).mp h
    rfl
  · simp only [ConvertM.gives_bind, ConvertM.gives_pure] at h
    obtain ⟨-, -, -, -, -, -, rfl, -⟩ := h
    rfl
  · simp only [ConvertM.gives_bind, ConvertM.gives_pure] at h
    obtain ⟨-, -, -, rfl, -⟩ := h
    rfl

/-- **`builder`** — an opened query without a select list finds the fields under the name of the input or, below a new
query, under the name of the result. -/
theorem inputs_builder (hx : x.aliases = [(a, fields)]) (h : (x.builder env rel).Gives s b s') :
    (∃ items, b.select.selectList? = some items ∧ b.aliases = some [(a, fields)])
      ∨ (b.select.selectList? = none ∧ ∃ t columns, b.context = .aliases [(t, columns)] (env.mustQualify s')
        ∧ b.aliases = some [(t, columns)]
        ∧ (NewInput env x rel a t columns
          ∨ (t = a ∧ columns = fields ∧ (x.mustWrap env rel = true → ∀ t, x.neededAlias = some t → t = a)))) := by
  have hnew : ∀ {wrapped : Bool} {t : String}, x.newAlias? wrapped = some t →
      wrapped = true ∧ x.neededAlias = some t ∧ t ≠ a := by
    intro wrapped t ht
    unfold Result.newAlias? at ht
    split at ht
    · rename_i name hneeded
      simp only [hx, List.length_singleton, bne_self_eq_false, Bool.false_or, Option.ite_none_right_eq_some,
        Bool.and_eq_true, Bool.not_eq_true', Option.some.injEq] at ht
      obtain ⟨⟨hwrapped, hhas⟩, rfl⟩ := ht
      refine ⟨hwrapped, hneeded, ?_⟩
      rintro rfl
      simp [OrderedMap.has] at hhas
    · cases ht
  have hold : ∀ {wrapped : Bool}, x.newAlias? wrapped = none → wrapped = true → ∀ t, x.neededAlias = some t → t = a := by
    intro wrapped hnone hwrapped t ht
    by_contra hne
    simp [Result.newAlias?, ht, hwrapped, hx, OrderedMap.has] at hnone
    exact hne hnone.symm
  unfold Result.builder at h
  dsimp only at h
  split at h
  all_goals
    obtain ⟨select, s₁, -, h⟩ := (ConvertM.gives_bind _ _ _ _ _).mp h
    split at h
    · rename_i items hlist
      obtain ⟨rfl, -⟩ := (ConvertM.gives_pure _ _ _ _).mp h
      exact .inl ⟨items, hlist, by rw [hx]⟩
    · rename_i t hlist ht
      obtain ⟨hwrapped, hneeded, hne⟩ := hnew ht
      simp only [ConvertM.gives_bind, ConvertM.gives_lift, ConvertM.gives_get, ConvertM.gives_pure] at h
      obtain ⟨columns, s₂, ⟨hcolumns, rfl⟩, u, s₃, ⟨rfl, rfl⟩, rfl, rfl⟩ := h
      have hhas : x.aliases.has t = false := by simp [hx, OrderedMap.has, hne.symm]
      exact .inr ⟨hlist, t, columns, by simp [hx], by simp [hhas], .inl ⟨hwrapped, hneeded, hne, hcolumns⟩⟩
    · rename_i hlist hnone
      simp only [ConvertM.gives_bind, ConvertM.gives_get, ConvertM.gives_pure] at h
      obtain ⟨u, s₂, ⟨rfl, rfl⟩, rfl, rfl⟩ := h
      exact .inr ⟨hlist, a, fields, by simp [hx], by rw [hx], .inr ⟨rfl, rfl, hold hnone⟩⟩

end AlgebraSql.Convert
