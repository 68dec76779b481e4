import AlgebraSql.Proofs.FaithfulPlans
import AlgebraSql.Proofs.JoinCriteria
import AlgebraSql.Proofs.OuterRows
import AlgebraSql.Proofs.SourcedPlans

/-!
# Sides of joins — what a join reads from the results of its inputs.

The result for a plan without joins is read as a FROM item whose rows are those of its query.  All its columns
stand under one name, which was free before the plan was converted and is taken afterwards; so the columns of two
inputs are told apart by the names in front of them, whatever tables the inputs share.
-/

namespace AlgebraSql.Convert

open Sql Node

variable {α : Type} {env : Env} {sub : Rel → ConvertM Node} {s s' : State} {schema : Schema}

/-! ## Names of results -/

/-- **`NamesFreshly`** — the only input that a result has is known by a name that was free before its conversion and
is taken afterwards. -/
def NamesFreshly (c : ConvertM Result) : Prop :=
  ∀ s r s', c.Gives s r s' → ∀ name, r.Single name → s.usedNames.has name = false ∧ s'.usedNames.has name = true

namespace NamesFreshly

theorem makeResult (henv : env.NeverQualifies) (n : Node) (clauses : List Clause) (rel : Rel)
    (aliases : Option Aliases) : NamesFreshly (makeResult env n clauses rel aliases) := by
  intro s r s' h name hsingle
  obtain ⟨rfl, rfl⟩ := (ConvertM.gives_makeResult henv _ _ _ _ _ _ _).mp h
  have haliases := hsingle.aliases
  have hname : givenName s.usedNames n = name := by
    unfold recorded at haliases
    split at haliases
    · simp at haliases
    · simp only [List.cons.injEq, Prod.mk.injEq, and_true] at haliases
      exact haliases
  subst hname
  exact ⟨UsedNames.has_unique _ _, UsedNames.has_record_self _ _⟩

/-- What is converted before a result may take further names. -/
theorem bind {c : ConvertM α} {f : α → ConvertM Result} (hc : Grow c) (hf : ∀ a, NamesFreshly (f a)) :
    NamesFreshly (c >>= f) := by
  intro s r s' hr name hsingle
  obtain ⟨a, t, ha, hr⟩ := (ConvertM.gives_bind _ _ _ _ _).mp hr
  obtain ⟨hfree, htaken⟩ := hf a t r s' hr name hsingle
  refine ⟨?_, htaken⟩
  by_contra hused
  rw [Bool.not_eq_false, UsedNames.has, List.contains_iff_mem] at hused
  rw [UsedNames.has, List.contains_iff_mem.mpr (hc.subset ha hused)] at hfree
  cases hfree

theorem throw {e : Error} : NamesFreshly (MonadExcept.throw e) := by
  intro s r s' h
  exact absurd h (ConvertM.gives_throw _ _ _ _)

end NamesFreshly

/-- **A plan without joins** has a result with a new name. -/
theorem namesFreshly_relationResult (henv : env.NeverQualifies) (hsub : ∀ rel, Grow (sub rel)) (root : Bool) {rel : Rel}
    (hrel : rel.every (joinFree schema) = true) : NamesFreshly (relationResult env sub root rel) := by
  have hbuilder : ∀ b : Builder, NamesFreshly (b.result env) := fun b => .makeResult henv _ _ _ _
  cases rel with
  | scan table fields =>
    rw [relationResult]
    exact .bind grow_lift fun n => .makeResult henv _ _ _ _
  | values fields tuples =>
    rw [relationResult]
    exact .bind (fun _ => steady_nextName) fun name => .bind grow_lift fun n => .makeResult henv _ _ _ _
  | filter input condition ids =>
    rw [relationResult]
    refine .bind (grow_relationResult hsub _ _) fun x => .bind (fun _ => steady_registerCorrelations (fun _ _ => rfl) _)
      fun _ => .bind (grow_builder _ _) fun b => .bind (grow_scalarNode hsub _ _) fun n => .bind grow_lift hbuilder
  | project input projects names distinct ids =>
    rw [relationResult]
    refine .bind (grow_relationResult hsub _ _) fun x => .bind (fun _ => steady_registerCorrelations (fun _ _ => rfl) _)
      fun _ => .bind (grow_builder _ _) fun b => ?_
    by_cases hidentity : isIdentity input projects (Rel.project input projects names distinct ids).fields = true
    · simp only [hidentity, if_true]
      exact .bind (fun _ => .pure) fun b => hbuilder _
    · simp only [hidentity]
      refine .bind (fun bound => .mapM _ fun e _ => .bind (grow_scalarNode hsub _ e bound) fun n => .pure) fun ns => ?_
      exact .bind grow_lift fun items => .bind (fun _ => .pure) fun b => hbuilder _
  | aggregate input keys sets calls =>
    rw [relationResult]
    refine .bind (grow_relationResult hsub _ _) fun x => .bind (grow_builder _ _) fun b => .bind grow_lift fun ks => ?_
    refine .bind grow_lift fun items => .bind grow_lift fun groups => .bind grow_lift fun aggregates => ?_
    refine .bind grow_lift fun items => ?_
    by_cases hplain : (groups.isEmpty && !calls.isEmpty) = true
    · simp only [hplain, if_true]
      exact .bind (fun _ => .pure) hbuilder
    · simp only [hplain]
      exact .bind grow_lift hbuilder
  | setOp op all inputs =>
    rw [relationResult]
    refine .bind (grow_relationSelects hsub inputs) fun ns => ?_
    unfold setOpResult
    split
    · exact .throw
    · exact .makeResult henv _ _ _ _
  | sort input collation offset fetch =>
    rw [relationResult]
    refine .bind (grow_relationResult hsub _ _) fun x => ?_
    have hlimited : ∀ clause key kind limit b, Grow (limited env sub clause key kind limit b) := by
      intro clause key kind limit b
      cases limit with
      | none => exact fun _ => .pure
      | some e =>
        exact fun bound => .bind (steady_scalarNode (steadyQueries_of_grow hsub bound) _ false e
          (Scalar.satisfies_trivial (trivial_growing bound) false e)) fun n => .lift
    rw [sortResult_eq]
    refine .bind (grow_builder _ _) fun b => .bind ?_ fun b => .bind ?_ fun b => ?_
    · unfold listed
      split
      · exact grow_lift
      · exact fun _ => .pure
    · unfold ordered
      refine fun bound => .bind .lift fun keys => ?_
      split
      · exact .pure
      · exact .lift
    · exact .bind (hlimited _ _ _ _ _) fun b => .bind (hlimited _ _ _ _ _) hbuilder
  | window input groups constants names =>
    rw [relationResult]
    refine .bind (grow_relationResult hsub _ _) fun x => .bind (grow_builder _ _) fun b => ?_
    refine .bind (fun bound => .mapM _ fun g _ => ?_) fun calls => .bind grow_lift fun columns => ?_
    · exact steady_windowGroupNodes (steadyQueries_of_grow hsub bound) _ _ _
        (Scalar.frameSatisfies_trivial (trivial_growing bound) true g.frame)
        fun c _ e _ => Scalar.satisfies_trivial (trivial_growing bound) true e
    · exact .bind grow_lift fun items => hbuilder _
  | join | tableFunction | rowPattern => simp [Rel.every, joinFree] at hrel

/-! ## Sides -/

/-- **`Side`** — a join reads a result as a FROM item under one name, which has the rows of the query of the result. -/
structure Side (schema : Schema) (rel : Rel) (x : Result) (name : String) (item : Node) : Prop where
  asFrom : x.resetAlias.asFrom = .ok item
  readable : isReadable item = true
  frame : item.frame schema = [(name, rel.fields.names)]
  aliases : x.resetAlias.aliases = [(name, rel.fields)]
  joinAliases : x.resetAlias.joinAliases = [(name, rel.fields)]
  tuples : ∀ (E : Engine) (db : Database) (outer : Names), db.schema = schema →
    item.tuples E db outer = x.query.rows E db outer
  width : ∀ {E : Engine} {db : Database} {outer : Names} {v : Focus → List Row}, db.schema = schema →
    x.query.rows E db outer = some v → ∀ f, ∀ row ∈ v f, row.length = rel.fields.length

/-- **The result of a plan without joins** is a side of a join. -/
theorem Flat.exists_side {rel : Rel} {x : Result} (hx : Flat schema rel x) (hfresh : x.Fresh)
    (hcolumns : x.query.columns schema = rel.fields.names) {name : String} (hsingle : x.Single name) :
    ∃ item, Side schema rel x name item := by
  obtain ⟨item, hitem, hreadable, hshows⟩ := hx.asFrom
  have haliases : x.aliases = [(name, rel.fields)] := by rw [hsingle.aliases, hx.fields]
  have hframe : item.frame schema = [(name, rel.fields.names)] := by
    rw [hx.frame_asFrom hfresh hcolumns hitem, haliases]
    rfl
  have hreset : x.resetAlias.node = x.node ∧ x.resetAlias.neededAlias = x.neededAlias ∧ x.resetAlias.fields = x.fields
      ∧ x.resetAlias.aliases = [(name, rel.fields)] := by
    rcases hsingle.needed with hneeded | hneeded
    · simp [Result.resetAlias, hneeded, haliases]
    · simp [Result.resetAlias, hneeded, hx.fields]
  obtain ⟨hnode, hneeded, hfields, hreset⟩ := hreset
  refine ⟨item, ?_, hreadable, hframe, hreset, ?_, fun E db outer hdb => hshows.tuples outer hdb, ?_⟩
  · rw [Result.asFrom, hneeded, hnode]
    exact hitem
  · rw [Result.joinAliases, hneeded, hfields, hreset]
    rcases hsingle.needed with hnone | hsome
    · rw [hnone]
    · rw [hsome, hx.fields]
  · intro E db outer v hdb hv f row hrow
    rw [hx.wide hdb hv f row hrow, hcolumns, RowType.names, List.length_map]

namespace Side

variable {rel : Rel} {x : Result} {name : String} {item : Node}

/-- A semi join reads its left side under a star. -/
theorem gives_leftQuery (henv : env.NeverQualifies) (h : Side schema rel x name item) (s : State) :
    (leftQuery env x.resetAlias).Gives s (selectFrom item) s := by
  have hstar : (wrapSelect env item).Gives s (selectFrom item) s :=
    (ConvertM.gives_wrapSelect_of_readable henv h.readable _ _ _).mpr ⟨rfl, rfl⟩
  unfold leftQuery
  cases hneeded : x.resetAlias.neededAlias with
  | none =>
    have hnode : x.resetAlias.node = item := by
      have hfrom := h.asFrom
      rw [Result.asFrom, hneeded] at hfrom
      exact Except.ok.inj hfrom
    have hkind : x.resetAlias.node.kind ≠ .select := fun hk => by
      have hreadable := h.readable
      rw [← hnode, isReadable, hk] at hreadable
      cases hreadable
    rw [Option.isNone_none, if_pos rfl, ConvertM.gives_asSelect_of_ne_select henv hkind, hnode]
    exact hstar
  | some needed =>
    rw [Option.isNone_some, if_neg (by simp), ConvertM.gives_subSelect h.asFrom]
    exact hstar

/-- The columns of a side under its name. -/
theorem frame_eq (h : Side schema rel x name item) : item.frame schema = Context.frame [(name, rel.fields)] := h.frame

end Side

/-! ## Both sides -/

/-- **`SidePair`** — two results that are converted one after the other are the sides of a join: they are read under
different names. -/
structure SidePair (schema : Schema) (L R : Rel) (x y : Result) (a b : String) (l r : Node) : Prop where
  left : Side schema L x a l
  right : Side schema R y b r
  ne : a ≠ b

/-- **Two plans without joins** become the sides of a join. -/
theorem exists_sides (henv : env.NeverQualifies) (hmap : env.fieldMap = []) (hsub : ∀ rel, Grow (sub rel)) {L R : Rel}
    (hL : L.every (joinFree schema) = true) (hR : R.every (joinFree schema) = true) {x y : Result} {t : State}
    (hx : (relationResult env sub false L).Gives s x t) (hy : (relationResult env sub false R).Gives t y s')
    (hcolumns : x.query.columns schema = L.fields.names) (hcolumns' : y.query.columns schema = R.fields.names) :
    ∃ a b l r, SidePair schema L R x y a b l r := by
  have hflat := flat_relationResult henv hmap L hL hx
  have hflat' := flat_relationResult henv hmap R hR hy
  obtain ⟨a, ha, -⟩ := hflat.single
  obtain ⟨b, hb, -⟩ := hflat'.single
  obtain ⟨l, hl⟩ := hflat.exists_side (recording_relationResult henv _ _ _ _ _ hx) hcolumns ha
  obtain ⟨r, hr⟩ := hflat'.exists_side (recording_relationResult henv _ _ _ _ _ hy) hcolumns' hb
  refine ⟨a, b, l, r, hl, hr, ?_⟩
  -- the name of the left side is taken before the right input is converted
  rintro rfl
  obtain ⟨-, htaken⟩ := namesFreshly_relationResult henv hsub false hL s x t hx a ha
  obtain ⟨hfree, -⟩ := namesFreshly_relationResult henv hsub false hR t y s' hy a hb
  rw [htaken] at hfree
  cases hfree

end AlgebraSql.Convert
