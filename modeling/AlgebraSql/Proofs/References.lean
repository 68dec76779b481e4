import AlgebraSql.Proofs.SoundInputs

/-!
# References — every column of a statement finds what it names.

`PlanCheck.exact` is the check of plans for which this holds: it follows the fields of the plan, asks
for column names that differ, and keeps apart the names on both sides of a join.  The conversion of
such a plan keeps the invariant of results by recursion over the plan, and that of sub-queries by
induction on how deep they are nested.
-/

namespace AlgebraSql

open AlgebraSql.Convert Sql

/-! ## Plans -/

namespace PlanCheck

/-- Column names are not empty and differ. -/
def namesApart (fields : RowType) : Bool :=
  decide fields.names.Nodup && fields.names.all (· != "")

/-- A join whose columns are those of both sides. -/
def isWideJoin : Rel → Bool
  | .join _ _ _ type _ => !type.keepsLeftOnly
  | _ => false

/-- No column on the left has the name of one on the right, in whatever letters. -/
def sidesApart (left right : RowType) : Bool :=
  (left.names.map Text.lower).all fun name => !(right.names.map Text.lower).contains name

/-- What is asked of a single relation. -/
def writtenRelation (schema : Schema) : Rel → Bool
  | .scan path fields =>
    namesApart fields && !path.isEmpty && path.all (· != "") && tableColumns schema path == fields.names
  | .aggregate input groupSet sets calls =>
    namesApart (Rel.aggregate input groupSet sets calls).fields
      && !(Rel.aggregate input groupSet sets calls).fields.isEmpty
  | .join left right condition type ids =>
    namesApart (Rel.join left right condition type ids).fields && !isWideJoin left
      && !isWideJoin right && sidesApart left.fields right.fields
  | .setOp op all inputs => namesApart (Rel.setOp op all inputs).fields && decide (2 ≤ inputs.length)
  | .tableFunction .. => false
  | .rowPattern .. => false
  | rel => namesApart rel.fields

/-- Expressions refer to no relation around their own. -/
def writtenExpression : Expr → Bool
  | .correlation .. => false
  | .patternField .. => false
  | _ => true

/-- **`written`** — scans of tables that the schema knows, and the other operators except table
functions and row patterns, over columns of different names.  The sides of a join have no names in
common and are no joins with the columns of both sides themselves. -/
def written (schema : Schema) : PlanCheck where
  relation := writtenRelation schema
  expression := fun _ => writtenExpression

/-- What is asked of a single relation beyond that: the columns of a join differ in whatever letters,
and a projection has expressions. -/
def exactRelation (schema : Schema) (rel : Rel) : Bool :=
  writtenRelation schema rel && match rel with
    | .join left right _ type _ =>
      type.keepsLeftOnly
        || decide (((RowType.names (left.fields ++ right.fields)).map Text.lower).Nodup)
    | .project _ projects _ _ _ => !projects.isEmpty
    | _ => true

/-- Input fields occur only where they are meant to. -/
def exactExpression (fields : Bool) (e : Expr) : Bool :=
  writtenExpression e && match e with
    | .inputRef .. => fields
    | _ => true

/-- **`exact`** — the same, where also the names within each side of a join differ in whatever
letters, a projection has expressions, and no input field occurs in the limits of a sort. -/
def exact (schema : Schema) : PlanCheck where
  relation := exactRelation schema
  expression := exactExpression

theorem uncorrelated_exact (schema : Schema) : (exact schema).Uncorrelated where
  literal _ _ := rfl
  call _ _ _ _ := rfl
  correlation _ _ _ := rfl
  patternField _ _ _ _ := rfl
  inputRef _ _ := rfl

end PlanCheck

namespace Convert

variable {schema : Schema} {env : Env} {sub : Rel → ConvertM Node} {s s' : State}

theorem namesColumns_of_namesApart {rel : Rel} (h : PlanCheck.namesApart rel.fields = true) :
    NamesColumns rel := by
  simp only [PlanCheck.namesApart, Bool.and_eq_true, decide_eq_true_eq, List.all_eq_true,
    bne_iff_ne] at h
  exact h

/-- A plan that satisfies the check satisfies it at its top. -/
theorem relation_of_satisfies {k : PlanCheck} {rel : Rel} (h : rel.satisfies k = true) :
    k.relation rel = true := by
  cases rel <;> simp only [Rel.satisfies, Bool.and_eq_true] at h
  all_goals first | exact h | exact h.1 | exact h.1.1 | exact h.1.1.1

theorem writtenRelation_of_satisfies {rel : Rel} (h : rel.satisfies (.exact schema) = true) :
    PlanCheck.writtenRelation schema rel = true := by
  have := relation_of_satisfies h
  simp only [PlanCheck.exact, PlanCheck.exactRelation, Bool.and_eq_true] at this
  exact this.1

/-- The columns of a plan that satisfies the check are named. -/
theorem namesColumns_of_satisfies {rel : Rel} (h : rel.satisfies (.exact schema) = true) :
    NamesColumns rel := by
  refine namesColumns_of_namesApart ?_
  have hrel := writtenRelation_of_satisfies h
  cases rel <;>
    simp only [PlanCheck.writtenRelation, Bool.and_eq_true, Bool.false_eq_true] at hrel
  all_goals first | exact hrel | exact hrel.1 | exact hrel.1.1.1

/-! ## Conversions -/

mutual

/-- **`relationResult`** — the result for a plan that satisfies the check is sound. -/
theorem soundRelation (henv : env.Standard) (hsetting : Setting (.exact schema) schema sub) :
    ∀ (rel : Rel) (root : Bool) {s s' : State} {r : Result}, rel.satisfies (.exact schema) = true →
    (relationResult env sub root rel).Gives s r s' →
    Grows s s' ∧ SoundResult schema s.usedNames s'.usedNames rel r
  | .scan path fields, root, s, s', r, hrel, h => by
    have hwritten := writtenRelation_of_satisfies hrel
    simp only [PlanCheck.writtenRelation, Bool.and_eq_true, Bool.not_eq_true',
      List.isEmpty_eq_false_iff, List.all_eq_true, bne_iff_ne, beq_iff_eq] at hwritten
    obtain ⟨⟨⟨-, hpath⟩, hparts⟩, hcolumns⟩ := hwritten
    rw [relationResult] at h
    exact soundScan henv.toNeverQualifies hpath hparts hcolumns (namesColumns_of_satisfies hrel).1 h
  | .values fields tuples, root, s, s', r, hrel, h => by
    rw [relationResult] at h
    exact soundValues henv (namesColumns_of_satisfies hrel) h
  | .filter input condition ids, root, s, s', r, hrel, h => by
    simp only [Rel.satisfies, Bool.and_eq_true] at hrel
    rw [relationResult, ConvertM.gives_bind] at h
    obtain ⟨x, s₁, hx, h⟩ := h
    obtain ⟨hgrows, hsound⟩ := soundRelation henv hsetting input false hrel.1.2 hx
    refine (And.imp_left fun hlast => hgrows.trans hlast) (soundFilter henv hsetting hgrows hsound
      (namesColumns_of_satisfies hrel.1.2) hrel.2 h)
  | .project input projects names distinct ids, root, s, s', r, hrel, h => by
    have hnames := namesColumns_of_satisfies hrel
    have hexact := relation_of_satisfies hrel
    simp only [PlanCheck.exact, PlanCheck.exactRelation, Bool.and_eq_true, Bool.not_eq_true',
      List.isEmpty_eq_false_iff] at hexact
    simp only [Rel.satisfies, Bool.and_eq_true, Scalar.allSatisfy_iff] at hrel
    rw [relationResult, ConvertM.gives_bind] at h
    obtain ⟨x, s₁, hx, h⟩ := h
    obtain ⟨hgrows, hsound⟩ := soundRelation henv hsetting input false hrel.1.2 hx
    exact (And.imp_left fun hlast => hgrows.trans hlast) (soundProject henv hsetting hgrows hsound
      (namesColumns_of_satisfies hrel.1.2) hnames hexact.2 hrel.2 h)
  | .aggregate input groupSet sets calls, root, s, s', r, hrel, h => by
    have hnames := namesColumns_of_satisfies hrel
    have hwritten := writtenRelation_of_satisfies hrel
    simp only [PlanCheck.writtenRelation, Bool.and_eq_true, Bool.not_eq_true',
      List.isEmpty_eq_false_iff] at hwritten
    simp only [Rel.satisfies, Bool.and_eq_true] at hrel
    rw [relationResult, ConvertM.gives_bind] at h
    obtain ⟨x, s₁, hx, h⟩ := h
    obtain ⟨hgrows, hsound⟩ := soundRelation henv hsetting input false hrel.2 hx
    exact (And.imp_left fun hlast => hgrows.trans hlast) (soundAggregate henv hgrows hsound
      (namesColumns_of_satisfies hrel.2) hnames hwritten.2 h)
  | .sort input collation offset fetch, root, s, s', r, hrel, h => by
    simp only [Rel.satisfies, Bool.and_eq_true] at hrel
    rw [relationResult, ConvertM.gives_bind] at h
    obtain ⟨x, s₁, hx, h⟩ := h
    obtain ⟨hgrows, hsound⟩ := soundRelation henv hsetting input false hrel.1.1.2 hx
    exact (And.imp_left fun hlast => hgrows.trans hlast) (soundSort henv hsetting hgrows hsound
      (namesColumns_of_satisfies hrel.1.1.2) hrel.1.2 hrel.2 h)
  | .window input groups constants names, root, s, s', r, hrel, h => by
    have hnames := namesColumns_of_satisfies hrel
    simp only [Rel.satisfies, Bool.and_eq_true] at hrel
    rw [relationResult, ConvertM.gives_bind] at h
    obtain ⟨x, s₁, hx, h⟩ := h
    obtain ⟨hgrows, hsound⟩ := soundRelation henv hsetting input false hrel.1.2 hx
    exact (And.imp_left fun hlast => hgrows.trans hlast) (soundWindow henv hsetting hgrows hsound
      (namesColumns_of_satisfies hrel.1.2) hnames hrel.2 h)
  | .join left right condition type ids, root, s, s', r, hrel, h => by
    have hexact := relation_of_satisfies hrel
    simp only [PlanCheck.exact, PlanCheck.exactRelation, Bool.and_eq_true, Bool.or_eq_true,
      decide_eq_true_eq] at hexact
    simp only [Rel.satisfies, Bool.and_eq_true] at hrel
    simp only [relationResult, ConvertM.gives_bind] at h
    obtain ⟨x, s₁, hx, y, s₂, hy, h⟩ := h
    obtain ⟨hgrowsx, hsoundx⟩ := soundRelation henv hsetting left false hrel.1.1.2 hx
    obtain ⟨hgrowsy, hsoundy⟩ := soundRelation henv hsetting right false hrel.1.2 hy
    have hleft := namesColumns_of_satisfies hrel.1.1.2
    have hright := namesColumns_of_satisfies hrel.1.2
    refine (And.imp_left fun hlast => (hgrowsx.trans hgrowsy).trans hlast) ?_
    cases htype : type.keepsLeftOnly with
    | true =>
      simp only [htype, if_true] at h
      exact soundSemiJoin henv hsetting hgrowsx hgrowsy hsoundx hsoundy hleft hright.1 htype hrel.2 h
    | false =>
      simp only [htype, Bool.false_eq_true, if_false] at h
      exact soundJoin henv hsetting hgrowsx hgrowsy hsoundx hsoundy hleft.1 hright.1 htype
        (hexact.2.resolve_left (by simp [htype])) hrel.2 h
  | .setOp op all inputs, root, s, s', r, hrel, h => by
    have hnames := namesColumns_of_satisfies hrel
    have hwritten := writtenRelation_of_satisfies hrel
    simp only [PlanCheck.writtenRelation, Bool.and_eq_true, decide_eq_true_eq] at hwritten
    simp only [Rel.satisfies, Bool.and_eq_true] at hrel
    rw [relationResult, ConvertM.gives_bind] at h
    obtain ⟨ns, s₁, hns, h⟩ := h
    obtain ⟨hgrows, hsound⟩ := soundRelations henv hsetting inputs hrel.2 hns
    exact (And.imp_left fun hlast => hgrows.trans hlast)
      (soundSetOp henv hgrows hsound hwritten.2 hnames h)
  | .tableFunction inputs call fields, root, s, s', r, hrel, h => by
    have := writtenRelation_of_satisfies hrel
    simp [PlanCheck.writtenRelation] at this
  | .rowPattern input spec, root, s, s', r, hrel, h => by
    have := writtenRelation_of_satisfies hrel
    simp [PlanCheck.writtenRelation] at this

/-- **`relationSelects`** — the queries for several plans that satisfy the check are sound. -/
theorem soundRelations (henv : env.Standard) (hsetting : Setting (.exact schema) schema sub) :
    ∀ (rels : List Rel) {s s' : State} {ns : List Node}, Rel.allSatisfy (.exact schema) rels = true →
    (relationSelects env sub rels).Gives s ns s' →
    Grows s s' ∧ SoundSelects schema s.usedNames rels ns
  | [], s, s', ns, hrels, h => by
    rw [relationSelects, ConvertM.gives_pure] at h
    obtain ⟨rfl, rfl⟩ := h
    exact ⟨.refl s, rfl, fun n hn => (by cases hn), fun n rest hlist => (by cases hlist)⟩
  | rel :: rels, s, s', ns, hrels, h => by
    simp only [Rel.allSatisfy, Bool.and_eq_true] at hrels
    simp only [relationSelects, ConvertM.gives_bind, ConvertM.gives_pure] at h
    obtain ⟨x, s₁, hx, n, s₂, hn, ms, s₃, hms, rfl, rfl⟩ := h
    obtain ⟨hgrows, hsound⟩ := soundRelation henv hsetting rel false hrels.1 hx
    obtain ⟨hselect, -⟩ := hsound.asSelect henv.toNeverQualifies (.refl s₁) hn
    obtain ⟨hgrows', hrest⟩ := soundRelations henv hsetting rels hrels.2 hms
    exact ⟨(hgrows.trans hselect).trans hgrows',
      soundSelects_cons henv.toNeverQualifies hgrows hsound hn hrest⟩

end

/-! ## Queries and statements -/

/-- The node of a sound result resolves by itself. -/
theorem SoundResult.closed {used used' : UsedNames} {rel : Rel} {r : Result}
    (h : SoundResult schema used used' rel r) : Closed schema used r.node := by
  rcases h.shape with hitem | hjoin | hquery
  · exact fun sc _ => hitem.closed sc
  · exact hjoin.closed
  · exact hquery.closed

/-- A sound result as a statement resolves by itself. -/
theorem SoundResult.asStatement (henv : env.NeverQualifies) {used : UsedNames} {rel : Rel}
    {r : Result} (hr : SoundResult schema used s.usedNames rel r) {n : Node}
    (h : (r.asStatement env).Gives s n s') : Grows s s' ∧ Closed schema used n := by
  unfold Result.asStatement at h
  split at h
  · obtain ⟨rfl, rfl⟩ := (ConvertM.gives_pure _ _ _ _).mp h
    exact ⟨.refl s, hr.closed⟩
  · obtain ⟨hgrows, F, hreader, -⟩ := hr.asSelect henv (.refl s) h
    exact ⟨hgrows, hreader.sound.isClosed⟩

/-- A sound result as a query inside an expression resolves by itself. -/
theorem SoundResult.asQuery (henv : env.NeverQualifies) {used : UsedNames} {rel : Rel} {r : Result}
    (hr : SoundResult schema used s.usedNames rel r) {n : Node} (h : (r.asQuery env).Gives s n s') :
    Grows s s' ∧ Closed schema used n := by
  unfold Result.asQuery at h
  split at h
  · obtain ⟨rfl, rfl⟩ := (ConvertM.gives_pure _ _ _ _).mp h
    exact ⟨.refl s, hr.closed⟩
  · split at h
    · obtain ⟨rfl, rfl⟩ := (ConvertM.gives_pure _ _ _ _).mp h
      exact ⟨.refl s, hr.closed⟩
    · obtain ⟨hgrows, F, hreader, -⟩ := hr.asSelect henv (.refl s) h
      exact ⟨hgrows, hreader.sound.isClosed⟩

/-- The conversion of sub-queries gives closed queries, however deep they are nested. -/
theorem setting_queryAt (henv : env.Standard) (depth : Nat) :
    Setting (.exact schema) schema (queryAt env depth false) := by
  have hquery : ∀ {sub : Rel → ConvertM Node}, Setting (.exact schema) schema sub →
      ∀ {rel : Rel}, rel.satisfies (.exact schema) = true → ∀ {s n s'},
      (relationResult env sub false rel >>= fun x => x.asQuery env).Gives s n s' →
      Grows s s' ∧ Closed schema s.usedNames n := by
    intro sub hsetting rel hrel s n s' h
    rw [ConvertM.gives_bind] at h
    obtain ⟨x, s₁, hx, hn⟩ := h
    obtain ⟨hgrows, hsound⟩ := soundRelation henv hsetting rel false hrel hx
    exact (And.imp_left fun hlast => hgrows.trans hlast) (hsound.asQuery henv.toNeverQualifies hn)
  have hstep : ∀ {sub : Rel → ConvertM Node}, Setting (.exact schema) schema sub →
      Setting (.exact schema) schema
        (fun rel => relationResult env sub false rel >>= fun x => x.asQuery env) :=
    fun hsetting => ⟨PlanCheck.uncorrelated_exact schema,
      fun _ hrel _ _ _ h => (hquery hsetting hrel h).1, fun _ hrel _ _ _ h => (hquery hsetting hrel h).2⟩
  induction depth with
  | zero =>
    refine @hstep (fun _ => pure Node.null) ⟨PlanCheck.uncorrelated_exact schema, ?_, ?_⟩
    · intro rel _ s n s' h
      obtain ⟨-, rfl⟩ := (ConvertM.gives_pure _ _ _ _).mp h
      exact .refl s
    · intro rel _ s n s' h sc _
      obtain ⟨rfl, -⟩ := (ConvertM.gives_pure _ _ _ _).mp h
      exact Node.resolves_null
  | succ depth ih => exact hstep ih

/-- The dialects that name constant rows, group and filter by expressions, and have no QUALIFY. -/
theorem standard_plain {d : Dialect} (hd : d = Dialect.ansi ∨ d = Dialect.postgres) :
    (Env.plain d).Standard := by
  rcases hd with rfl | rfl <;> constructor <;> first | rfl | exact ⟨rfl, rfl⟩

/-- **Every column reference resolves** in the statement for a plan that satisfies the check. -/
theorem statement_resolves {d : Dialect} (hd : d = Dialect.ansi ∨ d = Dialect.postgres)
    {schema : Schema} {rel : Rel} (hrel : rel.satisfies (.exact schema) = true) {n : Node}
    (hn : statement d rel = .ok n) : n.resolves schema {} = true := by
  have henv := standard_plain hd
  rw [statement_eq] at hn
  obtain ⟨s, hgives⟩ := (ConvertM.value_eq_ok_iff _ _).mp hn
  unfold planStatement planResult at hgives
  rw [ConvertM.gives_bind] at hgives
  obtain ⟨x, s₁, hx, hstatement⟩ := hgives
  obtain ⟨-, hsound⟩ := soundRelation henv (setting_queryAt henv _) rel true hrel hx
  refine (hsound.asStatement henv.toNeverQualifies hstatement).2 {} ?_
  simp [InUse, Node.Scope.visible]

/-! ## Single plans -/

/-- The tables `l`, with columns `a` and `A`, and `r`, with a column `b`. -/
def twoTablesSchema : Schema := fun parts => if parts = ["l"] then ["a", "A"] else ["b"]

/-- The table `l` with its two columns. -/
def scanLetters : Rel := .scan ["l"] [⟨"a", DataType.integer⟩, ⟨"A", DataType.integer⟩]

/-- The table `r` with its column. -/
def scanOther : Rel := .scan ["r"] [⟨"b", DataType.integer⟩]

/-- The rows of a plan where a field is greater than one. -/
def aboveOne (input : Rel) (i : Nat) : Rel :=
  .filter input (.call Operator.greaterThan
    [.inputRef i DataType.integer, .literal ⟨.exact "1", DataType.integer⟩] DataType.boolean) []

/-- Both columns of one table beside the other table. -/
def lettersBesideOther (left : Rel) : Rel :=
  .join left scanOther (.literal ⟨.boolean true, DataType.boolean⟩) .inner []

/-- The rows of a table with partners in the other one, filtered and limited. -/
def limitedPartners : Rel :=
  .sort
    (.filter (.join scanLetters (aboveOne scanOther 0) (.call Operator.equals
        [.inputRef (.whole 1) DataType.integer, .inputRef (.whole 2) DataType.integer]
        DataType.boolean) .semi [])
      (Scalar.existsQuery (aboveOne scanOther 0)) [])
    [] none (some (.literal ⟨.exact "1", DataType.integer⟩))

/-- The references of a semi join, a sub-query and a limited query over them find what they name. -/
theorem statement_resolves_limitedPartners : ∃ n, statement Dialect.postgres limitedPartners = .ok n
    ∧ n.resolves twoTablesSchema {} = true := by
  have hok : (statement Dialect.postgres limitedPartners).toOption.isSome = true := by decide +kernel
  cases hn : statement Dialect.postgres limitedPartners with
  | error e => simp [hn, Except.toOption] at hok
  | ok n => exact ⟨n, rfl, statement_resolves (.inr rfl) (by decide +kernel) hn⟩

/-- The plan satisfies the wider check, and yet a reference in its statement finds nothing. -/
def LosesReference (schema : Schema) (rel : Rel) : Prop :=
  rel.satisfies (.written schema) = true
    ∧ ∃ n, statement Dialect.ansi rel = .ok n ∧ n.resolves schema {} = false

theorem losesReference_of_map {schema : Schema} {rel : Rel}
    (hrel : rel.satisfies (.written schema) = true)
    (h : (statement Dialect.ansi rel).toOption.map (·.resolves schema {}) = some false) :
    LosesReference schema rel := by
  refine ⟨hrel, ?_⟩
  cases hn : statement Dialect.ansi rel with
  | error e => simp [hn, Except.toOption] at h
  | ok n => exact ⟨n, rfl, by simpa [hn, Except.toOption] using h⟩

/-- References get lost where a join renames a column that a star shows under its old name, where a
limit uses the name of a select item, and where a projection without expressions is a star.  The first
is a slip, since the row type is meant to be that of the star; the others are as they are meant. -/
theorem written_losesReference :
    LosesReference twoTablesSchema (aboveOne (aboveOne (lettersBesideOther scanLetters) 0) 1)
      ∧ LosesReference twoTablesSchema
        (.sort (.project scanOther [.call Operator.plus
            [.inputRef (.whole 0) DataType.integer, .inputRef (.whole 0) DataType.integer]
            DataType.integer] ["x"] false [])
          [] none (some (.inputRef (.whole 0) DataType.integer)))
      ∧ LosesReference twoTablesSchema
        (aboveOne (aboveOne (lettersBesideOther (.project scanOther [] [] false [])) 0) 0) :=
  ⟨losesReference_of_map (by decide +kernel) (by decide +kernel),
    losesReference_of_map (by decide +kernel) (by decide +kernel),
    losesReference_of_map (by decide +kernel) (by decide +kernel)⟩

end Convert

end AlgebraSql
