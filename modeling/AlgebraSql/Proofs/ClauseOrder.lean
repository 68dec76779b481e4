import AlgebraSql.Proofs.Clauses

/-!
# Clause order — why the declared clauses protect the clauses of a query.

A result declares the clauses of its query ahead of time, some operators do not look at them, and a
wrap starts them anew.  `Tracked` relates what is declared to what is there: every clause of the
query is declared, a condition in WHERE has something declared behind FROM, and a sort declares an
OFFSET even without one.  From it follows how a result can be opened, operator by operator.
-/

namespace AlgebraSql.Convert

open Sql Node

variable {env : Env} {sub : Rel → ConvertM Node} {s s' : State}

/-! ## Putting arguments -/

/-- The query has no argument of a name behind another one was put into it, if it had none before. -/
theorem arg?_set_eq_none {n : Node} {key other : String} (a : Arg) (hne : key ≠ other)
    (h : n.arg? other = none) : (n.set key (some a)).arg? other = none := by
  rw [arg?_set_of_ne n a hne, h]

/-- An argument that is no part of a sort leaves a query unfinished. -/
theorem Unfinished.set {n : Node} (h : Unfinished n) {key : String} (a : Arg)
    (hkey : key ∉ finishingKeys) : Unfinished (n.set key (some a)) := fun other hother =>
  arg?_set_eq_none a (fun heq => hkey (heq ▸ hother)) (h other hother)

theorem unfinished_selectFrom (item : Node) : Unfinished (Node.selectFrom item) := by
  intro key hkey
  simp only [finishingKeys, List.mem_cons, List.not_mem_nil, or_false] at hkey
  rcases hkey with rfl | rfl | rfl <;> simp [Node.selectFrom]

/-- A new select list changes no other argument. -/
theorem MayList.arg?_eq {m n : Node} (h : MayList m n) {key : String} (hkey : key ≠ "expressions") :
    n.arg? key = m.arg? key := by
  rcases h with rfl | ⟨items, rfl⟩
  · rfl
  · exact arg?_set_of_ne m _ hkey.symm

theorem MayList.unfinished {m n : Node} (h : MayList m n) (hm : Unfinished m) : Unfinished n := by
  intro key hkey
  rw [h.arg?_eq (fun heq => absurd (heq ▸ hkey) (by decide)), hm key hkey]

/-! ## Declared clauses -/

/-- The clauses of a query are declared. -/
structure Declares (clauses : List Clause) (n : Node) : Prop where
  filtered : n.arg? "where" ≠ none → ∃ c ∈ clauses, 1 ≤ c.rank
  grouped : n.arg? "group" ≠ none → .groupBy ∈ clauses
  /-- HAVING and QUALIFY hold a condition that can be read. -/
  conditions : ∀ key ∈ ["having", "qualify"], n.arg? key ≠ none → n.condition? key ≠ none

/-- The arguments that declared clauses are about. -/
def declaredKeys : List String := ["where", "group", "having", "qualify"]

theorem Declares.congr {clauses : List Clause} {m n : Node} (h : Declares clauses m)
    (hargs : ∀ key ∈ declaredKeys, n.arg? key = m.arg? key) : Declares clauses n where
  filtered := by
    rw [hargs "where" (by decide)]
    exact h.filtered
  grouped := by
    rw [hargs "group" (by decide)]
    exact h.grouped
  conditions := by
    intro key hkey
    have hdeclared : key ∈ declaredKeys := by
      simp only [List.mem_cons, List.not_mem_nil, or_false] at hkey
      rcases hkey with rfl | rfl <;> decide
    unfold condition? child?
    rw [hargs key hdeclared]
    exact h.conditions key hkey

theorem Declares.set {clauses : List Clause} {n : Node} (h : Declares clauses n) {key : String}
    (a : Arg) (hkey : key ∉ declaredKeys) : Declares clauses (n.set key (some a)) :=
  h.congr fun _ hother => arg?_set_of_ne n a fun heq => hkey (heq ▸ hother)

theorem Declares.mono {clauses more : List Clause} {n : Node} (h : Declares clauses n)
    (hmore : clauses ⊆ more) : Declares more n where
  filtered := fun hwhere => by
    obtain ⟨c, hc, hrank⟩ := h.filtered hwhere
    exact ⟨c, hmore hc, hrank⟩
  grouped := fun hgroup => hmore (h.grouped hgroup)
  conditions := h.conditions

theorem declares_selectFrom (clauses : List Clause) (item : Node) :
    Declares clauses (Node.selectFrom item) where
  filtered := by simp [Node.selectFrom]
  grouped := by simp [Node.selectFrom]
  conditions := by
    intro key hkey
    simp only [List.mem_cons, List.not_mem_nil, or_false] at hkey
    rcases hkey with rfl | rfl <;> simp [Node.selectFrom]

/-- The clauses that hold a condition, and where they stand. -/
def conditionClauses : List (Clause × String) :=
  [(.where, "where"), (.having, "having"), (.qualify, "qualify")]

/-- A query with a new condition declares it. -/
theorem Declares.setCondition {clauses : List Clause} {n : Node} (h : Declares clauses n)
    {clause : Clause} {key : String} (hkey : (clause, key) ∈ conditionClauses)
    (hclause : clause ∈ clauses) (kind : Kind) (condition : Node) :
    Declares clauses (n.set key (some (.node (Node.wrap kind condition)))) := by
  have hself : ∀ (a : Arg) (other : String), (n.set key (some a)).arg? other ≠ none →
      other = key ∨ n.arg? other ≠ none := by
    intro a other hother
    by_cases heq : key = other
    · exact .inl heq.symm
    · exact .inr (by rwa [arg?_set_of_ne n a heq] at hother)
  refine ⟨fun hwhere => ?_, fun hgroup => ?_, fun other hother hgiven => ?_⟩
  · rcases hself _ _ hwhere with rfl | hold
    · refine ⟨clause, hclause, ?_⟩
      simp only [conditionClauses, List.mem_cons, Prod.mk.injEq, List.not_mem_nil, or_false] at hkey
      rcases hkey with ⟨rfl, -⟩ | ⟨rfl, -⟩ | ⟨rfl, -⟩ <;> decide
    · exact h.filtered hold
  · rcases hself _ _ hgroup with rfl | hold
    · simp [conditionClauses] at hkey
    · exact h.grouped hold
  · by_cases heq : key = other
    · subst heq
      simp [condition?, Node.wrap, this?, child?]
    · rw [arg?_set_of_ne n _ heq] at hgiven
      unfold condition?
      rw [child?_set_of_ne n _ heq]
      exact h.conditions other hother hgiven

/-- A query with a GROUP BY declares it. -/
theorem Declares.setGroup {clauses : List Clause} {n : Node} (h : Declares clauses n)
    (hclause : .groupBy ∈ clauses) (a : Arg) : Declares clauses (n.set "group" (some a)) where
  filtered := by
    rw [arg?_set_of_ne n a (by decide)]
    exact h.filtered
  grouped := fun _ => hclause
  conditions := by
    intro key hkey
    have hne : "group" ≠ key := by
      rintro rfl
      simp at hkey
    unfold condition?
    rw [arg?_set_of_ne n a hne, child?_set_of_ne n a hne]
    exact h.conditions key hkey

theorem MayList.declares {clauses : List Clause} {m n : Node} (h : MayList m n)
    (hm : Declares clauses m) : Declares clauses n :=
  hm.congr fun _ hkey => h.arg?_eq fun heq => absurd (heq ▸ hkey) (by decide)

/-- A clause of a sort changes no other argument. -/
theorem MayAdd.arg?_eq {key other : String} {clause : Option Node} {m n : Node}
    (h : MayAdd key clause m n) (hne : key ≠ other) : n.arg? other = m.arg? other := by
  unfold MayAdd at h
  split at h
  · rw [h.2, arg?_set_of_ne m _ hne]
  · rw [h]

theorem MayAdd.declares {clauses : List Clause} {key : String} {clause : Option Node} {m n : Node}
    (h : MayAdd key clause m n) (hm : Declares clauses m) (hkey : key ∉ declaredKeys) :
    Declares clauses n :=
  hm.congr fun _ hother => h.arg?_eq fun heq => hkey (heq ▸ hother)

/-! ## Making and reading results -/

/-- A record keeps the query and its clauses, and needs no name only if the query has one. -/
theorem makeResult_traits {n : Node} {clauses : List Clause} {rel : Rel} {aliases : Option Aliases}
    {r : Result} (h : (makeResult env n clauses rel aliases).Gives s r s') :
    r.node = n ∧ r.clauses = clauses ∧ (r.neededAlias = none → n.aliasOf? ≠ none) := by
  have hneeded : ∀ (q : Bool) (name : String),
      (if (n.aliasOf? != some name || q) then some name else none) = none → n.aliasOf? ≠ none := by
    intro q name hnone hown
    simp [hown] at hnone
  unfold makeResult at h
  simp only [ConvertM.gives_bind, ConvertM.gives_freshName, ConvertM.gives_modify,
    ConvertM.gives_get] at h
  obtain ⟨name, s₁, ⟨hname, rfl⟩, -, s₂, rfl, s₃, s₄, ⟨rfl, rfl⟩, h⟩ := h
  rcases aliases with _ | (_ | ⟨a, rest⟩)
  · obtain ⟨rfl, -⟩ := (ConvertM.gives_pure _ _ _ _).mp h
    exact ⟨rfl, rfl, hneeded _ _⟩
  · obtain ⟨rfl, -⟩ := (ConvertM.gives_pure _ _ _ _).mp h
    exact ⟨rfl, rfl, hneeded _ _⟩
  · simp only at h
    split at h
    · obtain ⟨rfl, -⟩ := (ConvertM.gives_pure _ _ _ _).mp h
      exact ⟨rfl, rfl, fun hnone => by cases hnone⟩
    · obtain ⟨rfl, -⟩ := (ConvertM.gives_pure _ _ _ _).mp h
      exact ⟨rfl, rfl, hneeded _ _⟩

theorem embeds_asFromItem {n item item' : Node} {name : String} (hn : Embeds n item)
    (h : item.asFromItem name = .ok item') : Embeds n item' := by
  unfold asFromItem at h
  split at h
  · rename_i hitem
    cases h
    exact hn.renamed name hitem
  · split at h
    · cases h
      exact hn.parenthesised (some name)
    · cases h

theorem embeds_asFrom {r : Result} {item : Node} (h : r.asFrom = .ok item) : Embeds r.node item := by
  unfold Result.asFrom at h
  split at h
  · exact embeds_asFromItem .itself h
  · cases h
    exact .itself

/-- What is wrapped stands behind FROM. -/
theorem wrapSelect_reads {n item m : Node} (hn : Embeds n item)
    (h : (wrapSelect env item).Gives s m s') : ∃ item', m = Node.selectFrom item' ∧ Embeds n item' := by
  unfold wrapSelect at h
  simp only [ConvertM.gives_bind, ConvertM.gives_get] at h
  obtain ⟨t, s₁, ⟨rfl, rfl⟩, h⟩ := h
  have hinner : Embeds n (if item.isQuery && !(item.is .values && item.hasAlias) then
      Node.subquery item else item) := by
    split
    · exact hn.parenthesised none
    · exact hn
  split at h
  · simp only [ConvertM.gives_bind, ConvertM.gives_lift, ConvertM.gives_pure] at h
    obtain ⟨name, s₂, -, item', s₃, ⟨hitem, rfl⟩, rfl, rfl⟩ := h
    exact ⟨item', rfl, embeds_asFromItem hinner hitem⟩
  · obtain ⟨rfl, -⟩ := (ConvertM.gives_pure _ _ _ _).mp h
    exact ⟨_, rfl, hinner⟩

theorem subSelect_reads {r : Result} {m : Node} (h : (r.subSelect env).Gives s m s') :
    ∃ item, m = Node.selectFrom item ∧ Embeds r.node item := by
  unfold Result.subSelect at h
  simp only [ConvertM.gives_bind, ConvertM.gives_lift] at h
  obtain ⟨item, s₁, ⟨hitem, rfl⟩, h⟩ := h
  exact wrapSelect_reads (embeds_asFrom hitem) h

theorem asSelect_reads {r : Result} {m : Node} (h : (r.asSelect env).Gives s m s') :
    (r.node.kind = .select ∧ m = r.node)
      ∨ ∃ item, m = Node.selectFrom item ∧ Embeds r.node item := by
  unfold Result.asSelect at h
  split at h
  · rename_i hkind
    obtain ⟨rfl, -⟩ := (ConvertM.gives_pure _ _ _ _).mp h
    exact .inl ⟨(is_eq_true_iff _ _).mp hkind, rfl⟩
  · simp only [ConvertM.gives_bind, ConvertM.gives_get] at h
    obtain ⟨t, s₁, ⟨rfl, rfl⟩, h⟩ := h
    split at h
    · exact .inr (subSelect_reads h)
    · exact .inr (wrapSelect_reads .itself h)

theorem returned_asSelect {r : Result} {m : Node} (h : (r.asSelect env).Gives s m s') :
    Returned r.node m := by
  rcases asSelect_reads h with ⟨-, rfl⟩ | ⟨item, rfl, hitem⟩
  · exact .itself
  · exact .read hitem

theorem returned_asStatement {r : Result} {m : Node} (h : (r.asStatement env).Gives s m s') :
    Returned r.node m := by
  unfold Result.asStatement at h
  split at h
  · obtain ⟨rfl, -⟩ := (ConvertM.gives_pure _ _ _ _).mp h
    exact .itself
  · exact returned_asSelect h

theorem returned_asQuery {r : Result} {m : Node} (h : (r.asQuery env).Gives s m s') :
    Returned r.node m := by
  unfold Result.asQuery at h
  split at h
  · obtain ⟨rfl, -⟩ := (ConvertM.gives_pure _ _ _ _).mp h
    exact .itself
  · split at h
    · obtain ⟨rfl, -⟩ := (ConvertM.gives_pure _ _ _ _).mp h
      exact .itself
    · exact returned_asSelect h

/-- A builder holds the query of the result, or one that reads it, with the clauses to come. -/
theorem builder_traits {r : Result} {rel : Rel} {b : Builder}
    (h : (r.builder env rel).Gives s b s') :
    b.rel = rel ∧ b.clauses = (if r.mustWrap env rel then r.expected else r.clauses ++ r.expected)
      ∧ ((r.mustWrap env rel = false ∧ r.node.kind = .select ∧ b.select = r.node)
        ∨ ∃ item, b.select = Node.selectFrom item ∧ Embeds r.node item) := by
  unfold Result.builder at h
  dsimp only at h
  cases hwrap : r.mustWrap env rel
  all_goals
    simp only [hwrap, Bool.false_eq_true, if_false, if_true, ConvertM.gives_bind] at h
    obtain ⟨m, s₁, hm, h⟩ := h
    have hopened : b.rel = rel ∧ b.select = m
        ∧ b.clauses = (if r.mustWrap env rel then r.expected else r.clauses ++ r.expected) := by
      split at h
      · obtain ⟨rfl, -⟩ := (ConvertM.gives_pure _ _ _ _).mp h
        exact ⟨rfl, rfl, by simp [hwrap]⟩
      · simp only [ConvertM.gives_bind, ConvertM.gives_pure] at h
        obtain ⟨-, -, -, -, -, -, rfl, -⟩ := h
        exact ⟨rfl, rfl, by simp [hwrap]⟩
      · simp only [ConvertM.gives_bind, ConvertM.gives_pure] at h
        obtain ⟨-, -, -, rfl, -⟩ := h
        exact ⟨rfl, rfl, by simp [hwrap]⟩
    obtain ⟨hrel, rfl, hclauses⟩ := hopened
    rw [hwrap] at hclauses
    refine ⟨hrel, hclauses, ?_⟩
  · rcases asSelect_reads hm with ⟨hkind, hsame⟩ | hread
    · exact .inl ⟨rfl, hkind, hsame⟩
    · exact .inr hread
  · exact .inr (subSelect_reads hm)

/-! ## The order of clauses -/

theorem rank_le_foldl (clauses : List Clause) {start : Option Clause} {last : Clause}
    (h : clauses.foldl later start = some last) :
    (∀ c ∈ clauses, c.rank ≤ last.rank) ∧ ∀ c, start = some c → c.rank ≤ last.rank := by
  induction clauses generalizing start with
  | nil =>
    refine ⟨by simp, fun c hc => ?_⟩
    rw [hc] at h
    cases h
    exact Nat.le_refl _
  | cons d clauses ih =>
    obtain ⟨hrest, hstart⟩ := ih h
    have hlater : ∃ e, later start d = some e ∧ d.rank ≤ e.rank
        ∧ ∀ c, start = some c → c.rank ≤ e.rank := by
      unfold later
      cases start with
      | none => exact ⟨d, rfl, Nat.le_refl _, fun c hc => by cases hc⟩
      | some c =>
        by_cases hlt : c.rank < d.rank
        · exact ⟨d, by simp [hlt], Nat.le_refl _, fun c' hc' => by cases hc'; omega⟩
        · exact ⟨c, by simp [hlt], by omega, fun c' hc' => by cases hc'; exact Nat.le_refl _⟩
    obtain ⟨e, he, hd, hbefore⟩ := hlater
    have hle := hstart e he
    refine ⟨fun c hc => ?_, fun c hc => Nat.le_trans (hbefore c hc) hle⟩
    rcases List.mem_cons.mp hc with rfl | hc
    · exact Nat.le_trans hd hle
    · exact hrest c hc

/-- Clauses have one that is evaluated last. -/
theorem last?_ne_none {used : List Clause} {c : Clause} (hc : c ∈ used) :
    Clause.last? used ≠ none := by
  have hsome : ∀ (cs : List Clause) (d : Clause), cs.foldl later (some d) ≠ none := by
    intro cs
    induction cs with
    | nil => simp
    | cons d' cs ih =>
      intro d
      rw [List.foldl_cons]
      simp only [later]
      split <;> exact ih _
  obtain ⟨d, rest, rfl⟩ := List.exists_cons_of_ne_nil (List.ne_nil_of_mem hc)
  exact hsome rest d

/-- What fits comes behind everything that is used, except that a select list may be set again. -/
theorem rank_of_fit {used expected : List Clause} (h : Clause.fit used expected = true) {c e : Clause}
    (hc : c ∈ used) (he : e ∈ expected) : c.rank < e.rank ∨ (e = .select ∧ c.rank ≤ e.rank) := by
  unfold Clause.fit at h
  split at h
  · rename_i hnone
    exact absurd hnone (last?_ne_none hc)
  · rename_i last hlast
    have hrank := (rank_le_foldl used hlast).1 c hc
    have hfollows := List.all_eq_true.mp h e he
    simp only [Clause.follows, Bool.or_eq_true, decide_eq_true_eq, Bool.and_eq_true,
      beq_iff_eq] at hfollows
    rcases hfollows with hlt | ⟨rfl, hmergeable⟩
    · exact .inl (by omega)
    · cases last <;> simp only [Clause.isMergeable, Bool.false_eq_true] at hmergeable
      exact .inr ⟨rfl, hrank⟩

/-! ## Verdicts of rules -/

theorem wrapIf_ne_false (b : Bool) : wrapIf b ≠ some false := by
  cases b <;> simp [wrapIf]

/-- The first verdict counts. -/
theorem findSome?_of_true (before : List WrapRule) (rule : WrapRule) {c : WrapCheck}
    {behind : List WrapRule} (hbefore : ∀ r ∈ before, r c ≠ some false) (h : rule c = some true) :
    (before ++ rule :: behind).findSome? (fun rule => rule c) = some true := by
  induction before with
  | nil => simp [h]
  | cons r before ih =>
    have hrest := ih fun r hr => hbefore r (by simp [hr])
    rw [List.cons_append, List.findSome?_cons]
    rcases hr : r c with _ | _ | _
    · exact hrest
    · exact absurd hr (hbefore r (by simp))
    · rfl

/-- The rules between the second one and the one about aggregations never let a query pass. -/
theorem middleRules_ne_false (c : WrapCheck) :
    ∀ rule ∈ [clauseOrder, distinctProjection, aggregateInGroupBy, nestedWindow, nestedAggregate,
      groupByNameDropped, groupByWindow, windowInAggregate, sortOverIntersect, havingNameUsed,
      windowOverSelect], rule c ≠ some false := by
  intro rule hrule
  simp only [List.mem_cons, List.not_mem_nil, or_false] at hrule
  rcases hrule with rfl | rfl | rfl | rfl | rfl | rfl | rfl | rfl | rfl | rfl | rfl <;>
    simp only [clauseOrder, distinctProjection, aggregateInGroupBy, nestedWindow, nestedAggregate,
      groupByNameDropped, groupByWindow, windowInAggregate, sortOverIntersect, havingNameUsed,
      windowOverSelect] <;>
    first
      | exact wrapIf_ne_false _
      | (split <;> simp [wrapIf_ne_false])

/-- What the rules look at when a relation is put over a result. -/
def wrapCheck (env : Env) (r : Result) (rel : Rel) : WrapCheck :=
  { node := r.node, rel, clauses := r.clauses, expected := if r.ignoreClauses then [] else r.expected
    capabilities := env.dialect.capabilities }

/-- **A query that is not wrapped** is one with windowed calls that are filtered, or one whose clauses
all come before the new ones. -/
theorem unwrapped_cases {r : Result} {rel : Rel} (hused : r.clauses ≠ [])
    (h : r.mustWrap env rel = false) :
    (∃ input condition ids, rel = .filter input condition ids ∧ isSort input = false
      ∧ filterClause env input condition = .qualify)
    ∨ (Clause.fit r.clauses (if r.ignoreClauses then [] else r.expected) = true
      ∧ aggregateOverAggregate (wrapCheck env r rel) ≠ some true) := by
  have hverdict : (wrapRules.findSome? fun rule => rule (wrapCheck env r rel)) ≠ some true := by
    intro htrue
    change needsWrapping (wrapCheck env r rel) = false at h
    simp [needsWrapping, htrue] at h
  have hfirst : noClausesYet (wrapCheck env r rel) ≠ some false := by
    have hempty : r.clauses.isEmpty = false := List.isEmpty_eq_false_iff.mpr hused
    simp [noClausesYet, wrapCheck, hempty]
  by_cases hqualify : qualifyOverWindow (wrapCheck env r rel) = some false
  · left
    unfold qualifyOverWindow at hqualify
    split at hqualify
    · rename_i input condition ids hrel
      split at hqualify
      · rename_i hcondition
        simp only [Bool.and_eq_true] at hcondition
        obtain ⟨⟨⟨hcapable, hwindow⟩, hplain⟩, -⟩ := hcondition
        refine ⟨input, condition, ids, hrel, ?_, ?_⟩ <;>
          cases input <;> simp_all [WrapCheck.projectsWindow, WrapCheck.projects?, wrapCheck,
            isSort, filterClause]
      · cases hqualify
    · cases hqualify
  · right
    constructor
    · by_contra hfit
      refine hverdict (findSome?_of_true [noClausesYet, qualifyOverWindow] clauseOrder ?_ ?_)
      · simp [hfirst, hqualify]
      · simp [clauseOrder, wrapCheck, wrapIf, Bool.not_eq_true _ ▸ hfit]
    · intro hgroups
      refine hverdict (findSome?_of_true (noClausesYet :: qualifyOverWindow :: [clauseOrder,
        distinctProjection, aggregateInGroupBy, nestedWindow, nestedAggregate, groupByNameDropped,
        groupByWindow, windowInAggregate, sortOverIntersect, havingNameUsed, windowOverSelect])
        aggregateOverAggregate ?_ hgroups)
      intro rule hrule
      rcases List.mem_cons.mp hrule with rfl | hrule
      · exact hfirst
      rcases List.mem_cons.mp hrule with rfl | hrule
      · exact hqualify
      · exact middleRules_ne_false _ rule hrule

/-- The rules between the second one and the one about aggregations. -/
def middleRules : List WrapRule :=
  [clauseOrder, distinctProjection, aggregateInGroupBy, nestedWindow, nestedAggregate,
    groupByNameDropped, groupByWindow, windowInAggregate, sortOverIntersect, havingNameUsed,
    windowOverSelect]

/-- A query that is not wrapped passes each of these rules, unless windowed calls are filtered. -/
theorem middleRule_ne_true {r : Result} {rel : Rel} (hused : r.clauses ≠ [])
    (hqualify : qualifyOverWindow (wrapCheck env r rel) ≠ some false)
    (h : r.mustWrap env rel = false) {rule : WrapRule} (hrule : rule ∈ middleRules) :
    rule (wrapCheck env r rel) ≠ some true := by
  intro htrue
  have hfirst : noClausesYet (wrapCheck env r rel) ≠ some false := by
    have hempty : r.clauses.isEmpty = false := List.isEmpty_eq_false_iff.mpr hused
    simp [noClausesYet, wrapCheck, hempty]
  obtain ⟨before, behind, hsplit⟩ := List.append_of_mem hrule
  have hrules : wrapRules = (noClausesYet :: qualifyOverWindow :: before) ++ rule
      :: (behind ++ [aggregateOverAggregate, groupByNameInHaving]) := by
    have hmiddle : wrapRules = noClausesYet :: qualifyOverWindow ::
        (middleRules ++ [aggregateOverAggregate, groupByNameInHaving]) := rfl
    rw [hmiddle, hsplit]
    simp
  have hverdict : (wrapRules.findSome? fun rule => rule (wrapCheck env r rel)) = some true := by
    rw [hrules]
    refine findSome?_of_true _ _ (fun other hother => ?_) htrue
    rcases List.mem_cons.mp hother with rfl | hother
    · exact hfirst
    rcases List.mem_cons.mp hother with rfl | hother
    · exact hqualify
    · exact middleRules_ne_false _ other (by
        change other ∈ middleRules
        rw [hsplit]
        exact List.mem_append_left _ hother)
  change needsWrapping (wrapCheck env r rel) = false at h
  simp [needsWrapping, hverdict] at h

end AlgebraSql.Convert
