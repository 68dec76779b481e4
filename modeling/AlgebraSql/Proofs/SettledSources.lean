import AlgebraSql.Proofs.SourcedExpressions

/-!
# Settled sources — what is known of the sources of a query at some point of a conversion.

The sources of a query have names that a level gives away or reads, and the SELECTs in its expressions have
names that came into use later or that no source of the level has.  So no name of a source is hidden.  A query
stays settled while the conversion goes on; it stays settled when a clause is put into it, when it is
put behind FROM under a new name, and when it is joined with another query.
-/

namespace AlgebraSql.Convert

open Sql Node

variable {env : Env} {s₀ s₁ s s' : State}

/-! ## Levels -/

/-- **`Level`** — a level of a plan: the tables whose names its sources may have, and which names are admissible for
tables that are read.  What is said about hidden names is said under an assumption. -/
structure Level where
  assumed : Prop
  required : Bool
  tables : List String
  reads : String → Bool

namespace Level

variable (L : Level)

/-- A name that sources of the level may have. -/
def Offers (v : String) : Prop := mayBeNamed L.tables v = true

/-- A name of a source that came into use between two memories or is admissible. -/
abbrev Brings (s s' : State) (v : String) : Prop := Brought L.assumed L.reads s s' v

/-- A name of a source that came into use between two memories or is not for sources of the level. -/
abbrev Avoids (s s' : State) (v : String) : Prop := Brought L.assumed (clearName L.tables) s s' v

end Level

variable {L : Level}

/-- A name that was in use and that a level offers is not one that the level avoids. -/
theorem Level.Avoids.ne {v : String} (h : L.Avoids s s' v) (hassumed : L.assumed) (hused : v ∈ s.usedNames) :
    ¬ L.Offers v := by
  intro hoffers
  rcases h.2 hassumed with hnew | hclear
  · exact hnew hused
  · rw [clearName, show mayBeNamed L.tables v = true from hoffers] at hclear
    cases hclear

/-! ## Settled queries -/

/-- **`Settled`** — the sources of a query, or of an item of a FROM clause, as they are known at a later memory. -/
structure Settled (L : Level) (s₀ s : State) (n : Node) : Prop where
  sound : AllSourcesSound L.assumed L.required n
  distinct : n.sourceNames.Nodup
  visible : L.assumed → ∀ v ∈ n.sourceNames, v ∉ n.innerSources
  offered : ∀ v ∈ n.sourceNames, L.Offers v
  source : ∀ v ∈ n.sourceNames, L.Brings s₀ s v
  all : ∀ v ∈ n.allSources, L.Brings s₀ s v
  inner : ∀ v ∈ n.innerSources, L.Avoids s₀ s v

/-- A node in an expression of a query: its sources are sound, and none has the name of a source of the query. -/
def FitsIn (L : Level) (s₀ s : State) (n : Node) : Node → Prop :=
  Sourced L.assumed L.required fun v => L.Brings s₀ s v ∧ L.Avoids s₀ s v ∧ (L.assumed → v ∉ n.sourceNames)

namespace Settled

variable {n m : Node}

theorem mono (h : Settled L s₀ s n) (hbefore : s₁.usedNames ⊆ s₀.usedNames) (hafter : s.usedNames ⊆ s'.usedNames) :
    Settled L s₁ s' n where
  sound := h.sound
  distinct := h.distinct
  visible := h.visible
  offered := h.offered
  source v hv := (h.source v hv).mono hbefore hafter
  all v hv := (h.all v hv).mono hbefore hafter
  inner v hv := (h.inner v hv).mono hbefore hafter

theorem later (h : Settled L s₀ s n) (hafter : s.usedNames ⊆ s'.usedNames) : Settled L s₀ s' n :=
  h.mono (List.Subset.refl _) hafter

/-- What the expressions of a query bring differs from the names of its sources. -/
theorem fresh (h : Settled L s₀ s n) {v : String} (hv : L.Avoids s s' v) (hassumed : L.assumed) :
    v ∉ n.sourceNames := fun hsource => hv.ne hassumed (h.source v hsource).1 (h.offered v hsource)

/-- Expressions fit into a query if their sources are those of fields or came into use later. -/
theorem fits_name (h : Settled L s₀ s n) (hbefore : s₀.usedNames ⊆ s.usedNames) (hafter : s.usedNames ⊆ s'.usedNames)
    {v : String} (hv : v ∈ n.innerSources ∨ L.Brings s s' v ∧ L.Avoids s s' v) :
    L.Brings s₀ s' v ∧ L.Avoids s₀ s' v ∧ (L.assumed → v ∉ n.sourceNames) := by
  rcases hv with hv | ⟨hbrings, havoids⟩
  · refine ⟨(h.later hafter).all v (innerSources_subset n hv), (h.later hafter).inner v hv, fun hassumed hsource => ?_⟩
    exact h.visible hassumed v hsource hv
  · exact ⟨hbrings.mono hbefore (List.Subset.refl _), havoids.mono hbefore (List.Subset.refl _), h.fresh havoids⟩

/-- The clauses of a query other than FROM hold expressions. -/
theorem clause (h : Settled L s₀ s n) (hkind : n.kind = .select) {p : String × Arg} (hp : p ∈ n.args)
    (hkey : p.1 ≠ "from") {c : Node} (hc : c ∈ p.2.children) :
    Sourced L.assumed L.required (· ∈ n.innerSources) c where
  sound := (allSourcesSound_iff.mp h.sound).2 c (List.mem_flatMap.mpr ⟨p, hp, hc⟩)
  all _ hv := mem_innerSources_of_clause hkind hp hkey hc hv

/-- The condition of a clause is an expression of the query. -/
theorem condition (h : Settled L s₀ s n) (hkind : n.kind = .select) {key : String} (hkey : key ≠ "from") {c : Node}
    (hc : n.condition? key = some c) : Sourced L.assumed L.required (· ∈ n.innerSources) c := by
  simp only [condition?, Option.bind_eq_some_iff] at hc
  obtain ⟨m, hm, hc⟩ := hc
  have hclause := h.clause hkind (mem_args_of_child? hm) hkey (c := m) (by simp)
  have hchild : c ∈ m.children := List.mem_flatMap.mpr ⟨_, mem_args_of_child? hc, by simp⟩
  exact ⟨(allSourcesSound_iff.mp hclause.sound).2 c hchild,
    fun v hv => hclause.all v (mem_allSources.mpr (.inr ⟨c, hchild, hv⟩))⟩

/-- A clause with expressions that fit leaves a query settled. -/
theorem set (h : Settled L s₀ s n) (hkind : n.kind = .select) {key : String} (hkey : key ≠ "from") {a : Arg}
    (ha : ∀ c ∈ a.children, FitsIn L s₀ s n c) : Settled L s₀ s (n.set key (some a)) := by
  have hnames := sourceNames_set hkind hkey a
  have hfits : ∀ v, (∃ c ∈ a.children, v ∈ c.allSources) →
      L.Brings s₀ s v ∧ L.Avoids s₀ s v ∧ (L.assumed → v ∉ n.sourceNames) := by
    rintro v ⟨c, hc, hv⟩
    exact (ha c hc).all v hv
  have hvisible : L.assumed → ∀ v ∈ n.sourceNames, v ∉ (n.set key (some a)).innerSources := by
    intro hassumed v hsource hinner
    rcases mem_innerSources_set hinner with hinner | hnew
    · exact h.visible hassumed v hsource hinner
    · exact (hfits v hnew).2.2 hassumed hsource
  obtain ⟨hsound, hchildren⟩ := allSourcesSound_iff.mp h.sound
  refine ⟨?_, hnames ▸ h.distinct, hnames ▸ hvisible, hnames ▸ h.offered, hnames ▸ h.source, fun v hv => ?_, fun v hv => ?_⟩
  · refine allSourcesSound_iff.mpr ⟨⟨fun _ => hnames ▸ h.distinct, fun hassumed _ => hnames ▸ hvisible hassumed, ?_⟩, ?_⟩
    · intro hrequired hpasses p hp hreads c hc
      rw [kind_set] at hpasses hreads
      rcases mem_put hp with rfl | hold
      · rw [hkind] at hreads
        exact absurd (by simpa using hreads) hkey
      · exact hsound.named hrequired hpasses p hold hreads c hc
    · intro c hc
      obtain ⟨p, hp, hmem⟩ := List.mem_flatMap.mp hc
      rcases mem_put hp with rfl | hold
      · exact (ha c hmem).sound
      · exact hchildren c (List.mem_flatMap.mpr ⟨p, hold, hmem⟩)
  · exact (mem_allSources_set hkind hkey hv).elim (h.all v) fun hnew => (hfits v hnew).1
  · exact (mem_innerSources_set hv).elim (h.inner v) fun hnew => (hfits v hnew).2.1

end Settled

/-! ## Queries behind FROM -/

/-- A query in parentheses has a name where names are required. -/
def Named (L : Level) (n : Node) : Prop := L.required = true → n.kind = .subquery → n.hasAlias = true

/-- What passes on its input, which stands under `this`, has it with a name. -/
theorem sound_wrapFrom {item : Node} (hitem : AllSourcesSound L.assumed L.required item) (hnamed : Named L item) :
    AllSourcesSound L.assumed L.required (wrap .from item) := by
  refine allSourcesSound_iff.mpr ⟨⟨fun hkind => (by cases hkind), fun _ hkind => (by cases hkind), ?_⟩, by simpa [wrap, children, Arg.children] using hitem⟩
  intro hrequired _ p hp _ c hc hkind
  obtain rfl : c = item := by
    obtain rfl : p = ("this", .node item) := by simpa [wrap] using hp
    simpa using hc
  exact hnamed hrequired hkind

/-- **`SELECT * FROM item`** -/
theorem Settled.selectFrom {item : Node} (h : Settled L s₀ s item) (hnamed : Named L item) :
    Settled L s₀ s (Node.selectFrom item) where
  sound := by
    refine allSourcesSound_iff.mpr ⟨⟨?_, ?_, ?_⟩, ?_⟩
    · intro _
      rw [sourceNames_selectFrom]
      exact h.distinct
    · intro hassumed _
      rw [sourceNames_selectFrom, innerSources_selectFrom]
      exact h.visible hassumed
    · intro _ _ p hp _ c hc hkind
      obtain rfl : p = ("from", .node (wrap .from item)) := by simpa [Node.selectFrom] using hp
      obtain rfl : c = wrap .from item := by simpa using hc
      cases hkind
    · simpa [Node.selectFrom, children, Arg.children] using sound_wrapFrom h.sound hnamed
  distinct := by
    rw [sourceNames_selectFrom]
    exact h.distinct
  visible := by
    rw [sourceNames_selectFrom, innerSources_selectFrom]
    exact h.visible
  offered := by
    rw [sourceNames_selectFrom]
    exact h.offered
  source := by
    rw [sourceNames_selectFrom]
    exact h.source
  all v hv := by
    rw [allSources_selectFrom, List.mem_append] at hv
    exact hv.elim (h.source v) (h.all v)
  inner := by
    rw [innerSources_selectFrom]
    exact h.inner

/-- **`(query) AS name`**, under a name that is in use and that no expression of the query has. -/
theorem Settled.derived {query : Node} (h : Settled L s₀ s query) {name : Option String}
    (hname : ∀ a, name = some a → a ≠ "" ∧ L.Offers (Text.lower a) ∧ L.Brings s₀ s (Text.lower a)
      ∧ (L.assumed → Text.lower a ∉ query.innerSources)) : Settled L s₀ s (derived query name) := by
  have hnames : (Convert.derived query name).sourceNames = (name.map Text.lower).toList :=
    sourceNames_derived query fun hempty => (hname "" hempty).1 rfl
  have hmem : ∀ v ∈ (Convert.derived query name).sourceNames, ∃ a, name = some a ∧ v = Text.lower a := by
    intro v hv
    rw [hnames] at hv
    cases name with
    | none => cases hv
    | some a => exact ⟨a, rfl, by simpa using hv⟩
  constructor
  · refine allSourcesSound_iff.mpr ⟨sourcesSound_of_kind (by cases name <;> rfl), fun c hc => ?_⟩
    cases name with
    | none =>
      obtain rfl : c = query := by simpa [Convert.derived, Node.subquery, wrap, children, Arg.children] using hc
      exact h.sound
    | some a =>
      have hcases : c = query ∨ c = tableAlias a := by simpa [Convert.derived, children, Arg.children] using hc
      rcases hcases with rfl | rfl
      · exact h.sound
      · exact sound_tableAlias a []
  · rw [hnames]
    cases name <;> simp
  · intro hassumed v hv
    obtain ⟨a, ha, rfl⟩ := hmem v hv
    rw [innerSources_derived]
    exact (hname a ha).2.2.2 hassumed
  · intro v hv
    obtain ⟨a, ha, rfl⟩ := hmem v hv
    exact (hname a ha).2.1
  · intro v hv
    obtain ⟨a, ha, rfl⟩ := hmem v hv
    exact (hname a ha).2.2.1
  · rw [allSources_derived]
    exact h.all
  · rw [innerSources_derived]
    exact h.inner

/-- What a node stands beside, apart from a name of its own, is among its sources. -/
theorem sourceNames_underAlias_subset {n : Node} (hitem : n.isFromItem = true) {name : String} (hname : name ≠ "")
    (columns : List String) : ∃ rest, (n.underAlias name columns).sourceNames = Text.lower name :: rest
      ∧ List.Sublist rest n.sourceNames ∧ (passesOn n.kind = false → rest = []) := by
  refine ⟨_, sourceNames_underAlias hitem hname columns, ?_, fun hpasses => by simp [hpasses]⟩
  rw [sourceNames_eq n]
  exact List.sublist_append_right _ _

/-- **An item under another name**, which is in use and differs from the names that it stands beside. -/
theorem Settled.underAlias {n : Node} (h : Settled L s₀ s n) (hitem : n.isFromItem = true) {name : String}
    (hname : name ≠ "") (hoffers : L.Offers (Text.lower name)) (hbrings : L.Brings s₀ s (Text.lower name))
    (hinner : L.assumed → Text.lower name ∉ n.innerSources)
    (hbeside : passesOn n.kind = true → Text.lower name ∉ n.sourceNames) (columns : List String) :
    Settled L s₀ s (n.underAlias name columns) := by
  have hkind : n.kind ≠ .select := by
    intro hkind
    simp [isFromItem, hkind] at hitem
  obtain ⟨rest, hnames, hrest, halone⟩ := sourceNames_underAlias_subset hitem hname columns
  have hbelow : ∀ v ∈ (n.underAlias name columns).sourceNames, v = Text.lower name ∨ v ∈ n.sourceNames := by
    intro v hv
    rw [hnames] at hv
    exact (List.mem_cons.mp hv).imp_right fun hv => hrest.subset hv
  obtain ⟨hsound, hchildren⟩ := allSourcesSound_iff.mp h.sound
  constructor
  · refine allSourcesSound_iff.mpr ⟨⟨fun hselect => ?_, fun _ hselect => ?_, ?_⟩, fun c hc => ?_⟩
    · exact absurd (by simpa [Node.underAlias] using hselect) hkind
    · exact absurd (by simpa [Node.underAlias] using hselect) hkind
    · intro hrequired hpasses p hp hreads c hc
      simp only [Node.underAlias, kind_set] at hpasses hreads
      rcases mem_put hp with rfl | hold
      · simp at hreads
      · exact hsound.named hrequired hpasses p hold hreads c hc
    · obtain ⟨p, hp, hmem⟩ := List.mem_flatMap.mp hc
      rcases mem_put hp with rfl | hold
      · obtain rfl : c = tableAlias name columns := by simpa using hmem
        exact sound_tableAlias name columns
      · exact hchildren c (List.mem_flatMap.mpr ⟨p, hold, hmem⟩)
  · rw [hnames, List.nodup_cons]
    refine ⟨fun hmem => ?_, h.distinct.sublist hrest⟩
    cases hpasses : passesOn n.kind with
    | false => rw [halone hpasses] at hmem; cases hmem
    | true => exact hbeside hpasses (hrest.subset hmem)
  · intro hassumed v hv hv'
    rcases hbelow v hv with rfl | hold
    · exact hinner hassumed (mem_innerSources_underAlias hv')
    · exact h.visible hassumed v hold (mem_innerSources_underAlias hv')
  · exact fun v hv => (hbelow v hv).elim (fun heq => heq ▸ hoffers) (h.offered v)
  · exact fun v hv => (hbelow v hv).elim (fun heq => heq ▸ hbrings) (h.source v)
  · exact fun v hv => h.all v (mem_allSources_underAlias hkind hv)
  · exact fun v hv => h.inner v (mem_innerSources_underAlias hv)

/-! ## New names -/

/-- A name that was free is one that a level brings. -/
theorem brought_of_free {B : Prop} {ok : String → Bool} {name : String} (hbefore : s₀.usedNames ⊆ s.usedNames)
    (hfree : s.usedNames.has name = false) (hused : Text.lower name ∈ s'.usedNames) :
    Brought B ok s₀ s' (Text.lower name) := by
  refine ⟨hused, fun _ => .inl fun hold => ?_⟩
  rw [UsedNames.has, List.contains_iff_mem.mpr (hbefore hold)] at hfree
  cases hfree

theorem lower_not_mem_of_free {used : UsedNames} {name : String} (h : used.has name = false) :
    Text.lower name ∉ used := fun hmem => by
  rw [UsedNames.has, List.contains_iff_mem.mpr hmem] at h
  cases h

/-- A number behind the common name makes a name that every level offers. -/
theorem Level.offers_unique (used : UsedNames) {base : String} (h : base ∈ "t" :: L.tables) :
    L.Offers (Text.lower (used.unique base)) := mayBeNamed_of_mem h (numberedAs_unique used base)

/-! ## Items and queries -/

/-- What a conversion puts behind FROM: a plain query, which is put in parentheses, something that can be
read as it is, or the rows that match a pattern. -/
def IsQueryForm (n : Node) : Prop := isPlainQuery n = true ∨ isReadable n = true ∨ n.kind = .matchRecognize

/-- The rows that match a pattern get a name if they need one. -/
theorem gives_wrapSelect_of_matchRecognize {n : Node} (hkind : n.kind = .matchRecognize) {m : Node}
    (h : (wrapSelect env n).Gives s m s') :
    (m = Node.selectFrom n ∧ s' = s)
      ∨ (m = Node.selectFrom (n.underAlias (s.usedNames.unique "t") n.aliasColumns)
        ∧ s' = { s with usedNames := s.usedNames.record (s.usedNames.unique "t") }) := by
  have hitem : (n.isQuery && !(n.is .values && n.hasAlias)) = false := by
    simp [Node.isQuery, Kind.isQuery, Kind.isSetOperation, hkind]
  simp only [wrapSelect, hitem, ConvertM.gives_bind, ConvertM.gives_get, Bool.false_eq_true, if_false] at h
  obtain ⟨u, t, ⟨rfl, rfl⟩, h⟩ := h
  split at h
  · simp only [ConvertM.gives_bind, ConvertM.gives_freshName, ConvertM.gives_lift, ConvertM.gives_pure] at h
    obtain ⟨name, t, ⟨rfl, rfl⟩, item, t', ⟨hitem, rfl⟩, rfl, rfl⟩ := h
    refine .inr ⟨?_, rfl⟩
    simp only [asFromItem, isFromItem, hkind, if_true, Except.ok.injEq] at hitem
    rw [← hitem]
    rfl
  · obtain ⟨rfl, rfl⟩ := (ConvertM.gives_pure _ _ _ _).mp h
    exact .inl ⟨rfl, rfl⟩

/-- **`wrapSelect`** — a query over a settled one is settled.  Its sources are those that were put behind FROM, or
they have a new name. -/
theorem Settled.wrapSelect (henv : env.NeverQualifies)
    (hrequired : L.required = true → env.dialect.capabilities.fromAliasRequired = true) {n m : Node}
    (h : Settled L s₀ s n) (hbefore : s₀.usedNames ⊆ s.usedNames) (hform : IsQueryForm n)
    (hm : (wrapSelect env n).Gives s m s') :
    Settled L s₀ s' m ∧ (∃ item, m = Node.selectFrom item)
      ∧ ∀ v ∈ m.sourceNames, v ∈ n.sourceNames ∨ v ∉ s.usedNames := by
  -- the facts about the new name that an item may get
  have hfree := UsedNames.has_unique s.usedNames "t"
  have hne : s.usedNames.unique "t" ≠ "" := UsedNames.unique_ne_empty_of_ne (by decide)
  have hoffers : L.Offers (Text.lower (s.usedNames.unique "t")) := L.offers_unique _ (by simp)
  have hrecorded : ∀ {t : State}, t.usedNames = s.usedNames.record (s.usedNames.unique "t") →
      s.usedNames ⊆ t.usedNames ∧ L.Brings s₀ t (Text.lower (s.usedNames.unique "t")) := by
    intro t ht
    refine ⟨by rw [ht]; exact List.subset_append_left _ _, brought_of_free hbefore hfree ?_⟩
    rw [ht]
    simp [UsedNames.record]
  have hinner : Text.lower (s.usedNames.unique "t") ∉ n.innerSources := fun hmem =>
    lower_not_mem_of_free hfree (h.inner _ hmem).1
  rcases hform with hplain | hreadable | hkind
  · obtain ⟨rfl, rfl⟩ := (ConvertM.gives_wrapSelect_of_plainQuery hplain m s s').mp hm
    simp only [ConvertM.itemOf, ConvertM.afterItem]
    by_cases hrequired' : env.dialect.capabilities.fromAliasRequired = true
    · simp only [hrequired', if_true]
      obtain ⟨hgrows, hbrings⟩ := @hrecorded { s with usedNames := s.usedNames.record (s.usedNames.unique "t") } rfl
      have hderived : Settled L s₀ _ (Convert.derived n (some (s.usedNames.unique "t"))) :=
        (h.later hgrows).derived fun a ha => by
          cases ha
          exact ⟨hne, hoffers, hbrings, fun _ => hinner⟩
      refine ⟨hderived.selectFrom fun _ _ => rfl, ⟨_, rfl⟩, fun v hv => .inr ?_⟩
      rw [sourceNames_selectFrom, sourceNames_derived n (by simpa using hne)] at hv
      obtain rfl : v = Text.lower (s.usedNames.unique "t") := by simpa using hv
      exact lower_not_mem_of_free hfree
    · simp only [hrequired']
      have hderived : Settled L s₀ s (Convert.derived n none) := h.derived fun a ha => (by cases ha)
      refine ⟨hderived.selectFrom fun hlevel _ => absurd (hrequired hlevel) hrequired', ⟨_, rfl⟩, fun v hv => ?_⟩
      rw [sourceNames_selectFrom, sourceNames_derived n (by simp)] at hv
      cases hv
  · obtain ⟨rfl, rfl⟩ := (ConvertM.gives_wrapSelect_of_readable henv hreadable m s s').mp hm
    refine ⟨h.selectFrom fun _ hkind => ?_, ⟨n, rfl⟩, fun v hv => .inl (by simpa using hv)⟩
    simpa [isReadable, hkind] using hreadable
  · rcases gives_wrapSelect_of_matchRecognize hkind hm with ⟨rfl, rfl⟩ | ⟨rfl, rfl⟩
    · exact ⟨h.selectFrom fun _ hkind' => by simp [hkind] at hkind', ⟨n, rfl⟩, fun v hv => .inl (by simpa using hv)⟩
    · obtain ⟨hgrows, hbrings⟩ := @hrecorded { s with usedNames := s.usedNames.record (s.usedNames.unique "t") } rfl
      have hitem : n.isFromItem = true := by simp [isFromItem, hkind]
      have hnamed := (h.later hgrows).underAlias hitem hne hoffers hbrings (fun _ => hinner)
        (fun _ hmem => lower_not_mem_of_free hfree (h.source _ hmem).1) n.aliasColumns
      refine ⟨hnamed.selectFrom fun _ hkind' => by simp [Node.underAlias, hkind] at hkind', ⟨_, rfl⟩, fun v hv => ?_⟩
      obtain ⟨rest, hnames, hrest, -⟩ := sourceNames_underAlias_subset hitem hne n.aliasColumns
      rw [sourceNames_selectFrom, hnames] at hv
      rcases List.mem_cons.mp hv with rfl | hv
      · exact .inr (lower_not_mem_of_free hfree)
      · exact .inl (hrest.subset hv)

/-! ## Results -/

/-- **`Placed`** — the query of a result is settled, and the name by which it must be referred to is new; a query
that needs none is read under a name of its own, which is new. -/
structure Placed (L : Level) (s₀ s : State) (r : Result) : Prop extends Settled L s₀ s r.node where
  form : IsQueryForm r.node
  needed : ∀ a, r.neededAlias = some a → a ≠ "" ∧ L.Offers (Text.lower a) ∧ Text.lower a ∈ s.usedNames
    ∧ Text.lower a ∉ s₀.usedNames ∧ Text.lower a ∉ r.node.innerSources
  /-- The input of a row pattern stands beside the rows that match. -/
  beside : r.node.kind = .matchRecognize → ∀ v ∈ r.node.sourceNames, v ∉ s₀.usedNames
    ∧ ∀ a, r.neededAlias = some a → v ≠ Text.lower a
  free : r.neededAlias = none → isReadable r.node = true ∧ ∀ v ∈ r.node.sourceNames, v ∉ s₀.usedNames

/-- **`SettledItem`** — an item of a FROM clause with new names. -/
structure SettledItem (L : Level) (s₀ s : State) (item : Node) : Prop extends Settled L s₀ s item where
  form : IsQueryForm item
  named : Named L item
  unused : ∀ v ∈ item.sourceNames, v ∉ s₀.usedNames

theorem SettledItem.later {item : Node} (h : SettledItem L s₀ s item) (hafter : s.usedNames ⊆ s'.usedNames) :
    SettledItem L s₀ s' item := ⟨h.toSettled.later hafter, h.form, h.named, h.unused⟩

namespace Placed

variable {r : Result} {n m item : Node}

/-- A result that is referred to by its name is placed. -/
theorem resetAlias (h : Placed L s₀ s r) : Placed L s₀ s r.resetAlias := by
  have hneeded : r.resetAlias.neededAlias = r.neededAlias := by
    unfold Result.resetAlias
    split <;> rfl
  have hnode := resetAlias_node r
  constructor
  · rw [hnode]
    exact h.toSettled
  · rw [hnode]
    exact h.form
  · rw [hnode, hneeded]
    exact h.needed
  · rw [hnode, hneeded]
    exact h.beside
  · rw [hnode, hneeded]
    exact h.free

/-- A result that awaits clauses is placed. -/
theorem expecting (h : Placed L s₀ s r) (clauses : List Clause) (ignores : Bool) :
    Placed L s₀ s (r.expecting clauses ignores) := ⟨h.toSettled, h.form, h.needed, h.beside, h.free⟩

theorem later (h : Placed L s₀ s r) (hafter : s.usedNames ⊆ s'.usedNames) : Placed L s₀ s' r where
  toSettled := h.toSettled.later hafter
  form := h.form
  needed a ha := by
    obtain ⟨hne, hoffers, hused, hrest⟩ := h.needed a ha
    exact ⟨hne, hoffers, hafter hused, hrest⟩
  beside := h.beside
  free := h.free

/-- **`asFrom`** — as a FROM item, a result stands beside items with other names. -/
theorem asFrom (h : Placed L s₀ s r) (hitem : r.asFrom = .ok item) : SettledItem L s₀ s item := by
  cases hneeded : r.neededAlias with
  | none =>
    obtain ⟨hreadable, hunused⟩ := h.free hneeded
    obtain rfl : r.node = item := by simpa [Result.asFrom, hneeded] using hitem
    refine ⟨h.toSettled, h.form, fun _ hkind => ?_, hunused⟩
    simpa [isReadable, hkind] using hreadable
  | some a =>
    simp only [Result.asFrom, hneeded] at hitem
    obtain ⟨hne, hoffers, hused, hunused, hinner⟩ := h.needed a hneeded
    have hbrings : L.Brings s₀ s (Text.lower a) := ⟨hused, fun _ => .inl hunused⟩
    by_cases hplain : isPlainQuery r.node = true
    · obtain rfl : derived r.node (some a) = item := by
        simpa [asFromItem_of_plainQuery hplain a] using hitem
      refine ⟨h.toSettled.derived ?_, .inr (.inl (isReadable_derived _ _)), fun _ _ => rfl, fun v hv => ?_⟩
      · rintro b hb
        cases hb
        exact ⟨hne, hoffers, hbrings, fun _ => hinner⟩
      · rw [sourceNames_derived _ (by simpa using hne)] at hv
        obtain rfl : v = Text.lower a := by simpa using hv
        exact hunused
    · -- anything else is renamed, unless it is a join
      have hcases : r.node.isFromItem = true ∧ (passesOn r.node.kind = true → r.node.kind = .matchRecognize)
          ∧ ∀ n, n.kind = r.node.kind → n.hasAlias = true → IsQueryForm n := by
        rcases h.form with hform | hform | hform
        · exact absurd hform hplain
        · rcases (isReadable_iff _).mp hform with hkind | hkind | ⟨hkind, -⟩
          · exact ⟨by simp [isFromItem, hkind], by simp [passesOn, hkind], fun n hn _ =>
              .inr (.inl (by simp [isReadable, hn, hkind]))⟩
          · rw [asFromItem_join hkind] at hitem
            cases hitem
          · refine ⟨?_, ?_, fun n hn halias => .inr (.inl ?_)⟩ <;> rcases hkind with hkind | hkind <;>
              simp_all [isFromItem, passesOn, isReadable]
        · exact ⟨by simp [isFromItem, hform], fun _ => hform, fun n hn _ => .inr (.inr (hn.trans hform))⟩
      obtain ⟨hfromItem, hpasses, hform⟩ := hcases
      obtain rfl : r.node.underAlias a r.node.aliasColumns = item := by
        simpa [asFromItem, hfromItem, Node.underAlias] using hitem
      have halias : (r.node.underAlias a r.node.aliasColumns).hasAlias = true := by
        simp [Node.hasAlias, child?, Node.underAlias]
      refine ⟨h.toSettled.underAlias hfromItem hne hoffers hbrings (fun _ => hinner)
        (fun hp hmem => (h.beside (hpasses hp) _ hmem).2 a hneeded rfl) _, ?_, fun _ _ => halias, fun v hv => ?_⟩
      · exact hform _ (by simp [Node.underAlias]) halias
      · obtain ⟨rest, hnames, hrest, halone⟩ := sourceNames_underAlias_subset hfromItem hne r.node.aliasColumns
        rw [hnames] at hv
        rcases List.mem_cons.mp hv with rfl | hv
        · exact hunused
        · by_cases hp : passesOn r.node.kind = true
          · exact (h.beside (hpasses hp) v (hrest.subset hv)).1
          · rw [halone (by simpa using hp)] at hv
            cases hv

/-- **`subSelect`** — a query over the FROM item that the result is. -/
theorem subSelect (henv : env.NeverQualifies)
    (hrequired : L.required = true → env.dialect.capabilities.fromAliasRequired = true) (h : Placed L s₀ s r)
    (hbefore : s₀.usedNames ⊆ s.usedNames) (hm : (r.subSelect env).Gives s m s') :
    Settled L s₀ s' m ∧ (∃ item, m = Node.selectFrom item)
      ∧ ∀ v ∈ m.sourceNames, (∃ item, r.asFrom = .ok item ∧ v ∈ item.sourceNames) ∨ v ∉ s.usedNames := by
  obtain ⟨item, t, hlift, hm⟩ := (ConvertM.gives_bind _ _ _ _ _).mp hm
  obtain ⟨hitem, rfl⟩ := (ConvertM.gives_lift _ _ _ _).mp hlift
  have hsettled := h.asFrom hitem
  obtain ⟨hm, hselect, hnames⟩ := hsettled.toSettled.wrapSelect henv hrequired hbefore hsettled.form hm
  exact ⟨hm, hselect, fun v hv => (hnames v hv).imp_left fun hv => ⟨item, hitem, hv⟩⟩

/-- **`asSelect`** — the result as a query with a select list. -/
theorem asSelect (henv : env.NeverQualifies)
    (hrequired : L.required = true → env.dialect.capabilities.fromAliasRequired = true) (h : Placed L s₀ s r)
    (hbefore : s₀.usedNames ⊆ s.usedNames) (hm : (r.asSelect env).Gives s m s') :
    Settled L s₀ s' m ∧ m.kind = .select ∧ ∀ v ∈ m.sourceNames, v ∈ r.node.sourceNames ∨ v ∉ s.usedNames := by
  by_cases hkind : r.node.kind = .select
  · obtain ⟨rfl, rfl⟩ := (ConvertM.gives_asSelect_of_select hkind m s s').mp hm
    exact ⟨h.toSettled, hkind, fun v hv => .inl hv⟩
  · have hwrapped := (ConvertM.gives_asSelect_of_ne_select henv hkind m s s').mp hm
    obtain ⟨hm, ⟨item, rfl⟩, hnames⟩ := h.toSettled.wrapSelect henv hrequired hbefore h.form hwrapped
    exact ⟨hm, rfl, hnames⟩

/-- **`builder`** — the query that is opened for the clauses of a relation. -/
theorem builder (henv : env.NeverQualifies)
    (hrequired : L.required = true → env.dialect.capabilities.fromAliasRequired = true) (h : Placed L s₀ s r)
    (hbefore : s₀.usedNames ⊆ s.usedNames) {rel : Rel} {b : Builder} (hb : (r.builder env rel).Gives s b s') :
    Settled L s₀ s' b.select ∧ b.select.kind = .select := by
  obtain ⟨m, hm, hopened⟩ := (ConvertM.gives_builder henv r rel b s s').mp hb
  have hselect : b.select = m := by
    unfold Result.opened at hopened
    dsimp only at hopened
    split at hopened
    · cases hopened
      rfl
    · simp only [bind_eq_ok_iff, pure_eq_ok_iff] at hopened
      obtain ⟨-, -, rfl⟩ := hopened
      rfl
    · cases hopened
      rfl
  rw [hselect]
  split at hm
  · obtain ⟨hm, ⟨item, rfl⟩, -⟩ := h.subSelect henv hrequired hbefore hm
    exact ⟨hm, rfl⟩
  · obtain ⟨hm, hkind, -⟩ := h.asSelect henv hrequired hbefore hm
    exact ⟨hm, hkind⟩

end Placed

/-! ## Recording -/

theorem subset_afterRecording (s : State) (n : Node) (rel : Rel) : s.usedNames ⊆ (afterRecording s n rel).usedNames :=
  List.subset_append_left _ _

theorem lower_mem_afterRecording (s : State) (n : Node) (rel : Rel) :
    Text.lower (givenName s.usedNames n) ∈ (afterRecording s n rel).usedNames := by
  simp [afterRecording, UsedNames.record]

/-- **`makeResult`** — a settled query without a name of its own is placed under a new name. -/
theorem placed_makeResult (henv : env.NeverQualifies) {n : Node} {clauses : List Clause} {rel : Rel}
    {aliases : Option Aliases} {r : Result} (hbefore : s₀.usedNames ⊆ s.usedNames)
    (hn : Settled L s₀ (afterRecording s n rel) n) (hown : n.aliasOf? = none) (hform : IsQueryForm n)
    (hinner : ∀ v ∈ n.innerSources, v ∈ s.usedNames)
    (hbeside : n.kind = .matchRecognize → ∀ v ∈ n.sourceNames, v ∈ s.usedNames ∧ v ∉ s₀.usedNames)
    (h : (makeResult env n clauses rel aliases).Gives s r s') : Placed L s₀ s' r := by
  obtain ⟨rfl, rfl⟩ := (ConvertM.gives_makeResult henv n clauses rel aliases r s s').mp h
  have hfree := UsedNames.has_unique s.usedNames "t"
  have hname : givenName s.usedNames n = s.usedNames.unique "t" := by simp [givenName, hown]
  have hneeded : ∀ a, (recorded n clauses rel aliases (givenName s.usedNames n)).neededAlias = some a →
      a = s.usedNames.unique "t" := by
    intro a ha
    unfold recorded at ha
    split at ha
    · rw [← hname]
      simpa using ha.symm
    · simp only [hown] at ha
      rw [← hname]
      simpa using ha.symm
  constructor
  · rw [recorded_node]
    exact hn
  · rw [recorded_node]
    exact hform
  · intro a ha
    obtain rfl := hneeded a ha
    rw [recorded_node]
    refine ⟨UsedNames.unique_ne_empty_of_ne (by decide), L.offers_unique _ (by simp), ?_, fun hmem => ?_, fun hmem => ?_⟩
    · rw [← hname]
      exact lower_mem_afterRecording s n rel
    · exact lower_not_mem_of_free hfree (hbefore hmem)
    · exact lower_not_mem_of_free hfree (hinner _ hmem)
  · rw [recorded_node]
    intro hkind v hv
    obtain ⟨hused, hunused⟩ := hbeside hkind v hv
    refine ⟨hunused, fun a ha heq => ?_⟩
    obtain rfl := hneeded a ha
    exact lower_not_mem_of_free hfree (heq ▸ hused)
  · intro hnone
    exfalso
    unfold recorded at hnone
    split at hnone
    · cases hnone
    · simp [hown] at hnone

/-- A table, or constant rows under a name, is placed under its own name if that is new. -/
theorem placed_makeItem (henv : env.NeverQualifies) {n : Node} {own : String} {clauses : List Clause} {rel : Rel} {r : Result}
    (hsound : AllSourcesSound L.assumed L.required n) (hown : n.aliasOf? = some own) (hreadable : isReadable n = true)
    (hnames : n.sourceNames = [Text.lower own]) (hall : n.allSources = []) (hoffers : L.Offers (Text.lower own))
    (hrenamed : L.Offers (Text.lower (s.usedNames.unique own)))
    (hreads : L.assumed → Text.lower own ∉ s.usedNames ∨ L.reads (Text.lower own) = true)
    (h : (makeResult env n clauses rel none).Gives s r s') : Placed L s s' r := by
  obtain ⟨rfl, rfl⟩ := (ConvertM.gives_makeResult henv n clauses rel none r s s').mp h
  have hname : givenName s.usedNames n = s.usedNames.unique own := by simp [givenName, hown]
  have hfree := UsedNames.has_unique s.usedNames own
  have hinner : n.innerSources = [] :=
    List.eq_nil_iff_forall_not_mem.mpr fun v hv => by simpa [hall] using innerSources_subset n hv
  have hused : Text.lower own ∈ (afterRecording s n rel).usedNames := by
    rcases UsedNames.unique_eq s.usedNames own with ⟨-, hsame⟩ | ⟨hold, -⟩
    · rw [← hsame, ← hname]
      exact lower_mem_afterRecording s n rel
    · refine subset_afterRecording s n rel ?_
      simpa [UsedNames.has] using hold
  constructor
  · rw [recorded_node]
    refine ⟨hsound, by simp [hnames], fun _ v _ => by simp [hinner], ?_, ?_, by simp [hall], by simp [hinner]⟩
    · simpa [hnames] using hoffers
    · simpa [hnames] using ⟨hused, hreads⟩
  · rw [recorded_node]
    exact .inr (.inl hreadable)
  · intro a ha
    obtain ⟨hne, rfl⟩ : some own ≠ some (s.usedNames.unique own) ∧ s.usedNames.unique own = a := by
      simpa [recorded, hown, hname] using ha
    rw [recorded_node, hinner]
    refine ⟨UsedNames.unique_ne_empty fun heq => hne (by rw [heq]), hrenamed, ?_, lower_not_mem_of_free hfree, by simp⟩
    rw [← hname]
    exact lower_mem_afterRecording s n rel
  · rw [recorded_node]
    intro hkind
    simp [isReadable, hkind] at hreadable
  · intro hnone
    obtain hsame : own = s.usedNames.unique own := by simpa [recorded, hown, hname] using hnone
    rw [recorded_node, hnames]
    refine ⟨hreadable, fun v hv => ?_⟩
    obtain rfl : v = Text.lower own := by simpa using hv
    rw [← hsame] at hfree
    exact lower_not_mem_of_free hfree

end AlgebraSql.Convert
