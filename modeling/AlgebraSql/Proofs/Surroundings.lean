import AlgebraSql.Proofs.Evaluation

/-!
# Surroundings — a query means the same wherever it stands.

A query that has rows by itself finds every name in itself.  Put into another query it has further
names around it, which it does not need: it has the same rows.  The induction carries more: whatever
has a meaning under some names has it under further names too, as long as these stand for the same
on the levels that correspond.
-/

namespace AlgebraSql.Sql

/-! ## Foci that correspond -/

/-- Foci with the same innermost level, around which levels correspond. -/
def OnTop (S : Focus → Focus → Prop) (f g : Focus) : Prop :=
  ∃ l f' g', f = l :: f' ∧ g = l :: g' ∧ S f' g'

/-- The same place among the same levels, around which levels correspond. -/
def AtSpot (S : Focus → Focus → Prop) (s t : Spot) : Prop :=
  ∃ (ls : List Level) (f g : Focus), s.all = ls.map (· :: f) ∧ t.all = ls.map (· :: g) ∧ S f g
    ∧ s.place = t.place ∧ s.place < ls.length

/-- A value that is there under some names is there under others, and is the same where arguments
correspond. -/
def Carries {α β : Type} (S : α → α → Prop) (o o' : Option (α → β)) : Prop :=
  ∀ v, o = some v → ∃ v', o' = some v' ∧ ∀ a a', S a a' → v a = v' a'

/-- Further names: what a name stands for stays the same on corresponding foci. -/
def Names.Below (S : Focus → Focus → Prop) (names names' : Names) : Prop :=
  ∀ qualifier name, Carries S (names qualifier name) (names' qualifier name)

variable {S : Focus → Focus → Prop}

theorem OnTop.cons (l : Level) {f g : Focus} (h : S f g) : OnTop S (l :: f) (l :: g) :=
  ⟨l, f, g, rfl, rfl, h⟩

/-- The innermost level is exchanged in both. -/
theorem OnTop.exchange {f g : Focus} (h : OnTop S f g) (l : Level) :
    OnTop S (l :: f.tail) (l :: g.tail) := by
  obtain ⟨l', f', g', rfl, rfl, hS⟩ := h
  exact .cons l hS

theorem OnTop.row_eq {f g : Focus} (h : OnTop S f g) : f.row = g.row := by
  obtain ⟨l, f', g', rfl, rfl, -⟩ := h
  rfl

theorem OnTop.group_eq {f g : Focus} (h : OnTop S f g) : f.group = g.group := by
  obtain ⟨l, f', g', rfl, rfl, -⟩ := h
  rfl

theorem AtSpot.focus {s t : Spot} (h : AtSpot S s t) : OnTop S s.focus t.focus := by
  obtain ⟨ls, f, g, hs, ht, hS, hplace, hlt⟩ := h
  refine ⟨ls[s.place], f, g, ?_, ?_, hS⟩
  · simp [Spot.focus, hs, List.getD_eq_getElem?_getD, hlt]
  · simp [Spot.focus, ht, List.getD_eq_getElem?_getD, ← hplace, hlt]

/-- All places among corresponding levels. -/
theorem AtSpot.each {s t : Spot} (h : AtSpot S s t) {β : Type} {v w : Spot → β}
    (hv : ∀ s t, AtSpot S s t → v s = w t) :
    (Spot.each s.all).map v = (Spot.each t.all).map w := by
  obtain ⟨ls, f, g, hs, ht, hS, -, -⟩ := h
  simp only [Spot.each, hs, ht, List.length_map, List.map_map]
  refine List.map_congr_left fun i hi => hv _ _ ⟨ls, f, g, rfl, rfl, hS, rfl, ?_⟩
  simpa using hi

namespace Carries

variable {α γ β δ : Type} {T : α → α → Prop} {U : γ → γ → Prop} {o o' : Option (α → β)}

theorem none : Carries T (none : Option (α → β)) o' := by
  intro v hv
  cases hv

theorem some {v v' : α → β} (h : ∀ a a', T a a' → v a = v' a') : Carries T (some v) (some v') := by
  intro w hw
  cases hw
  exact ⟨v', rfl, h⟩

/-- A value from another one. -/
theorem map (h : Carries T o o') (F : (α → β) → γ → δ)
    (hF : ∀ v v', (∀ a a', T a a' → v a = v' a') → ∀ c c', U c c' → F v c = F v' c') :
    Carries U (o.map F) (o'.map F) := by
  intro w hw
  obtain ⟨v, rfl, rfl⟩ := Option.map_eq_some_iff.mp hw
  obtain ⟨v', rfl, hv⟩ := h v rfl
  exact ⟨_, rfl, hF v v' hv⟩

theorem bind (h : Carries T o o') {F F' : (α → β) → Option (γ → δ)}
    (hF : ∀ v v', (∀ a a', T a a' → v a = v' a') → Carries U (F v) (F' v')) :
    Carries U (o >>= F) (o' >>= F') := by
  intro w hw
  obtain ⟨v, rfl, hw⟩ := Option.bind_eq_some_iff.mp hw
  obtain ⟨v', rfl, hv⟩ := h v rfl
  exact hF v v' hv w hw

theorem together {os os' : List (Option (α → β))} (h : List.Forall₂ (Carries T) os os') :
    Carries T (Node.together os) (Node.together os') := by
  induction h with
  | nil => exact some fun _ _ _ => rfl
  | @cons o o' os os' ho _ ih =>
    intro w hw
    cases o with
    | none => cases hw
    | some v =>
      obtain ⟨vs, hvs, rfl⟩ := Option.map_eq_some_iff.mp hw
      obtain ⟨v', rfl, hv⟩ := ho v rfl
      obtain ⟨vs', hvs', heq⟩ := ih vs hvs
      refine ⟨_, by simp only [Node.together, hvs']; rfl, fun a a' ha => ?_⟩
      simp only [hv a a' ha, heq a a' ha]

/-- Values of the same nodes. -/
theorem together_map {μ : Type} {ms : List μ} {F F' : μ → Option (α → β)}
    (h : ∀ m ∈ ms, Carries T (F m) (F' m)) :
    Carries T (Node.together (ms.map F)) (Node.together (ms.map F')) := by
  refine together ?_
  rw [List.forall₂_map_left_iff, List.forall₂_map_right_iff]
  exact List.forall₂_same.mpr h

end Carries

namespace Names.Below

variable {names names' : Names}

theorem within (h : Below S names names') (F : Frame) :
    Below (OnTop S) (Names.within F names) (Names.within F names') := by
  intro qualifier name
  unfold Names.within
  split
  · exact .some fun f f' hf => by rw [hf.row_eq]
  · refine (h qualifier name).map _ fun v v' hv f f' hf => ?_
    obtain ⟨l, g, g', rfl, rfl, hS⟩ := hf
    exact hv g g' hS
  · exact .none

theorem beside (h : Below S names names') : Below (OnTop S) names.beside names'.beside := h.within []

theorem itemsFirst {values values' : Nat → Option (Focus → Datum)} (h : Below S names names')
    (hvalues : ∀ place, Carries S (values place) (values' place)) (items : List String) :
    Below S (Names.itemsFirst items values names) (Names.itemsFirst items values' names') := by
  intro qualifier name
  unfold Names.itemsFirst
  split
  · exact hvalues _
  · exact h qualifier name

theorem itemsBehind {values values' : Nat → Option (Focus → Datum)} (h : Below S names names')
    (hvalues : ∀ place, Carries S (values place) (values' place)) (F : Frame) (items : List String) :
    Below S (Names.itemsBehind F items values names) (Names.itemsBehind F items values' names') := by
  intro qualifier name
  unfold Names.itemsBehind
  split
  · exact h.itemsFirst hvalues items qualifier name
  · exact h qualifier name

/-- Everything is further than no names. -/
theorem of_none (S : Focus → Focus → Prop) (names : Names) : Below S Names.none names :=
  fun _ _ => .none

end Names.Below

/-! ## Stages -/

namespace Node

variable {E : Engine}

theorem firsts_map {α γ β : Type} [DecidableEq β] {key : γ → β} (g : α → γ) (as : List α) :
    firsts key (as.map g) = (firsts (fun a => key (g a)) as).map g := by
  induction as with
  | nil => rfl
  | cons a as ih => simp [firsts, ih, List.filter_map, Function.comp_def]

theorem arrange_map {α γ : Type} (g : α → γ) (keyed : List (List Datum × α)) :
    arrange E (keyed.map fun p => (p.1, g p.2)) = (arrange E keyed).map g := by
  have hsort := List.map_mergeSort (l := keyed) (r := fun a b => E.precedes a.1 b.1)
    (s := fun a b => E.precedes a.1 b.1) (f := fun p : List Datum × α => (p.1, g p.2))
    (fun _ _ _ _ => rfl)
  unfold arrange
  rw [← hsort, List.map_map, List.map_map]
  rfl

theorem limited_map {α γ : Type} (limit offset : Option Datum) (g : α → γ) (as : List α) :
    limited limit offset (as.map g) = (limited limit offset as).map g := by
  unfold limited
  cases offset.bind count? <;> cases limit.bind count? <;> simp [List.map_drop, List.map_take]

namespace Stages

/-- Stages that do the same where levels around correspond. -/
structure Agree (S : Focus → Focus → Prop) (st st' : Stages) : Prop where
  source : ∀ f f', S f f' → st.source f = st'.source f'
  condition : ∀ f f', OnTop S f f' → st.condition f = st'.condition f'
  levels : ∀ f f', S f f' → st.levels f = st'.levels f'
  having : ∀ f f', OnTop S f f' → st.having f = st'.having f'
  qualify : ∀ s s', AtSpot S s s' → st.qualify s = st'.qualify s'
  output : ∀ s s', AtSpot S s s' → st.output s = st'.output s'
  distinct : st.distinct = st'.distinct
  order : (st.order = none ∧ st'.order = none)
    ∨ ∃ key key', st.order = some key ∧ st'.order = some key' ∧ ∀ s s', AtSpot S s s' → key s = key' s'
  limit : ∀ f f', S f f' → st.limit f = st'.limit f'
  offset : ∀ f f', S f f' → st.offset f = st'.offset f'
  width : st.width = st'.width

variable {st st' : Stages} {f f' : Focus}

/-- A shown level with its output, around which there are levels. -/
def around (f : Focus) (p : Level × Row) : Focus × Row := (p.1 :: f, p.2)

theorem Agree.groups (h : Agree S st st') (hS : S f f') :
    ∃ ls : List Level, st.groups f = ls.map (· :: f) ∧ st'.groups f' = ls.map (· :: f') := by
  have htuples : st.toGrouping.tuples f = st'.toGrouping.tuples f' := by
    unfold Grouping.tuples
    rw [h.source f f' hS]
    exact List.filter_congr fun row _ => by rw [h.condition _ _ (.cons _ hS)]
  have hrun : st.toGrouping.run f = st'.toGrouping.run f' := by
    unfold Grouping.run
    rw [htuples, h.levels f f' hS]
  unfold Stages.groups
  rw [← hrun, List.filter_map, List.filter_map]
  refine ⟨_, rfl, ?_⟩
  congr 1
  exact List.filter_congr fun l _ => by
    simp only [Function.comp_apply]
    rw [h.having _ _ (.cons l hS)]

theorem Agree.shown (h : Agree S st st') (hS : S f f') :
    ∃ out : List (Level × Row), st.shown f = out.map (around f) ∧ st'.shown f' = out.map (around f') := by
  obtain ⟨ls, hg, hg'⟩ := h.groups hS
  have hspot : ∀ i ∈ List.range ls.length, AtSpot S ⟨ls.map (· :: f), i⟩ ⟨ls.map (· :: f'), i⟩ :=
    fun i hi => ⟨ls, f, f', rfl, rfl, hS, rfl, by simpa using hi⟩
  have hfocus : ∀ g : Focus, ∀ i ∈ List.range ls.length,
      Spot.focus ⟨ls.map (· :: g), i⟩ = ls[i]?.getD ⟨[], []⟩ :: g := by
    intro g i hi
    have hlt : i < ls.length := by simpa using hi
    simp [Spot.focus, List.getD_eq_getElem?_getD, hlt]
  unfold Stages.shown
  rw [hg, hg']
  simp only [Spot.each, List.length_map, List.filter_map, List.map_map]
  refine ⟨((List.range ls.length).filter fun i => holds (st.qualify ⟨ls.map (· :: f), i⟩)).map fun i =>
    (ls[i]?.getD ⟨[], []⟩, st.output ⟨ls.map (· :: f), i⟩), ?_, ?_⟩
  · rw [List.map_map]
    refine List.map_congr_left fun i hi => ?_
    simp only [Function.comp_apply, around]
    rw [hfocus f i (List.mem_filter.mp hi).1]
  · rw [List.map_map]
    have hsame : (List.range ls.length).filter (fun i => holds (st.qualify ⟨ls.map (· :: f), i⟩))
        = (List.range ls.length).filter (fun i => holds (st'.qualify ⟨ls.map (· :: f'), i⟩)) :=
      List.filter_congr fun i hi => by rw [h.qualify _ _ (hspot i hi)]
    rw [hsame]
    refine List.map_congr_left fun i hi => ?_
    have hi' := (List.mem_filter.mp hi).1
    simp only [Function.comp_apply, around]
    rw [hfocus f' i hi', h.output _ _ (hspot i hi')]

theorem Agree.arranged (h : Agree S st st') (hS : S f f') (out : List (Level × Row)) :
    ∃ out' : List (Level × Row), st.arranged E (out.map (around f)) = out'.map (around f)
      ∧ st'.arranged E (out.map (around f')) = out'.map (around f') := by
  unfold Stages.arranged
  rcases h.order with ⟨horder, horder'⟩ | ⟨key, key', horder, horder', hkey⟩
  · rw [horder, horder']
    exact ⟨out, rfl, rfl⟩
  · rw [horder, horder']
    let level (p : Level × Row) : Level :=
      ⟨(List.range st.width).map (fun i => p.1.row.getD i .null) ++ p.2, p.1.group⟩
    have hall : ∀ g : Focus, ((out.map (around g)).map fun p => p.1.extend st.width p.2)
        = (out.map level).map (· :: g) := by
      intro g
      simp only [List.map_map]
      rfl
    have hkeyed : ∀ (g : Focus) (all : List Focus) (k : Spot → List Datum),
        ((out.map (around g)).zipIdx.map fun p => (k ⟨all, p.2⟩, p.1))
          = (out.zipIdx.map fun p => (k ⟨all, p.2⟩, p.1)).map fun p => (p.1, around g p.2) := by
      intro g all k
      rw [List.zipIdx_map, List.map_map, List.map_map]
      rfl
    have hsame : (out.zipIdx.map fun p => (key ⟨(out.map level).map (· :: f), p.2⟩, p.1))
        = out.zipIdx.map fun p => (key' ⟨(out.map level).map (· :: f'), p.2⟩, p.1) := by
      refine List.map_congr_left fun p hp => ?_
      have hlt : p.2 < (out.map level).length := by
        simpa using (List.getElem?_eq_some_iff.mp (List.mem_zipIdx_iff_getElem?.mp hp)).1
      rw [hkey ⟨_, p.2⟩ ⟨_, p.2⟩ ⟨out.map level, f, f', rfl, rfl, hS, rfl, hlt⟩]
    simp only [← h.width, hall, hkeyed, arrange_map, ← hsame]
    exact ⟨_, rfl, rfl⟩

/-- **Stages that agree** have the same rows. -/
theorem Agree.run_eq (h : Agree S st st') (hS : S f f') : st.run E f = st'.run E f' := by
  obtain ⟨out, hout, hout'⟩ := h.shown hS
  have hrows : ∀ (g : Focus) (out : List (Level × Row)),
      (out.map (around g)).map (·.2) = out.map (·.2) := by
    intro g out
    rw [List.map_map]
    rfl
  have hfirsts : ∀ g : Focus, (if st.distinct then firsts (fun p => p.2) (out.map (around g))
      else out.map (around g)) = (if st.distinct then firsts (fun p => p.2) out else out).map (around g) := by
    intro g
    split
    · exact firsts_map _ _
    · rfl
  unfold Stages.run
  simp only [hout, hout', ← h.distinct, hfirsts]
  obtain ⟨out', harranged, harranged'⟩ := h.arranged (E := E) hS
    (if st.distinct then firsts (fun p => p.2) out else out)
  rw [harranged, harranged', limited_map, limited_map, hrows, hrows, h.limit f f' hS, h.offset f f' hS]

end Stages

/-! ## Meanings -/

/-- **`Steady`** — a meaning that is there under some names is the same under further ones. -/
structure Meaning.Steady (m : Meaning) : Prop where
  scalar : ∀ S names names', Names.Below (OnTop S) names names' →
    Carries (OnTop S) (m.scalar names) (m.scalar names')
  analytic : ∀ S names names', Names.Below (OnTop S) names names' →
    Carries (AtSpot S) (m.analytic names) (m.analytic names')
  operands : ∀ S names names', Names.Below (OnTop S) names names' →
    Carries (AtSpot S) (m.operands names) (m.operands names')
  keys : ∀ width S names names', Names.Below (OnTop S) names names' →
    Carries (AtSpot S) (m.keys width names) (m.keys width names')
  tuples : ∀ S names names', Names.Below S names names' → Carries S (m.tuples names) (m.tuples names')
  rows : ∀ S names names', Names.Below S names names' → Carries S (m.rows names) (m.rows names')
  /-- What has values without windowed calls has these values everywhere. -/
  plain : ∀ names v, m.scalar names = some v → m.analytic names = some fun s => v s.focus

theorem Meaning.steady_missing : Meaning.missing.Steady where
  scalar _ _ _ _ := .none
  analytic _ _ _ _ := .none
  operands _ _ _ _ := .none
  keys _ _ _ _ _ := .none
  tuples _ _ _ _ := .none
  rows _ _ _ _ := .none
  plain := by simp [Meaning.missing]

section

variable {db : Database} {parts : Parts} (hparts : ∀ p ∈ parts, ∀ m ∈ p.2, Meaning.Steady m)

include hparts

theorem steady_several (key : String) : ∀ m ∈ parts.several key, m.Steady := by
  have hget : ∀ (parts : Parts), (∀ p ∈ parts, ∀ m ∈ p.2, Meaning.Steady m) →
      ∀ m ∈ parts.several key, m.Steady := by
    intro parts
    induction parts with
    | nil => simp [Parts.several]
    | cons p rest ih =>
      obtain ⟨k, ms⟩ := p
      intro h
      have hrest := ih fun q hq => h q (by simp [hq])
      unfold Parts.several at hrest ⊢
      rw [OrderedMap.get?_cons]
      split
      · exact h (k, ms) (by simp)
      · exact hrest
  exact hget parts hparts

theorem steady_only (key : String) : (parts.only key).Steady := by
  unfold Parts.only
  cases h : parts.several key with
  | nil => exact Meaning.steady_missing
  | cons m ms => exact steady_several hparts key m (by simp [h])

theorem steady_flat : ∀ m ∈ parts.flat, m.Steady := by
  intro m hm
  obtain ⟨p, hp, hm⟩ := List.mem_flatMap.mp hm
  exact hparts p hp m hm

omit hparts

/-! ### Clauses -/

variable {n : Node} {names names' : Names}

theorem carries_conditionOf {α : Type} {T : α → α → Prop} {key : String}
    {o o' : Option (α → List Datum)} (h : Carries T o o') :
    Carries T (conditionOf n key o) (conditionOf n key o') := by
  unfold conditionOf
  split
  · exact h
  · exact .some fun _ _ _ => rfl

theorem carries_limitOf {key : String} {o o' : Option (Focus → List Datum)} (h : Carries (OnTop S) o o') :
    Carries S (limitOf n key o) (limitOf n key o') := by
  unfold limitOf
  split
  · refine h.map _ fun v v' hv f f' hf => ?_
    rw [hv f.beside f'.beside (.cons _ hf)]
  · exact .some fun _ _ _ => rfl

theorem carries_levelsOf {o o' : Option (Focus → List Datum)} (h : Carries (OnTop S) o o') :
    Carries S (levelsOf E n o) (levelsOf E n o') := by
  unfold levelsOf
  split
  · refine h.map _ fun v v' hv f f' hf => ?_
    have hrow : ∀ row : Row, v (⟨row, [row]⟩ :: f) = v' (⟨row, [row]⟩ :: f') := fun row =>
      hv _ _ (.cons _ hf)
    funext rows
    simp only [hrow]
  · split <;> exact .some fun _ _ _ => rfl

theorem carries_itemValue {items : List Meaning} (hitems : ∀ m ∈ items, m.Steady)
    (hnames : Names.Below (OnTop S) names names') (place : Nat) :
    Carries (OnTop S) (itemValue items names place) (itemValue items names' place) := by
  unfold itemValue
  cases hitem : items[place]? with
  | none => exact .none
  | some m =>
    refine ((hitems m (List.mem_of_getElem? hitem)).scalar S names names' hnames).map _ ?_
    intro v v' hv f f' hf
    rw [hv f f' hf]

theorem carries_outputOf {width : Nat} {items : List Meaning} (hitems : ∀ m ∈ items, m.Steady)
    (hnames : Names.Below (OnTop S) names names') :
    Carries (AtSpot S) (outputOf n width items names) (outputOf n width items names') := by
  unfold outputOf
  split
  · exact .some fun s s' hs => by rw [hs.focus.row_eq]
  · refine (Carries.together_map fun m hm => (hitems m hm).analytic S names names' hnames).map _ ?_
    intro v v' hv s s' hs
    rw [hv s s' hs]

include hparts

theorem agree_groupingOf (hnames : Names.Below S names names') {g : Grouping}
    (hg : groupingOf E db n parts names = some g) :
    ∃ g', groupingOf E db n parts names' = some g'
      ∧ (∀ f f', S f f' → g.source f = g'.source f')
      ∧ (∀ f f', OnTop S f f' → g.condition f = g'.condition f')
      ∧ ∀ f f', S f f' → g.levels f = g'.levels f' := by
  have hwithin := hnames.within (n.frame db.schema)
  unfold groupingOf at hg ⊢
  simp only [Option.bind_eq_bind, Option.bind_eq_some_iff, Option.pure_def, Option.some.injEq] at hg ⊢
  obtain ⟨source, hsource, condition, hcondition, levels, hlevels, rfl⟩ := hg
  have hfrom : Carries S (sourceOf n ((parts.only "from").tuples names))
      (sourceOf n ((parts.only "from").tuples names')) := by
    unfold sourceOf
    split
    · exact (steady_only hparts "from").tuples S names names' hnames
    · exact .some fun _ _ _ => rfl
  obtain ⟨source', hsource', hS⟩ := hfrom source hsource
  obtain ⟨condition', hcondition', hC⟩ := carries_conditionOf
    ((steady_only hparts "where").scalar S _ _ hwithin) condition hcondition
  have hgroup : Names.Below (OnTop S)
      (if E.groupByAlias then Names.itemsBehind (n.frame db.schema) n.itemNames
        (itemValue (parts.several "expressions") (Names.within (n.frame db.schema) names))
        (Names.within (n.frame db.schema) names) else Names.within (n.frame db.schema) names)
      (if E.groupByAlias then Names.itemsBehind (n.frame db.schema) n.itemNames
        (itemValue (parts.several "expressions") (Names.within (n.frame db.schema) names'))
        (Names.within (n.frame db.schema) names') else Names.within (n.frame db.schema) names') := by
    split
    · exact hwithin.itemsBehind
        (carries_itemValue (steady_several hparts "expressions") hwithin) _ _
    · exact hwithin
  obtain ⟨levels', hlevels', hL⟩ := carries_levelsOf
    ((steady_only hparts "group").scalar S _ _ hgroup) levels hlevels
  exact ⟨_, ⟨source', hsource', condition', hcondition', levels', hlevels', rfl⟩, hS, hC, hL⟩

theorem agree_stagesOf (hnames : Names.Below S names names') {st : Stages}
    (hst : stagesOf E db n parts names = some st) :
    ∃ st', stagesOf E db n parts names' = some st' ∧ Stages.Agree S st st' := by
  have hwithin := hnames.within (n.frame db.schema)
  have hitems := steady_several hparts "expressions"
  unfold stagesOf at hst ⊢
  simp only [Option.bind_eq_bind, Option.bind_eq_some_iff, Option.pure_def, Option.some.injEq] at hst ⊢
  obtain ⟨grouping, hgrouping, having, hhaving, qualify, hqualify, output, houtput, order, horder, limit,
    hlimit, offset, hoffset, rfl⟩ := hst
  obtain ⟨grouping', hgrouping', hS, hC, hL⟩ := agree_groupingOf hparts hnames hgrouping
  have hhavingNames : Names.Below (OnTop S)
      (if E.havingAlias then Names.itemsFirst n.itemNames (itemValue (parts.several "expressions")
        (Names.within (n.frame db.schema) names)) (Names.within (n.frame db.schema) names)
        else Names.within (n.frame db.schema) names)
      (if E.havingAlias then Names.itemsFirst n.itemNames (itemValue (parts.several "expressions")
        (Names.within (n.frame db.schema) names')) (Names.within (n.frame db.schema) names')
        else Names.within (n.frame db.schema) names') := by
    split
    · exact hwithin.itemsFirst (carries_itemValue hitems hwithin) _
    · exact hwithin
  obtain ⟨having', hhaving', hH⟩ := carries_conditionOf
    ((steady_only hparts "having").scalar S _ _ hhavingNames) having hhaving
  obtain ⟨qualify', hqualify', hQ⟩ := carries_conditionOf
    ((steady_only hparts "qualify").analytic S _ _ hwithin) qualify hqualify
  obtain ⟨output', houtput', hO⟩ := carries_outputOf hitems hwithin output houtput
  have hplaces : ∀ place : Nat, Carries (OnTop S)
      (some fun f : Focus => f.row.getD ((n.frame db.schema).cells.length + place) .null)
      (some fun f : Focus => f.row.getD ((n.frame db.schema).cells.length + place) .null) :=
    fun place => .some fun f f' hf => by rw [hf.row_eq]
  have horderNames := hwithin.itemsFirst hplaces n.itemNames
  obtain ⟨limit', hlimit', hF⟩ := carries_limitOf
    ((steady_only hparts "limit").scalar S _ _ hnames.beside) limit hlimit
  obtain ⟨offset', hoffset', hB⟩ := carries_limitOf
    ((steady_only hparts "offset").scalar S _ _ hnames.beside) offset hoffset
  obtain ⟨order', horder', hK⟩ : ∃ order', orderOf n ((parts.only "order").keys
      (n.frame db.schema).cells.length (Names.itemsFirst n.itemNames
        (fun place => some fun f => f.row.getD ((n.frame db.schema).cells.length + place) .null)
        (Names.within (n.frame db.schema) names'))) = some order'
      ∧ ((order = none ∧ order' = none) ∨ ∃ key key', order = some key ∧ order' = some key'
        ∧ ∀ s s', AtSpot S s s' → key s = key' s') := by
    unfold orderOf at horder ⊢
    split at horder
    · rename_i hgiven
      obtain ⟨key, hkey, rfl⟩ := Option.map_eq_some_iff.mp horder
      obtain ⟨key', hkey', hsame⟩ := (steady_only hparts "order").keys _ S _ _ horderNames key hkey
      exact ⟨some key', by rw [if_pos hgiven, hkey']; rfl, .inr ⟨key, key', rfl, rfl, hsame⟩⟩
    · rename_i hgiven
      cases horder
      exact ⟨none, by rw [if_neg hgiven], .inl ⟨rfl, rfl⟩⟩
  exact ⟨_, ⟨grouping', hgrouping', having', hhaving', qualify', hqualify', output', houtput', order',
    horder', limit', hlimit', offset', hoffset', rfl⟩,
    ⟨hS, hC, hL, hH, hQ, hO, rfl, hK, hF, hB, rfl⟩⟩

/-! ### Nodes -/

theorem carries_rowsStep (hnames : Names.Below S names names') :
    Carries S (rowsStep E db n parts names) (rowsStep E db n parts names') := by
  unfold rowsStep
  split
  · intro v hv
    obtain ⟨st, hst, rfl⟩ := Option.map_eq_some_iff.mp hv
    obtain ⟨st', hst', hagree⟩ := agree_stagesOf hparts hnames hst
    exact ⟨_, by rw [hst']; rfl, fun f f' hf => hagree.run_eq hf⟩
  · refine (Carries.together_map fun m hm => (steady_several hparts _ m hm).scalar S _ _
      hnames.beside).map _ fun v v' hv f f' hf => ?_
    exact hv _ _ (.cons _ hf)
  · exact (steady_only hparts "this").rows S names names' hnames
  · cases setOperator? n.kind with
    | none => exact .none
    | some op =>
      refine ((steady_only hparts "this").rows S names names' hnames).bind fun v v' hv => ?_
      refine ((steady_only hparts "expression").rows S names names' hnames).bind fun w w' hw => ?_
      split
      · exact .some fun f f' hf => by rw [hv f f' hf, hw f f' hf]
      · exact .none

theorem carries_tuplesStep (hnames : Names.Below S names names') :
    Carries S (tuplesStep E db n parts names) (tuplesStep E db n parts names') := by
  unfold tuplesStep
  split
  · exact .some fun _ _ _ => rfl
  · exact carries_rowsStep hparts hnames
  · exact carries_rowsStep hparts hnames
  · exact (steady_only hparts "this").tuples S names names' hnames
  · refine ((steady_only hparts "this").tuples S names names' hnames).bind fun v v' hv => ?_
    refine ((steady_only hparts "expression").tuples S names names' hnames).bind fun w w' hw => ?_
    refine (carries_conditionOf ((steady_only hparts "on").scalar S _ _ (hnames.within _))).bind
      fun on on' hon => .some fun f f' hf => ?_
    have hpair : ∀ l r : Row, on (⟨l ++ r, [l ++ r]⟩ :: f) = on' (⟨l ++ r, [l ++ r]⟩ :: f') :=
      fun l r => hon _ _ (.cons _ hf)
    simp only [hv f f' hf, hw f f' hf, hpair]
  · exact .none

theorem carries_scalarStep (hnames : Names.Below (OnTop S) names names') :
    Carries (OnTop S) (scalarStep E db n parts names) (scalarStep E db n parts names') := by
  have hflat := Carries.together_map fun m hm => (steady_flat hparts m hm).scalar S names names' hnames
  have hon : ∀ {f f' : Focus} (row : Row), OnTop S f f' → OnTop S (f.onRow row) (f'.onRow row) :=
    fun row hf => hf.exchange _
  have hthis := (steady_only hparts "this").scalar S names names' hnames
  have hexpression := (steady_only hparts "expression").scalar S names names' hnames
  unfold scalarStep
  cases n.manner with
  | operation => exact hflat.map _ fun v v' hv f f' hf => by rw [hv f f' hf]
  | column => exact (hnames _ _).map _ fun v v' hv f f' hf => by rw [hv f f' hf]
  | aggregate =>
    refine hflat.map _ fun v v' hv f f' hf => ?_
    have hrow : ∀ row, v (f.onRow row) = v' (f'.onRow row) := fun row => hv _ _ (hon row hf)
    simp only [hrow, hf.group_eq]
  | filter =>
    refine hthis.bind fun call call' hcall => hexpression.bind fun condition condition' hcondition =>
      .some fun f f' hf => ?_
    have hrow : ∀ row, condition (f.onRow row) = condition' (f'.onRow row) := fun row =>
      hcondition _ _ (hon row hf)
    simp only [hrow, hf.group_eq]
    refine hcall _ _ ?_
    simp only [Focus.withGroup, hf.row_eq]
    exact hf.exchange _
  | withinGroup =>
    refine hthis.bind fun call call' hcall => hexpression.bind fun keys keys' hkeys =>
      .some fun f f' hf => ?_
    have hrow : ∀ row, keys (f.onRow row) = keys' (f'.onRow row) := fun row =>
      hkeys _ _ (hon row hf)
    simp only [hrow, hf.group_eq]
    refine hcall _ _ ?_
    simp only [Focus.withGroup, hf.row_eq]
    exact hf.exchange _
  | window => exact .none
  | query => exact (carries_rowsStep hparts hnames).map _ fun v v' hv f f' hf => by rw [hv f f' hf]
  | «exists» =>
    exact ((steady_only hparts "this").rows _ names names' hnames).map _ fun v v' hv f f' hf => by
      rw [hv f f' hf]
  | membership =>
    exact hthis.bind fun v v' hv => ((steady_only hparts "query").rows _ names names' hnames).bind
      fun w w' hw => .some fun f f' hf => by rw [hv f f' hf, hw f f' hf]

/-- What has values without windowed calls has the values of an operation on its children. -/
theorem analyticStep_operation (hn : n.manner = .operation) :
    analyticStep E db n parts names = (together (parts.flat.map fun m => m.analytic names)).map
      fun vs s => operate E n.bare (vs s) := by
  unfold analyticStep scalarStep
  simp only [hn]
  cases hvs : together (parts.flat.map fun m => m.scalar names) with
  | none => rfl
  | some vs =>
    have hsame : (parts.flat.map fun m => m.analytic names)
        = (parts.flat.map fun m => m.scalar names).map fun o => o.map fun u s => u (Spot.focus s) := by
      rw [List.map_map]
      refine List.map_congr_left fun m hm => ?_
      cases hu : m.scalar names with
      | some u => simp [hu, (steady_flat hparts m hm).plain names u hu]
      | none =>
        refine absurd hvs ?_
        rw [together_eq_none (List.mem_map.mpr ⟨m, hm, hu⟩)]
        simp
    rw [hsame, together_map Spot.focus hvs]
    rfl

theorem carries_analyticStep (hnames : Names.Below (OnTop S) names names') :
    Carries (AtSpot S) (analyticStep E db n parts names) (analyticStep E db n parts names') := by
  by_cases hoperation : n.manner = .operation
  · rw [analyticStep_operation hparts hoperation, analyticStep_operation hparts hoperation]
    exact (Carries.together_map fun m hm => (steady_flat hparts m hm).analytic S names names' hnames).map _
      fun v v' hv s s' hs => by rw [hv s s' hs]
  have hscalar : Carries (OnTop S) (scalarStep E db n parts names) (scalarStep E db n parts names') :=
    carries_scalarStep hparts hnames
  unfold analyticStep
  intro v hv
  cases hvalue : scalarStep E db n parts names with
  | some u =>
    obtain ⟨u', hu', hsame⟩ := hscalar u hvalue
    simp only [hvalue, Option.some.injEq] at hv
    subst hv
    exact ⟨fun s => u' s.focus, by simp only [hu'], fun s s' hs => hsame _ _ hs.focus⟩
  | none =>
    simp only [hvalue] at hv
    split at hv
    · rename_i hmanner
      exact absurd hmanner hoperation
    · rename_i hwindow
      have hnone : scalarStep E db n parts names' = none := by
        unfold scalarStep
        simp [hwindow]
      simp only [hnone]
      have hrest : ∀ p ∈ parts.filter (·.1 != "this"), ∀ m ∈ p.2, Meaning.Steady m := fun p hp =>
        hparts p (List.mem_filter.mp hp).1
      refine ((steady_only hparts "this").operands S names names' hnames).bind (fun w w' hw => ?_) v hv
      refine (Carries.together_map fun m hm =>
        (steady_flat hrest m hm).analytic S names names' hnames).bind fun u u' hu => ?_
      refine .some fun s s' hs => ?_
      have hplace : s.place = s'.place := by
        obtain ⟨-, -, -, -, -, -, hplace, -⟩ := hs
        exact hplace
      rw [hs.each (v := fun t => w t ++ u t) (w := fun t => w' t ++ u' t)
        fun t t' ht => by rw [hw t t' ht, hu t t' ht], hplace]
    · cases hv

theorem carries_keys (width : Nat) (hnames : Names.Below (OnTop S) names names') (keys : List Node)
    (key : String) : Carries (AtSpot S) (sortKeysOf E width names keys (parts.several key))
      (sortKeysOf E width names' keys (parts.several key)) := by
  refine (Carries.together ?_).map _ fun v v' hv s s' hs => by rw [hv s s' hs]
  have hms := steady_several hparts key
  generalize parts.several key = ms at hms
  induction ms generalizing keys with
  | nil => cases keys <;> exact .nil
  | cons m ms ih =>
    cases keys with
    | nil => exact .nil
    | cons k keys =>
      refine .cons ?_ (ih keys fun m' hm' => hms m' (by simp [hm']))
      unfold sortKeyOf
      split
      · exact .some fun s s' hs => by rw [hs.focus.row_eq]
      · exact (hms m (by simp)).analytic S names names' hnames

/-- A node of steady parts is steady. -/
theorem steady_meaningStep (kind : Kind) (args : Args) : (meaningStep E db kind args parts).Steady where
  scalar _ _ _ hnames := carries_scalarStep hparts hnames
  analytic _ _ _ hnames := carries_analyticStep hparts hnames
  operands S names names' hnames := Carries.together_map fun m hm =>
    (steady_flat hparts m hm).analytic S names names' hnames
  keys width _ _ _ hnames := carries_keys hparts width hnames _ _
  tuples _ _ _ hnames := carries_tuplesStep hparts hnames
  rows _ _ _ hnames := carries_rowsStep hparts hnames
  plain names v hv := by
    change analyticStep E db (.mk kind args) parts names = _
    unfold analyticStep
    rw [show scalarStep E db (.mk kind args) parts names = some v from hv]

end

/-- **Every meaning** is steady. -/
theorem steady_meaning (E : Engine) (db : Database) (n : Node) : (n.meaning E db).Steady :=
  fold_induction (fun kind args _ hparts => steady_meaningStep hparts kind args) n

/-- **A query that stands alone** has the same rows wherever it is put. -/
theorem rows_of_alone {db : Database} {q : Node} {v : Focus → List Row}
    (hq : q.rows E db Names.none = some v) (names : Names) :
    ∃ v', q.rows E db names = some v' ∧ ∀ f, v' f = v [] := by
  obtain ⟨v', hv', hsame⟩ := (steady_meaning E db q).rows (fun _ _ => True) Names.none names
    (.of_none _ names) v hq
  exact ⟨v', hv', fun f => (hsame [] f trivial).symm⟩

end Node

end AlgebraSql.Sql
