import AlgebraSql.Proofs.TidyNodes

/-!
# Texts of tidy nodes — every rule leaves a reader where it was.

Rendering fails only where the caller asks for complaints.  The text of a tidy node closes its parentheses and shows
words between or behind queries outside them only if the node is a query, an `ORDER BY` or a limit itself.
-/

namespace AlgebraSql.Render

open Sql

/-- The texts that are made of a node leave a reader where it was if the node is tidy. -/
structure Settles (x : Lexis) (s : Setting) (n : Node) : Prop where
  shows : Yields s.Complains (piece s n).text fun a => Tidy x s n → Shows x n a
  text : Yields s.Complains (piece s n).text fun a =>
    Tidy x s n → Moves x clauseWords (depthOf n.kind) (depthOf n.kind) a
  part : ∀ key, Yields s.Complains ((piece s n).part key) fun a =>
    Tidy x s n → n.kind.quotesTexts = false → Moves x clauseWords (argDepth n.kind key) (argDepth n.kind key) a

section

variable {x : Lexis} {s : Setting} {n : Node} {key : String}

/-! ## Parts -/

theorem mem_of_get?_viewsOf : ∀ {args : Args} {v : View}, (viewsOf s args).get? key = some v →
    (∃ c, (key, .node c) ∈ args ∧ v = .one (piece s c)) ∨ ∃ cs, (key, .nodes cs) ∈ args ∧ v = .many (pieces s cs)
  | [], v, h => by
    rw [viewsOf] at h
    cases h
  | (k, .node c) :: rest, v, h => by
    rw [viewsOf, OrderedMap.get?_cons] at h
    split at h
    · rename_i hk
      cases h
      exact Or.inl ⟨c, by simp [hk], rfl⟩
    · obtain ⟨c, hc, hv⟩ | ⟨cs, hcs, hv⟩ := mem_of_get?_viewsOf h
      · exact Or.inl ⟨c, List.mem_cons_of_mem _ hc, hv⟩
      · exact Or.inr ⟨cs, List.mem_cons_of_mem _ hcs, hv⟩
  | (k, .nodes cs) :: rest, v, h => by
    rw [viewsOf, OrderedMap.get?_cons] at h
    split at h
    · rename_i hk
      cases h
      exact Or.inr ⟨cs, by simp [hk], rfl⟩
    · obtain ⟨c, hc, hv⟩ | ⟨cs, hcs, hv⟩ := mem_of_get?_viewsOf h
      · exact Or.inl ⟨c, List.mem_cons_of_mem _ hc, hv⟩
      · exact Or.inr ⟨cs, List.mem_cons_of_mem _ hcs, hv⟩
  | (k, .text _) :: rest, v, h | (k, .number _) :: rest, v, h | (k, .flag _) :: rest, v, h
  | (k, .missing) :: rest, v, h => by
    rw [viewsOf] at h
    obtain ⟨c, hc, hv⟩ | ⟨cs, hcs, hv⟩ := mem_of_get?_viewsOf h
    · exact Or.inl ⟨c, List.mem_cons_of_mem _ hc, hv⟩
    · exact Or.inr ⟨cs, List.mem_cons_of_mem _ hcs, hv⟩

/-- A single piece is that of a node in the argument. -/
theorem mem_of_one? {p : Piece} (h : (target s n).views.one? key = some p) :
    ∃ c, (key, .node c) ∈ n.args ∧ p = piece s c := by
  unfold Views.one? at h
  split at h
  · rename_i hget
    cases h
    obtain ⟨c, hc, hv⟩ | ⟨cs, -, hv⟩ := mem_of_get?_viewsOf hget
    · cases hv
      exact ⟨c, hc, rfl⟩
    · cases hv
  · cases h

theorem mem_pieces {p : Piece} : ∀ {ns : List Node}, p ∈ pieces s ns → ∃ c ∈ ns, p = piece s c
  | [], h => by cases h
  | n :: ns, h => by
    rcases List.mem_cons.mp h with rfl | hrest
    · exact ⟨n, List.mem_cons_self, rfl⟩
    · obtain ⟨c, hc, hp⟩ := mem_pieces hrest
      exact ⟨c, List.mem_cons_of_mem _ hc, hp⟩

/-- Each of several pieces is that of a node in the argument. -/
theorem mem_of_many {p : Piece} (h : p ∈ (target s n).many key) :
    ∃ cs, (key, .nodes cs) ∈ n.args ∧ ∃ c ∈ cs, p = piece s c := by
  unfold Target.many Views.many at h
  split at h
  · rename_i hget
    obtain ⟨c, -, hv⟩ | ⟨cs, hcs, hv⟩ := mem_of_get?_viewsOf hget
    · cases hv
    · cases hv
      exact ⟨cs, hcs, mem_pieces h⟩
  · cases h

theorem tidyArgs_of_tidy (h : Tidy x s n) : TidyArgs x s n.kind n.args := by
  cases n
  exact h.2

theorem named_of_tidy (h : Tidy x s n) : PlainlyNamed x s n := by
  cases n
  exact h.1

/-- A text among the arguments is plain unless the rule puts it in quotes. -/
theorem plain_textOnly (ht : Tidy x s n) (hquotes : n.kind.quotesTexts = false) (key : String) :
    Plain x (((n.arg? key).map (·.textOnly)).getD "") := by
  cases harg : n.arg? key with
  | none => exact moves_empty
  | some a =>
    cases a with
    | text v =>
      have hget : n.args.get? key = some (.text v) := (Option.filter_eq_some_iff.mp harg).1
      exact (tidyArgs_of_tidy ht).text (Node.mem_of_get? hget) hquotes
    | _ => exact moves_empty

/-- The parts of a node, each of which settles. -/
abbrev PartsSettle (x : Lexis) (s : Setting) (n : Node) : Prop := ∀ c ∈ n.children, Settles x s c

theorem mem_children_of_node {c : Node} (h : (key, .node c) ∈ n.args) : c ∈ n.children :=
  List.mem_flatMap.mpr ⟨_, h, List.mem_singleton.mpr rfl⟩

theorem mem_children_of_nodes {cs : List Node} (h : (key, .nodes cs) ∈ n.args) {c : Node} (hc : c ∈ cs) :
    c ∈ n.children :=
  List.mem_flatMap.mpr ⟨_, h, hc⟩

/-- The text of a single node, nothing if there is none. -/
theorem PartsSettle.one (h : PartsSettle x s n) (key : String) :
    Yields s.Complains (textOf ((target s n).views.one? key)) fun a =>
      Tidy x s n → Moves x clauseWords (argDepth n.kind key) (argDepth n.kind key) a := by
  cases hview : (target s n).views.one? key with
  | none => exact yields_pure fun _ => moves_empty
  | some p =>
    obtain ⟨c, hc, rfl⟩ := mem_of_one? hview
    refine ((h c (mem_children_of_node hc)).text).mono fun a ha ht => ?_
    obtain ⟨htidy, hle⟩ := (tidyArgs_of_tidy ht).node hc
    exact (ha htidy).atLeast hle

/-- The text of an argument: of a single node, or a text itself. -/
theorem PartsSettle.part (h : PartsSettle x s n) (key : String) :
    Yields s.Complains ((target s n).part key) fun a =>
      Tidy x s n → n.kind.quotesTexts = false → Moves x clauseWords (argDepth n.kind key) (argDepth n.kind key) a := by
  unfold Target.part
  cases hview : (target s n).views.one? key with
  | some p =>
    have hone := h.one key
    rw [hview] at hone
    exact hone.mono fun a ha ht _ => ha ht
  | none => exact yields_pure fun ht hquotes => (plain_textOnly ht hquotes key).atLeast (Nat.zero_le _)

/-- The nodes of an argument settle. -/
theorem PartsSettle.mem (h : PartsSettle x s n) {p : Piece} (hp : p ∈ (target s n).many key) :
    ∃ c, p = piece s c ∧ Settles x s c ∧ (Tidy x s n → Tidy x s c ∧ depthOf c.kind ≤ argDepth n.kind key)
      ∧ ∃ cs, (key, .nodes cs) ∈ n.args ∧ c ∈ cs := by
  obtain ⟨cs, hcs, c, hc, rfl⟩ := mem_of_many hp
  exact ⟨c, rfl, h c (mem_children_of_nodes hcs hc), fun ht => (tidyArgs_of_tidy ht).nodes hcs hc, cs, hcs, hc⟩

/-- The texts of several nodes with separators between them. -/
theorem PartsSettle.joined (hx : x.MarksNames) (h : PartsSettle x s n) (key : String) {sep : String}
    (hsep : bridges clauseWords (argDepth n.kind key) (argDepth n.kind key) sep = true) :
    Yields s.Complains (joined ((target s n).many key) sep) fun a =>
      Tidy x s n → Moves x clauseWords (argDepth n.kind key) (argDepth n.kind key) a := by
  have htexts : Yields s.Complains (((target s n).many key).mapM (·.text)) fun as => ∀ a ∈ as, Tidy x s n →
      Moves x clauseWords (argDepth n.kind key) (argDepth n.kind key) a := by
    refine yields_forall fun p hp => ?_
    obtain ⟨c, rfl, hc, htidy, -⟩ := h.mem hp
    exact hc.text.mono fun a ha ht => (ha (htidy ht).1).atLeast (htidy ht).2
  exact htexts.map fun as has ht => moves_intercalate hx hsep fun a ha => has a ha ht

theorem argDepth_of_ordinary {kind : Kind} (h : Ordinary kind) (key : String) : argDepth kind key = 0 := by
  simp [argDepth, h.2]

theorem argDepth_le (kind : Kind) (key : String) : argDepth kind key ≤ 1 := by
  unfold argDepth
  split <;> decide

/-- An argument outside parentheses. -/
theorem PartsSettle.outside (h : PartsSettle x s n) (hquotes : n.kind.quotesTexts = false)
    (hkey : argDepth n.kind key = 0) : Yields s.Complains ((target s n).part key) fun a => Tidy x s n → Plain x a := by
  have hpart := h.part key
  rw [hkey] at hpart
  exact hpart.mono fun a ha ht => ha ht hquotes

/-- An argument inside parentheses. -/
theorem PartsSettle.inside (h : PartsSettle x s n) (hquotes : n.kind.quotesTexts = false) (key : String) :
    Yields s.Complains ((target s n).part key) fun a => Tidy x s n → Moves x clauseWords 1 1 a :=
  (h.part key).mono fun _ ha ht => (ha ht hquotes).atLeast (argDepth_le _ _)

theorem PartsSettle.plain (h : PartsSettle x s n) (hord : Ordinary n.kind) (key : String) :
    Yields s.Complains ((target s n).part key) fun a => Tidy x s n → Plain x a :=
  h.outside hord.1 (argDepth_of_ordinary hord key)

/-- An operand outside parentheses. -/
theorem PartsSettle.plainOne (h : PartsSettle x s n) (hord : Ordinary n.kind) (key : String) :
    Yields s.Complains (textOf ((target s n).views.one? key)) fun a => Tidy x s n → Plain x a := by
  have hone := h.one key
  rwa [argDepth_of_ordinary hord] at hone

/-- A single node that may be missing, with words before it if it is not. -/
theorem PartsSettle.optional (h : PartsSettle x s n) (key : String) :
    Yields s.Complains (((target s n).views.one? key).mapM (·.text)) fun o => Tidy x s n →
      ∀ a ∈ o, Moves x clauseWords (argDepth n.kind key) (argDepth n.kind key) a := by
  have hone := h.one key
  cases hview : (target s n).views.one? key with
  | none => exact yields_pure (by simp)
  | some p =>
    rw [hview] at hone
    rw [Option.mapM_some]
    exact Yields.map hone fun a ha ht => by simpa using ha ht

theorem bridges_comma (d : Nat) : bridges clauseWords d d ", " = true := by
  have hdepth : literalDepth clauseWords d ", " = some d := rfl
  have hstarts : startsApart ", " = true := by decide
  have hends : endsApart ", " = true := by decide
  simp [bridges, hdepth, hstarts, hends]

/-- A list inside parentheses. -/
theorem PartsSettle.listInside (hx : x.MarksNames) (h : PartsSettle x s n) (key : String) :
    Yields s.Complains (Render.joined ((target s n).many key)) fun a => Tidy x s n → Moves x clauseWords 1 1 a :=
  (h.joined hx key (bridges_comma _)).mono fun _ ha ht => (ha ht).atLeast (argDepth_le _ _)

/-- A list outside parentheses. -/
theorem PartsSettle.plainList (hx : x.MarksNames) (h : PartsSettle x s n) (hord : Ordinary n.kind) (key : String)
    {sep : String} (hsep : bridges clauseWords 0 0 sep = true) :
    Yields s.Complains (Render.joined ((target s n).many key) sep) fun a => Tidy x s n → Plain x a := by
  have hdepth := argDepth_of_ordinary hord key
  rw [← hdepth] at hsep
  have hjoined := h.joined hx key hsep
  rwa [hdepth] at hjoined

/-! ## Repetitions -/

theorem plain_quantifierText (hx : x.MarksNames) {min max : Option Arg} (hmin : Plain x (Target.countText min))
    (hmax : Plain x (Target.countText max)) : Plain x (Target.quantifierText min max) := by
  have hcount : Plain x ("\x7b" ++ Target.countText min) := hmin.lead hx (by decide)
  unfold Target.quantifierText
  split
  · exact moves_literal hx (by decide)
  split
  · exact moves_literal hx (by decide)
  split
  · exact moves_literal hx (by decide)
  split
  · exact hcount.trail hx (by decide)
  split
  · exact hcount.trail hx (by decide)
  · exact (hcount.bridge hx (by decide) hmax).trail hx (by decide)

/-- The sign of a repetition begins no word. -/
theorem startsApart_quantifierText (min max : Option Arg) : startsApart (Target.quantifierText min max) = true := by
  have hbrace : ∀ a b : String, startsApart ("\x7b" ++ a ++ b) = true := fun a b =>
    startsApart_append (startsApart_append (by decide) a) b
  unfold Target.quantifierText
  split
  · decide
  split
  · decide
  split
  · decide
  split
  · exact hbrace _ _
  split
  · exact hbrace _ _
  · exact startsApart_append (startsApart_append (hbrace _ _) _) _

/-! ## Names and constants -/

theorem yields_branchText (hx : x.MarksNames) {branch : Node} (hbranch : Settles x s branch) (hk : branch.kind = .branch) :
    Yields s.Complains (Target.branchText (piece s branch)) fun a => Tidy x s branch → Plain x a := by
  have hpart : ∀ key, Yields s.Complains ((piece s branch).part key) fun a => Tidy x s branch → Plain x a := by
    intro key
    refine (hbranch.part key).mono fun a ha ht => ?_
    have hdepth : argDepth branch.kind key = 0 := argDepth_of_ordinary (hk ▸ ⟨rfl, rfl⟩) key
    have hmoves := ha ht (by rw [hk]; rfl)
    rwa [hdepth] at hmoves
  refine (hpart "this").bind fun condition hc => ?_
  exact (hpart "true").map fun value hv ht => ((hc ht).lead hx (by decide)).bridge hx (by decide) (hv ht)

theorem yields_aliasSuffix (hx : x.MarksNames) (h : PartsSettle x s n) (hquotes : n.kind.quotesTexts = false)
    (hkey : argDepth n.kind "alias" = 0) {a : String} (ha : Tidy x s n → Plain x a) :
    Yields s.Complains (target s n).aliasSuffix fun b => Tidy x s n → Plain x (a ++ b) :=
  (h.outside hquotes hkey).map fun _ hname ht => (ha ht).preceded hx (by decide) (hname ht)

section rules

variable (hx : x.MarksNames) (h : PartsSettle x s n) (hord : Ordinary n.kind)

include hx h hord

theorem yields_columnText : Yields s.Complains (target s n).columnText fun a => Tidy x s n → Plain x a := by
  refine (h.plain hord "table").bind fun table htable => ?_
  refine (h.plain hord "this").bind fun name hname => yields_pure fun ht => ?_
  show Plain x (if table == "" then name else table ++ "." ++ name)
  split
  · exact hname ht
  · exact (htable ht).bridge hx (by decide) (hname ht)

theorem yields_tableText : Yields s.Complains (target s n).tableText fun a => Tidy x s n → Plain x a := by
  have hparts : Yields s.Complains (["catalog", "db", "this"].mapM (target s n).part) fun as =>
      ∀ a ∈ as, Tidy x s n → Plain x a := yields_forall fun key _ => h.plain hord key
  refine hparts.bind fun parts hall => ?_
  refine (yields_aliasSuffix hx h hord.1 (argDepth_of_ordinary hord _) fun ht => ?_).map fun suffix hsuffix => hsuffix
  exact moves_intercalate hx (by decide) fun a ha => hall a (List.mem_of_mem_filter ha) ht

theorem yields_tableAliasText : Yields s.Complains (target s n).tableAliasText fun a => Tidy x s n → Plain x a := by
  refine (h.plain hord "this").bind fun name hname => ?_
  show Yields _ (if ((target s n).many "columns").isEmpty then pure name else _) _
  split
  · exact yields_pure hname
  · exact (h.listInside hx "columns").map fun cols hcols ht =>
      ((hname ht).bridge hx (by decide) (hcols ht)).trail hx (by decide)

theorem yields_intervalText : Yields s.Complains (target s n).intervalText fun a => Tidy x s n → Plain x a := by
  have hrest : ∀ quantity, (Tidy x s n → Plain x quantity) →
      Yields s.Complains (do
        let unit ← (target s n).part "unit"
        pure ("INTERVAL " ++ (if (target s n).node.flag "negative" then "-" else "") ++ quantity ++ " " ++ unit))
      fun a => Tidy x s n → Plain x a := by
    intro quantity hq
    refine (h.plain hord "unit").map fun unit hunit ht => ?_
    have hquantity : Plain x ("INTERVAL " ++ (if (target s n).node.flag "negative" then "-" else "") ++ quantity) := by
      split <;> exact (hq ht).lead hx (by decide)
    exact hquantity.bridge hx (by decide) (hunit ht)
  unfold Target.intervalText
  cases hdigits : (target s n).plainQuantity? with
  | some digits =>
    have hall : digits.toList.all Char.isDigit = true := by
      unfold Target.plainQuantity? at hdigits
      split at hdigits
      · dsimp only at hdigits
        split at hdigits
        · rename_i hif
          cases hdigits
          exact (Bool.and_eq_true_iff.mp hif).2
        · cases hdigits
      · cases hdigits
    have hquantity : Yields s.Complains (pure digits) fun a => Tidy x s n → Plain x a :=
      yields_pure fun _ => moves_digits hx hall
    exact hquantity.bind hrest
  | none => exact (h.plain hord "this").bind hrest

/-! ## Operations -/

theorem yields_binaryText {op : String} (hop : literalDepth clauseWords 0 op = some 0) :
    Yields s.Complains ((target s n).binaryText op) fun a => Tidy x s n → Plain x a := by
  refine (h.plainOne hord "this").bind fun left hl => ?_
  refine (h.plainOne hord "expression").map fun right hr ht => ?_
  exact (((hl ht).parenthesized hx _).bridge hx (by decide) (moves_literal hx hop)).bridge hx (by decide)
    ((hr ht).parenthesized hx _)

theorem yields_operand (key : String) (minimum : Strength) :
    Yields s.Complains ((target s n).operand key minimum) fun a => Tidy x s n → Plain x a :=
  (h.plainOne hord key).map fun _ ha ht => (ha ht).parenthesized hx _

theorem yields_likeText {op : String} (hop : literalDepth clauseWords 0 op = some 0)
    (hnot : literalDepth clauseWords 0 ("NOT " ++ op) = some 0) :
    Yields s.Complains ((target s n).likeText op) fun a => Tidy x s n → Plain x a := by
  have hdenied : literalDepth clauseWords 0 ((target s n).denied op) = some 0 := by
    unfold Target.denied
    split
    · exact hnot
    · exact hop
  refine (yields_binaryText hx h hord hdenied).bind fun text htext => ?_
  exact (h.plain hord "escape").map fun escape hescape ht => (htext ht).preceded hx (by decide) (hescape ht)

theorem yields_isText : Yields s.Complains (target s n).isText fun a => Tidy x s n → Plain x a := by
  refine (yields_operand hx h hord "this" .concat).bind fun left hl => ?_
  refine (h.plainOne hord "expression").map fun right hr ht => ?_
  have hop : Plain x (if (target s n).node.flag "negated" then "IS NOT" else "IS") := by
    split <;> exact moves_literal hx (by decide)
  exact ((hl ht).bridge hx (by decide) hop).bridge hx (by decide) (hr ht)

theorem yields_inText : Yields s.Complains (target s n).inText fun a => Tidy x s n → Plain x a := by
  have hop : Plain x ((target s n).denied "IN") := by
    unfold Target.denied
    split <;> exact moves_literal hx (by decide)
  have hall : ∀ {left values : String}, (Tidy x s n → Plain x left) → (Tidy x s n → Plain x values) →
      Yields s.Complains (pure (left ++ " " ++ (target s n).denied "IN" ++ " " ++ values)) fun a =>
        Tidy x s n → Plain x a := fun hl hv =>
    yields_pure fun ht => ((hl ht).bridge hx (by decide) hop).bridge hx (by decide) (hv ht)
  refine (yields_operand hx h hord "this" .concat).bind fun left hl => ?_
  have hquery := h.plainOne hord "query"
  dsimp only
  split
  · rename_i query hview
    rw [hview] at hquery
    exact hquery.bind fun values hv => hall hl hv
  · refine (h.listInside hx "expressions").bind fun items hitems => ?_
    exact hall hl fun ht => ((hitems ht).lead hx (by decide)).trail hx (by decide)

theorem yields_caseText : Yields s.Complains (target s n).caseText fun a => Tidy x s n → Plain x a := by
  have hbranches : Yields s.Complains
      ((((target s n).many "ifs").filter (·.node.is .branch)).mapM Target.branchText) fun as =>
      ∀ a ∈ as, Tidy x s n → Plain x a := by
    refine yields_forall fun p hp => ?_
    obtain ⟨hmem, hbranch⟩ := List.mem_filter.mp hp
    obtain ⟨c, rfl, hc, htidy, -⟩ := h.mem hmem
    rw [piece_node, Node.is_eq_true_iff] at hbranch
    exact (yields_branchText hx hc hbranch).mono fun a ha ht => ha (htidy ht).1
  refine (h.optional "this").bind fun subject hs => hbranches.bind fun branches hb => ?_
  refine (h.optional "default").map fun fallback hf ht => ?_
  refine moves_intercalate hx (by decide) fun a ha => ?_
  have hs := hs ht
  have hf := hf ht
  rw [argDepth_of_ordinary hord] at hs hf
  simp only [List.mem_append, List.mem_singleton, Option.mem_toList] at ha
  rcases ha with (((rfl | ha) | ha) | ha) | rfl
  · exact moves_literal hx (by decide)
  · exact hs a ha
  · exact hb a ha ht
  · obtain ⟨b, hb, rfl⟩ := Option.map_eq_some_iff.mp ha
    exact (hf b hb).lead hx (by decide)
  · exact moves_literal hx (by decide)

theorem yields_castText : Yields s.Complains (target s n).castText fun a => Tidy x s n → Plain x a := by
  refine (h.inside hord.1 "this").bind fun value hv => ?_
  exact (h.inside hord.1 "to").map fun type htype ht =>
    (((hv ht).lead hx (by decide)).bridge hx (by decide) (htype ht)).trail hx (by decide)

end rules

/-! ## Calls -/

section rules

variable (hx : x.MarksNames) (h : PartsSettle x s n)

include hx h

theorem yields_dataTypeText (hk : n.kind = .dataType) :
    Yields s.Complains (target s n).dataTypeText fun a => Tidy x s n → Plain x a := by
  have hname : Tidy x s n → Plain x ((s.style.typeNames.get? n.name).getD n.name) := fun ht => by
    have hnamed := named_of_tidy ht
    rwa [PlainlyNamed, hk] at hnamed
  show Yields _ (if ((target s n).many "expressions").isEmpty then pure _ else _) _
  split
  · exact yields_pure hname
  · exact (h.listInside hx "expressions").map fun args hargs ht =>
      ((hname ht).bridge hx (by decide) (hargs ht)).trail hx (by decide)

theorem yields_callText {name : String} (hname : Tidy x s n → Plain x name) (distinct : Bool) :
    Yields s.Complains ((target s n).callText name distinct) fun a => Tidy x s n → Plain x a := by
  refine (h.listInside hx "expressions").map fun args hargs ht => ?_
  have hopened : Moves x clauseWords 0 1 (name ++ "(" ++ (if distinct then "DISTINCT " else "") ++ args) := by
    split
    · have hlead := (hargs ht).lead hx (g := "DISTINCT ") (d := 1) (by decide)
      have hbridge := (hname ht).bridge hx (g := "(") (by decide) hlead
      rwa [← String.append_assoc] at hbridge
    · rw [String.append_empty]
      exact (hname ht).bridge hx (by decide) (hargs ht)
  exact hopened.trail hx (by decide)

/-- A kind without a rule is written as a call of its name. -/
theorem yields_fallbackText (hkey : literalDepth clauseWords 0 n.kind.key.toUpper = some 0) :
    Yields s.Complains (target s n).fallbackText fun a => Tidy x s n → Plain x a :=
  (yields_notify _).bind fun _ _ => yields_callText hx h (fun _ => moves_literal hx hkey) false

/-- The same inside parentheses, where the name may be any word. -/
theorem yields_fallbackInside (hkey : literalDepth clauseWords 1 n.kind.key.toUpper = some 1) :
    Yields s.Complains (target s n).fallbackText fun a => Tidy x s n → Moves x clauseWords 1 1 a := by
  refine (yields_notify _).bind fun _ _ => ?_
  refine (h.listInside hx "expressions").map fun args hargs ht => ?_
  have hopened : Moves x clauseWords 1 2 (n.kind.key.toUpper ++ "(" ++ args) :=
    (moves_literal hx hkey).bridge hx (by decide) ((hargs ht).add 1)
  rw [if_neg Bool.false_ne_true, String.append_empty]
  exact hopened.trail hx (by decide)

/-- `before(…) AS alias` -/
theorem yields_enclosedText (hquotes : n.kind.quotesTexts = false) (hkey : argDepth n.kind "alias" = 0) {before : String}
    (hbefore : leads clauseWords 0 1 (before ++ "(") = true) :
    Yields s.Complains ((target s n).enclosedText before) fun a => Tidy x s n → Plain x a := by
  refine (h.inside hquotes "this").bind fun inner hinner => ?_
  refine Yields.map (yields_aliasSuffix hx h hquotes hkey fun ht => ?_) fun suffix hsuffix => hsuffix
  exact ((hinner ht).lead hx hbefore).trail hx (by decide)

/-! ## Windows -/

theorem yields_partitionText : Yields s.Complains (target s n).partitionText fun a =>
    Tidy x s n → Moves x clauseWords 1 1 a := by
  show Yields _ (if ((target s n).many "partition_by").isEmpty then pure "" else _) _
  split
  · exact yields_pure fun _ => moves_empty
  · exact (h.listInside hx "partition_by").map fun keys hkeys ht => (hkeys ht).lead hx (by decide)

theorem yields_windowText (hk : n.kind = .window) :
    Yields s.Complains (target s n).windowText fun a => Tidy x s n → Plain x a := by
  have hquotes : n.kind.quotesTexts = false := by rw [hk]; rfl
  refine (h.outside hquotes (show argDepth n.kind "this" = 0 by rw [hk]; decide)).bind fun call hcall => ?_
  refine (yields_partitionText hx h).bind fun partition hpartition => ?_
  refine (h.optional "order").bind fun order horder => ?_
  refine (h.optional "spec").map fun spec hspec ht => ?_
  have hinner : Moves x clauseWords 1 1 (" ".intercalate
      ((if ((target s n).many "partition_by").isEmpty then [] else [partition]) ++ order.toList ++ spec.toList)) := by
    refine moves_intercalate hx (by decide) fun a ha => ?_
    simp only [List.mem_append, Option.mem_toList] at ha
    rcases ha with (ha | ha) | ha
    · split at ha
      · cases ha
      · rw [List.mem_singleton.mp ha]
        exact hpartition ht
    · exact (horder ht a ha).atLeast (argDepth_le _ _)
    · exact (hspec ht a ha).atLeast (argDepth_le _ _)
  exact ((hcall ht).bridge hx (by decide) hinner).trail hx (by decide)

theorem yields_suffixedText (hquotes : n.kind.quotesTexts = false) (hkey : argDepth n.kind "this" = 0) {word : String}
    (hword : literalDepth clauseWords 0 word = some 0) :
    Yields s.Complains ((target s n).suffixedText word) fun a => Tidy x s n → Plain x a := by
  refine (h.outside hquotes hkey).bind fun call hcall => ?_
  refine (h.inside hquotes "expression").map fun inner hinner ht => ?_
  have hcalled := (hcall ht).bridge hx (g := " ") (by decide) (moves_literal hx hword)
  exact (hcalled.bridge hx (by decide) (hinner ht)).trail hx (by decide)

end rules

section rules

variable (hx : x.MarksNames) (h : PartsSettle x s n) (hord : Ordinary n.kind)

include hx h hord

theorem yields_boundText (key side : String) :
    Yields s.Complains ((target s n).boundText key side) fun a => Tidy x s n → Plain x a := by
  have hside : Tidy x s n → Plain x (((n.arg? side).map (·.textOnly)).getD "") := fun ht =>
    plain_textOnly ht hord.1 side
  unfold Target.boundText
  split
  · exact yields_pure fun _ => moves_literal hx (by decide)
  · exact yields_pure fun ht => (hside ht).lead hx (by decide)
  · exact (h.plainOne hord key).map fun bound hbound ht => (hbound ht).bridge hx (by decide) (hside ht)
  · exact yields_pure fun _ => moves_empty

theorem yields_frameText : Yields s.Complains (target s n).frameText fun a => Tidy x s n → Plain x a := by
  refine (h.plain hord "kind").bind fun kind hkind => ?_
  have hkind : Tidy x s n → Plain x (if kind == "" then "ROWS" else kind) := fun ht => by
    split
    · exact moves_literal hx (by decide)
    · exact hkind ht
  refine (yields_boundText hx h hord "start" "start_side").bind fun start hstart => ?_
  show Yields _ (if ((target s n).node.arg? "end").isNone then pure _ else _) _
  split
  · exact yields_pure fun ht => (hkind ht).bridge hx (by decide) (hstart ht)
  · exact (yields_boundText hx h hord "end" "end_side").map fun stop hstop ht =>
      ((hkind ht).bridge hx (by decide) (hstart ht)).bridge hx (by decide) (hstop ht)

/-! ## Clauses -/

theorem yields_clauseText {word : String} (hword : literalDepth clauseWords 0 word = some 0) :
    Yields s.Complains ((target s n).clauseText word) fun a => Tidy x s n → Plain x a :=
  (h.plain hord "this").map fun _ ha ht => (moves_literal hx hword).bridge hx (by decide) (ha ht)

theorem yields_groupText : Yields s.Complains (target s n).groupText fun a => Tidy x s n → Plain x a := by
  show Yields _ (if ((target s n).many "expressions").isEmpty then pure _ else _) _
  split
  · exact yields_pure fun _ => moves_literal hx (by decide)
  · exact (h.plainList hx hord "expressions" (by decide)).map fun keys hkeys ht => (hkeys ht).lead hx (by decide)

theorem yields_orderedText : Yields s.Complains (target s n).orderedText fun a => Tidy x s n → Plain x a := by
  refine (h.plain hord "this").bind fun key hkey => ?_
  have hkey : Tidy x s n → Plain x (if (target s n).node.flag "desc" then key ++ " DESC" else key) := fun ht => by
    split
    · exact (hkey ht).trail hx (by decide)
    · exact hkey ht
  dsimp only
  split
  · exact yields_pure hkey
  · rename_i first _
    split
    · have hplacement : Plain x (if first then "NULLS FIRST" else "NULLS LAST") := by
        split <;> exact moves_literal hx (by decide)
      exact yields_pure fun ht => (hkey ht).bridge hx (by decide) hplacement
    · exact (yields_unsupported s _).bind fun _ _ => yields_pure hkey

/-! ## FROM items -/

theorem yields_joinText (hk : n.kind = .join) :
    Yields s.Complains (target s n).joinText fun a => Tidy x s n → Plain x a := by
  have hkind : Tidy x s n → Plain x (n.text "kind") := fun ht => by
    have hnamed := named_of_tidy ht
    rwa [PlainlyNamed, hk] at hnamed
  refine (h.plain hord "this").bind fun left hl => ?_
  refine (h.plainOne hord "expression").bind fun right hr => ?_
  have hr : Tidy x s n → Plain x (parenthesized (((target s n).node.child? "expression").any (·.is .join)) right) :=
    fun ht => (hr ht).parenthesized hx _
  show Yields _ (if (target s n).node.text "kind" == "COMMA" then pure _ else _) _
  split
  · exact yields_pure fun ht => (hl ht).bridge hx (by decide) (hr ht)
  · refine (h.plain hord "on").map fun on hon ht => ?_
    have hjoin := (((hl ht).bridge hx (g := " ") (by decide) (hkind ht)).bridge hx (g := " JOIN ") (by decide) (hr ht))
    exact hjoin.preceded hx (by decide) (hon ht)

theorem yields_valuesText : Yields s.Complains (target s n).valuesText fun a => Tidy x s n → Plain x a := by
  refine (h.plainList hx hord "expressions" (by decide)).bind fun rows hrows => ?_
  refine (h.plain hord "alias").map fun name hname ht => ?_
  have hvalues : Plain x ("VALUES " ++ rows) := (hrows ht).lead hx (by decide)
  split
  · exact hvalues
  · have hinner : Moves x clauseWords 1 1 ("VALUES " ++ rows) := hvalues.atLeast (by decide)
    exact (hinner.lead hx (by decide)).bridge hx (by decide) (hname ht)

/-! ## Row patterns -/

theorem yields_patternConcatText :
    Yields s.Complains (target s n).patternConcatText fun a => Tidy x s n → Plain x a := by
  -- an alternation is put in parentheses, which changes nothing for a plain text
  have htexts : Yields s.Complains (((target s n).many "expressions").mapM fun p => do
      return parenthesized (p.node.is .patternAlternation) (← p.text)) fun as =>
        ∀ a ∈ as, Tidy x s n → Plain x a := by
    refine yields_forall fun p hp => ?_
    obtain ⟨c, rfl, hc, htidy, -⟩ := h.mem hp
    refine hc.text.map fun a ha ht => ?_
    obtain ⟨htidy, hle⟩ := htidy ht
    rw [argDepth_of_ordinary hord] at hle
    exact ((ha htidy).atLeast hle).parenthesized hx _
  exact htexts.map fun texts hall ht => moves_intercalate hx (by decide) fun a ha => hall a ha ht

theorem yields_patternQuantifierText (hk : n.kind = .patternQuantifier) :
    Yields s.Complains (target s n).patternQuantifierText fun a => Tidy x s n → Plain x a := by
  refine (h.plainOne hord "this").map fun text htext ht => ?_
  obtain ⟨hmin, hmax⟩ : Plain x (Target.countText (n.arg? "min")) ∧ Plain x (Target.countText (n.arg? "max")) := by
    have hnamed := named_of_tidy ht
    rwa [PlainlyNamed, hk] at hnamed
  have hsign := plain_quantifierText hx hmin hmax
  have hstarts := startsApart_quantifierText (n.arg? "min") (n.arg? "max")
  split
  · exact (((htext ht).parenthesized hx _).append hsign hstarts).trail hx (by decide)
  · rw [String.append_empty]
    exact ((htext ht).parenthesized hx _).append hsign hstarts

end rules

end

end AlgebraSql.Render
