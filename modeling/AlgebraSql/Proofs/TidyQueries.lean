import AlgebraSql.Proofs.TidyTexts

/-!
# Texts of tidy queries — clauses, set operations and all other kinds.

A query shows its own clauses outside parentheses: what sorts and limits its rows stands at the end of its text.  With
the rules for queries every kind has been looked at, so the texts of all nodes leave a reader where it was.
-/

namespace AlgebraSql.Render

open Sql

section

variable {x : Lexis} {s : Setting} {n : Node} {a : String}

/-! ## Row patterns -/

/-- A text of a list stands somewhere in the joined text. -/
theorem exists_intercalate (sep : String) {texts : List String} (h : a ∈ texts) :
    ∃ before after, sep.intercalate texts = before ++ a ++ after := by
  obtain ⟨as, bs, rfl⟩ := List.append_of_mem h
  have htail : ∃ after, sep.intercalate (a :: bs) = a ++ after := by
    cases bs with
    | nil => exact ⟨"", by simp⟩
    | cons b bs => exact ⟨sep ++ sep.intercalate (b :: bs), by simp [String.append_assoc]⟩
  obtain ⟨after, hafter⟩ := htail
  by_cases has : as = []
  · exact ⟨"", after, by simp [has, hafter]⟩
  · refine ⟨sep.intercalate as ++ sep, after, ?_⟩
    rw [String.intercalate_append_of_ne_nil has (List.cons_ne_nil _ _), hafter, String.append_assoc, String.append_assoc,
      String.append_assoc]

theorem eq_of_mem_unless {b : Prop} [Decidable b] {text : String} (h : a ∈ if b then [] else [text]) : a = text := by
  split at h
  · cases h
  · exact List.mem_singleton.mp h

/-- A pattern with or without its anchors. -/
theorem moves_anchored (hx : x.MarksNames) {pattern : String} (h : Moves x clauseWords 1 1 pattern) (start stop : Bool) :
    Moves x clauseWords 1 1
      ("PATTERN (" ++ (if start then "^" else "") ++ pattern ++ (if stop then "$" else "") ++ ")") := by
  have hpattern : Moves x clauseWords 1 2 ("PATTERN (" ++ (if start then "^" else "") ++ pattern) := by
    cases start <;> exact (h.add 1).lead hx (by decide)
  have hanchored : Moves x clauseWords 1 2
      ("PATTERN (" ++ (if start then "^" else "") ++ pattern ++ (if stop then "$" else "")) := by
    cases stop with
    | false => exact (String.append_empty (s := _)).symm ▸ hpattern
    | true => exact hpattern.trail hx (by decide)
  exact hanchored.trail hx (by decide)

section rules

variable (hx : x.MarksNames) (h : PartsSettle x s n)

include hx h

/-- `name WORD this` for each of several parts. -/
theorem yields_namedFirst {key word : String} (hword : bridges clauseWords 1 1 word = true)
    (hkinds : Tidy x s n → ∀ p ∈ n.args, p.1 = key → ∀ c ∈ p.2.children, Ordinary c.kind) :
    Yields s.Complains (((target s n).many key).mapM (Target.namedFirst word)) fun as =>
      ∀ a ∈ as, Tidy x s n → Moves x clauseWords 1 1 a := by
  refine yields_forall fun p hp => ?_
  obtain ⟨c, rfl, hc, htidy, cs, hcs, hmem⟩ := h.mem hp
  have hpart : ∀ key, Yields s.Complains ((piece s c).part key) fun a => Tidy x s n → Moves x clauseWords 1 1 a :=
    fun key => (hc.part key).mono fun a ha ht =>
      (ha (htidy ht).1 (hkinds ht _ hcs rfl c hmem).1).atLeast (argDepth_le _ _)
  refine (hpart "alias").bind fun name hname => ?_
  exact (hpart "this").map fun item hitem ht => (hname ht).bridge hx hword (hitem ht)

theorem yields_matchText (hk : n.kind = .matchRecognize) {p : String → Prop}
    (hp : Yields s.Complains ((target s n).part "pattern") p) :
    Yields s.Complains (target s n).matchText fun a => (Tidy x s n → Plain x a)
      ∧ ∃ pattern before after, p pattern ∧ a = before
        ++ ("PATTERN (" ++ (if n.flag "strict_start" then "^" else "") ++ pattern
          ++ (if n.flag "strict_end" then "$" else "") ++ ")") ++ after := by
  have hquotes : n.kind.quotesTexts = false := by rw [hk]; rfl
  have hordinary : Tidy x s n → OrdinaryUnder n ["subsets", "define"] := fun ht => by
    have hnamed := named_of_tidy ht
    rwa [PlainlyNamed, hk] at hnamed
  refine (yields_partitionText hx h).bind fun partition hpartition => ?_
  refine (h.optional "order").bind fun order horder => ?_
  refine (h.listInside hx "measures").bind fun measures hmeasures => ?_
  refine (h.inside hquotes "rows").bind fun rows hrows => ?_
  refine (h.inside hquotes "after").bind fun after hafter => ?_
  have hsymbol : Yields s.Complains (if after == "" then pure "" else (target s n).part "after_variable") fun a =>
      Tidy x s n → Moves x clauseWords 1 1 a := by
    split
    · exact yields_pure fun _ => moves_empty
    · exact h.inside hquotes "after_variable"
  refine Yields.bind_ite hsymbol fun symbol hsymbol => ?_
  have hpattern : Yields s.Complains ((target s n).part "pattern") fun a =>
      p a ∧ (Tidy x s n → Moves x clauseWords 1 1 a) := hp.and (h.inside hquotes "pattern")
  refine hpattern.bind fun pattern hpattern => ?_
  refine (h.inside hquotes "within").bind fun within hwithin => ?_
  refine (yields_namedFirst hx h (by decide) fun ht p hp hkey =>
    hordinary ht p hp (by simp [hkey])).bind fun subsets hsubsets => ?_
  refine (yields_namedFirst hx h (by decide) fun ht p hp hkey =>
    hordinary ht p hp (by simp [hkey])).bind fun define hdefine => ?_
  refine (h.outside hquotes (by rw [hk]; decide)).bind fun input hinput => ?_
  have halias : argDepth n.kind "alias" = 0 := by rw [hk]; decide
  refine Yields.map (yields_aliasSuffix hx h hquotes halias fun ht => ?_) fun suffix hsuffix =>
    ⟨hsuffix, pattern, ?_⟩
  · -- the clauses stand between the parentheses, one depth below the text
    refine ((hinput ht).bridge hx (by decide) (moves_intercalate hx (d := 1) (by decide) fun c hc => ?_)).trail hx
      (by decide)
    simp only [List.mem_append, List.mem_singleton, Option.mem_toList] at hc
    rcases hc with (((((((hc | hc) | hc) | hc) | hc) | rfl) | hc) | hc) | rfl
    · rw [eq_of_mem_unless hc]
      exact hpartition ht
    · exact (horder ht c hc).atLeast (argDepth_le _ _)
    · rw [eq_of_mem_unless hc]
      exact (hmeasures ht).lead hx (by decide)
    · rw [eq_of_mem_unless hc]
      exact hrows ht
    · rw [eq_of_mem_unless hc]
      exact ((hafter ht).lead hx (by decide)).preceded hx (by decide) (hsymbol ht)
    · exact moves_anchored hx (hpattern.2 ht) _ _
    · rw [eq_of_mem_unless hc]
      exact (hwithin ht).lead hx (by decide)
    · rw [eq_of_mem_unless hc]
      exact (moves_intercalate hx (bridges_comma 1) fun a ha => hsubsets a ha ht).lead hx (by decide)
    · exact (moves_intercalate hx (bridges_comma 1) fun a ha => hdefine a ha ht).lead hx (by decide)
  · -- the pattern is one of the texts that are joined
    have hmem : ∀ {as bs cs ds : List String} {text : String}, text ∈ as ++ [text] ++ bs ++ cs ++ ds := by simp
    obtain ⟨before, after, hall⟩ := exists_intercalate " " hmem
    rw [hall]
    refine ⟨input ++ " MATCH_RECOGNIZE (" ++ before, after ++ ")" ++ suffix, hpattern.1, ?_⟩
    simp only [String.append_assoc]
    rfl

end rules

/-! ## Queries -/

/-- A clause that sorts or limits rows. -/
abbrev RowClause (x : Lexis) (a : String) : Prop := Moves x setWords 0 0 a ∧ SortsRows a

theorem rowClause_empty : RowClause x "" := ⟨moves_empty, Or.inl rfl⟩

/-- An amount of rows behind its word. -/
theorem rowClause_preceded (hx : x.MarksNames) (word : String) (hword : word ∈ rowWords)
    (hlead : leads setWords 0 0 (word ++ " ") = true) (h : Plain x a) : RowClause x (preceded (word ++ " ") a) := by
  unfold preceded
  split
  · exact rowClause_empty
  · exact ⟨(h.subset (List.subset_append_left _ _)).lead hx hlead, Or.inr ⟨word, hword, a, rfl⟩⟩

/-- The same with words behind the amount. -/
theorem rowClause_framed (hx : x.MarksNames) (word : String) {before after : String} (hword : word ∈ rowWords)
    (hbegins : ∃ rest, before = word ++ " " ++ rest) (hlead : leads setWords 0 0 before = true)
    (htrail : trails setWords 0 0 after = true) (h : Plain x a) :
    RowClause x (if a == "" then "" else before ++ a ++ after) := by
  split
  · exact rowClause_empty
  · refine ⟨((h.subset (List.subset_append_left _ _)).lead hx hlead).trail hx htrail, Or.inr ⟨word, hword, ?_⟩⟩
    obtain ⟨rest, rfl⟩ := hbegins
    exact ⟨rest ++ a ++ after, by simp [String.append_assoc]⟩

theorem spaced_append {as bs : List String} (h : ∃ a ∈ as, a ≠ "") :
    spaced (as ++ bs) = spaced as ++ preceded " " (spaced bs) := by
  have hne : as.filter (· != "") ≠ [] := by
    obtain ⟨a, ha, hempty⟩ := h
    exact List.ne_nil_of_mem (List.mem_filter.mpr ⟨ha, by simpa using hempty⟩)
  unfold spaced preceded
  rw [List.filter_append]
  by_cases hbs : bs.filter (· != "") = []
  · simp [hbs]
  · have htext : " ".intercalate (bs.filter (· != "")) ≠ "" := by
      obtain ⟨b, rest, hcons⟩ := List.exists_cons_of_ne_nil hbs
      have hb : b ≠ "" := by
        have hmem : b ∈ bs.filter (· != "") := by simp [hcons]
        simpa using (List.mem_filter.mp hmem).2
      rw [hcons]
      cases rest <;> simp [hb]
    rw [String.intercalate_append_of_ne_nil hne hbs, if_neg (by simpa using htext), String.append_assoc]

theorem moves_spaced (hx : x.MarksNames) {words : List String} {texts : List String}
    (h : ∀ t ∈ texts, Moves x words 0 0 t) : Moves x words 0 0 (spaced texts) := by
  have hblank : bridges words 0 0 " " = true := by
    have hdepth : literalDepth words 0 " " = some 0 := rfl
    have hstarts : startsApart " " = true := by decide
    have hends : endsApart " " = true := by decide
    simp [bridges, hdepth, hstarts, hends]
  exact moves_intercalate hx hblank fun t ht => h t (List.mem_filter.mp ht).1

/-- Clauses that sort or limit rows follow each other. -/
theorem rowClause_spaced (hx : x.MarksNames) {texts : List String} (h : ∀ t ∈ texts, RowClause x t) :
    RowClause x (spaced texts) := by
  refine ⟨moves_spaced hx fun t ht => (h t ht).1, ?_⟩
  unfold spaced
  cases hfilter : texts.filter (· != "") with
  | nil => exact Or.inl rfl
  | cons t rest =>
    have hmem : t ∈ texts.filter (· != "") := by simp [hfilter]
    obtain ⟨ht, hne⟩ := List.mem_filter.mp hmem
    obtain ⟨word, hword, after, rfl⟩ := (h t ht).2.resolve_left (by simpa using hne)
    right
    cases rest with
    | nil => exact ⟨word, hword, after, by simp⟩
    | cons u rest => exact ⟨word, hword, after ++ " " ++ " ".intercalate (u :: rest), by simp [String.append_assoc]⟩

theorem spaced_eq_empty {texts : List String} (h : ∀ t ∈ texts, t = "") : spaced texts = "" := by
  have hnone : texts.filter (· != "") = [] := List.filter_eq_nil_iff.mpr fun t ht => by simp [h t ht]
  rw [spaced, hnone]
  rfl

/-- In arguments with different names each node is found under its name. -/
theorem child?_of_mem {key : String} (hnodup : (n.args.map (·.1)).Nodup) {c : Node} (h : (key, .node c) ∈ n.args) :
    n.child? key = some c := by
  rw [Node.child?_eq_some_iff]
  generalize n.args = args at h hnodup
  induction args with
  | nil => cases h
  | cons p rest ih =>
    obtain ⟨k, v⟩ := p
    rw [List.map_cons, List.nodup_cons] at hnodup
    rcases List.mem_cons.mp h with heq | hrest
    · cases heq
      simp
    · have hne : k ≠ key := by
        rintro rfl
        exact hnodup.1 (List.mem_map.mpr ⟨_, hrest, rfl⟩)
      rw [OrderedMap.get?_cons, if_neg hne]
      exact ih hrest hnodup.2

/-- The text of a query is put together from what it selects and the clauses behind it. -/
theorem queryText_spaced (hx : x.MarksNames) (distinct : Bool) {modified : Bool} {items : String} {front back : List String}
    (hitems : Plain x items) (hfront : ∀ a ∈ front, Plain x a) (hback : ∀ a ∈ back, RowClause x a)
    (hnone : modified = false → ∀ a ∈ back, a = "") :
    QueryText x modified
      (spaced (["SELECT" ++ (if distinct then " DISTINCT" else "") ++ " " ++ items] ++ front ++ back)) := by
  obtain ⟨selected, hselected, hplain⟩ : ∃ selected, "SELECT" ++ (if distinct then " DISTINCT" else "") ++ " " ++ items
      = "SELECT " ++ selected ∧ Plain x selected := by
    cases distinct with
    | false => exact ⟨items, rfl, hitems⟩
    | true =>
      refine ⟨"DISTINCT " ++ items, ?_, hitems.lead hx (by decide)⟩
      rw [← String.append_assoc]
      rfl
  have hne : "SELECT " ++ selected ≠ "" := by simp
  have hhead : spaced (["SELECT " ++ selected] ++ front)
      = "SELECT " ++ " ".intercalate (selected :: front.filter (· != "")) := by
    have hkept : (["SELECT " ++ selected] ++ front).filter (· != "")
        = ("SELECT " ++ selected) :: front.filter (· != "") := by simp
    rw [spaced, hkept]
    cases front.filter (· != "") with
    | nil => simp
    | cons a rest => simp [String.append_assoc]
  have hbody : ∀ a ∈ selected :: front.filter (· != ""), Plain x a :=
    List.forall_mem_cons.mpr ⟨hplain, fun a ha => hfront a (List.mem_filter.mp ha).1⟩
  obtain ⟨htail, hsorts⟩ := rowClause_spaced hx hback
  rw [hselected, spaced_append ⟨_, by simp, hne⟩, hhead]
  exact ⟨_, _, rfl, moves_intercalate hx (by decide) hbody, htail, hsorts, fun hm => spaced_eq_empty (hnone hm)⟩

theorem sorted_of_tidy (hk : n.kind = .select) (ht : Tidy x s n) :
    SortedProperly n ∧ OrdinaryUnder n ["limit", "offset"] := by
  have hnamed := named_of_tidy ht
  rwa [PlainlyNamed, hk] at hnamed

section rules

variable (hx : x.MarksNames) (h : PartsSettle x s n) (hk : n.kind = .select)

include h hk

/-- What a query limits its rows to. -/
theorem yields_limitPart (key : String) (hkey : key ∈ ["limit", "offset"]) :
    Yields s.Complains ((((target s n).views.one? key).map (·.part "this")).getD (pure "")) fun a =>
      Tidy x s n → Plain x a ∧ (n.child? key = none → a = "") := by
  cases hview : (target s n).views.one? key with
  | none => exact yields_pure fun _ => ⟨moves_empty, fun _ => rfl⟩
  | some p =>
    obtain ⟨c, hc, rfl⟩ := mem_of_one? hview
    refine ((h c (mem_children_of_node hc)).part "this").mono fun a ha ht => ?_
    obtain ⟨⟨hnodup, -⟩, hordinary⟩ := sorted_of_tidy hk ht
    have hplain := hordinary _ hc hkey c (List.mem_singleton.mpr rfl)
    have hmoves := ha ((tidyArgs_of_tidy ht).node hc).1 hplain.1
    rw [argDepth_of_ordinary hplain] at hmoves
    refine ⟨hmoves, fun hnone => ?_⟩
    rw [child?_of_mem hnodup hc] at hnone
    cases hnone

/-- What a query sorts its rows by. -/
theorem yields_orderPart : Yields s.Complains ((target s n).part "order") fun a =>
    Tidy x s n → RowClause x a ∧ (n.child? "order" = none → a = "") := by
  unfold Target.part
  cases hview : (target s n).views.one? "order" with
  | some p =>
    obtain ⟨c, hc, rfl⟩ := mem_of_one? hview
    refine ((h c (mem_children_of_node hc)).shows).mono fun a ha ht => ?_
    obtain ⟨⟨hnodup, hsorted⟩, -⟩ := sorted_of_tidy hk ht
    obtain hmissing | ⟨c', hc', horder⟩ := hsorted _ hc rfl
    · cases hmissing
    cases hc'
    have hshows := ha ((tidyArgs_of_tidy ht).node hc).1
    rw [Shows, horder] at hshows
    obtain ⟨hmoves, rest, rfl⟩ := hshows
    refine ⟨⟨hmoves, Or.inr ⟨"ORDER", by decide, "BY " ++ rest, ?_⟩⟩, fun hnone => ?_⟩
    · rw [← String.append_assoc]
      rfl
    · rw [child?_of_mem hnodup hc] at hnone
      cases hnone
  | none =>
    refine yields_pure fun ht => ?_
    obtain ⟨⟨-, hsorted⟩, -⟩ := sorted_of_tidy hk ht
    have hempty : ((n.arg? "order").map (·.textOnly)).getD "" = "" := by
      cases harg : n.arg? "order" with
      | none => rfl
      | some a =>
        have hget : n.args.get? "order" = some a := (Option.filter_eq_some_iff.mp harg).1
        obtain rfl | ⟨c, rfl, -⟩ := hsorted _ (Node.mem_of_get? hget) rfl <;> rfl
    have htext : (((target s n).node.arg? "order").map (·.textOnly)).getD "" = "" := hempty
    rw [htext]
    exact ⟨rowClause_empty, fun _ => rfl⟩

include hx

theorem yields_limitTexts : Yields s.Complains (target s n).limitTexts fun as => Tidy x s n →
    (∀ a ∈ as, RowClause x a) ∧ (n.child? "limit" = none → n.child? "offset" = none → ∀ a ∈ as, a = "") := by
  refine (yields_limitPart h hk "limit" (by simp)).bind fun limit hl => ?_
  refine (yields_limitPart h hk "offset" (by simp)).bind fun offset ho => ?_
  split
  · refine yields_pure fun ht => ?_
    obtain ⟨hl, hlnone⟩ := hl ht
    obtain ⟨ho, honone⟩ := ho ht
    refine ⟨?_, ?_⟩
    · simp only [List.forall_mem_cons, List.not_mem_nil, IsEmpty.forall_iff, implies_true, and_true]
      exact ⟨rowClause_preceded hx "LIMIT" (by decide) (by decide) hl,
        rowClause_preceded hx "OFFSET" (by decide) (by decide) ho⟩
    · intro hnolimit hnooffset
      simp [preceded, hlnone hnolimit, honone hnooffset]
  · refine yields_pure fun ht => ?_
    obtain ⟨hl, hlnone⟩ := hl ht
    obtain ⟨ho, honone⟩ := ho ht
    refine ⟨?_, ?_⟩
    · simp only [List.forall_mem_cons, List.not_mem_nil, IsEmpty.forall_iff, implies_true, and_true]
      exact ⟨rowClause_framed hx "OFFSET" (by decide) ⟨"", rfl⟩ (by decide) (by decide) ho,
        rowClause_framed hx "FETCH" (by decide) ⟨"NEXT ", rfl⟩ (by decide) (by decide) hl⟩
    · intro hnolimit hnooffset
      simp [hlnone hnolimit, honone hnooffset]

theorem yields_selectText : Yields s.Complains (target s n).selectText fun a =>
    Tidy x s n → QueryText x (Target.isModified n) a := by
  have hquotes : n.kind.quotesTexts = false := by rw [hk]; rfl
  have hdepth : ∀ {key : String}, key ∉ ["order", "limit", "offset"] → argDepth n.kind key = 0 := fun hkey => by
    rw [hk]
    exact if_neg hkey
  have hitems : Yields s.Complains (if ((target s n).many "expressions").isEmpty then pure "*" else (target s n).list)
      fun a => Tidy x s n → Plain x a := by
    have hlist := h.joined hx "expressions" (bridges_comma _)
    rw [hdepth (by decide)] at hlist
    split
    · exact yields_pure fun _ => moves_literal hx (by decide)
    · exact hlist
  refine Yields.bind_ite hitems fun items hitems => ?_
  have hclauses : Yields s.Complains (["from", "where", "group", "having", "qualify", "order"].mapM (target s n).part)
      (List.Forall₂ (fun key a => Tidy x s n → if key = "order" then RowClause x a ∧ (n.child? key = none → a = "")
        else Plain x a) ["from", "where", "group", "having", "qualify", "order"]) := by
    refine yields_mapM fun key hkey => ?_
    split
    · rename_i heq
      subst heq
      exact yields_orderPart h hk
    · rename_i hne
      refine h.outside hquotes (hdepth fun hmem => ?_)
      simp only [List.mem_cons, List.not_mem_nil, or_false] at hkey hmem
      rcases hmem with rfl | rfl | rfl <;> simp at hkey hne
  refine hclauses.bind fun clauses hclauses => ?_
  refine (yields_limitTexts hx h hk).map fun limits hlimits ht => ?_
  obtain _ | ⟨hfrom, _ | ⟨hwhere, _ | ⟨hgroup, _ | ⟨hhaving, _ | ⟨hqualify, _ | ⟨horder, _ | _⟩⟩⟩⟩⟩⟩ := hclauses
  rename_i fromText whereText groupText havingText qualifyText orderText
  obtain ⟨hrows, hnone⟩ := hlimits ht
  obtain ⟨hsorted, hunsorted⟩ := horder ht
  have hfront : ∀ a ∈ [fromText, whereText, groupText, havingText, qualifyText], Plain x a := by
    simpa using ⟨hfrom ht, hwhere ht, hgroup ht, hhaving ht, hqualify ht⟩
  have hback : ∀ a ∈ orderText :: limits, RowClause x a := List.forall_mem_cons.mpr ⟨hsorted, hrows⟩
  have hempty : Target.isModified n = false → ∀ a ∈ orderText :: limits, a = "" := by
    intro hplain
    have hselect : n.is .select = true := (Node.is_eq_true_iff n .select).mpr hk
    simp only [Target.isModified, hselect, Bool.true_and, Bool.or_eq_false_iff, Option.isSome_eq_false_iff,
      Option.isNone_iff_eq_none] at hplain
    obtain ⟨⟨hnoorder, hnolimit⟩, hnooffset⟩ := hplain
    exact List.forall_mem_cons.mpr ⟨hunsorted hnoorder, hnone hnolimit hnooffset⟩
  have hquery := queryText_spaced hx (n.flag "distinct") (hitems ht) hfront hback hempty
  exact hquery

end rules

theorem yields_setOperationText (hx : x.MarksNames) (h : PartsSettle x s n) {op : String}
    (hop : literalDepth clauseWords 1 op = some 1) :
    Yields s.Complains ((target s n).setOperationText op) fun a => Tidy x s n → Moves x clauseWords 1 1 a := by
  have hone : ∀ key, Yields s.Complains (textOf ((target s n).views.one? key)) fun a =>
      Tidy x s n → Moves x clauseWords 1 1 a := fun key =>
    (h.one key).mono fun _ ha ht => (ha ht).atLeast (argDepth_le _ _)
  refine (hone "this").bind fun left hl => ?_
  refine (hone "expression").map fun right hr ht => ?_
  have hword : Moves x clauseWords 1 1
      (parenthesized (Target.wrapsBranch n.kind (n.child? "this") false) left ++ " " ++ op) :=
    ((hl ht).parenthesized hx _).bridge hx (by decide) (moves_literal hx hop)
  split
  · have hall : Moves x clauseWords 1 1
        (parenthesized (Target.wrapsBranch n.kind (n.child? "this") false) left ++ " " ++ op ++ " ALL") :=
      hword.trail hx (by decide)
    exact hall.bridge hx (by decide) ((hr ht).parenthesized hx _)
  · rw [String.append_empty]
    exact hword.bridge hx (by decide) ((hr ht).parenthesized hx _)

/-! ## All kinds -/

/-- A text without special characters is escaped as it is. -/
theorem escaped_eq_self {isEscaped : Char → Bool} {escape : Char → Char} {cs : List Char}
    (h : ∀ c ∈ cs, isEscaped c = false) : escaped isEscaped escape cs = cs := by
  unfold escaped
  induction cs with
  | nil => rfl
  | cons c cs ih =>
    rw [List.flatMap_cons, h c List.mem_cons_self, ih fun d hd => h d (List.mem_cons_of_mem _ hd)]
    rfl

/-- A number in hexadecimal digits is a word and a text in quotes. -/
theorem plain_hexString (hfits : x.Fits s.style) {digits : String} (hquote : '\'' ∉ digits.toList)
    (hslash : '\\' ∉ digits.toList) : Plain x ("X'" ++ digits ++ "'") := by
  have hescape : s.style.quoteEscape.escape digits.toList = digits.toList := by
    have hother : ∀ c ∈ digits.toList, c ≠ '\'' ∧ c ≠ '\\' := fun c hc =>
      ⟨fun h => hquote (h ▸ hc), fun h => hslash (h ▸ hc)⟩
    cases s.style.quoteEscape with
    | doubled => exact escaped_eq_self fun c hc => by simpa using (hother c hc).1
    | backslash => exact escaped_eq_self fun c hc => by simpa using hother c hc
  have htext : ("X'" ++ digits ++ "'").toList = 'X' :: (s.style.quoteText digits).toList := by
    simp [Style.quoteText, hescape]
  have hname : Lexeme.ofWord "X" = .name "X" := by decide +kernel
  refine ⟨[.token (.ofWord "X"), .token (.text digits)], ?_, by rw [hname]; rfl⟩
  intro rest hrest
  have hword : x.first ("X".toList ++ ((s.style.quoteText digits).toList ++ rest))
      = some (Lexeme.ofWord "X", (s.style.quoteText digits).toList ++ rest) := by
    refine first_word (by decide) fun c hc => ?_
    have hhead : c = '\'' := by simpa [Style.quoteText] using hc.symm
    rw [hhead]
    decide
  have hread := falls_quoteText hfits digits rest hrest
  rw [htext, List.cons_append]
  refine (fragments_first hword).trans ?_
  rw [hread, Option.map_map]
  rfl

/-- A plain text shows nothing to a reader of queries. -/
theorem shows_of_plain (hk : n.kind.showsClauses = false) (h : Plain x a) : Shows x n a := by
  unfold Shows
  split <;> rename_i hkind
  all_goals first
    | exact h
    | (rw [hkind] at hk; cases hk)

/-- The text of a node by the rule of its kind, if its parts settle. -/
theorem shows_render (hfits : x.Fits s.style) (hstyle : s.style.MarksNames) (h : PartsSettle x s n) :
    Yields s.Complains (target s n).render fun a => Tidy x s n → Shows x n a := by
  have hx : x.MarksNames := hfits.marksNames hstyle
  have hord : ∀ {k}, n.kind = k → Ordinary k → Ordinary n.kind := fun hk hord => hk ▸ hord
  have hplain : ∀ {m : RenderM String} {k}, n.kind = k → k.showsClauses = false →
      Yields s.Complains m (fun a => Tidy x s n → Plain x a) →
      Yields s.Complains m fun a => Tidy x s n → Shows x n a :=
    fun hk hshows hm => hm.mono fun a ha ht => shows_of_plain (hk ▸ hshows) (ha ht)
  have hframed : ∀ {m : RenderM String} {before : String}, leads clauseWords 0 1 before = true →
      Yields s.Complains m (fun a => Tidy x s n → Moves x clauseWords 1 1 a) →
      Yields s.Complains (do return before ++ (← m) ++ ")") fun a => Tidy x s n → Plain x a :=
    fun hbefore hm => hm.map fun a ha ht => ((ha ht).lead hx hbefore).trail hx (by decide)
  unfold Target.render
  have hnode : (target s n).node = n := rfl
  rw [hnode]
  -- queries, set operations, sorting and limits show their words, all other kinds are plain
  cases hk : n.kind with
  | identifier => exact hplain hk rfl (yields_pure fun _ => moves_nameText hfits hstyle _ _)
  | star | null | placeholder => exact hplain hk rfl (yields_pure fun _ => moves_literal hx (by decide))
  | column => exact hplain hk rfl (yields_columnText hx h (hord hk ⟨rfl, rfl⟩))
  | dot =>
    refine hplain hk rfl ((yields_operand hx h (hord hk ⟨rfl, rfl⟩) "this" .atom).bind fun row hrow => ?_)
    exact (h.plain (hord hk ⟨rfl, rfl⟩) "expression").map fun field hfield ht =>
      (hrow ht).bridge hx (by decide) (hfield ht)
  | bracket =>
    refine hplain hk rfl ((yields_operand hx h (hord hk ⟨rfl, rfl⟩) "this" .atom).bind fun collection hc => ?_)
    exact (h.plainList hx (hord hk ⟨rfl, rfl⟩) "expressions" (by decide)).map fun items hitems ht =>
      ((hc ht).bridge hx (by decide) (hitems ht)).trail hx (by decide)
  | tableAlias => exact hplain hk rfl (yields_tableAliasText hx h (hord hk ⟨rfl, rfl⟩))
  | table => exact hplain hk rfl (yields_tableText hx h (hord hk ⟨rfl, rfl⟩))
  | aliased =>
    refine hplain hk rfl ((h.plain (hord hk ⟨rfl, rfl⟩) "this").bind fun item hitem => ?_)
    exact (h.plain (hord hk ⟨rfl, rfl⟩) "alias").map fun name hname ht => (hitem ht).bridge hx (by decide) (hname ht)
  | literal =>
    refine hplain hk rfl (yields_pure fun ht => ?_)
    have hvalue := named_of_tidy ht
    rw [PlainlyNamed, hk] at hvalue
    show Plain x (if n.isString then s.style.quoteText (n.text "this") else n.text "this")
    split
    · exact moves_quoteText hfits _
    · exact hvalue.resolve_left (by assumption)
  | boolean =>
    refine hplain hk rfl (yields_pure fun _ => ?_)
    split <;> exact moves_literal hx (by decide)
  | word =>
    refine hplain hk rfl (yields_pure fun ht => ?_)
    have hname := named_of_tidy ht
    rwa [PlainlyNamed, hk] at hname
  | typedLiteral =>
    refine hplain hk rfl ((h.plain (hord hk ⟨rfl, rfl⟩) "this").map fun value hvalue ht => ?_)
    have hname := named_of_tidy ht
    rw [PlainlyNamed, hk] at hname
    exact hname.bridge hx (by decide) (hvalue ht)
  | interval => exact hplain hk rfl (yields_intervalText hx h (hord hk ⟨rfl, rfl⟩))
  | hexString =>
    refine hplain hk rfl (yields_pure fun ht => ?_)
    have hdigits := named_of_tidy ht
    rw [PlainlyNamed, hk] at hdigits
    exact plain_hexString hfits hdigits.1 hdigits.2
  | dataType => exact hplain hk rfl (yields_dataTypeText hx h hk)
  | binary | eq | neq | gt | gte | lt | lte | and | or | add | sub | mul | div | mod | concat =>
    exact hplain hk rfl (yields_binaryText hx h (hord hk ⟨rfl, rfl⟩) (by decide))
  | like | similarTo => exact hplain hk rfl (yields_likeText hx h (hord hk ⟨rfl, rfl⟩) (by decide) (by decide))
  | isDistinctFrom =>
    refine hplain hk rfl (yields_binaryText hx h (hord hk ⟨rfl, rfl⟩) ?_)
    split <;> decide
  | is => exact hplain hk rfl (yields_isText hx h (hord hk ⟨rfl, rfl⟩))
  | not =>
    exact hplain hk rfl ((yields_operand hx h (hord hk ⟨rfl, rfl⟩) "this" .concat).map fun a ha ht =>
      (ha ht).lead hx (by decide))
  | neg =>
    exact hplain hk rfl ((yields_operand hx h (hord hk ⟨rfl, rfl⟩) "this" .atom).map fun a ha ht =>
      (ha ht).lead hx (by decide))
  | «in» => exact hplain hk rfl (yields_inText hx h (hord hk ⟨rfl, rfl⟩))
  | «exists» | cursor => exact hplain hk rfl (hframed (by decide) (h.inside (by rw [hk]; rfl) "this"))
  | tuple | groupingSets | rollup | cube =>
    exact hplain hk rfl (hframed (by decide) (h.listInside hx "expressions"))
  | case => exact hplain hk rfl (yields_caseText hx h (hord hk ⟨rfl, rfl⟩))
  | cast => exact hplain hk rfl (yields_castText hx h (hord hk ⟨rfl, rfl⟩))
  | call | aggregate =>
    refine hplain hk rfl (yields_callText hx h (fun ht => ?_) _)
    have hname := named_of_tidy ht
    rwa [PlainlyNamed, hk] at hname
  | window => exact hplain hk rfl (yields_windowText hx h hk)
  | windowSpec => exact hplain hk rfl (yields_frameText hx h (hord hk ⟨rfl, rfl⟩))
  | filter | withinGroup =>
    exact hplain hk rfl (yields_suffixedText hx h (by rw [hk]; rfl) (by rw [hk]; rfl) (by decide))
  | «from» | «where» | «having» | qualify =>
    exact hplain hk rfl (yields_clauseText hx h (hord hk ⟨rfl, rfl⟩) (by decide))
  | group => exact hplain hk rfl (yields_groupText hx h (hord hk ⟨rfl, rfl⟩))
  | order =>
    refine (h.plainList hx (hord hk ⟨rfl, rfl⟩) "expressions" (by decide)).map fun keys hkeys ht => ?_
    rw [Shows, hk]
    exact ⟨((hkeys ht).subset (List.subset_append_left _ _)).lead hx (by decide), keys, rfl⟩
  | ordered => exact hplain hk rfl (yields_orderedText hx h (hord hk ⟨rfl, rfl⟩))
  | join => exact hplain hk rfl (yields_joinText hx h (hord hk ⟨rfl, rfl⟩) hk)
  | subquery | tableFunction =>
    exact hplain hk rfl (yields_enclosedText hx h (by rw [hk]; rfl) (by rw [hk]; decide) (by decide))
  | matchRecognize =>
    exact hplain hk rfl ((yields_matchText hx h hk (h.inside (by rw [hk]; rfl) "pattern")).mono fun a ha => ha.1)
  | patternConcat => exact hplain hk rfl (yields_patternConcatText hx h (hord hk ⟨rfl, rfl⟩))
  | patternAlternation => exact hplain hk rfl (h.plainList hx (hord hk ⟨rfl, rfl⟩) "expressions" (by decide))
  | patternQuantifier => exact hplain hk rfl (yields_patternQuantifierText hx h (hord hk ⟨rfl, rfl⟩) hk)
  | select =>
    refine (yields_selectText hx h hk).mono fun a ha ht => ?_
    rw [Shows, hk]
    exact ha ht
  | union | intersect | except =>
    refine (yields_setOperationText hx h (by decide)).mono fun a ha ht => ?_
    rw [Shows, hk]
    exact ha ht
  | values => exact hplain hk rfl (yields_valuesText hx h (hord hk ⟨rfl, rfl⟩))
  | limit | offset =>
    refine (yields_fallbackInside hx h (by rw [hk]; decide +kernel)).mono fun a ha ht => ?_
    rw [Shows, hk]
    exact ha ht
  | expression | condition | predicate | function | connector | negatableBinary | branch | setOperation =>
    exact hplain hk rfl (yields_fallbackText hx h (by rw [hk]; decide +kernel))

/-! ## Trees -/

/-- A node settles if its parts do. -/
theorem settles_of_parts (hfits : x.Fits s.style) (hstyle : s.style.MarksNames)
    (h : PartsSettle x s n) : Settles x s n := by
  have hshows := shows_render hfits hstyle h
  rw [← piece_text] at hshows
  refine ⟨hshows, hshows.mono fun a ha ht => (ha ht).moves (hfits.marksNames hstyle), fun key => ?_⟩
  have hpart : (piece s n).part = (target s n).part := by
    cases n
    rw [piece]
    rfl
  rw [hpart]
  exact h.part key

mutual

/-- **`Settles`** — rendering a node fails only where the caller asks for complaints, and the text of a tidy node
leaves a reader of queries where it was. -/
theorem settles (hfits : x.Fits s.style) (hstyle : s.style.MarksNames) : ∀ n : Node, Settles x s n
  | .mk _ args => settles_of_parts hfits hstyle (settles_args hfits hstyle args)

theorem settles_args (hfits : x.Fits s.style) (hstyle : s.style.MarksNames) :
    ∀ args : List (String × Arg), ∀ c ∈ args.flatMap (·.2.children), Settles x s c
  | [] => by simp
  | (_, .node n) :: rest =>
    List.forall_mem_cons.mpr ⟨settles hfits hstyle n, settles_args hfits hstyle rest⟩
  | (_, .nodes ns) :: rest =>
    List.forall_mem_append.mpr ⟨settles_all hfits hstyle ns, settles_args hfits hstyle rest⟩
  | (_, .text _) :: rest | (_, .number _) :: rest | (_, .flag _) :: rest | (_, .missing) :: rest =>
    settles_args hfits hstyle rest

theorem settles_all (hfits : x.Fits s.style) (hstyle : s.style.MarksNames) :
    ∀ ns : List Node, ∀ c ∈ ns, Settles x s c
  | [] => by simp
  | n :: ns =>
    List.forall_mem_cons.mpr ⟨settles hfits hstyle n, settles_all hfits hstyle ns⟩

end

end

end AlgebraSql.Render
