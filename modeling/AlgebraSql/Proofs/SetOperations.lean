import AlgebraSql.Proofs.SetGrammar
import AlgebraSql.Proofs.TidyQueries

/-!
# Set operations — their texts group as their trees.

The branches of a set operation are put in parentheses where they sort or limit their rows, or would be read in another
grouping.  From the texts of the queries at its leaves the text of every tree of set operations is one that a reader
takes apart into the tree, whether or not `INTERSECT` is taken before the other operators.
-/

namespace AlgebraSql.Render

open Sql

/-! ## Trees of nodes -/

/-- The kind of the nodes of an operator. -/
def SetOperator.kind : SetOperator → Kind
  | .union => .union
  | .intersect => .intersect
  | .except => .except

/-- The node is the set operation that the tree describes, over tidy queries. -/
def SetTree.Of (x : Lexis) (s : Setting) : SetTree Node → Node → Prop
  | .query m, n => n = m ∧ n.kind = .select ∧ Tidy x s n
  | .combine op all left right, n => n.kind = op.kind
      ∧ ((n.arg? "distinct").bind (·.flag?) = some false ↔ all = true)
      ∧ (∃ l, n.child? "this" = some l ∧ left.Of x s l)
      ∧ ∃ r, n.child? "expression" = some r ∧ right.Of x s r

/-- Two trees of the same operations, whose queries are related. -/
inductive SetTree.Same {α β : Type} (r : α → β → Prop) : SetTree α → SetTree β → Prop
  | query {a : α} {b : β} (h : r a b) : Same r (.query a) (.query b)
  | combine {op : SetOperator} {all : Bool} {left right : SetTree α} {left' right' : SetTree β}
      (hleft : Same r left left') (hright : Same r right right') :
      Same r (.combine op all left right) (.combine op all left' right')

/-- A query by itself is written as what it selects and what sorts and limits its rows, and read so. -/
def ReadsAlone (x : Lexis) (s : Setting) (n : Node) (q : Query) : Prop :=
  ∃ text notices, run s n = (.ok text, notices)
    ∧ (x.fragments text.toList).map withoutBlanks = some (.token (.reserved "SELECT") :: (q.body ++ q.tail))
    ∧ ∀ c, x.readQuery c text = some (.select q.body q.tail)

section

variable {x : Lexis} {s : Setting} {n : Node}

/-! ## Texts -/

/-- Blanks do not change the depth. -/
theorem depthAfter_withoutBlanks {words : List String} {d : Nat} (fs : List Fragment) :
    depthAfter words d (withoutBlanks fs) = depthAfter words d fs := by
  induction fs generalizing d with
  | nil => rfl
  | cons f fs ih =>
    by_cases hblank : f = .sign ' '
    · have hskip : withoutBlanks (f :: fs) = withoutBlanks fs := by simp [withoutBlanks, hblank]
      rw [hskip, ih, depthAfter_cons, hblank]
      rfl
    · have hkeep : withoutBlanks (f :: fs) = f :: withoutBlanks fs := by simp [withoutBlanks, hblank]
      rw [hkeep, depthAfter_cons, depthAfter_cons]
      simp only [ih]

/-- A text that falls into the fragments of a tree is read as the tree. -/
theorem readQuery_of_fallsInto {text : String} {T : SetTree Query} (h : FallsInto x text T.fragments)
    (hreadable : T.Every Query.Readable) (c : Convention) : x.readQuery c text = some T.reading := by
  obtain ⟨all, hall, hfs⟩ := h
  have hread := (reads c T hreadable).query [] fun _ hf => by cases hf
  rw [List.append_nil, ← hfs] at hread
  simp only [Lexis.readQuery, hall.alone, Option.bind_eq_bind, Option.bind_some, hread]

/-! ## Queries -/

/-- What sorts or limits rows is nothing or begins with its word. -/
theorem startsTail_of_sortsRows {text : String} {fs : List Fragment} (hfalls : Falls x text.toList fs)
    (h : SortsRows text) : withoutBlanks fs = [] ∨ startsTail (withoutBlanks fs) = true := by
  have hread := hfalls.alone
  rcases h with rfl | ⟨word, hword, rest, rfl⟩
  · have hnone : x.fragments "".toList = some [] := fragments_nil
    rw [hnone] at hread
    cases hread
    exact Or.inl rfl
  · right
    have hkept : isWord word.toList = true ∧ (Lexeme.ofWord word).isOneOf rowWords = true :=
      (by decide +kernel : ∀ word ∈ rowWords, isWord word.toList = true ∧ (Lexeme.ofWord word).isOneOf rowWords = true)
        word hword
    have hfirst : x.first (word.toList ++ (" ".toList ++ rest.toList))
        = some (Lexeme.ofWord word, " ".toList ++ rest.toList) := by
      have hblank : ∀ c, (" ".toList ++ rest.toList).head? = some c → isWordPart c = false := fun c hc => by
        cases hc
        decide
      have hword := first_word (x := x) hkept.1 hblank
      rw [String.ofList_toList] at hword
      exact hword
    rw [String.toList_append, String.toList_append, List.append_assoc, fragments_first hfirst,
      Option.map_eq_some_iff] at hread
    obtain ⟨more, -, rfl⟩ := hread
    exact hkept.2

/-- A query that is written with its clauses outside parentheses falls into readable fragments. -/
theorem readable_of_queryText (hx : x.MarksNames) {modified : Bool} {a : String} (h : QueryText x modified a) :
    ∃ q : Query, q.Readable ∧ q.modified = modified ∧ FallsInto x a (SetTree.query q).fragments := by
  obtain ⟨body, tail, rfl, ⟨fb, hfb, hdb⟩, ⟨ft, hft, hdt⟩, hsorts, hplain⟩ := h
  have hselect : FallsInto x "SELECT" [.token (.reserved "SELECT")] :=
    ⟨_, falls_word (by decide), by decide +kernel⟩
  have hfront : FallsInto x ("SELECT " ++ body) (.token (.reserved "SELECT") :: withoutBlanks fb) := by
    have hspelled : ("SELECT " : String) = "SELECT" ++ " " := rfl
    rw [hspelled]
    exact hselect.spaced hx ⟨fb, hfb, rfl⟩
  have hempty : tail = "" → ft = [] := by
    rintro rfl
    have hnone : x.fragments "".toList = some [] := fragments_nil
    rw [hft.alone] at hnone
    exact Option.some.inj hnone
  -- a query that is not modified has no tail, and then none is written behind what it selects
  refine ⟨⟨withoutBlanks fb, withoutBlanks ft, modified⟩, ⟨?_, ?_, startsTail_of_sortsRows hft hsorts, ?_⟩, rfl, ?_⟩
  · rw [depthAfter_withoutBlanks, hdb]
  · rw [depthAfter_withoutBlanks, hdt]
  · intro hmodified
    rw [hempty (hplain hmodified)]
    rfl
  · by_cases htail : tail = ""
    · have hnone : withoutBlanks ft = [] := by rw [hempty htail]; rfl
      rw [SetTree.fragments, hnone, List.append_nil, htail, preceded, if_pos (by rfl), String.append_empty]
      exact hfront
    · rw [preceded, if_neg (by simpa using htail), ← String.append_assoc]
      exact hfront.spaced hx ⟨ft, hft, rfl⟩

/-! ## Operations -/

/-- What is made of a node: a text that falls into the fragments of a tree of readable queries, which is the tree of the
node. -/
def ReadsAs (x : Lexis) (s : Setting) (T : SetTree Node) (n : Node) (text : String) : Prop :=
  ∃ L : SetTree Query, T.Same (ReadsAlone x s) L ∧ L.Every Query.Readable
    ∧ (∀ op isRight, L.wraps op isRight = Target.wrapsBranch op.kind (some n) isRight)
    ∧ FallsInto x text L.fragments

/-- A single query. -/
theorem yields_query (hfits : x.Fits s.style) (hstyle : s.style.MarksNames) (hk : n.kind = .select) (ht : Tidy x s n) :
    Yields s.Complains (piece s n).text (ReadsAs x s (.query n) n) := by
  refine ((settles hfits hstyle n).shows.afresh).mono fun text htext => ?_
  obtain ⟨hshows, notices, hrun⟩ := htext
  have hquery := hshows ht
  rw [Shows, hk] at hquery
  obtain ⟨q, hreadable, hmodified, hfalls⟩ := readable_of_queryText (hfits.marksNames hstyle) hquery
  have halone : ReadsAlone x s n q :=
    ⟨text, notices, hrun, hfalls.alone, fun c => readQuery_of_fallsInto hfalls hreadable c⟩
  refine ⟨.query q, .query halone, hreadable, fun op isRight => ?_, hfalls⟩
  have hsingle : n.isSetOperation = false := by rw [Node.isSetOperation, hk]; rfl
  show q.modified = (n.isSetOperation && (isRight || n.kind != op.kind) || Target.isModified n)
  rw [hsingle, hmodified, Bool.false_and, Bool.false_or]

theorem render_operation {op : SetOperator} (hk : n.kind = op.kind) :
    (target s n).render = (target s n).setOperationText op.word := by
  have hnode : (target s n).node = n := rfl
  rw [Target.render, hnode, hk]
  cases op <;> rfl

/-- The operator and the word that keeps duplicates, between two operands. -/
theorem fallsInto_operation (hx : x.MarksNames) (op : SetOperator) (all : Bool) {a b : String} {fa fb : List Fragment}
    (ha : FallsInto x a fa) (hb : FallsInto x b fb) :
    FallsInto x (a ++ " " ++ op.word ++ (if all then " ALL" else "") ++ " " ++ b)
      (fa ++ (SetTree.operatorFragments op all ++ fb)) := by
  have hkept : ∀ word ∈ ["ALL", "UNION", "INTERSECT", "EXCEPT"], FallsInto x word [.token (.reserved word)] := by
    intro word hword
    obtain ⟨hisWord, hof⟩ := (by decide +kernel : ∀ word ∈ ["ALL", "UNION", "INTERSECT", "EXCEPT"],
      isWord word.toList = true ∧ withoutBlanks [.token (Lexeme.ofWord word)] = [.token (.reserved word)]) word hword
    exact ⟨_, falls_word hisWord, hof⟩
  have hop : FallsInto x op.word [.token (.reserved op.word)] := hkept _ (by cases op <;> decide)
  have hleft := ha.spaced hx hop
  rw [← List.append_assoc]
  cases all with
  | false =>
    rw [if_neg Bool.false_ne_true, String.append_empty]
    exact hleft.spaced hx hb
  | true =>
    have hall := hleft.spaced hx (hkept "ALL" (by decide))
    have hspelled : (" ALL" : String) = " " ++ "ALL" := rfl
    rw [if_pos rfl, hspelled, ← String.append_assoc]
    rw [List.append_assoc] at hall
    exact hall.spaced hx hb

/-- A set operation whose branches read as trees reads as the operation of them. -/
theorem yields_operation (hx : x.MarksNames) {op : SetOperator} {all : Bool} {left right : SetTree Node} {l r : Node}
    (hk : n.kind = op.kind) (hall : (n.arg? "distinct").bind (·.flag?) = some false ↔ all = true)
    (hl : n.child? "this" = some l) (hr : n.child? "expression" = some r)
    (hleft : Yields s.Complains (piece s l).text (ReadsAs x s left l))
    (hright : Yields s.Complains (piece s r).text (ReadsAs x s right r)) :
    Yields s.Complains (piece s n).text (ReadsAs x s (.combine op all left right) n) := by
  rw [piece_text, render_operation hk, Target.setOperationText, one?_target hl, one?_target hr]
  refine hleft.bind fun a ha => hright.map fun b hb => ?_
  obtain ⟨L, hsame, hreadable, hwraps, hfa⟩ := ha
  obtain ⟨R, hsame', hreadable', hwraps', hfb⟩ := hb
  have hmarker : (if ((n.arg? "distinct").bind (·.flag?) == some false) = true then " ALL" else "")
      = if all = true then " ALL" else "" := by
    by_cases hkeeps : all = true
    · rw [if_pos hkeeps, if_pos (by simpa using hall.mpr hkeeps)]
    · rw [if_neg hkeeps, if_neg (by simpa using fun hflag => hkeeps (hall.mp hflag))]
  have hfalls := fallsInto_operation hx op all (hfa.parenthesized hx (L.wraps op false))
    (hfb.parenthesized hx (R.wraps op true))
  refine ⟨.combine op all L R, .combine hsame hsame', ⟨hreadable, hreadable'⟩, ?_, ?_⟩
  · -- as a branch itself it is put in parentheses by the rule that the fragments follow
    intro op' isRight
    have hset : n.isSetOperation = true := by rw [Node.isSetOperation, hk]; cases op <;> rfl
    have hplain : Target.isModified n = false := by
      have hother : n.is .select = false := by rw [Node.is, hk]; cases op <;> rfl
      rw [Target.isModified, hother, Bool.false_and]
    have hdiffers : (op != op') = (op.kind != op'.kind) := by cases op <;> cases op' <;> rfl
    show (isRight || op != op') = (n.isSetOperation && (isRight || n.kind != op'.kind) || Target.isModified n)
    rw [hset, hplain, hk, hdiffers, Bool.true_and, Bool.or_false]
  · have hnode : (target s n).node = n := rfl
    simp only [hnode, hl, hr, hk, hmarker]
    rw [← hwraps, ← hwraps']
    exact hfalls

/-- The node of a tree reads as the tree. -/
theorem yields_tree (hfits : x.Fits s.style) (hstyle : s.style.MarksNames) :
    ∀ {T : SetTree Node} {n : Node}, T.Of x s n → Yields s.Complains (piece s n).text (ReadsAs x s T n)
  | .query _, _, ⟨rfl, hk, ht⟩ => yields_query hfits hstyle hk ht
  | .combine _ _ _ _, _, ⟨hk, hall, ⟨_, hl, hleft⟩, _, hr, hright⟩ =>
    yields_operation (hfits.marksNames hstyle) hk hall hl hr (yields_tree hfits hstyle hleft)
      (yields_tree hfits hstyle hright)

/-- **Set operations** — every tree of set operations over queries has a text, unless the caller asks for complaints
where the style lacks a construct.  The text is read as the same operators, with the same words for duplicates, over
what each query is read as by itself, whether or not `INTERSECT` is taken before the others; nothing that sorts or
limits the rows of a query is read as part of an operation. -/
theorem readQuery_run (hfits : x.Fits s.style) (hstyle : s.style.MarksNames) {T : SetTree Node} (h : T.Of x s n) :
    (¬ s.Complains → ∃ text notices, run s n = (.ok text, notices))
      ∧ ∀ text notices, run s n = (.ok text, notices) →
        ∃ L : SetTree Query, T.Same (ReadsAlone x s) L ∧ ∀ c, x.readQuery c text = some L.reading := by
  have hreads := yields_tree hfits hstyle h
  constructor
  · intro hnever
    obtain ⟨text, notices, -, hrun⟩ := hreads.value hnever
    exact ⟨text, [] ++ notices, hrun []⟩
  · intro text notices hrun
    obtain ⟨L, hsame, hreadable, -, hfalls⟩ := hreads.of_run hrun
    exact ⟨L, hsame, fun c => readQuery_of_fallsInto hfalls hreadable c⟩

end

/-! ## A sorted branch -/

/-- A column is tidy, whatever it is called. -/
theorem tidy_column (x : Lexis) (s : Setting) (name : String) : Tidy x s (.column name) := by
  simp [Node.column, Node.identifier, Node.kept, Tidy, TidyArgs, PlainlyNamed, Kind.quotesTexts, Kind.showsClauses]

/-- `SELECT name` -/
theorem tidy_selectItems (x : Lexis) (s : Setting) (name : String) : Tidy x s (Node.selectItems [.column name]) := by
  refine ⟨⟨⟨by simp, by simp⟩, by simp [OrdinaryUnder]⟩, ⟨⟨tidy_column x s name, fun hshows => ?_⟩, trivial⟩, trivial⟩
  cases hshows

/-- `SELECT * ORDER BY name LIMIT 1` -/
def firstBy (name : String) : Node :=
  .mk .select [("order", .node (.order [.mk .ordered [("this", .node (.column name))]])),
    ("limit", .node (.wrap .limit (.number "1")))]

theorem tidy_firstBy {x : Lexis} (hx : x.MarksNames) (s : Setting) (name : String) : Tidy x s (firstBy name) := by
  have horder : Tidy x s (.order [.mk .ordered [("this", .node (.column name))]]) := by
    refine ⟨trivial, ⟨⟨⟨trivial, ⟨tidy_column x s name, ?_⟩, trivial⟩, ?_⟩, trivial⟩, trivial⟩ <;>
      (intro hshows; cases hshows)
  have hnumber : Tidy x s (.number "1") :=
    ⟨Or.inr (moves_digits hx (by decide)), Or.inl rfl, trivial⟩
  have hlimit : Tidy x s (.wrap .limit (.number "1")) :=
    ⟨trivial, ⟨hnumber, fun hshows => by cases hshows⟩, trivial⟩
  refine ⟨⟨⟨by simp, ?_⟩, ?_⟩, ⟨horder, fun _ => by decide⟩, ⟨hlimit, fun _ => by decide⟩, trivial⟩
  · simp [Node.order]
  · simp [OrdinaryUnder, Arg.children, Node.wrap, Ordinary, Kind.quotesTexts, Kind.enclosed]

/-- The rows of a sorted query and those of an intersection. -/
def sortedUnion : Node :=
  .setOperation .union (firstBy "a") (.setOperation .intersect (.selectItems [.column "b"]) (.selectItems [.column "c"]) true)
    false

/-- A sorted query that is united with an intersection stands in parentheses, as the intersection does. -/
theorem readQuery_run_sorted :
    let T : SetTree Node := .combine .union true (.query (firstBy "a"))
      (.combine .intersect false (.query (.selectItems [.column "b"])) (.query (.selectItems [.column "c"])))
    let x := Lexis.of Dialect.postgres
    let s := Dialect.postgres.setting {}
    let text := "(SELECT * ORDER BY a LIMIT 1) UNION ALL (SELECT b INTERSECT SELECT c)"
    (x.Fits s.style ∧ s.style.MarksNames ∧ T.Of x s sortedUnion ∧ ¬ s.Complains ∧ run s sortedUnion = (.ok text, []))
      ∧ (∃ text notices, run s sortedUnion = (.ok text, notices))
      ∧ ∃ L : SetTree Query, T.Same (ReadsAlone x s) L ∧ ∀ c, x.readQuery c text = some L.reading := by
  have hrun : run (Dialect.postgres.setting {}) sortedUnion
      = (.ok "(SELECT * ORDER BY a LIMIT 1) UNION ALL (SELECT b INTERSECT SELECT c)", []) := by rfl
  intro T x s text
  have hd : Dialect.postgres ∈ Dialect.all := by simp [Dialect.all]
  have hfits : x.Fits s.style := fits_of_mem hd
  have hstyle : s.style.MarksNames := marksNames_of_mem hd
  have hx : x.MarksNames := hfits.marksNames hstyle
  have hof : T.Of x s sortedUnion :=
    ⟨rfl, by decide, ⟨_, rfl, rfl, rfl, tidy_firstBy hx s "a"⟩, _, rfl,
      rfl, by decide, ⟨_, rfl, rfl, rfl, tidy_selectItems x s "b"⟩, _, rfl, rfl, rfl, tidy_selectItems x s "c"⟩
  have hnever : ¬ s.Complains := fun hlevel => by cases hlevel
  obtain ⟨hgives, hreads⟩ := readQuery_run hfits hstyle hof
  exact ⟨⟨hfits, hstyle, hof, hnever, hrun⟩, hgives hnever, hreads text [] hrun⟩

end AlgebraSql.Render
