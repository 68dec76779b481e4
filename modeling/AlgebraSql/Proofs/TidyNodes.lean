import AlgebraSql.Proofs.OperatorText
import AlgebraSql.Proofs.Outcomes
import AlgebraSql.Proofs.TextDepth

/-!
# Tidy nodes — where the words between and behind queries may stand.

Queries and `ORDER BY` are written with words that a reader of queries looks for.  In a tidy node they stand where
the rule writes parentheses around them, or where a query has its own clauses, and what a node writes letter by letter
has no such word and no open parenthesis.
-/

namespace AlgebraSql.Sql.Kind

/-- A node of the kind is written with words between or behind queries. -/
def showsClauses : Kind → Bool
  | .select | .union | .intersect | .except | .order | .limit | .offset => true
  | _ => false

/-- The arguments that a rule puts in parentheses, and the queries and clauses of a query. -/
def enclosed : Kind → List String
  | .exists | .subquery | .tableFunction | .cursor => ["this"]
  | .filter | .withinGroup => ["expression"]
  | .window => ["partition_by", "order", "spec"]
  | .matchRecognize => ["order"]
  | .tuple | .call | .aggregate => ["expressions"]
  | .select => ["order", "limit", "offset"]
  | .union | .intersect | .except => ["this", "expression"]
  | _ => []

/-- Texts among the arguments are written in quotes. -/
def quotesTexts : Kind → Bool
  | .identifier | .literal | .hexString => true
  | _ => false

end AlgebraSql.Sql.Kind

namespace AlgebraSql.Render

open Sql

/-! ## Tidy nodes -/

/-- A text that closes its parentheses and has no words between or behind queries outside them. -/
abbrev Plain (x : Lexis) (text : String) : Prop := Moves x clauseWords 0 0 text

/-- A kind whose rule puts no argument in quotes or in parentheses. -/
abbrev Ordinary (kind : Kind) : Prop := kind.quotesTexts = false ∧ kind.enclosed = []

/-- The nodes under some names are of such kinds. -/
def OrdinaryUnder (n : Node) (keys : List String) : Prop :=
  ∀ p ∈ n.args, p.1 ∈ keys → ∀ c ∈ p.2.children, Ordinary c.kind

/-- A query has its clauses under different names, and what sorts it is an `ORDER BY`. -/
def SortedProperly (n : Node) : Prop :=
  (n.args.map (·.1)).Nodup
    ∧ ∀ p ∈ n.args, p.1 = "order" → p.2 = .missing ∨ ∃ c, p.2 = .node c ∧ c.kind = .order

/-- What a node writes letter by letter, apart from its arguments, and which of its parts it takes apart. -/
def PlainlyNamed (x : Lexis) (s : Setting) (n : Node) : Prop :=
  match n.kind with
  | .literal => n.isString = true ∨ Plain x (n.text "this")
  | .hexString => '\'' ∉ n.name.toList ∧ '\\' ∉ n.name.toList
  | .word | .call | .aggregate => Plain x n.name
  | .dataType => Plain x ((s.style.typeNames.get? n.name).getD n.name)
  | .typedLiteral | .join => Plain x (n.text "kind")
  | .patternQuantifier =>
    Plain x (Target.countText (n.arg? "min")) ∧ Plain x (Target.countText (n.arg? "max"))
  | .select => SortedProperly n ∧ OrdinaryUnder n ["limit", "offset"]
  | .matchRecognize => OrdinaryUnder n ["subsets", "define"]
  | _ => True

mutual

/-- **`Tidy`** — clauses stand where they may, and everything written letter by letter is plain. -/
def Tidy (x : Lexis) (s : Setting) : Node → Prop
  | .mk kind args => PlainlyNamed x s (.mk kind args) ∧ TidyArgs x s kind args

/-- The arguments of a tidy node. -/
def TidyArgs (x : Lexis) (s : Setting) (kind : Kind) : List (String × Arg) → Prop
  | [] => True
  | (key, .node n) :: rest =>
    (Tidy x s n ∧ (n.kind.showsClauses = true → key ∈ kind.enclosed)) ∧ TidyArgs x s kind rest
  | (key, .nodes ns) :: rest => TidyAll x s kind key ns ∧ TidyArgs x s kind rest
  | (_, .text v) :: rest => (kind.quotesTexts = true ∨ Plain x v) ∧ TidyArgs x s kind rest
  | (_, .number _) :: rest => TidyArgs x s kind rest
  | (_, .flag _) :: rest => TidyArgs x s kind rest
  | (_, .missing) :: rest => TidyArgs x s kind rest

/-- The nodes of an argument of a tidy node. -/
def TidyAll (x : Lexis) (s : Setting) (kind : Kind) (key : String) : List Node → Prop
  | [] => True
  | n :: ns => (Tidy x s n ∧ (n.kind.showsClauses = true → key ∈ kind.enclosed)) ∧ TidyAll x s kind key ns

end

/-- A text that begins with a word that sorts or limits rows, or an empty one. -/
def SortsRows (text : String) : Prop := text = "" ∨ ∃ word ∈ rowWords, ∃ rest, text = word ++ " " ++ rest

/-- **`QueryText`** — what a query selects, and behind it what sorts and limits its rows, if it is modified. -/
def QueryText (x : Lexis) (modified : Bool) (text : String) : Prop :=
  ∃ body tail, text = "SELECT " ++ body ++ preceded " " tail ∧ Plain x body ∧ Moves x setWords 0 0 tail
    ∧ SortsRows tail ∧ (modified = false → tail = "")

/-- What the text of a node shows to a reader of queries. -/
def Shows (x : Lexis) (n : Node) (text : String) : Prop :=
  match n.kind with
  | .select => QueryText x (Target.isModified n) text
  | .order => Moves x setWords 0 0 text ∧ ∃ rest, text = "ORDER BY " ++ rest
  | .union | .intersect | .except | .limit | .offset => Moves x clauseWords 1 1 text
  | _ => Plain x text

/-- The depth at which the text of a node leaves a reader where it was. -/
def depthOf (kind : Kind) : Nat := if kind.showsClauses then 1 else 0

/-- The same for an argument. -/
def argDepth (kind : Kind) (key : String) : Nat := if key ∈ kind.enclosed then 1 else 0

section

variable {x : Lexis} {s : Setting} {kind : Kind} {args : Args} {key : String}

theorem Moves.atLeast {words : List String} {d e : Nat} {a : String} (h : Moves x words d d a) (hle : d ≤ e) :
    Moves x words e e a := by
  have hadd := h.add (e - d)
  rwa [Nat.add_sub_cancel' hle] at hadd

theorem QueryText.moves (hx : x.MarksNames) {modified : Bool} {a : String} (h : QueryText x modified a) :
    Moves x setWords 0 0 a := by
  obtain ⟨body, tail, rfl, hbody, htail, -, -⟩ := h
  have hselect : Moves x setWords 0 0 ("SELECT " ++ body) :=
    (hbody.subset (List.subset_append_left _ _)).lead hx (by decide)
  exact hselect.preceded hx (by decide) htail

theorem Shows.moves (hx : x.MarksNames) {n : Node} {a : String} (h : Shows x n a) :
    Moves x clauseWords (depthOf n.kind) (depthOf n.kind) a := by
  -- inside parentheses the words that sort and limit rows no longer matter
  cases hk : n.kind <;> rw [Shows, hk] at h
  case select => exact h.moves hx |>.enclosed _
  case order => exact h.1.enclosed _
  all_goals exact h

/-- A part with clauses stands in an argument for clauses. -/
theorem depthOf_le {n : Node} (h : n.kind.showsClauses = true → key ∈ kind.enclosed) :
    depthOf n.kind ≤ argDepth kind key := by
  unfold depthOf argDepth
  split
  · rename_i hshows
    rw [if_pos (h hshows)]
  · exact Nat.zero_le _

theorem TidyArgs.tail {p : String × Arg} (h : TidyArgs x s kind (p :: args)) : TidyArgs x s kind args := by
  obtain ⟨key, a⟩ := p
  cases a with
  | node _ | nodes _ | text _ => exact h.2
  | number _ | flag _ | missing => exact h

/-- Each argument of a tidy node is tidy by itself. -/
theorem TidyArgs.mem (h : TidyArgs x s kind args) {p : String × Arg} (hmem : p ∈ args) : TidyArgs x s kind [p] := by
  induction args with
  | nil => cases hmem
  | cons q rest ih =>
    rcases List.mem_cons.mp hmem with rfl | hrest
    · obtain ⟨key, a⟩ := p
      cases a with
      | node _ | nodes _ | text _ => exact ⟨h.1, trivial⟩
      | number _ | flag _ | missing => exact trivial
    · exact ih h.tail hrest

theorem TidyArgs.node (h : TidyArgs x s kind args) {n : Node} (hmem : (key, .node n) ∈ args) :
    Tidy x s n ∧ depthOf n.kind ≤ argDepth kind key :=
  have hone := h.mem hmem
  ⟨hone.1.1, depthOf_le hone.1.2⟩

theorem TidyAll.node {ns : List Node} (h : TidyAll x s kind key ns) {n : Node} (hmem : n ∈ ns) :
    Tidy x s n ∧ depthOf n.kind ≤ argDepth kind key := by
  induction ns with
  | nil => cases hmem
  | cons m ns ih =>
    rcases List.mem_cons.mp hmem with rfl | hrest
    · exact ⟨h.1.1, depthOf_le h.1.2⟩
    · exact ih h.2 hrest

theorem TidyArgs.nodes (h : TidyArgs x s kind args) {ns : List Node} (hmem : (key, .nodes ns) ∈ args) {n : Node}
    (hn : n ∈ ns) : Tidy x s n ∧ depthOf n.kind ≤ argDepth kind key :=
  TidyAll.node (h.mem hmem).1 hn

theorem TidyArgs.text (h : TidyArgs x s kind args) {v : String} (hmem : (key, .text v) ∈ args)
    (hkind : kind.quotesTexts = false) : Plain x v := by
  have hone := h.mem hmem
  rw [TidyArgs, hkind] at hone
  exact hone.1.resolve_left Bool.false_ne_true

end

end AlgebraSql.Render
