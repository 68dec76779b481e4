import AlgebraSql.Proofs.ClauseOrder
import AlgebraSql.Proofs.Doubles
import AlgebraSql.Proofs.RowPatterns
import AlgebraSql.Proofs.TidyQueries
import AlgebraSql.Proofs.WholeNumbers

/-!
# Texts of row patterns — what stands in `PATTERN (…)` is read as the pattern.

A pattern in an expression becomes a node, and the node a text.  If no repetition is repeated itself, counts are written
in digits and an anchored pattern is no bare alternation, a reader of row patterns takes the text apart into the pattern.
-/

open AlgebraSql.Convert

namespace AlgebraSql.Render

open Sql

namespace MatchPattern

/-! ## Expressions and nodes -/

/-- A maximum as a number; minus one leaves a repetition unbounded. -/
def maximum : Option Nat → Int
  | some n => n
  | none => -1

/-- A count as the end of a repetition. -/
def count (n : Int) : Value := .number (Double.ofDecimal (Decimal.ofInt n))

mutual

/-- The expression for a pattern. -/
def scalar {ρ : Type} : MatchPattern String → Scalar ρ
  | .leaf v => .literal (Literal.char v)
  | .concat items => .patternConcat (scalars items)
  | .alter items => .patternAlter (scalars items)
  | .repeated item min max reluctant =>
    .patternQuantifier item.scalar (count min) (count (maximum max)) reluctant

def scalars {ρ : Type} : List (MatchPattern String) → List (Scalar ρ)
  | [] => []
  | item :: items => item.scalar :: scalars items

end

mutual

/-- The node for a pattern. -/
def node : MatchPattern String → Node
  | .leaf v => .identifier v
  | .concat items => .mk .patternConcat [("expressions", .nodes (nodes items))]
  | .alter items => .mk .patternAlternation [("expressions", .nodes (nodes items))]
  | .repeated item min max reluctant =>
    .mk .patternQuantifier [("this", .node item.node), ("min", .number (.finite (Decimal.ofInt min))),
      ("max", .number (.finite (Decimal.ofInt (maximum max)))), ("reluctant", .flag reluctant)]

def nodes : List (MatchPattern String) → List Node
  | [] => []
  | item :: items => item.node :: nodes items

end

/-- A count is a number that is its own rounding. -/
def IsCount (n : Nat) : Prop := (Decimal.ofInt n).rounded? = some (Decimal.ofInt n)

/-- Concatenations and alternations have items, and the counts of a repetition are in order. -/
def WellBuilt : MatchPattern String → Prop
  | .leaf _ => True
  | .concat items | .alter items => items ≠ []
  | .repeated _ min max _ => IsCount min ∧ ∀ n ∈ max, IsCount n ∧ min ≤ n ∧ 1 ≤ n

/-- A repetition of no repetition, with counts that are written in digits. -/
def RepeatsPlainly : MatchPattern String → Prop
  | .repeated item min max _ => item.isRepeated = false ∧ min < 10 ^ 21 ∧ ∀ n ∈ max, n < 10 ^ 21
  | _ => True

/-- **`Legible`** — repetitions are plain, and an anchored pattern has a single alternative. -/
def Legible (start stop : Bool) (p : MatchPattern String) : Prop :=
  p.Every RepeatsPlainly ∧ ((start || stop) = true → (p.map Mark.variable).choices.length = 1)

/-- The counts of a repetition are numbers that are written in digits. -/
def Counted : MatchPattern String → Prop
  | .repeated _ min max _ => (IsCount min ∧ min < 10 ^ 21) ∧ ∀ n ∈ max, IsCount n ∧ n < 10 ^ 21
  | _ => True

section

variable {α : Type} {a b r : MatchPattern α → Prop}

mutual

/-- Two properties of all parts of a pattern give what they imply together. -/
theorem Every.combine (himp : ∀ p, a p → b p → r p) : ∀ {p : MatchPattern α}, p.Every a → p.Every b → p.Every r
  | .leaf _, ha, hb => himp _ ha hb
  | .concat _, ha, hb | .alter _, ha, hb => ⟨himp _ ha.1 hb.1, EveryOf.combine himp ha.2 hb.2⟩
  | .repeated _ _ _ _, ha, hb => ⟨himp _ ha.1 hb.1, Every.combine himp ha.2 hb.2⟩

theorem EveryOf.combine (himp : ∀ p, a p → b p → r p) :
    ∀ {items : List (MatchPattern α)}, EveryOf a items → EveryOf b items → EveryOf r items
  | [], _, _ => trivial
  | _ :: _, ha, hb => ⟨Every.combine himp ha.1 hb.1, EveryOf.combine himp ha.2 hb.2⟩

end

end

theorem apart_of_wellBuilt {p : MatchPattern String} (hbuilt : p.Every WellBuilt) (hplain : p.Every RepeatsPlainly) :
    p.Every Apart := by
  refine hbuilt.combine (fun q hq hplain => ?_) hplain
  cases q with
  | leaf _ => exact trivial
  | concat _ | alter _ => exact hq
  | repeated _ _ _ _ => exact hplain.1

theorem counted_of_wellBuilt {p : MatchPattern String} (hbuilt : p.Every WellBuilt) (hplain : p.Every RepeatsPlainly) :
    p.Every Counted := by
  refine hbuilt.combine (fun q hq hplain => ?_) hplain
  cases q with
  | leaf _ | concat _ | alter _ => exact trivial
  | repeated _ _ _ _ =>
    exact ⟨⟨hq.1, hplain.2.1⟩, fun n hn => ⟨(hq.2 n hn).1, hplain.2.2 n hn⟩⟩

/-! ## Translation -/

section

variable {ρ : Type} {env : Env} {sub : ρ → ConvertM Node} {inputs : Aliases} {qualified : Bool}

/-- A count comes back from its text. -/
theorem countOf_exact {n : Nat} (h : IsCount n) (hdigits : n < 10 ^ 21) :
    countOf (some (.literal (Literal.exact (count n)) : Scalar ρ))
      = .ok (.finite (Decimal.ofInt n)) := by
  have htext : (count n).toText = String.ofList (Nat.toDigits 10 n) :=
    (Double.toText_ofDecimal h).trans (Decimal.toText_ofNat hdigits)
  rw [Literal.exact, htext, plainText_digits (digits_toDigits n), countOf, Quantity.ofText_digits hdigits h]

theorem countOf_maximum {max : Option Nat} (h : ∀ n ∈ max, IsCount n ∧ n < 10 ^ 21) :
    countOf (some (.literal (Literal.exact (count (maximum max))) : Scalar ρ))
      = .ok (.finite (Decimal.ofInt (maximum max))) := by
  cases max with
  | some n => exact countOf_exact (h n rfl).1 (h n rfl).2
  | none =>
    -- minus one is the only maximum with a sign
    have hminus : Quantity.ofText (plainText (count (-1)).toText) = .finite (Decimal.ofInt (-1)) := by decide +kernel
    exact congrArg Except.ok hminus

mutual

/-- The expression for a pattern is translated into the node for it. -/
theorem gives_scalar : ∀ p : MatchPattern String, p.Every Counted → ∀ st,
    (scalarNode env sub (.rowPattern inputs qualified) p.scalar).Gives st p.node st
  | .leaf v, _, st => rfl
  | .concat items, h, st => by
    exact (ConvertM.gives_bind ..).mpr ⟨_, _, gives_scalars items h.2 st, rfl⟩
  | .alter items, h, st => by
    exact (ConvertM.gives_bind ..).mpr ⟨_, _, gives_scalars items h.2 st, rfl⟩
  | .repeated item min max reluctant, h, st => by
    refine (ConvertM.gives_bind ..).mpr ⟨_, _, gives_scalar item h.2 st, ?_⟩
    have hmin := countOf_exact (ρ := ρ) h.1.1.1 h.1.1.2
    have hmax := countOf_maximum (ρ := ρ) h.1.2
    refine (ConvertM.gives_lift ..).mpr ⟨?_, rfl⟩
    simp only [quantifierNode, List.head?_cons, List.drop_succ_cons, List.drop_zero, hmin, hmax, bind, Except.bind]
    cases reluctant <;> rfl

theorem gives_scalars : ∀ items : List (MatchPattern String), EveryOf Counted items → ∀ st,
    (scalarNodes env sub (.rowPattern inputs qualified) (scalars items)).Gives st (nodes items) st
  | [], _, st => rfl
  | item :: items, h, st => by
    refine (ConvertM.gives_bind ..).mpr ⟨_, _, gives_scalar item h.1 st, ?_⟩
    exact (ConvertM.gives_bind ..).mpr ⟨_, _, gives_scalars items h.2 st, rfl⟩

end

end

/-! ## Texts -/

section

variable {x : Lexis} {s : Setting}

/-- Characters that open nothing, apart from blanks, stand for themselves. -/
theorem fallsInto_signs {text : String} (h : ∀ c ∈ text.toList, x.opens c = false ∧ c ≠ ' ') :
    FallsInto x text (signs text) := by
  refine ⟨_, falls_signs fun c hc => (h c hc).1, ?_⟩
  refine List.filter_eq_self.mpr fun f hf => ?_
  obtain ⟨c, hc, rfl⟩ := List.mem_map.mp hf
  simpa using (h c hc).2

/-- The signs of repetitions. -/
def repetitionSigns : List Char := ['*', '+', '?', '\x7b', ',', '\x7d']

/-- The text has only digits and the signs of repetitions. -/
def isSignText (text : String) : Bool := text.toList.all fun c => repetitionSigns.contains c || c.isDigit

theorem isSignText_append {a b : String} (ha : isSignText a = true) (hb : isSignText b = true) :
    isSignText (a ++ b) = true := by
  unfold isSignText at ha hb ⊢
  rw [String.toList_append, List.all_append, ha, hb]
  rfl

theorem isSignText_digits (n : Nat) : isSignText (String.ofList (Nat.toDigits 10 n)) = true := by
  unfold isSignText
  rw [String.toList_ofList, List.all_eq_true]
  intro c hc
  rw [digits_toDigits n c hc, Bool.or_true]

theorem isSignText_repetitionText (min : Nat) (max : Option Nat) : isSignText (repetitionText min max) = true := by
  have hmin := isSignText_append (a := "\x7b") (by decide) (isSignText_digits min)
  unfold repetitionText
  split
  · decide
  split
  · decide
  split
  · decide
  cases max with
  | none => exact isSignText_append hmin (by decide)
  | some max =>
    dsimp only
    split
    · exact isSignText_append hmin (by decide)
    · exact isSignText_append (isSignText_append (isSignText_append hmin (by decide)) (isSignText_digits max)) (by decide)

theorem fallsInto_repetitionText (hx : x.MarksNames) (min : Nat) (max : Option Nat) :
    FallsInto x (repetitionText min max) (signs (repetitionText min max)) := by
  have hseparators : (repetitionSigns.all fun c => isSeparator c && c != ' ') = true := by decide
  have hall := isSignText_repetitionText min max
  refine fallsInto_signs fun c hc => ?_
  rcases Bool.or_eq_true_iff.mp (List.all_eq_true.mp hall c hc) with hsign | hdigit
  · have hkept := List.all_eq_true.mp hseparators c (List.contains_iff_mem.mp hsign)
    obtain ⟨hseparator, hblank⟩ : isSeparator c = true ∧ c ≠ ' ' := by simpa using hkept
    exact ⟨opens_of_isSeparator hx hseparator, hblank⟩
  · refine ⟨opens_of_digit hx (Or.inl hdigit), ?_⟩
    rintro rfl
    cases hdigit

/-- The sign of a repetition begins no word. -/
theorem startsApart_repetitionText (min : Nat) (max : Option Nat) : startsApart (repetitionText min max) = true := by
  have hbrace : ∀ a b : String, startsApart ("\x7b" ++ a ++ b) = true := fun a b =>
    startsApart_append (startsApart_append (by decide) a) b
  unfold repetitionText
  split
  · decide
  split
  · decide
  split
  · decide
  cases max with
  | none => exact hbrace _ _
  | some max =>
    dsimp only
    split
    · exact hbrace _ _
    · exact startsApart_append (startsApart_append (hbrace _ _) _) _

/-- A repetition behind a text. -/
theorem fallsInto_repetition (hx : x.MarksNames) {a : String} {fa : List Fragment} (ha : FallsInto x a fa) (min : Nat)
    (max : Option Nat) (reluctant : Bool) :
    FallsInto x (a ++ repetitionText min max ++ (if (some reluctant == some true) = true then "?" else ""))
      (fa ++ signs (repetitionText min max) ++ signs (if reluctant then "?" else "")) := by
  have hstarts := startsApart_repetitionText min max
  have hrepeated := ha.append (fallsInto_repetitionText hx min max) fun rest _ => endsName_of_startsApart hstarts rest
  cases reluctant with
  | false =>
    rw [if_neg (by decide), if_neg (by decide), String.append_empty]
    exact (List.append_nil (_ : List Fragment)).symm ▸ hrepeated
  | true =>
    have hmark : FallsInto x "?" (signs "?") := fallsInto_signs fun c hc => by
      rw [List.mem_singleton.mp hc]
      exact ⟨opens_of_isSeparator hx (by decide), by decide⟩
    exact hrepeated.append hmark fun rest _ => endsName_cons (by decide) rest

/-- A count is another one if the numbers are equal. -/
theorem isCount_ofInt (n m : Int) : Target.isCount n (some (.number (.finite (Decimal.ofInt m)))) = decide (m = n) := by
  show ((compare (m * 1) (n * 1) == .eq) : Bool) = _
  rw [mul_one, mul_one, Bool.eq_iff_iff, beq_iff_eq, compare_eq_iff_eq, decide_eq_true_iff]

theorem sameCount_ofInt (n m : Int) : Target.sameCount (some (.number (.finite (Decimal.ofInt n))))
    (some (.number (.finite (Decimal.ofInt m)))) = decide (n = m) := isCount_ofInt m n

/-- The sign for a repetition is that of its counts. -/
theorem quantifierText_eq {min : Nat} {max : Option Nat} (hmin : min < 10 ^ 21) (hmax : ∀ n ∈ max, n < 10 ^ 21) :
    Target.quantifierText (some (.number (.finite (Decimal.ofInt min))))
      (some (.number (.finite (Decimal.ofInt (maximum max))))) = repetitionText min max := by
  have htext : ∀ n : Nat, n < 10 ^ 21 → Target.countText (some (.number (.finite (Decimal.ofInt n))))
      = String.ofList (Nat.toDigits 10 n) := fun n hn => Decimal.toText_ofNat hn
  unfold Target.quantifierText repetitionText
  simp only [isCount_ofInt, sameCount_ofInt, htext min hmin]
  cases max with
  | none => simp [maximum, Nat.cast_eq_one]
  | some max =>
    have hdigits := htext max (hmax max rfl)
    have hminus : ¬ (max : Int) = -1 := by omega
    simp [maximum, hdigits, hminus]

/-- Texts one after the other. -/
theorem fallsInto_sequence (hx : x.MarksNames) {items : List (MatchPattern String)} {texts : List String}
    (h : List.Forall₂ (fun item a => FallsInto x a (enclosedIf item.isAlter item.fragments)) items texts) :
    FallsInto x (" ".intercalate texts) (sequenceFragments items) := by
  induction h with
  | nil => exact ⟨[], falls_nil, rfl⟩
  | @cons item a items texts ha hrest ih =>
    rw [sequenceFragments]
    cases hrest with
    | nil => exact (List.append_nil (_ : List Fragment)).symm ▸ ha
    | cons _ _ =>
      rw [String.intercalate_cons_cons]
      exact ha.spaced hx ih

/-- Texts with bars between them. -/
theorem fallsInto_branches (hx : x.MarksNames) {items : List (MatchPattern String)} {texts : List String}
    (h : List.Forall₂ (fun item a => FallsInto x a item.fragments) items texts) :
    FallsInto x (" | ".intercalate texts) (branchFragments items) := by
  induction h with
  | nil => exact ⟨[], falls_nil, rfl⟩
  | @cons item a items texts ha hrest ih =>
    cases hrest with
    | nil => exact ha
    | cons _ _ =>
      have hbar : FallsInto x "|" [.sign '|'] := fallsInto_signs fun c hc => by
        rw [List.mem_singleton.mp hc]
        exact ⟨opens_of_isSeparator hx (by decide), by decide⟩
      have hspelled : (" | " : String) = " " ++ "|" ++ " " := rfl
      have hjoined := (ha.spaced hx hbar).spaced hx ih
      rw [List.append_assoc] at hjoined
      rw [String.intercalate_cons_cons, hspelled, ← String.append_assoc, ← String.append_assoc]
      exact hjoined

/-- A rendering for each piece of a list of patterns. -/
theorem yields_pieces {mayFail : Prop} {f : Piece → RenderM String} {r : MatchPattern String → String → Prop} :
    ∀ {items : List (MatchPattern String)}, (∀ item ∈ items, Yields mayFail (f (piece s item.node)) (r item)) →
      Yields mayFail ((pieces s (nodes items)).mapM f) (List.Forall₂ r items)
  | [], _ => by
    rw [nodes, pieces, List.mapM_nil]
    exact yields_pure .nil
  | item :: items, h => by
    rw [nodes, pieces, List.mapM_cons]
    refine (h item List.mem_cons_self).bind fun a ha => ?_
    exact (yields_pieces fun other hother => h other (List.mem_cons_of_mem _ hother)).map fun texts htexts =>
      .cons ha htexts

theorem is_alternation_node (p : MatchPattern String) : p.node.is .patternAlternation = p.isAlter := by
  cases p <;> rfl

theorem is_compound_node (p : MatchPattern String) :
    (p.node.is .patternConcat || p.node.is .patternAlternation) = p.isCompound := by
  cases p <;> rfl

mutual

/-- The text of the node for a pattern falls into the fragments of the pattern. -/
theorem yields_text (hfits : x.Fits s.style) (hstyle : s.style.MarksNames) {mayFail : Prop} :
    ∀ p : MatchPattern String, p.Every Counted →
      Yields mayFail (piece s p.node).text fun a => FallsInto x a p.fragments
  | .leaf v, _ => by
    rw [piece_text]
    exact yields_pure ⟨_, falls_nameText hfits hstyle v false, rfl⟩
  | .concat items, h => by
    have hx : x.MarksNames := hfits.marksNames hstyle
    rw [piece_text]
    refine Yields.map (yields_pieces fun item hitem => ?_) fun texts htexts => fallsInto_sequence hx htexts
    refine (yields_texts hfits hstyle items h.2 item hitem).map fun a ha => ?_
    rw [piece_node, is_alternation_node]
    exact ha.parenthesized hx _
  | .alter items, h => by
    have hx : x.MarksNames := hfits.marksNames hstyle
    rw [piece_text]
    exact Yields.map (yields_pieces fun item hitem => yields_texts hfits hstyle items h.2 item hitem)
      fun texts htexts => fallsInto_branches hx htexts
  | .repeated item min max reluctant, h => by
    have hx : x.MarksNames := hfits.marksNames hstyle
    rw [piece_text]
    refine (yields_text hfits hstyle item h.2).map fun a ha => ?_
    have hsign := quantifierText_eq h.1.1.2 fun n hn => (h.1.2 n hn).2
    show FallsInto x (parenthesized (item.node.is .patternConcat || item.node.is .patternAlternation) a
      ++ Target.quantifierText (some (.number (.finite (Decimal.ofInt min))))
        (some (.number (.finite (Decimal.ofInt (maximum max)))))
      ++ (if (some reluctant == some true) = true then "?" else "")) _
    rw [is_compound_node, hsign, fragments, ← List.append_assoc]
    exact fallsInto_repetition hx (ha.parenthesized hx _) min max reluctant

theorem yields_texts (hfits : x.Fits s.style) (hstyle : s.style.MarksNames) {mayFail : Prop} :
    ∀ items : List (MatchPattern String), EveryOf Counted items → ∀ item ∈ items,
      Yields mayFail (piece s item.node).text fun a => FallsInto x a item.fragments
  | [], _, _, hitem => by cases hitem
  | first :: items, h, item, hitem => by
    rcases List.mem_cons.mp hitem with heq | hrest
    · rw [heq]
      exact yields_text hfits hstyle first h.1
    · exact yields_texts hfits hstyle items h.2 item hrest

end

/-- A pattern and its anchors. -/
theorem fallsInto_anchored (hx : x.MarksNames) {p : MatchPattern String} {a : String} (ha : FallsInto x a p.fragments)
    (start stop : Bool) :
    FallsInto x ((if start then "^" else "") ++ a ++ (if stop then "$" else "")) (p.anchoredFragments start stop) := by
  have hstart : FallsInto x ((if start then "^" else "") ++ a) (signs (if start then "^" else "") ++ p.fragments) := by
    cases start with
    | true =>
      have hspelled : (if true = true then "^" else "") = String.singleton '^' := rfl
      rw [hspelled]
      exact ha.cons (opens_of_isSeparator hx (by decide)) (by decide)
    | false =>
      rw [if_neg Bool.false_ne_true, String.empty_append]
      exact ha
  cases stop with
  | true =>
    have hmark : FallsInto x "$" (signs "$") := fallsInto_signs fun c hc => by
      rw [List.mem_singleton.mp hc]
      exact ⟨opens_of_isSeparator hx (by decide), by decide⟩
    exact hstart.append hmark fun rest _ => endsName_cons (by decide) rest
  | false =>
    rw [anchoredFragments, if_neg Bool.false_ne_true, String.append_empty]
    exact (List.append_nil (_ : List Fragment)).symm ▸ hstart

/-- What stands in `PATTERN (…)` in the text of a node is the text of its pattern between the anchors. -/
theorem yields_matchText_pattern (hfits : x.Fits s.style) (hstyle : s.style.MarksNames) {n : Node}
    (hk : n.kind = .matchRecognize) {p : MatchPattern String} (hpattern : n.child? "pattern" = some p.node)
    (h : p.Every Counted) :
    Yields s.Complains (piece s n).text fun text => ∃ a before after,
      (FallsInto x a p.fragments ∧ ∃ notices, run s p.node = (.ok a, notices))
        ∧ text = before ++ ("PATTERN (" ++ (if n.flag "strict_start" then "^" else "") ++ a
          ++ (if n.flag "strict_end" then "$" else "") ++ ")") ++ after := by
  have hx : x.MarksNames := hfits.marksNames hstyle
  have hpart : Yields s.Complains ((target s n).part "pattern") fun a =>
      FallsInto x a p.fragments ∧ ∃ notices, run s p.node = (.ok a, notices) := by
    rw [Target.part, one?_target hpattern]
    exact (yields_text hfits hstyle p h).afresh
  have hrender : (target s n).render = (target s n).matchText := by
    have hnode : (target s n).node = n := rfl
    rw [Target.render, hnode, hk]
  rw [piece_text, hrender]
  exact (yields_matchText hx (fun c _ => settles hfits hstyle c) hk hpart).mono fun text htext => htext.2

end

end MatchPattern

/-! ## Row pattern recognition -/

section

variable {x : Lexis} {s : Setting} {env : Env} {sub : Rel → ConvertM Node}

/-- The node for row pattern recognition holds the node of its pattern and the anchors. -/
theorem rowPatternResult_pattern {spec : RowPattern Expr} {p : MatchPattern String} (hpattern : spec.pattern = p.scalar)
    (hcounted : p.Every MatchPattern.Counted) {rel : Rel} {y r : Result} {st st' : State}
    (h : (rowPatternResult env sub spec rel y).Gives st r st') :
    r.node.kind = .matchRecognize ∧ r.node.child? "pattern" = some p.node
      ∧ r.node.flag "strict_start" = spec.strictStart ∧ r.node.flag "strict_end" = spec.strictEnd := by
  simp only [rowPatternResult, ConvertM.gives_bind, ConvertM.gives_lift] at h
  -- of what is translated on the way only the pattern is followed
  obtain ⟨order, s₁, -, item, s₂, -, partition, s₃, -, measures, s₄, -, pattern, s₅, hgives,
    within, s₆, -, define, s₇, -, h⟩ := h
  obtain ⟨rfl, rfl⟩ : pattern = p.node ∧ s₅ = s₄ := by
    rw [hpattern] at hgives
    exact hgives.unique (MatchPattern.gives_scalar p hcounted s₄)
  rw [(makeResult_traits h).1]
  refine ⟨rfl, ?_⟩
  cases order <;> cases hafter : afterSymbol spec.after <;>
    simp [Node.child?, Node.flag, Node.arg?, Node.optional]

/-- **Row patterns** — a pattern that callers build is always translated.  If it is legible, what stands in
`PATTERN (…)` in the text of a row pattern recognition is the text of its node between the anchors, and it is read as the
pattern between the anchors, however concatenations and alternations nest.  A text is missing only if the caller asks for
complaints. -/
theorem readPattern_run (hfits : x.Fits s.style) (hstyle : s.style.MarksNames) {spec : RowPattern Expr}
    {p : MatchPattern String} (hpattern : spec.pattern = p.scalar) (hbuilt : p.Every MatchPattern.WellBuilt)
    (hlegible : p.Legible spec.strictStart spec.strictEnd) {rel : Rel} {y r : Result} {st st' : State}
    (h : (rowPatternResult env sub spec rel y).Gives st r st') :
    (∀ inputs qualified st, (scalarNode env sub (.rowPattern inputs qualified) spec.pattern).Gives st p.node st)
      ∧ (¬ s.Complains → ∃ text notices, run s r.node = (.ok text, notices))
      ∧ ∀ text notices, run s r.node = (.ok text, notices) → ∃ a before after inside q,
        (∃ notices, run s p.node = (.ok a, notices))
          ∧ inside = (if spec.strictStart then "^" else "") ++ a ++ (if spec.strictEnd then "$" else "")
          ∧ text = before ++ ("PATTERN (" ++ inside ++ ")") ++ after
          ∧ x.readPattern inside = some q ∧ q.choices = (p.anchored spec.strictStart spec.strictEnd).choices := by
  have hcounted := MatchPattern.counted_of_wellBuilt hbuilt hlegible.1
  have hapart := MatchPattern.apart_of_wellBuilt hbuilt hlegible.1
  obtain ⟨hk, hnode, hstart, hstop⟩ := rowPatternResult_pattern hpattern hcounted h
  have hyields := MatchPattern.yields_matchText_pattern hfits hstyle hk hnode hcounted
  refine ⟨fun inputs qualified st => ?_, fun hnever => ?_, fun text notices hrun => ?_⟩
  · rw [hpattern]
    exact MatchPattern.gives_scalar p hcounted st
  · obtain ⟨text, notices, -, hrun⟩ := hyields.value hnever
    exact ⟨text, [] ++ notices, hrun []⟩
  · obtain ⟨a, before, after, ⟨hinto, hown⟩, htext⟩ := hyields.of_run hrun
    rw [hstart, hstop] at htext
    have hanchored := MatchPattern.fallsInto_anchored (hfits.marksNames hstyle) hinto spec.strictStart spec.strictEnd
    obtain ⟨q, hq, hchoices⟩ := readPattern_of_fallsInto hanchored (MatchPattern.reads_anchored hapart hlegible.2)
    refine ⟨a, before, after, _, q, hown, rfl, ?_, hq, hchoices⟩
    rw [htext]
    simp only [String.append_assoc]

end

/-! ## Patterns over a table -/

/-- Rows of one integer column that are searched for a pattern. -/
def searching (p : MatchPattern String) (start stop : Bool) : RowPattern Expr :=
  { pattern := p.scalar, definitions := [("A", .literal (Literal.boolean true))], strictStart := start, strictEnd := stop }

def searchedTable : Result :=
  { node := .mk .table [("this", .node (.identifier "t"))], clauses := [.from], neededAlias := none,
    fields := [⟨"a", DataType.integer⟩], aliases := [("t", [⟨"a", DataType.integer⟩])] }

/-- The search in the table, its sub-queries left out. -/
def searchResult (p : MatchPattern String) (start stop : Bool) : ConvertM Result :=
  rowPatternResult (Env.plain Dialect.ansi) (fun _ => pure Node.null) (searching p start stop)
    (.rowPattern (.scan ["t"] [⟨"a", DataType.integer⟩]) (searching p start stop)) searchedTable

def searchNode (p : MatchPattern String) (start stop : Bool) : Node :=
  .mk .matchRecognize [("this", .node searchedTable.node), ("partition_by", .nodes []), ("measures", .nodes []),
    ("rows", .text "ONE ROW PER MATCH"), ("after", .text "SKIP TO NEXT ROW"), ("pattern", .node p.node),
    ("strict_start", .flag start), ("strict_end", .flag stop), ("subsets", .nodes []),
    ("define", .nodes [.aliased (.boolean true) "A"])]

/-- The search gives its node, whatever the pattern. -/
theorem gives_searchResult {p : MatchPattern String} (hcounted : p.Every MatchPattern.Counted) (start stop : Bool) :
    ∃ r st, (searchResult p start stop).Gives {} r st ∧ r.node = searchNode p start stop := by
  have hgives : ∀ inputs st, (scalarNode (Env.plain Dialect.ansi) (fun _ : Rel => pure Node.null)
      (.rowPattern inputs false) p.scalar).Gives st p.node st := fun inputs st => MatchPattern.gives_scalar p hcounted st
  obtain ⟨r, st, hmade, hnode⟩ : ∃ r st, (makeResult (Env.plain Dialect.ansi) (searchNode p start stop) [.from]
      (.rowPattern (.scan ["t"] [⟨"a", DataType.integer⟩]) (searching p start stop)) none).Gives {} r st
      ∧ r.node = searchNode p start stop := ⟨_, _, rfl, rfl⟩
  refine ⟨r, st, ?_, hnode⟩
  simp only [searchResult, rowPatternResult, ConvertM.gives_bind, ConvertM.gives_lift]
  exact ⟨[], {}, ⟨rfl, rfl⟩, searchedTable.node, {}, ⟨rfl, rfl⟩, [], {}, ⟨rfl, rfl⟩, [], {}, rfl, p.node, {}, hgives _ _,
    none, {}, ⟨rfl, rfl⟩, [.aliased (.boolean true) "A"], {}, rfl, hmade⟩

/-- The text of the search, with what stands in `PATTERN (…)`. -/
def searchText (inside : String) : String :=
  "t MATCH_RECOGNIZE (ONE ROW PER MATCH AFTER MATCH SKIP TO NEXT ROW PATTERN (" ++ inside ++ ") DEFINE A AS TRUE)"

/-- `(A | B){1,3}? C+` -/
def choiceThenRun : MatchPattern String :=
  .concat [.repeated (.alter [.leaf "A", .leaf "B"]) 1 (some 3) true, .repeated (.leaf "C") 1 none false]

set_option maxRecDepth 2000 in
/-- An anchored pattern with a reluctant repetition of two variables is read as it is. -/
theorem readPattern_run_choice :
    let x := Lexis.of Dialect.ansi
    let s := Dialect.ansi.setting {}
    let spec := searching choiceThenRun true true
    let text := searchText "^(A | B)\x7b1,3\x7d? C+$"
    x.Fits s.style ∧ s.style.MarksNames ∧ spec.pattern = choiceThenRun.scalar
      ∧ choiceThenRun.Every MatchPattern.WellBuilt ∧ choiceThenRun.Legible true true
      ∧ ∃ r st, (searchResult choiceThenRun true true).Gives {} r st ∧ run s r.node = (.ok text, [])
        ∧ ∃ a before after inside q, (∃ notices, run s choiceThenRun.node = (.ok a, notices))
          ∧ inside = "^" ++ a ++ "$" ∧ text = before ++ ("PATTERN (" ++ inside ++ ")") ++ after
          ∧ x.readPattern inside = some q ∧ q.choices = (choiceThenRun.anchored true true).choices := by
  have hrun : run (Dialect.ansi.setting {}) (searchNode choiceThenRun true true)
      = (.ok (searchText "^(A | B)\x7b1,3\x7d? C+$"), []) := by rfl
  intro x s spec text
  have hd : Dialect.ansi ∈ Dialect.all := List.mem_cons_self
  have hfits : x.Fits s.style := fits_of_mem hd
  have hstyle : s.style.MarksNames := marksNames_of_mem hd
  have hcount : ∀ n : Nat, n < 4 → MatchPattern.IsCount n := fun n hn => Decimal.rounded?_ofInt (by omega)
  have hbuilt : choiceThenRun.Every MatchPattern.WellBuilt := by
    simp [choiceThenRun, MatchPattern.Every, MatchPattern.EveryOf, MatchPattern.WellBuilt, hcount]
  have hlegible : choiceThenRun.Legible true true := by
    simp [choiceThenRun, MatchPattern.Legible, MatchPattern.Every, MatchPattern.EveryOf, MatchPattern.RepeatsPlainly,
      MatchPattern.isRepeated, MatchPattern.map, MatchPattern.choices]
  obtain ⟨r, st, hgives, hnode⟩ := gives_searchResult (MatchPattern.counted_of_wellBuilt hbuilt hlegible.1) true true
  rw [← hnode] at hrun
  obtain ⟨-, -, hread⟩ := readPattern_run hfits hstyle rfl hbuilt hlegible hgives
  exact ⟨hfits, hstyle, rfl, hbuilt, hlegible, r, st, hgives, hrun, hread text [] hrun⟩

/-- `(A*)?` -/
def optionalRun : MatchPattern String := .repeated (.repeated (.leaf "A") 0 none false) 0 (some 1) false

/-- `A | B` -/
def eitherOf : MatchPattern String := .alter [.leaf "A", .leaf "B"]

/-- Variables of one letter are read as such. -/
theorem fallsInto_variable {x : Lexis} {v : String} (hv : v ∈ ["A", "B"]) : FallsInto x v [.token (.name v)] := by
  obtain ⟨hword, hof⟩ := (by decide +kernel : ∀ v ∈ ["A", "B"], isWord v.toList = true
    ∧ withoutBlanks [.token (Lexeme.ofWord v)] = [.token (.name v)]) v hv
  exact ⟨_, falls_word hword, hof⟩

/-- A question mark behind the sign of a run makes the run reluctant. -/
theorem readPattern_reluctantRun {x : Lexis} (hx : x.MarksNames) : ∃ q, x.readPattern "A*?" = some q
    ∧ q.choices = [[.repeated [[.leaf (.variable "A")]] 0 none true]] := by
  have hinto := MatchPattern.fallsInto_repetition hx (fallsInto_variable (v := "A") (by decide)) 0 none true
  have hspelled : "A" ++ repetitionText 0 none ++ (if (some true == some true) = true then "?" else "") = "A*?" := by
    decide
  rw [hspelled] at hinto
  exact readPattern_of_fallsInto hinto (MatchPattern.reads (.repeated (.leaf "A") 0 none true) ⟨rfl, trivial⟩).alone

/-- Anchors around alternatives belong to the first and to the last one. -/
theorem readPattern_anchoredEither {x : Lexis} (hx : x.MarksNames) : ∃ q, x.readPattern "^A | B$" = some q
    ∧ q.choices = [[.leaf .start, .leaf (.variable "A")], [.leaf (.variable "B"), .leaf .stop]] := by
  have hitems : List.Forall₂ (fun (item : MatchPattern String) a => FallsInto x a item.fragments)
      [.leaf "A", .leaf "B"] ["A", "B"] :=
    .cons (fallsInto_variable (by decide)) (.cons (fallsInto_variable (by decide)) .nil)
  have hspelled : " | ".intercalate ["A", "B"] = "A | B" := by decide
  have hinner : FallsInto x "A | B" eitherOf.fragments := hspelled ▸ MatchPattern.fallsInto_branches hx hitems
  have hterm : ∀ v, ReadsAsTerms [.token (.name v)] [.leaf (.variable v)] := fun v => (MatchPattern.reads_leaf v).item
  exact readPattern_of_fallsInto (MatchPattern.fallsInto_anchored hx hinner true true)
    (((MatchPattern.terms_anchor true).append (hterm "A")).choices.append
      ((hterm "B").append (MatchPattern.terms_anchor false)).choices)

set_option maxRecDepth 2000 in
/-- An optional run is written as `A*?` and read as a reluctant run.  Anchors around alternatives are read as parts of the
first and the last one. -/
theorem readPattern_misread :
    let x := Lexis.of Dialect.ansi
    let s := Dialect.ansi.setting {}
    (optionalRun.Every MatchPattern.WellBuilt
      ∧ ∃ r st q, (searchResult optionalRun false false).Gives {} r st ∧ run s r.node = (.ok (searchText "A*?"), [])
        ∧ x.readPattern "A*?" = some q ∧ q.choices ≠ (optionalRun.anchored false false).choices)
    ∧ eitherOf.Every MatchPattern.WellBuilt
      ∧ ∃ r st q, (searchResult eitherOf true true).Gives {} r st ∧ run s r.node = (.ok (searchText "^A | B$"), [])
        ∧ x.readPattern "^A | B$" = some q ∧ q.choices ≠ (eitherOf.anchored true true).choices := by
  have hoptional : run (Dialect.ansi.setting {}) (searchNode optionalRun false false) = (.ok (searchText "A*?"), []) := by
    rfl
  have heither : run (Dialect.ansi.setting {}) (searchNode eitherOf true true) = (.ok (searchText "^A | B$"), []) := by
    rfl
  intro x s
  have hx : x.MarksNames := Or.inl rfl
  have hcount : ∀ n : Nat, n < 2 → MatchPattern.IsCount n := fun n hn => Decimal.rounded?_ofInt (by omega)
  obtain ⟨q, hq, hchoices⟩ := readPattern_reluctantRun hx
  obtain ⟨q', hq', hchoices'⟩ := readPattern_anchoredEither hx
  have hcounted : optionalRun.Every MatchPattern.Counted := by
    simp [optionalRun, MatchPattern.Every, MatchPattern.Counted, hcount]
  obtain ⟨r, st, hgives, hnode⟩ := gives_searchResult hcounted false false
  obtain ⟨r', st', hgives', hnode'⟩ := gives_searchResult (p := eitherOf)
    (by simp [eitherOf, MatchPattern.Every, MatchPattern.EveryOf, MatchPattern.Counted]) true true
  refine ⟨⟨?_, r, st, q, hgives, hnode ▸ hoptional, hq, ?_⟩, ?_, r', st', q', hgives', hnode' ▸ heither, hq', ?_⟩
  · simp [optionalRun, MatchPattern.Every, MatchPattern.WellBuilt, hcount]
  · rw [hchoices]
    simp [optionalRun, MatchPattern.anchored, MatchPattern.map, MatchPattern.choices]
  · simp [eitherOf, MatchPattern.Every, MatchPattern.EveryOf, MatchPattern.WellBuilt]
  · rw [hchoices']
    simp [eitherOf, MatchPattern.anchored, MatchPattern.map, MatchPattern.mapAll, MatchPattern.choices,
      MatchPattern.sequence]

end AlgebraSql.Render
