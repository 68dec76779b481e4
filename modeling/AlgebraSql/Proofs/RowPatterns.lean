import AlgebraSql.Proofs.Fragments
import AlgebraSql.Proofs.Numerals

/-!
# Row patterns — the grammar that they are read by.

A row pattern is read as alternatives of terms one after the other, a term as an anchor or as a variable or a pattern in
parentheses with one repetition behind it.  Patterns that differ only in how concatenations and alternations nest have
the same alternatives.  The fragments of a pattern whose repetitions stand apart are read as its alternatives.
-/

namespace AlgebraSql.Render

/-! ## Patterns -/

/-- A row pattern over variables, or over variables and anchors. -/
inductive MatchPattern (α : Type) where
  | leaf (a : α)
  | concat (items : List (MatchPattern α))
  | alter (items : List (MatchPattern α))
  /-- Without a maximum the repetition is unbounded. -/
  | repeated (item : MatchPattern α) (min : Nat) (max : Option Nat) (reluctant : Bool)

/-- A variable, or an edge of the rows that a pattern is matched with. -/
inductive Mark where
  | start
  | variable (name : String)
  | stop
  deriving Repr, DecidableEq

/-- A part of an alternative: no concatenation, and an alternation or a repeated pattern by its alternatives. -/
inductive Step (α : Type) where
  | leaf (a : α)
  | group (choices : List (List (Step α)))
  | repeated (choices : List (List (Step α))) (min : Nat) (max : Option Nat) (reluctant : Bool)

/-- Alternatives as part of an alternative. -/
def spliced {α : Type} : List (List (Step α)) → List (Step α)
  | [steps] => steps
  | choices => [.group choices]

namespace MatchPattern

variable {α β : Type}

mutual

/-- **`choices`** — the alternatives of a pattern, however concatenations and alternations nest. -/
def choices : MatchPattern α → List (List (Step α))
  | .leaf a => [[.leaf a]]
  | .concat items => [sequence items]
  | .alter items => branches items
  | .repeated item min max reluctant => [[.repeated item.choices min max reluctant]]

/-- The steps of patterns one after the other. -/
def sequence : List (MatchPattern α) → List (Step α)
  | [] => []
  | item :: items => spliced item.choices ++ sequence items

/-- The alternatives of several patterns. -/
def branches : List (MatchPattern α) → List (List (Step α))
  | [] => []
  | item :: items => item.choices ++ branches items

end

mutual

/-- The pattern over other variables. -/
def map (f : α → β) : MatchPattern α → MatchPattern β
  | .leaf a => .leaf (f a)
  | .concat items => .concat (mapAll f items)
  | .alter items => .alter (mapAll f items)
  | .repeated item min max reluctant => .repeated (item.map f) min max reluctant

def mapAll (f : α → β) : List (MatchPattern α) → List (MatchPattern β)
  | [] => []
  | item :: items => item.map f :: mapAll f items

end

mutual

/-- The pattern and all patterns in it have the property. -/
def Every (p : MatchPattern α → Prop) : MatchPattern α → Prop
  | .leaf a => p (.leaf a)
  | .concat items => p (.concat items) ∧ EveryOf p items
  | .alter items => p (.alter items) ∧ EveryOf p items
  | .repeated item min max reluctant => p (.repeated item min max reluctant) ∧ item.Every p

def EveryOf (p : MatchPattern α → Prop) : List (MatchPattern α) → Prop
  | [] => True
  | item :: items => item.Every p ∧ EveryOf p items

end

/-- The pattern between the anchors that are asked for. -/
def anchored (start stop : Bool) (p : MatchPattern String) : MatchPattern Mark :=
  if start || stop then
    .concat ((if start then [.leaf .start] else []) ++ [p.map .variable] ++ (if stop then [.leaf .stop] else []))
  else p.map .variable

def isAlter : MatchPattern α → Bool
  | .alter _ => true
  | _ => false

/-- The pattern has several parts. -/
def isCompound : MatchPattern α → Bool
  | .concat _ | .alter _ => true
  | _ => false

def isRepeated : MatchPattern α → Bool
  | .repeated .. => true
  | _ => false

/-- Concatenations and alternations have items, and no repetition is repeated itself. -/
def Apart : MatchPattern α → Prop
  | .leaf _ => True
  | .concat items | .alter items => items ≠ []
  | .repeated item _ _ _ => item.isRepeated = false

end MatchPattern

/-! ## Reading -/

/-- The digits that fragments begin with, and what follows. -/
def splitDigits : List Fragment → List Char × List Fragment
  | .sign c :: fs => if c.isDigit then (c :: (splitDigits fs).1, (splitDigits fs).2) else ([], .sign c :: fs)
  | fs => ([], fs)

/-- The count that fragments begin with, and what follows. -/
def readCount (fs : List Fragment) : Option (Nat × List Fragment) :=
  if (splitDigits fs).1.isEmpty then none
  else some (Decimal.digitsValue (splitDigits fs).1, (splitDigits fs).2)

/-- The counts of a repetition up to the brace behind them, and what follows. -/
def readBounds (fs : List Fragment) : Option ((Nat × Option Nat) × List Fragment) := do
  let (min, rest) ← readCount fs
  match rest with
  | .sign '\x7d' :: rest => some ((min, some min), rest)
  | .sign ',' :: .sign '\x7d' :: rest => some ((min, none), rest)
  | .sign ',' :: rest => do
    let (max, rest) ← readCount rest
    match rest with
    | .sign '\x7d' :: rest => some ((min, some max), rest)
    | _ => none
  | _ => none

/-- The counts of the repetition that fragments begin with, if there is one, and what follows. -/
def readSign : List Fragment → Option (Option (Nat × Option Nat) × List Fragment)
  | .sign '*' :: fs => some (some (0, none), fs)
  | .sign '+' :: fs => some (some (1, none), fs)
  | .sign '?' :: fs => some (some (0, some 1), fs)
  | .sign '\x7b' :: fs => (readBounds fs).map fun r => (some r.1, r.2)
  | fs => some (none, fs)

/-- A pattern with the repetition behind it, which is reluctant before a question mark. -/
def readRepetition (p : MatchPattern Mark) (fs : List Fragment) : Option (List (MatchPattern Mark) × List Fragment) := do
  match ← readSign fs with
  | (none, rest) => some ([p], rest)
  | (some (min, max), .sign '?' :: rest) => some ([.repeated p min max true], rest)
  | (some (min, max), rest) => some ([.repeated p min max false], rest)

/-- No further term follows. -/
def endsTerms : List Fragment → Bool
  | [] | .sign ')' :: _ | .sign '|' :: _ => true
  | _ => false

/-- What a pattern is read by. -/
inductive PatternPart where
  /-- Alternatives, each of at least one term. -/
  | alternatives
  /-- The alternatives behind a bar, if there is one. -/
  | further
  /-- Terms one after the other. -/
  | terms
  /-- An anchor, or a variable or a pattern in parentheses with a repetition. -/
  | term

/-- Reads a part of a pattern, a term as a single pattern. -/
def PatternPart.read (part : PatternPart) (fs : List Fragment) : Option (List (MatchPattern Mark) × List Fragment) :=
  match part with
  | .alternatives => do
    let (items, rest) ← terms |>.read fs
    if items.isEmpty then none
    else do
      let (others, rest) ← further |>.read rest
      return (.concat items :: others, rest)
  | .further =>
    match fs with
    | .sign '|' :: rest => alternatives |>.read rest
    | _ => some ([], fs)
  | .terms =>
    if endsTerms fs then some ([], fs)
    else do
      let (first, rest) ← term |>.read fs
      let (others, rest) ← terms |>.read rest
      return (first ++ others, rest)
  | .term =>
    match fs with
    | .sign '^' :: rest => some ([.leaf .start], rest)
    | .sign '$' :: rest => some ([.leaf .stop], rest)
    | .token (.name v) :: rest => readRepetition (.leaf (.variable v)) rest
    | .sign '(' :: inner => do
      let (choices, rest) ← alternatives |>.read inner
      match rest with
      | .sign ')' :: rest => readRepetition (.alter choices) rest
      | _ => none
    | _ => none
partial_fixpoint

/-- The pattern that a text is read as, if it is read to its end. -/
def Lexis.readPattern (x : Lexis) (text : String) : Option (MatchPattern Mark) := do
  let fs ← x.fragments text.toList
  match ← PatternPart.alternatives.read (withoutBlanks fs) with
  | (alternatives, []) => some (.alter alternatives)
  | _ => none

/-! ## Writing -/

/-- The sign for a repetition between two counts. -/
def repetitionText (min : Nat) (max : Option Nat) : String :=
  if min = 0 ∧ max = none then "*"
  else if min = 1 ∧ max = none then "+"
  else if min = 0 ∧ max = some 1 then "?"
  else
    let digits (n : Nat) := String.ofList (Nat.toDigits 10 n)
    match max with
    | none => "\x7b" ++ digits min ++ ",\x7d"
    | some max => if min = max then "\x7b" ++ digits min ++ "\x7d" else "\x7b" ++ digits min ++ "," ++ digits max ++ "\x7d"

/-- The characters of a text by themselves. -/
def signs (text : String) : List Fragment := text.toList.map .sign

namespace MatchPattern

mutual

/-- The fragments of a pattern. -/
def fragments : MatchPattern String → List Fragment
  | .leaf v => [.token (.name v)]
  | .concat items => sequenceFragments items
  | .alter items => branchFragments items
  | .repeated item min max reluctant =>
    enclosedIf item.isCompound item.fragments
      ++ (signs (repetitionText min max) ++ signs (if reluctant then "?" else ""))

/-- The fragments of patterns one after the other. -/
def sequenceFragments : List (MatchPattern String) → List Fragment
  | [] => []
  | item :: items => enclosedIf item.isAlter item.fragments ++ sequenceFragments items

/-- The fragments of several alternatives. -/
def branchFragments : List (MatchPattern String) → List Fragment
  | [] => []
  | [item] => item.fragments
  | item :: items => item.fragments ++ .sign '|' :: branchFragments items

end

/-- The fragments of a pattern between anchors. -/
def anchoredFragments (start stop : Bool) (p : MatchPattern String) : List Fragment :=
  signs (if start then "^" else "") ++ p.fragments ++ signs (if stop then "$" else "")

end MatchPattern

/-! ## Repetitions -/

/-- No repetition of what stands before begins here. -/
def Unrepeated (fs : List Fragment) : Prop := readSign fs = some (none, fs)

section

variable {fs rest fa fb : List Fragment}

theorem splitDigits_signs {ds : List Char} (h : Digits ds) {c : Char} (hc : c.isDigit = false) (rest : List Fragment) :
    splitDigits (ds.map .sign ++ .sign c :: rest) = (ds, .sign c :: rest) := by
  induction ds with
  | nil => simp [splitDigits, hc]
  | cons d ds ih =>
    obtain ⟨hd, hds⟩ := List.forall_mem_cons.mp h
    simp [splitDigits, hd, ih hds]

/-- A count is read up to the sign behind it. -/
theorem readCount_digits (n : Nat) {c : Char} (hc : c.isDigit = false) (rest : List Fragment) :
    readCount ((Nat.toDigits 10 n).map .sign ++ .sign c :: rest) = some (n, .sign c :: rest) := by
  have hsome : (Nat.toDigits 10 n).isEmpty = false := by simp [Nat.toDigits_ne_nil]
  rw [readCount, splitDigits_signs (digits_toDigits n) hc rest]
  simp [hsome]

theorem readBounds_exact (n : Nat) (rest : List Fragment) :
    readBounds ((Nat.toDigits 10 n).map .sign ++ .sign '\x7d' :: rest) = some ((n, some n), rest) := by
  rw [readBounds, readCount_digits n (by decide)]
  rfl

theorem readBounds_unbounded (min : Nat) (rest : List Fragment) :
    readBounds ((Nat.toDigits 10 min).map .sign ++ .sign ',' :: .sign '\x7d' :: rest) = some ((min, none), rest) := by
  rw [readBounds, readCount_digits min (by decide)]
  rfl

theorem readBounds_between (min max : Nat) (rest : List Fragment) :
    readBounds ((Nat.toDigits 10 min).map .sign
        ++ .sign ',' :: ((Nat.toDigits 10 max).map .sign ++ .sign '\x7d' :: rest))
      = some ((min, some max), rest) := by
  rw [readBounds, readCount_digits min (by decide)]
  -- the second count begins with a digit, not with the closing brace
  obtain ⟨d, ds, hds⟩ := List.exists_cons_of_ne_nil (Nat.toDigits_ne_nil (n := max) (b := 10))
  have hmax := readCount_digits max (c := '\x7d') (by decide) rest
  have hdigit : d.isDigit = true := digits_toDigits max d (by simp [hds])
  have hother : d ≠ '\x7d' := by
    rintro rfl
    cases hdigit
  rw [hds] at hmax ⊢
  simp only [List.map_cons, List.cons_append] at hmax ⊢
  simp [hmax, hother]

/-- The counts of a repetition are read from its sign. -/
theorem readSign_repetitionText (min : Nat) (max : Option Nat) (rest : List Fragment) :
    readSign (signs (repetitionText min max) ++ rest) = some (some (min, max), rest) := by
  unfold repetitionText
  -- the three counts with a sign of their own
  split
  · rename_i h
    rw [h.1, h.2]
    rfl
  split
  · rename_i h
    rw [h.1, h.2]
    rfl
  split
  · rename_i h
    rw [h.1, h.2]
    rfl
  -- all others in braces
  have hbrace : ∀ fs, readSign (.sign '\x7b' :: fs) = (readBounds fs).map fun r => (some r.1, r.2) := fun _ => rfl
  cases max with
  | none =>
    have hunbounded := readBounds_unbounded min rest
    simp [signs, hbrace, hunbounded]
  | some max =>
    dsimp only
    split
    · rename_i hsame
      obtain rfl := hsame
      have hexact := readBounds_exact min rest
      simp [signs, hbrace, hexact]
    · have hbetween := readBounds_between min max rest
      simp [signs, hbrace, hbetween]

theorem readRepetition_unrepeated (p : MatchPattern Mark) (h : Unrepeated rest) : readRepetition p rest = some ([p], rest) := by
  rw [readRepetition, h]
  rfl

/-- A repetition is read from its sign and the question mark of a reluctant one. -/
theorem readRepetition_signs (p : MatchPattern Mark) (min : Nat) (max : Option Nat) (reluctant : Bool)
    (h : Unrepeated rest) :
    readRepetition p (signs (repetitionText min max) ++ signs (if reluctant then "?" else "") ++ rest)
      = some ([.repeated p min max reluctant], rest) := by
  rw [List.append_assoc, readRepetition, readSign_repetitionText]
  cases reluctant with
  | true => rfl
  | false =>
    have hnone : signs (if false = true then "?" else "") ++ rest = rest := rfl
    rw [hnone]
    simp only [Option.bind_eq_bind, Option.bind_some]
    split
    · rename_i heq
      cases heq
    · rename_i heq
      cases heq
      cases h
    · rename_i heq
      cases heq
      rfl

/-! ## Terms and alternatives -/

/-- The fragments are read as a pattern with these alternatives, and a repetition may follow them. -/
structure ReadsAsPrimary (fs : List Fragment) (choices : List (List (Step Mark))) : Prop where
  unrepeated : ∀ rest, Unrepeated (fs ++ rest)
  begins : ∀ rest, endsTerms (fs ++ rest) = false
  read : ∃ p : MatchPattern Mark, p.choices = choices ∧ ∀ rest, PatternPart.term.read (fs ++ rest) = readRepetition p rest

/-- The fragments are read as terms with these steps, whatever follows them but a repetition. -/
structure ReadsAsTerms (fs : List Fragment) (steps : List (Step Mark)) : Prop where
  unrepeated : ∀ rest, Unrepeated (fs ++ rest)
  read : ∃ ps : List (MatchPattern Mark), ps ≠ [] ∧ MatchPattern.sequence ps = steps ∧ ∀ rest, Unrepeated rest →
    PatternPart.terms.read (fs ++ rest) = (PatternPart.terms.read rest).map fun r => (ps ++ r.1, r.2)

/-- The fragments are read as these alternatives if no further term follows them. -/
structure ReadsAsChoices (fs : List Fragment) (choices : List (List (Step Mark))) : Prop where
  unrepeated : ∀ rest, Unrepeated (fs ++ rest)
  read : ∃ ps : List (MatchPattern Mark), MatchPattern.branches ps = choices ∧ ∀ rest, endsTerms rest = true →
    PatternPart.alternatives.read (fs ++ rest) = (PatternPart.further.read rest).map fun r => (ps ++ r.1, r.2)

/-- Where the terms end nothing is repeated and no term is read. -/
theorem unrepeated_of_endsTerms (h : endsTerms rest = true) : Unrepeated rest := by
  unfold endsTerms at h
  split at h
  · rfl
  · rfl
  · rfl
  · cases h

theorem read_terms_of_endsTerms (h : endsTerms rest = true) : PatternPart.terms.read rest = some ([], rest) := by
  rw [PatternPart.read, if_pos h]

/-- Further alternatives follow only a bar. -/
theorem read_further_bar (fs : List Fragment) :
    PatternPart.further.read (.sign '|' :: fs) = PatternPart.alternatives.read fs :=
  PatternPart.read.eq_def .further _

theorem read_further_closing (fs : List Fragment) :
    PatternPart.further.read (.sign ')' :: fs) = some ([], .sign ')' :: fs) :=
  PatternPart.read.eq_def .further _

theorem read_further_nil : PatternPart.further.read [] = some ([], []) :=
  PatternPart.read.eq_def .further _

/-- A single term. -/
theorem ReadsAsTerms.of_term {p : MatchPattern Mark} (hunrepeated : ∀ rest, Unrepeated (fs ++ rest))
    (hbegins : ∀ rest, endsTerms (fs ++ rest) = false)
    (hread : ∀ rest, Unrepeated rest → PatternPart.term.read (fs ++ rest) = some ([p], rest)) :
    ReadsAsTerms fs (spliced p.choices) := by
  refine ⟨hunrepeated, [p], List.cons_ne_nil _ _, ?_, fun rest hrest => ?_⟩
  · rw [MatchPattern.sequence, MatchPattern.sequence, List.append_nil]
  · rw [PatternPart.read, if_neg (by simp [hbegins rest]), hread rest hrest]
    simp only [Option.bind_eq_bind, Option.bind_some]
    cases PatternPart.terms.read rest <;> rfl

variable {cs ca cb : List (List (Step Mark))} {steps sa sb : List (Step Mark)}

theorem ReadsAsPrimary.terms (h : ReadsAsPrimary fs cs) : ReadsAsTerms fs (spliced cs) := by
  obtain ⟨hunrepeated, hbegins, p, rfl, hread⟩ := h
  refine .of_term hunrepeated hbegins fun rest hrest => ?_
  rw [hread, readRepetition_unrepeated p hrest]

/-- A repetition behind a primary makes one term of both. -/
theorem ReadsAsPrimary.repeated (h : ReadsAsPrimary fs cs) (min : Nat) (max : Option Nat) (reluctant : Bool) :
    ReadsAsTerms (fs ++ (signs (repetitionText min max) ++ signs (if reluctant then "?" else "")))
      [.repeated cs min max reluctant] := by
  obtain ⟨hunrepeated, hbegins, p, rfl, hread⟩ := h
  refine .of_term (p := .repeated p min max reluctant) (fun rest => ?_) (fun rest => ?_) fun rest hrest => ?_
  · rw [List.append_assoc]
    exact hunrepeated _
  · rw [List.append_assoc]
    exact hbegins _
  · rw [List.append_assoc, hread, readRepetition_signs p min max reluctant hrest]

theorem sequence_append (ps qs : List (MatchPattern Mark)) :
    MatchPattern.sequence (ps ++ qs) = MatchPattern.sequence ps ++ MatchPattern.sequence qs := by
  induction ps with
  | nil => rfl
  | cons p ps ih => rw [List.cons_append, MatchPattern.sequence, MatchPattern.sequence, ih, List.append_assoc]

theorem branches_append (ps qs : List (MatchPattern Mark)) :
    MatchPattern.branches (ps ++ qs) = MatchPattern.branches ps ++ MatchPattern.branches qs := by
  induction ps with
  | nil => rfl
  | cons p ps ih => rw [List.cons_append, MatchPattern.branches, MatchPattern.branches, ih, List.append_assoc]

theorem ReadsAsTerms.append (ha : ReadsAsTerms fa sa) (hb : ReadsAsTerms fb sb) :
    ReadsAsTerms (fa ++ fb) (sa ++ sb) := by
  obtain ⟨hunrepeated, ps, hps, rfl, hread⟩ := ha
  obtain ⟨hmiddle, qs, -, rfl, hnext⟩ := hb
  refine ⟨fun rest => ?_, ps ++ qs, by simp [hps], sequence_append ps qs, fun rest hrest => ?_⟩
  · rw [List.append_assoc]
    exact hunrepeated _
  · rw [List.append_assoc, hread _ (hmiddle rest), hnext rest hrest, Option.map_map]
    simp [Function.comp_def]

/-- Terms are one alternative. -/
theorem ReadsAsTerms.choices (h : ReadsAsTerms fs steps) : ReadsAsChoices fs [steps] := by
  obtain ⟨hunrepeated, ps, hps, rfl, hread⟩ := h
  refine ⟨hunrepeated, [.concat ps], rfl, fun rest hrest => ?_⟩
  rw [PatternPart.read, hread rest (unrepeated_of_endsTerms hrest), read_terms_of_endsTerms hrest]
  simp only [Option.map_some, Option.bind_eq_bind, Option.bind_some, List.append_nil, List.isEmpty_iff, hps, if_false]
  cases PatternPart.further.read rest <;> rfl

/-- Alternatives with a bar between them. -/
theorem ReadsAsChoices.append (ha : ReadsAsChoices fa ca) (hb : ReadsAsChoices fb cb) :
    ReadsAsChoices (fa ++ .sign '|' :: fb) (ca ++ cb) := by
  obtain ⟨hunrepeated, ps, rfl, hread⟩ := ha
  obtain ⟨-, qs, rfl, hnext⟩ := hb
  refine ⟨fun rest => ?_, ps ++ qs, branches_append ps qs, fun rest hrest => ?_⟩
  · rw [List.append_assoc]
    exact hunrepeated _
  · rw [List.append_assoc, List.cons_append, hread _ rfl, read_further_bar, hnext rest hrest, Option.map_map]
    simp [Function.comp_def]

/-- Alternatives in parentheses may be repeated. -/
theorem ReadsAsChoices.enclosed (h : ReadsAsChoices fs cs) : ReadsAsPrimary (enclosedIf true fs) cs := by
  obtain ⟨-, ps, rfl, hread⟩ := h
  refine ⟨fun _ => rfl, fun _ => rfl, .alter ps, rfl, fun rest => ?_⟩
  have hinner : PatternPart.alternatives.read (fs ++ .sign ')' :: rest) = some (ps, .sign ')' :: rest) := by
    rw [hread _ rfl, read_further_closing, Option.map_some, List.append_nil]
  have hopening : enclosedIf true fs ++ rest = .sign '(' :: (fs ++ .sign ')' :: rest) := by simp [enclosedIf]
  rw [hopening, PatternPart.read]
  simp only [hinner, Option.bind_eq_bind, Option.bind_some]

end

namespace MatchPattern

/-! ## Trees -/

/-- What the fragments of a pattern are read as: alone, among the items of a concatenation, and before a repetition. -/
structure Reads (p : MatchPattern String) : Prop where
  nonempty : (p.map Mark.variable).choices ≠ []
  alone : ReadsAsChoices p.fragments (p.map .variable).choices
  item : ReadsAsTerms (enclosedIf p.isAlter p.fragments) (spliced (p.map .variable).choices)
  operand : p.isRepeated = false → ReadsAsPrimary (enclosedIf p.isCompound p.fragments) (p.map .variable).choices

/-- A variable stands for itself. -/
theorem reads_leaf (v : String) : (MatchPattern.leaf v).Reads := by
  have hprimary : ReadsAsPrimary [.token (.name v)] [[.leaf (.variable v)]] :=
    ⟨fun _ => rfl, fun _ => rfl, .leaf (.variable v), rfl, fun rest => by
      rw [List.singleton_append, PatternPart.read]⟩
  exact ⟨by simp [map, choices], hprimary.terms.choices, hprimary.terms, fun _ => hprimary⟩

/-- A pattern of terms has one alternative. -/
theorem reads_concat {items : List (MatchPattern String)}
    (h : ReadsAsTerms (sequenceFragments items) (sequence (mapAll Mark.variable items))) : (MatchPattern.concat items).Reads :=
  ⟨by simp [map, choices], h.choices, h, fun _ => h.choices.enclosed⟩

theorem reads_alter {items : List (MatchPattern String)} (hsome : branches (mapAll Mark.variable items) ≠ [])
    (h : ReadsAsChoices (branchFragments items) (branches (mapAll Mark.variable items))) :
    (MatchPattern.alter items).Reads :=
  ⟨hsome, h, h.enclosed.terms, fun _ => h.enclosed⟩

theorem reads_repeated {item : MatchPattern String} (h : item.Reads) (hitem : item.isRepeated = false) (min : Nat)
    (max : Option Nat) (reluctant : Bool) : (MatchPattern.repeated item min max reluctant).Reads := by
  have hterms := (h.operand hitem).repeated min max reluctant
  exact ⟨by simp [map, choices], hterms.choices, hterms, fun hnever => by cases hnever⟩

mutual

/-- **`Reads`** — a pattern whose repetitions stand apart is read as its alternatives. -/
theorem reads : ∀ p : MatchPattern String, p.Every Apart → p.Reads
  | .leaf v, _ => reads_leaf v
  | .concat items, h => reads_concat (reads_sequence items h.1 h.2)
  | .alter items, h => reads_alter (reads_branches items h.1 h.2).1 (reads_branches items h.1 h.2).2
  | .repeated item min max reluctant, h => reads_repeated (reads item h.2) h.1 min max reluctant

theorem reads_sequence : ∀ items : List (MatchPattern String), items ≠ [] → EveryOf Apart items →
    ReadsAsTerms (sequenceFragments items) (sequence (mapAll Mark.variable items))
  | [], hne, _ => absurd rfl hne
  | [item], _, h => by
    rw [sequenceFragments, sequenceFragments, mapAll, mapAll, sequence, sequence, List.append_nil, List.append_nil]
    exact (reads item h.1).item
  | item :: next :: items, _, h =>
    (reads item h.1).item.append (reads_sequence (next :: items) (List.cons_ne_nil _ _) h.2)

theorem reads_branches : ∀ items : List (MatchPattern String), items ≠ [] → EveryOf Apart items →
    branches (mapAll Mark.variable items) ≠ []
      ∧ ReadsAsChoices (branchFragments items) (branches (mapAll Mark.variable items))
  | [], hne, _ => absurd rfl hne
  | [item], _, h => by
    rw [branchFragments, mapAll, mapAll, branches, branches, List.append_nil]
    exact ⟨(reads item h.1).nonempty, (reads item h.1).alone⟩
  | item :: next :: items, _, h =>
    ⟨List.append_ne_nil_of_left_ne_nil (reads item h.1).nonempty _,
      (reads item h.1).alone.append (reads_branches (next :: items) (List.cons_ne_nil _ _) h.2).2⟩

end

/-- A pattern with a single alternative is read as its steps, also behind and before an anchor. -/
theorem terms_of_single : ∀ {p : MatchPattern String} {steps : List (Step Mark)}, p.Every Apart →
    (p.map Mark.variable).choices = [steps] → ReadsAsTerms p.fragments steps
  | .leaf v, _, h, hsteps => by
    have hitem := (reads _ h).item
    rwa [hsteps] at hitem
  | .concat items, _, h, hsteps => by
    have hitem := (reads _ h).item
    rwa [hsteps] at hitem
  | .repeated item min max reluctant, _, h, hsteps => by
    have hitem := (reads _ h).item
    rwa [hsteps] at hitem
  | .alter [], _, h, _ => absurd rfl h.1
  | .alter [item], _, h, hsteps => by
    rw [map, mapAll, mapAll, choices, branches, branches, List.append_nil] at hsteps
    rw [fragments, branchFragments]
    exact terms_of_single h.2.1 hsteps
  | .alter (item :: next :: items), _, h, hsteps => by
    have hfirst := (reads item h.2.1).nonempty
    have hrest := (reads_branches (next :: items) (List.cons_ne_nil _ _) h.2.2).1
    have hlength := congrArg List.length hsteps
    rw [map, mapAll, choices, branches, List.length_append, List.length_singleton] at hlength
    have hone := List.length_pos_of_ne_nil hfirst
    have hother := List.length_pos_of_ne_nil hrest
    omega

/-- An anchor is a term. -/
theorem terms_anchor (start : Bool) : ReadsAsTerms (signs (if start then "^" else "$"))
    [.leaf (if start then .start else .stop)] := by
  refine .of_term (p := .leaf (if start then .start else .stop)) (fun rest => ?_) (fun rest => ?_) fun rest _ => ?_
  · cases start <;> rfl
  · cases start <;> rfl
  · cases start <;> exact PatternPart.read.eq_def .term _

/-- The fragments between anchors are read as the pattern between anchors. -/
theorem reads_anchored {p : MatchPattern String} (h : p.Every Apart) {start stop : Bool}
    (hsingle : (start || stop) = true → (p.map Mark.variable).choices.length = 1) :
    ReadsAsChoices (p.anchoredFragments start stop) (p.anchored start stop).choices := by
  cases hanchors : start || stop with
  | false =>
    obtain ⟨rfl, rfl⟩ : start = false ∧ stop = false := by simpa using hanchors
    have hfragments : p.anchoredFragments false false = p.fragments := List.append_nil _
    rw [hfragments]
    exact (reads p h).alone
  | true =>
    -- anchors are terms of the one alternative; of several they would join the first and the last
    obtain ⟨steps, hsteps⟩ := List.length_eq_one_iff.mp (hsingle hanchors)
    have hterms := terms_of_single h hsteps
    have hchoices : (p.anchored start stop).choices
        = [(if start then [.leaf .start] else []) ++ steps ++ (if stop then [.leaf .stop] else [])] := by
      rw [anchored, if_pos hanchors, choices]
      cases start <;> cases stop <;> simp [sequence, hsteps, spliced, choices]
    rw [hchoices]
    have hstart : ReadsAsTerms (signs (if start then "^" else "") ++ p.fragments)
        ((if start then [.leaf .start] else []) ++ steps) := by
      cases start with
      | true => exact (terms_anchor true).append hterms
      | false => exact hterms
    have hboth : ReadsAsTerms (p.anchoredFragments start stop)
        ((if start then [.leaf .start] else []) ++ steps ++ (if stop then [.leaf .stop] else [])) := by
      cases stop with
      | true => exact hstart.append (terms_anchor false)
      | false =>
        rw [anchoredFragments, if_neg Bool.false_ne_true, if_neg Bool.false_ne_true, List.append_nil]
        exact (List.append_nil (_ : List Fragment)).symm ▸ hstart
    exact hboth.choices

end MatchPattern

/-- A text that falls into the fragments of a pattern is read as the pattern. -/
theorem readPattern_of_fallsInto {x : Lexis} {text : String} {fs : List Fragment} (hfalls : FallsInto x text fs)
    {cs : List (List (Step Mark))} (h : ReadsAsChoices fs cs) : ∃ q, x.readPattern text = some q ∧ q.choices = cs := by
  obtain ⟨all, hall, rfl⟩ := hfalls
  obtain ⟨-, ps, rfl, hread⟩ := h
  have hend : PatternPart.alternatives.read (withoutBlanks all) = some (ps, []) := by
    have hnil := hread [] rfl
    rwa [read_further_nil, Option.map_some, List.append_nil, List.append_nil] at hnil
  refine ⟨.alter ps, ?_, rfl⟩
  simp only [Lexis.readPattern, hall.alone, Option.bind_eq_bind, Option.bind_some, hend]

end AlgebraSql.Render
