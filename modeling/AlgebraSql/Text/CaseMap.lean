import AlgebraSql.Text.CaseTable

/-!
# Case mapping — capital and small forms of a text, for all of Unicode.

`upper` and `lower` follow the full mapping: one letter may become several (`ß` has the capital form
`SS`), and a capital sigma at the end of a word becomes the final small sigma.  Below code point 128
the mapping is the ASCII one, which is the only part that evaluation by reduction has to touch for
ordinary names.
-/

namespace AlgebraSql.Text

/-! ## One character -/

/-- The image of `c` under a table of runs and words; a character in neither is its own image. -/
def mapThrough (words : List (Nat × List Nat)) (runs : List CaseRun) (c : Char) : List Char :=
  match words.find? (·.1 == c.toNat) with
  | some (_, word) => word.map Char.ofNat
  | none =>
    match runs.find? (·.covers c.toNat) with
    | some run => [Char.ofNat (run.map c.toNat)]
    | none => [c]

/-- The capital form of a character. -/
def upperChar (c : Char) : List Char :=
  if c.toNat < 128 then [c.toUpper] else mapThrough capitalWords capitalRuns c

/-- The small form of a character, whatever stands beside it. -/
def lowerChar (c : Char) : List Char :=
  if c.toNat < 128 then [c.toLower] else mapThrough smallWords smallRuns c

/-! ## Words -/

/-- A character lies in one of the given ranges. -/
def inRanges (ranges : List (Nat × Nat)) (c : Char) : Bool :=
  ranges.any fun r => r.1 ≤ c.toNat && c.toNat ≤ r.2

/-- The first character that is not passed over has case. -/
def meetsCased (cs : List Char) : Bool :=
  match cs.dropWhile (inRanges passedOverRanges) with
  | [] => false
  | c :: _ => inRanges casedRanges c

/-- The capital sigma, the one letter whose small form depends on its neighbours. -/
def capitalSigma : Char := 'Σ'

/-- Small forms from left to right; `before` holds the characters already read, last one first. -/
def lowerFrom (before : List Char) : List Char → List Char
  | [] => []
  | c :: rest =>
    let image :=
      if c == capitalSigma then
        if meetsCased before && !meetsCased rest then ['ς'] else ['σ']
      else lowerChar c
    image ++ lowerFrom (c :: before) rest

/-- The capital form of a text. -/
def upper (s : String) : String :=
  String.ofList (s.toList.flatMap upperChar)

/-- The small form of a text, by which names are compared without regard to case. -/
def lower (s : String) : String :=
  String.ofList (lowerFrom [] s.toList)

end AlgebraSql.Text
