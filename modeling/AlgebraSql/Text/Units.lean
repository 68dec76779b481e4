/-!
# Units — texts measured and ordered by sixteen-bit units.

A character beyond the basic plane is written with two sixteen-bit units, a high one from `D800`
on and a low one; every other character is one unit.  Lengths count units.  The order is that of
the units, so a character beyond the basic plane comes before those from `E000` to `FFFF`.
-/

namespace AlgebraSql.Text

/-- The number of sixteen-bit units of a character. -/
def unitCount (c : Char) : Nat :=
  if c.toNat < 0x10000 then 1 else 2

/-- The number of sixteen-bit units of several characters. -/
def totalUnits : List Char → Nat
  | [] => 0
  | c :: cs => unitCount c + totalUnits cs

/-- The number of sixteen-bit units of a text. -/
def length16 (s : String) : Nat :=
  totalUnits s.toList

/-- A number that grows with the units of a character: the characters beyond the basic plane move to
where their high unit stands, and the characters behind that place make room for them. -/
def unitRank (c : Char) : Nat :=
  let n := c.toNat
  if n < 0xD800 then n else if n < 0x10000 then n + 0x100000 else n - 0x10000 + 0xD800

/-- Lexicographic comparison of characters by their rank. -/
def compareChars : List Char → List Char → Ordering
  | [], [] => .eq
  | [], _ :: _ => .lt
  | _ :: _, [] => .gt
  | a :: as, b :: bs => (compare (unitRank a) (unitRank b)).then (compareChars as bs)

/-- Comparison of texts by their sixteen-bit units. -/
def compare16 (a b : String) : Ordering :=
  compareChars a.toList b.toList

end AlgebraSql.Text
