import AlgebraSql.Render.Reserved
import AlgebraSql.Render.Style
import AlgebraSql.Text.CaseMap

/-!
# Quoting — names and texts as tokens that end where they should.

A name is quoted when it is not a word or is reserved, and a quoted name doubles the closing quote.
A text doubles its quotes, or puts a backslash before quotes and backslashes.
-/

namespace AlgebraSql.Render

/-! ## Words -/

/-- A character that a word may start with. -/
def isWordStart (c : Char) : Bool := c.isAlpha || c == '_'

/-- A character that a word may go on with. -/
def isWordPart (c : Char) : Bool := c.isAlphanum || c == '_'

/-- A letter or an underscore, then letters, digits and underscores, all of them ASCII. -/
def isWord : List Char → Bool
  | [] => false
  | c :: cs => isWordStart c && cs.all isWordPart

/-- The language keeps the word for itself, in whatever letters. -/
def isReserved (name : String) : Bool :=
  reservedWords.contains (Text.upper name)

/-! ## Tokens -/

/-- Writes `c` as itself, unless it is one of the escaped characters. -/
def escaped (isEscaped : Char → Bool) (escape : Char → Char) (cs : List Char) : List Char :=
  cs.flatMap fun c => if isEscaped c then [escape c, c] else [c]

/-- A quoted name. -/
def Style.quoteName (style : Style) (name : String) : String :=
  let q := style.nameQuote
  String.ofList (q :: (escaped (· == q) (fun _ => q) name.toList ++ [q]))

/-- A name has to be quoted. -/
def Setting.mustQuote (s : Setting) (name : String) : Bool :=
  s.options.identify.getD false || !isWord name.toList || isReserved name

/-- A name as a token. -/
def Setting.nameText (s : Setting) (name : String) (quoted : Bool) : String :=
  if quoted || s.mustQuote name then s.style.quoteName name else name

/-- The characters of a text behind its opening quote. -/
def QuoteEscape.escape : QuoteEscape → List Char → List Char
  | .doubled, cs => escaped (· == '\'') (fun _ => '\'') cs
  | .backslash, cs => escaped (fun c => c == '\'' || c == '\\') (fun _ => '\\') cs

/-- A text as a token. -/
def Style.quoteText (style : Style) (text : String) : String :=
  String.ofList ('\'' :: (style.quoteEscape.escape text.toList ++ ['\'']))

end AlgebraSql.Render
