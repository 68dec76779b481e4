import AlgebraSql.Proofs.Numerals
import AlgebraSql.Render.Quoting

/-!
# Tokens — the words, names, texts, numerals and signs that a text falls into.

A token ends where the next one can be told apart from it: a word where no letter follows, a quoted
name at a quote that is not doubled, a numeral where it cannot go on.  Names and texts are written so
that they are read back as one token with the same content.
-/

namespace AlgebraSql.Render

/-! ## Kinds of tokens -/

/-- The words of the expression grammar. -/
inductive Keyword where
  | or | and | not | is | null | true | false | distinct | from | like | similar | to | escape | in
  deriving Repr, DecidableEq

namespace Keyword

/-- All words of the grammar. -/
def all : List Keyword :=
  [.or, .and, .not, .is, .null, .true, .false, .distinct, .from, .like, .similar, .to, .escape, .in]

/-- The word in capital letters. -/
def text : Keyword → String
  | .or => "OR"
  | .and => "AND"
  | .not => "NOT"
  | .is => "IS"
  | .null => "NULL"
  | .true => "TRUE"
  | .false => "FALSE"
  | .distinct => "DISTINCT"
  | .from => "FROM"
  | .like => "LIKE"
  | .similar => "SIMILAR"
  | .to => "TO"
  | .escape => "ESCAPE"
  | .in => "IN"

/-- The word that a text is, in whatever letters. -/
def ofWord? (word : String) : Option Keyword := all.find? (·.text == Text.upper word)

end Keyword

/-- The signs of the expression grammar. -/
inductive Symbol where
  | opening | closing | comma | dot | plus | minus | times | slash | percent | bars
  | eq | neq | gt | gte | lt | lte
  deriving Repr, DecidableEq

/-- The characters of a sign. -/
def Symbol.chars : Symbol → List Char
  | .opening => ['(']
  | .closing => [')']
  | .comma => [',']
  | .dot => ['.']
  | .plus => ['+']
  | .minus => ['-']
  | .times => ['*']
  | .slash => ['/']
  | .percent => ['%']
  | .bars => ['|', '|']
  | .eq => ['=']
  | .neq => ['<', '>']
  | .gt => ['>']
  | .gte => ['>', '=']
  | .lt => ['<']
  | .lte => ['<', '=']

/-- A token with its content: a name without its quotes, a text without its quotes and escapes. -/
inductive Token where
  | keyword (k : Keyword)
  | name (s : String)
  | text (s : String)
  | number (s : String)
  | symbol (s : Symbol)
  deriving Repr, DecidableEq

/-- The token that a word without quotes is. -/
def Token.ofWord (word : String) : Token :=
  match Keyword.ofWord? word with
  | some k => .keyword k
  | none => .name word

/-! ## Splitting -/

/-- The content up to a quote that is not escaped, and what follows that quote. -/
def splitQuoted (quote escape : Char) : List Char → Option (List Char × List Char)
  | [] => none
  | [c] => if c = quote then some ([], []) else none
  | c :: next :: rest =>
    if c = escape ∧ (next = quote ∨ next = escape) then
      (splitQuoted quote escape rest).map fun (content, rest) => (next :: content, rest)
    else if c = quote then some ([], next :: rest)
    else (splitQuoted quote escape (next :: rest)).map fun (content, rest) => (c :: content, rest)

/-- The character before a quote that belongs to the text. -/
def QuoteEscape.mark : QuoteEscape → Char
  | .doubled => '\''
  | .backslash => '\\'

/-- The point and the digits behind it. -/
def splitFraction : List Char → List Char × List Char
  | '.' :: cs => ('.' :: cs.takeWhile Char.isDigit, cs.dropWhile Char.isDigit)
  | cs => ([], cs)

/-- The sign of a power. -/
def splitSign : List Char → List Char × List Char
  | '+' :: cs => (['+'], cs)
  | '-' :: cs => (['-'], cs)
  | cs => ([], cs)

/-- The letter and the power of ten, if there is a power. -/
def splitPower : List Char → List Char × List Char
  | [] => ([], [])
  | c :: cs =>
    let digits := (splitSign cs).2.takeWhile Char.isDigit
    if (c = 'e' ∨ c = 'E') ∧ digits ≠ [] then
      (c :: ((splitSign cs).1 ++ digits), (splitSign cs).2.dropWhile Char.isDigit)
    else ([], c :: cs)

/-- The longest numeral that a text begins with. -/
def splitNumeral (cs : List Char) : List Char × List Char :=
  let fraction := splitFraction (cs.dropWhile Char.isDigit)
  let power := splitPower fraction.2
  (cs.takeWhile Char.isDigit ++ fraction.1 ++ power.1, power.2)

/-- A numeral begins with a digit, or with a point and a digit. -/
def beginsNumeral : List Char → Bool
  | '.' :: c :: _ => c.isDigit
  | c :: _ => c.isDigit
  | [] => false

/-- The sign that a text begins with, the longest one if there are several. -/
def splitSymbol : List Char → Option (Symbol × List Char)
  | '(' :: cs => some (.opening, cs)
  | ')' :: cs => some (.closing, cs)
  | ',' :: cs => some (.comma, cs)
  | '.' :: cs => some (.dot, cs)
  | '+' :: cs => some (.plus, cs)
  | '-' :: cs => some (.minus, cs)
  | '*' :: cs => some (.times, cs)
  | '/' :: cs => some (.slash, cs)
  | '%' :: cs => some (.percent, cs)
  | '|' :: '|' :: cs => some (.bars, cs)
  | '<' :: '=' :: cs => some (.lte, cs)
  | '<' :: '>' :: cs => some (.neq, cs)
  | '<' :: cs => some (.lt, cs)
  | '>' :: '=' :: cs => some (.gte, cs)
  | '>' :: cs => some (.gt, cs)
  | '=' :: cs => some (.eq, cs)
  | _ => none

/-- The token that a text begins with, and what follows it. -/
def splitToken (style : Style) (c : Char) (cs : List Char) : Option (Token × List Char) :=
  if isWordStart c then
    some (.ofWord (String.ofList ((c :: cs).takeWhile isWordPart)), (c :: cs).dropWhile isWordPart)
  else if c = style.nameQuote then
    (splitQuoted c c cs).map fun (content, rest) => (.name (String.ofList content), rest)
  else if c = '\'' then
    (splitQuoted c style.quoteEscape.mark cs).map fun (content, rest) =>
      (.text (String.ofList content), rest)
  else if beginsNumeral (c :: cs) then
    some (.number (String.ofList (splitNumeral (c :: cs)).1), (splitNumeral (c :: cs)).2)
  else (splitSymbol (c :: cs)).map fun (symbol, rest) => (.symbol symbol, rest)

/-- The tokens of a text, with any number of blanks between them. -/
def Style.tokens (style : Style) (cs : List Char) : Option (List Token) :=
  match cs with
  | [] => some []
  | c :: cs =>
    if c = ' ' then style |>.tokens cs
    else do
      let (token, rest) ← splitToken style c cs
      let following ← style |>.tokens rest
      return token :: following
partial_fixpoint

/-! ## Tokens one after the other -/

/-- A style marks names in one of the two ways in use. -/
def Style.MarksNames (style : Style) : Prop := style.nameQuote = '"' ∨ style.nameQuote = '\x60'

/-- A text goes on with a blank, a closing parenthesis or a comma, if it goes on. -/
def Boundary (rest : List Char) : Prop :=
  ∀ c, rest.head? = some c → c = ' ' ∨ c = ')' ∨ c = ','

/-- A text does not go on with a part of a word or a quote. -/
def EndsName (rest : List Char) : Prop :=
  ∀ c, rest.head? = some c → isWordPart c = false ∧ c ≠ '"' ∧ c ≠ '\x60' ∧ c ≠ '\''

/-- The characters are read as the tokens, whatever follows at a boundary. -/
def Spells (style : Style) (cs : List Char) (ts : List Token) : Prop :=
  ∀ rest, Boundary rest → style.tokens (cs ++ rest) = (style.tokens rest).map (ts ++ ·)

section

variable {style : Style}

theorem Boundary.endsName {rest : List Char} (h : Boundary rest) : EndsName rest := by
  intro c hc
  rcases h c hc with rfl | rfl | rfl <;> decide

theorem tokens_nil : style.tokens [] = some [] := by rw [Style.tokens.eq_def]

theorem tokens_blank (cs : List Char) : style.tokens (' ' :: cs) = style.tokens cs := by
  rw [Style.tokens.eq_def]
  simp

/-- A token is read before those of the rest. -/
theorem tokens_split {c : Char} {cs rest : List Char} {token : Token} (hblank : c ≠ ' ')
    (h : splitToken style c cs = some (token, rest)) :
    style.tokens (c :: cs) = (style.tokens rest).map (token :: ·) := by
  rw [Style.tokens.eq_def]
  simp only [hblank, if_false, h, Option.bind_eq_bind, Option.bind_some]
  cases style.tokens rest <;> rfl

/-- A text that is a sign, up to where it ends. -/
theorem tokens_symbol (hstyle : style.MarksNames) {c : Char} {cs rest : List Char} {symbol : Symbol}
    (h : splitSymbol (c :: cs) = some (symbol, rest)) (hpoint : beginsNumeral (c :: cs) = false) :
    style.tokens (c :: cs) = (style.tokens rest).map (.symbol symbol :: ·) := by
  have hother : c ≠ ' ' ∧ isWordStart c = false ∧ c ≠ '"' ∧ c ≠ '\x60' ∧ c ≠ '\'' := by
    unfold splitSymbol at h
    split at h <;> first | (rename_i heq; cases heq; decide) | cases h
  obtain ⟨hblank, hword, hdouble, htick, hsingle⟩ := hother
  have hname : c ≠ style.nameQuote := by
    rcases hstyle with hq | hq <;> rw [hq] <;> assumption
  apply tokens_split hblank
  simp [splitToken, hword, hname, hsingle, hpoint, h]

/-! ## Signs -/

theorem tokens_opening (hstyle : style.MarksNames) (cs : List Char) :
    style.tokens ('(' :: cs) = (style.tokens cs).map (.symbol .opening :: ·) :=
  tokens_symbol hstyle rfl rfl

theorem tokens_closing (hstyle : style.MarksNames) (cs : List Char) :
    style.tokens (')' :: cs) = (style.tokens cs).map (.symbol .closing :: ·) :=
  tokens_symbol hstyle rfl rfl

theorem tokens_comma (hstyle : style.MarksNames) (cs : List Char) :
    style.tokens (',' :: cs) = (style.tokens cs).map (.symbol .comma :: ·) :=
  tokens_symbol hstyle rfl rfl

theorem tokens_minus (hstyle : style.MarksNames) (cs : List Char) :
    style.tokens ('-' :: cs) = (style.tokens cs).map (.symbol .minus :: ·) :=
  tokens_symbol hstyle rfl rfl

/-- A sign stands for itself before a boundary. -/
theorem spells_symbol (hstyle : style.MarksNames) (symbol : Symbol) :
    Spells style symbol.chars [.symbol symbol] := by
  intro rest hrest
  have hhead : ∀ c cs, rest = c :: cs → c ≠ '=' ∧ c ≠ '>' ∧ c.isDigit = false := by
    intro c cs hcs
    rcases hrest c (by rw [hcs]; rfl) with rfl | rfl | rfl <;> decide
  have hpoint : beginsNumeral (symbol.chars ++ rest) = false := by
    cases symbol <;> first | rfl | skip
    cases rest with
    | nil => rfl
    | cons c cs => exact (hhead c cs rfl).2.2
  have hsplit : splitSymbol (symbol.chars ++ rest) = some (symbol, rest) := by
    cases rest with
    | nil => cases symbol <;> rfl
    | cons c cs =>
      obtain ⟨heq, hgt, -⟩ := hhead c cs rfl
      cases symbol <;> first | rfl | simp [Symbol.chars, splitSymbol, heq, hgt]
  cases symbol <;> exact tokens_symbol hstyle hsplit hpoint

/-! ## Texts put together -/

variable {as bs : List Char} {ta tb : List Token}

theorem boundary_blank (cs : List Char) : Boundary (' ' :: cs) := fun c hc => by
  cases hc
  exact Or.inl rfl

theorem boundary_closing (cs : List Char) : Boundary (')' :: cs) := fun c hc => by
  cases hc
  exact Or.inr (Or.inl rfl)

theorem boundary_comma (cs : List Char) : Boundary (',' :: cs) := fun c hc => by
  cases hc
  exact Or.inr (Or.inr rfl)

theorem Spells.blank (ha : Spells style as ta) (hb : Spells style bs tb) :
    Spells style (as ++ ' ' :: bs) (ta ++ tb) := by
  intro rest hrest
  have hafter := ha (' ' :: (bs ++ rest)) (boundary_blank _)
  rw [tokens_blank, hb rest hrest] at hafter
  simpa [Function.comp_def] using hafter

theorem Spells.comma (hstyle : style.MarksNames) (ha : Spells style as ta) (hb : Spells style bs tb) :
    Spells style (as ++ ',' :: ' ' :: bs) (ta ++ .symbol .comma :: tb) := by
  intro rest hrest
  have hafter := ha (',' :: ' ' :: (bs ++ rest)) (boundary_comma _)
  rw [tokens_comma hstyle, tokens_blank, hb rest hrest] at hafter
  simpa [Function.comp_def] using hafter

theorem Spells.enclosed (hstyle : style.MarksNames) (ha : Spells style as ta) :
    Spells style ('(' :: (as ++ [')'])) (.symbol .opening :: (ta ++ [.symbol .closing])) := by
  intro rest _
  have hafter := ha (')' :: rest) (boundary_closing _)
  rw [tokens_closing hstyle] at hafter
  rw [List.cons_append, tokens_opening hstyle, List.append_assoc, List.singleton_append, hafter]
  simp [Function.comp_def]

theorem Spells.negated (hstyle : style.MarksNames) (ha : Spells style as ta) :
    Spells style ('-' :: as) (.symbol .minus :: ta) := by
  intro rest hrest
  rw [List.cons_append, tokens_minus hstyle, ha rest hrest]
  simp [Function.comp_def]

theorem spells_nil : Spells style [] [] := by
  intro rest _
  simp

/-! ## Words -/

theorem isWordPart_of_isWordStart {c : Char} (h : isWordStart c = true) : isWordPart c = true := by
  unfold isWordStart at h
  unfold isWordPart Char.isAlphanum
  rcases Bool.or_eq_true _ _ ▸ h with hc | hc <;> simp [hc]

/-- A word does not begin with a digit. -/
theorem isWordStart_of_isDigit {c : Char} (h : c.isDigit = true) : isWordStart c = false := by
  have hbar : c ≠ '_' := by
    rintro rfl
    exact absurd h (by decide)
  unfold Char.isDigit at h
  unfold isWordStart Char.isAlpha Char.isUpper Char.isLower
  grind

/-- A word is read up to its end. -/
theorem tokens_word {word rest : List Char} (hword : isWord word = true) (hrest : EndsName rest) :
    style.tokens (word ++ rest)
      = (style.tokens rest).map (Token.ofWord (String.ofList word) :: ·) := by
  cases word with
  | nil => cases hword
  | cons c cs =>
    obtain ⟨hstart, hparts⟩ : isWordStart c = true ∧ cs.all isWordPart = true := by
      simpa [isWord] using hword
    have hall : ∀ d ∈ c :: cs, isWordPart d = true := by
      intro d hd
      rcases List.mem_cons.mp hd with rfl | hd
      · exact isWordPart_of_isWordStart hstart
      · exact List.all_eq_true.mp hparts d hd
    have hend : rest.takeWhile isWordPart = [] ∧ rest.dropWhile isWordPart = rest := by
      cases rest with
      | nil => exact ⟨rfl, rfl⟩
      | cons d ds => simp [(hrest d rfl).1]
    have htake : (c :: (cs ++ rest)).takeWhile isWordPart = c :: cs := by
      rw [← List.cons_append, List.takeWhile_append_of_pos hall, hend.1, List.append_nil]
    have hdrop : (c :: (cs ++ rest)).dropWhile isWordPart = rest := by
      rw [← List.cons_append, List.dropWhile_append_of_pos hall, hend.2]
    have hblank : c ≠ ' ' := by
      rintro rfl
      cases hstart
    rw [List.cons_append]
    apply tokens_split hblank
    simp only [splitToken, hstart, if_true, htake, hdrop]

theorem ofWord?_text (k : Keyword) : Keyword.ofWord? k.text = some k := by
  cases k <;> decide +kernel

/-- A word of the grammar is read as itself. -/
theorem spells_keyword (style : Style) (k : Keyword) : Spells style k.text.toList [.keyword k] := by
  intro rest hrest
  have hword : isWord k.text.toList = true := by cases k <;> decide
  rw [tokens_word hword hrest.endsName, String.ofList_toList, Token.ofWord, ofWord?_text]
  rfl

/-- A word that the language does not keep for itself is no word of the grammar. -/
theorem ofWord?_of_not_isReserved {name : String} (h : isReserved name = false) :
    Keyword.ofWord? name = none := by
  unfold Keyword.ofWord?
  apply List.find?_eq_none.mpr
  intro k _ hk
  have hkept : reservedWords.contains k.text = true := by cases k <;> decide +kernel
  rw [beq_iff_eq] at hk
  rw [isReserved, ← hk, hkept] at h
  cases h

/-! ## Quotes -/

/-- Behind its opening quote, an escaped text is read up to its closing quote. -/
theorem splitQuoted_escaped {quote escape : Char} {rest : List Char}
    (hrest : quote = escape → rest.head? ≠ some quote) (cs : List Char) :
    splitQuoted quote escape
        (escaped (fun c => c == quote || c == escape) (fun _ => escape) cs ++ quote :: rest)
      = some (cs, rest) := by
  induction cs with
  | nil =>
    cases rest with
    | nil => simp [escaped, splitQuoted]
    | cons next rest =>
      have hend : ¬ (quote = escape ∧ (next = quote ∨ next = escape)) := by
        rintro ⟨rfl, hnext⟩
        exact hrest rfl (by simpa using hnext)
      simp [escaped, splitQuoted, hend]
  | cons c cs ih =>
    obtain ⟨next, following, hnext⟩ : ∃ next following,
        escaped (fun c => c == quote || c == escape) (fun _ => escape) cs ++ quote :: rest
          = next :: following := List.exists_cons_of_ne_nil (by simp)
    by_cases hc : c = quote ∨ c = escape
    · have htext : escaped (fun c => c == quote || c == escape) (fun _ => escape) (c :: cs)
          = escape :: c :: escaped (fun c => c == quote || c == escape) (fun _ => escape) cs := by
        simp [escaped, hc]
      rw [htext, List.cons_append, List.cons_append, splitQuoted, if_pos ⟨rfl, hc⟩, ih]
      rfl
    · have htext : escaped (fun c => c == quote || c == escape) (fun _ => escape) (c :: cs)
          = c :: escaped (fun c => c == quote || c == escape) (fun _ => escape) cs := by
        simp only [escaped, List.flatMap_cons]
        simp [hc]
      rw [not_or] at hc
      rw [htext, List.cons_append, hnext, splitQuoted, if_neg (fun h => hc.2 h.1), if_neg hc.1,
        ← hnext, ih]
      rfl

/-- A text in quotes is read as itself. -/
theorem spells_quoteText (hstyle : style.MarksNames) (text : String) :
    Spells style (style.quoteText text).toList [.text text] := by
  intro rest hrest
  have hescape : style.quoteEscape.escape text.toList
      = escaped (fun c => c == '\'' || c == style.quoteEscape.mark) (fun _ => style.quoteEscape.mark)
          text.toList := by
    cases style.quoteEscape <;> simp [QuoteEscape.escape, QuoteEscape.mark]
  have hend : '\'' = style.quoteEscape.mark → rest.head? ≠ some '\'' := by
    intro _ hhead
    exact (hrest.endsName _ hhead).2.2.2 rfl
  have hname : '\'' ≠ style.nameQuote := by
    rcases hstyle with hq | hq <;> rw [hq] <;> decide
  have hsplit : splitToken style '\'' (style.quoteEscape.escape text.toList ++ '\'' :: rest)
      = some (.text text, rest) := by
    have hword : isWordStart '\'' = false := rfl
    rw [splitToken, hword, if_neg (by decide), if_neg hname, if_pos rfl, hescape,
      splitQuoted_escaped hend]
    simp
  have htext : (style.quoteText text).toList ++ rest
      = '\'' :: (style.quoteEscape.escape text.toList ++ '\'' :: rest) := by
    simp [Style.quoteText]
  rw [htext]
  exact tokens_split (by decide) hsplit

/-- A name is read as itself, in quotes or without. -/
theorem tokens_nameText (s : Setting) (hstyle : s.style.MarksNames) (name : String) (quoted : Bool)
    {rest : List Char} (hrest : EndsName rest) :
    s.style.tokens ((s.nameText name quoted).toList ++ rest)
      = (s.style.tokens rest).map (.name name :: ·) := by
  by_cases hquotes : (quoted || s.mustQuote name) = true
  · -- the quote is doubled inside the name and is not followed by another one
    have hend : s.style.nameQuote = s.style.nameQuote → rest.head? ≠ some s.style.nameQuote := by
      intro _ hhead
      obtain ⟨-, hdouble, htick, -⟩ := hrest _ hhead
      rcases hstyle with hq | hq
      · exact hdouble hq
      · exact htick hq
    have htext : (s.nameText name quoted).toList ++ rest = s.style.nameQuote
        :: (escaped (fun c => c == s.style.nameQuote || c == s.style.nameQuote)
            (fun _ => s.style.nameQuote) name.toList ++ s.style.nameQuote :: rest) := by
      simp [Setting.nameText, hquotes, Style.quoteName]
    have hword : isWordStart s.style.nameQuote = false := by
      rcases hstyle with hq | hq <;> rw [hq] <;> rfl
    have hblank : s.style.nameQuote ≠ ' ' := by
      rcases hstyle with hq | hq <;> rw [hq] <;> decide
    rw [htext]
    apply tokens_split hblank
    rw [splitToken, hword, if_neg (by decide), if_pos rfl, splitQuoted_escaped hend]
    simp
  · have hplain : isWord name.toList = true ∧ isReserved name = false := by
      simp only [Setting.mustQuote, Bool.or_eq_true, not_or, Bool.not_eq_true, Bool.not_eq_false'] at hquotes
      exact ⟨hquotes.2.1.2, hquotes.2.2⟩
    have htoken : Token.ofWord name = .name name := by
      rw [Token.ofWord, ofWord?_of_not_isReserved hplain.2]
    rw [Setting.nameText, if_neg hquotes, tokens_word hplain.1 hrest, String.ofList_toList, htoken]

/-- The text of a name begins as a word does, or with the quote of the style. -/
theorem starts_nameText (s : Setting) (name : String) (quoted : Bool) :
    ∃ c cs, (s.nameText name quoted).toList = c :: cs ∧ (isWordStart c = true ∨ c = s.style.nameQuote) := by
  unfold Setting.nameText
  by_cases hquotes : (quoted || s.mustQuote name) = true
  · rw [if_pos hquotes, Style.quoteName, String.toList_ofList]
    exact ⟨_, _, rfl, Or.inr rfl⟩
  · have hword : isWord name.toList = true := by
      simp only [Setting.mustQuote, Bool.or_eq_true, not_or, Bool.not_eq_true, Bool.not_eq_false'] at hquotes
      exact hquotes.2.1.2
    rw [if_neg hquotes]
    cases hname : name.toList with
    | nil =>
      rw [hname] at hword
      cases hword
    | cons c cs =>
      rw [hname, isWord, Bool.and_eq_true] at hword
      exact ⟨c, cs, rfl, Or.inl hword.1⟩

/-- A name is written as something that does not begin with a digit. -/
theorem head_nameText (s : Setting) (hstyle : s.style.MarksNames) (name : String) (quoted : Bool) :
    ∃ c cs, (s.nameText name quoted).toList = c :: cs ∧ c.isDigit = false := by
  obtain ⟨c, cs, htext, hstart | rfl⟩ := starts_nameText s name quoted
  · refine ⟨c, cs, htext, Bool.eq_false_iff.mpr fun hdigit => ?_⟩
    rw [isWordStart_of_isDigit hdigit] at hstart
    cases hstart
  · refine ⟨_, cs, htext, ?_⟩
    rcases hstyle with hq | hq <;> rw [hq] <;> rfl

/-- Behind a point, a name is no numeral. -/
theorem tokens_dot_nameText (s : Setting) (hstyle : s.style.MarksNames) (name : String) (quoted : Bool)
    {rest : List Char} (hrest : EndsName rest) :
    s.style.tokens ('.' :: ((s.nameText name quoted).toList ++ rest))
      = (s.style.tokens rest).map fun ts => .symbol .dot :: .name name :: ts := by
  obtain ⟨c, cs, htext, hdigit⟩ := head_nameText s hstyle name quoted
  have hpoint : beginsNumeral ('.' :: ((s.nameText name quoted).toList ++ rest)) = false := by
    rw [htext]
    exact hdigit
  rw [tokens_symbol hstyle rfl hpoint, tokens_nameText s hstyle name quoted hrest, Option.map_map]
  rfl

/-! ## Numerals -/

/-- A point and digits, or nothing. -/
def IsFraction (cs : List Char) : Prop := cs = [] ∨ ∃ ds, cs = '.' :: ds ∧ Digits ds

/-- A power of ten, or nothing. -/
def IsPower (cs : List Char) : Prop :=
  cs = [] ∨ ∃ letter sign ds, cs = letter :: (sign ++ ds) ∧ (letter = 'e' ∨ letter = 'E')
    ∧ (sign = [] ∨ sign = ['+'] ∨ sign = ['-']) ∧ Digits ds ∧ ds ≠ []

/-- An unsigned numeral: digits with at most one point among or around them, and perhaps a power of
ten. -/
def IsNumeral (cs : List Char) : Prop :=
  beginsNumeral cs = true ∧ ∃ whole fraction power, cs = whole ++ fraction ++ power
    ∧ Digits whole ∧ IsFraction fraction ∧ IsPower power

theorem Boundary.noDigit {rest : List Char} (h : Boundary rest) : NoDigit rest := by
  intro c hc
  rcases h c hc with rfl | rfl | rfl <;> rfl

theorem splitFraction_append {fraction rest : List Char} (h : IsFraction fraction) (hdigit : NoDigit rest)
    (hpoint : rest.head? ≠ some '.') : splitFraction (fraction ++ rest) = (fraction, rest) := by
  rcases h with rfl | ⟨ds, rfl, hds⟩
  · cases rest with
    | nil => rfl
    | cons c cs =>
      have hc : c ≠ '.' := fun hc => hpoint (by rw [hc]; rfl)
      simp [splitFraction, hc]
  · obtain ⟨htake, hdrop⟩ := takeWhile_digits hds hdigit
    simp [splitFraction, htake, hdrop]

theorem splitPower_append {power rest : List Char} (h : IsPower power) (hrest : Boundary rest) :
    splitPower (power ++ rest) = (power, rest) := by
  rcases h with rfl | ⟨letter, sign, ds, rfl, hletter, hsign, hds, hne⟩
  · cases rest with
    | nil => rfl
    | cons c cs =>
      have hc : ¬ (c = 'e' ∨ c = 'E') := by
        rcases hrest c rfl with rfl | rfl | rfl <;> decide
      simp [splitPower, hc]
  · obtain ⟨htake, hdrop⟩ := takeWhile_digits hds hrest.noDigit
    have hsplit : splitSign (sign ++ (ds ++ rest)) = (sign, ds ++ rest) := by
      rcases hsign with rfl | rfl | rfl
      · -- without a sign, the first digit is none
        obtain ⟨d, es, rfl⟩ := List.exists_cons_of_ne_nil hne
        have hd : d.isDigit = true := hds d (by simp)
        have hplus : d ≠ '+' := fun hc => by rw [hc] at hd; cases hd
        have hminus : d ≠ '-' := fun hc => by rw [hc] at hd; cases hd
        simp [splitSign, hplus, hminus]
      · rfl
      · rfl
    simp [splitPower, hsplit, htake, hdrop, hletter, hne]

/-- A numeral is read up to its end. -/
theorem splitNumeral_append {cs rest : List Char} (h : IsNumeral cs) (hrest : Boundary rest) :
    splitNumeral (cs ++ rest) = (cs, rest) := by
  obtain ⟨-, whole, fraction, power, rfl, hwhole, hfraction, hpower⟩ := h
  have hbehind : NoDigit (power ++ rest) ∧ (power ++ rest).head? ≠ some '.' := by
    rcases hpower with rfl | ⟨letter, sign, ds, rfl, hletter, -⟩
    · refine ⟨hrest.noDigit, fun hhead => ?_⟩
      rcases hrest _ hhead with hc | hc | hc <;> cases hc
    · rcases hletter with rfl | rfl <;> exact ⟨fun c hc => by cases hc; rfl, by simp⟩
  have hmantissa : NoDigit (fraction ++ (power ++ rest)) := by
    rcases hfraction with rfl | ⟨ds, rfl, -⟩
    · exact hbehind.1
    · intro c hc
      cases hc
      rfl
  obtain ⟨htake, hdrop⟩ := takeWhile_digits hwhole hmantissa
  simp only [List.append_assoc, splitNumeral, htake, hdrop,
    splitFraction_append hfraction hbehind.1 hbehind.2, splitPower_append hpower hrest]

/-- What a numeral begins with. -/
theorem beginsNumeral_cons (c : Char) (cs : List Char) :
    beginsNumeral (c :: cs) = true
      ↔ c.isDigit = true ∨ c = '.' ∧ ∃ d ds, cs = d :: ds ∧ d.isDigit = true := by
  have hpoint : ('.' : Char).isDigit = false := rfl
  by_cases hc : c = '.'
  · subst hc
    cases cs <;> simp [beginsNumeral, hpoint]
  · simp [beginsNumeral, hc]

/-- A numeral is read as itself. -/
theorem spells_numeral (hstyle : style.MarksNames) {text : String} (h : IsNumeral text.toList) :
    Spells style text.toList [.number text] := by
  intro rest hrest
  have hsplit := splitNumeral_append h hrest
  have htext : text = String.ofList text.toList := String.ofList_toList.symm
  generalize text.toList = cs at h hsplit htext
  subst htext
  obtain ⟨hbegins, -⟩ := h
  cases cs with
  | nil => cases hbegins
  | cons c cs =>
    have hfirst := (beginsNumeral_cons c cs).mp hbegins
    have hgoes : beginsNumeral (c :: (cs ++ rest)) = true := by
      apply (beginsNumeral_cons _ _).mpr
      rcases hfirst with hdigit | ⟨hpoint, d, ds, rfl, hdigit⟩
      · exact Or.inl hdigit
      · exact Or.inr ⟨hpoint, d, ds ++ rest, rfl, hdigit⟩
    -- a digit or a point begins no token of another kind
    have hother : ∀ q : Char, q.isDigit = false → q ≠ '.' → c ≠ q := by
      rintro q hq hdot rfl
      rcases hfirst with hdigit | ⟨hpoint, -⟩
      · rw [hq] at hdigit
        cases hdigit
      · exact hdot hpoint
    have hword : isWordStart c = false := by
      rcases hfirst with hdigit | ⟨rfl, -⟩
      · exact isWordStart_of_isDigit hdigit
      · rfl
    have hname : c ≠ style.nameQuote := by
      rcases hstyle with hq | hq <;> rw [hq] <;> exact hother _ rfl (by decide)
    rw [List.cons_append] at hsplit ⊢
    apply tokens_split (hother ' ' rfl (by decide))
    rw [splitToken, hword, if_neg (by decide), if_neg hname, if_neg (hother '\'' rfl (by decide)), if_pos hgoes,
      hsplit]

end

end AlgebraSql.Render
