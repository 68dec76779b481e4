import AlgebraSql.Proofs.OperatorText

/-!
# Quoted tokens — no content breaks out of its token.

A reader of statements knows the rules of the database and nothing of how statements are written: where a
text in quotes ends, where a name in quotes ends, how far a word reaches, and which words the language keeps
for itself.  Whatever a text or a name consists of, such a reader finds one token with that content and then
what follows.
-/

namespace AlgebraSql.Render

open Sql

/-! ## Reading one token -/

/-- The lexical rules of a database. -/
structure Lexis where
  /-- The character around a quoted name. -/
  nameQuote : Char
  /-- In a text, a backslash takes the next character; otherwise a quote is written twice. -/
  backslash : Bool

/-- The rules of the known databases. -/
def Lexis.of (d : Dialect) : Lexis :=
  if ["mysql", "bigquery", "spark"].contains d.name then ⟨'\x60', true⟩ else ⟨'"', false⟩

/-- A token with its content. -/
inductive Lexeme where
  | text (s : String)
  | name (s : String)
  | reserved (s : String)
  deriving Repr, DecidableEq

/-- Words are the same, whatever letters they are written in. -/
def sameWord (a b : List Char) : Bool := a.map Char.toUpper == b.map Char.toUpper

/-- The language keeps a word for itself. -/
def isKept (word : List Char) : Bool := reservedWords.any fun kept => sameWord kept.toList word

/-- The content up to a quote, where a backslash takes the next character. -/
def splitBackslashed : List Char → Option (List Char × List Char)
  | [] => none
  | '\\' :: next :: rest => (splitBackslashed rest).map fun (content, rest) => (next :: content, rest)
  | c :: rest =>
    if c = '\'' then some ([], rest)
    else (splitBackslashed rest).map fun (content, rest) => (c :: content, rest)

/-- The content of a text behind its opening quote, and what follows its closing one. -/
def Lexis.splitText (x : Lexis) (cs : List Char) : Option (List Char × List Char) :=
  if x.backslash then splitBackslashed cs else splitQuoted '\'' '\'' cs

/-- The text, name or kept word that some characters begin with, and what follows it. -/
def Lexis.first (x : Lexis) : List Char → Option (Lexeme × List Char)
  | [] => none
  | c :: cs =>
    if isWordStart c then
      let word := (c :: cs).takeWhile isWordPart
      some (if isKept word then .reserved (String.ofList word) else .name (String.ofList word),
        (c :: cs).dropWhile isWordPart)
    else if c = '\'' then (x.splitText cs).map fun (content, rest) => (.text (String.ofList content), rest)
    else if c = x.nameQuote then (splitQuoted c c cs).map fun (content, rest) => (.name (String.ofList content), rest)
    else none

/-- **`Closes`** — what follows a written name does not carry it on: it begins with no closing quote, and behind a
word with no part of a word. -/
def Lexis.Closes (x : Lexis) (written rest : List Char) : Prop :=
  rest.head? ≠ some x.nameQuote
    ∧ (isWord written = true → ∀ c, rest.head? = some c → isWordPart c = false)

/-! ## Texts -/

/-- A text with a backslash before quotes and backslashes is read up to its closing quote. -/
theorem splitBackslashed_escaped (cs rest : List Char) :
    splitBackslashed (QuoteEscape.backslash.escape cs ++ '\'' :: rest) = some (cs, rest) := by
  induction cs with
  | nil => simp [QuoteEscape.escape, escaped, splitBackslashed]
  | cons c cs ih =>
    by_cases hc : c = '\'' ∨ c = '\\'
    · have htext : QuoteEscape.backslash.escape (c :: cs) = '\\' :: c :: QuoteEscape.backslash.escape cs := by
        simp [QuoteEscape.escape, escaped, hc]
      rw [htext, List.cons_append, List.cons_append, splitBackslashed, ih]
      rfl
    · rw [not_or] at hc
      have htext : QuoteEscape.backslash.escape (c :: cs) = c :: QuoteEscape.backslash.escape cs := by
        simp [QuoteEscape.escape, escaped, hc]
      have hplain : ∀ next rest', c = '\\' → QuoteEscape.backslash.escape cs ++ '\'' :: rest = next :: rest' → False :=
        fun _ _ h _ => hc.2 h
      rw [htext, List.cons_append, splitBackslashed.eq_3 _ _ hplain, if_neg hc.1, ih]
      rfl

/-- The rules for texts and quoted names are those of the style. -/
def Lexis.Fits (x : Lexis) (style : Style) : Prop :=
  x.nameQuote = style.nameQuote ∧ x.backslash = (style.quoteEscape == .backslash)

/-- The known dialects write by the rules of their databases. -/
theorem fits_of_mem {d : Dialect} (h : d ∈ Dialect.all) : (Lexis.of d).Fits d.style := by
  simp only [Dialect.all, List.mem_cons, List.not_mem_nil, or_false] at h
  rcases h with rfl | rfl | rfl | rfl | rfl | rfl <;> exact ⟨by decide, by decide⟩

section

variable {x : Lexis} {s : Setting}

/-- **A text** is read as itself. -/
theorem first_quoteText (hfits : x.Fits s.style) (v : String) {rest : List Char} (hrest : rest.head? ≠ some '\'') :
    x.first ((s.style.quoteText v).toList ++ rest) = some (.text v, rest) := by
  have hsplit : x.splitText (s.style.quoteEscape.escape v.toList ++ '\'' :: rest) = some (v.toList, rest) := by
    unfold Lexis.splitText
    rw [hfits.2]
    cases s.style.quoteEscape with
    | backslash => exact splitBackslashed_escaped v.toList rest
    | doubled =>
      have hescape : QuoteEscape.doubled.escape v.toList
          = escaped (fun c => c == '\'' || c == '\'') (fun _ => '\'') v.toList := by simp [QuoteEscape.escape]
      rw [hescape]
      exact splitQuoted_escaped (fun _ => hrest) v.toList
  have htext : (s.style.quoteText v).toList ++ rest
      = '\'' :: (s.style.quoteEscape.escape v.toList ++ '\'' :: rest) := by simp [Style.quoteText]
  rw [htext, Lexis.first, if_neg (by decide), if_pos rfl, hsplit]
  simp

/-! ## Names -/

theorem toNat_lt_of_isWordPart {c : Char} (h : isWordPart c = true) : c.toNat < 128 := by
  unfold isWordPart Char.isAlphanum Char.isAlpha Char.isUpper Char.isLower Char.isDigit at h
  simp only [Bool.or_eq_true, Bool.and_eq_true, decide_eq_true_eq, beq_iff_eq, UInt32.le_iff_toNat_le] at h
  rcases h with ((h | h) | h) | rfl
  · exact lt_of_le_of_lt h.2 (by decide)
  · exact lt_of_le_of_lt h.2 (by decide)
  · exact lt_of_le_of_lt h.2 (by decide)
  · decide

/-- The capital form of a word has the capital letters of the word. -/
theorem upper_of_isWord {word : List Char} (h : ∀ c ∈ word, isWordPart c = true) :
    Text.upper (String.ofList word) = String.ofList (word.map Char.toUpper) := by
  rw [Text.upper, String.toList_ofList]
  congr 1
  induction word with
  | nil => rfl
  | cons c cs ih =>
    have hc := toNat_lt_of_isWordPart (h c List.mem_cons_self)
    rw [List.flatMap_cons, ih fun d hd => h d (List.mem_cons_of_mem _ hd), Text.upperChar, if_pos hc]
    rfl

/-- The kept words stand in capital letters. -/
theorem capital_reservedWords : ∀ kept ∈ reservedWords, kept.toList.map Char.toUpper = kept.toList := by
  decide +kernel

/-- A word is kept, whatever letters it is written in, only if its capital form is. -/
theorem isKept_eq_isReserved {word : List Char} (h : ∀ c ∈ word, isWordPart c = true) :
    isKept word = isReserved (String.ofList word) := by
  rw [isReserved, upper_of_isWord h, Bool.eq_iff_iff, isKept, List.any_eq_true, List.contains_iff_mem]
  constructor
  · rintro ⟨kept, hkept, hsame⟩
    rw [sameWord, beq_iff_eq, capital_reservedWords kept hkept] at hsame
    rwa [← hsame, String.ofList_toList]
  · intro hmem
    refine ⟨_, hmem, ?_⟩
    have hcapital := capital_reservedWords _ hmem
    rw [sameWord, beq_iff_eq, hcapital, String.toList_ofList]

/-- A word is read up to its end. -/
theorem first_word {word rest : List Char} (hword : isWord word = true)
    (hrest : ∀ c, rest.head? = some c → isWordPart c = false) :
    x.first (word ++ rest)
      = some (if isKept word then .reserved (String.ofList word) else .name (String.ofList word), rest) := by
  cases word with
  | nil => cases hword
  | cons c cs =>
    obtain ⟨hstart, hparts⟩ : isWordStart c = true ∧ cs.all isWordPart = true := by simpa [isWord] using hword
    have hall : ∀ d ∈ c :: cs, isWordPart d = true := by
      intro d hd
      rcases List.mem_cons.mp hd with rfl | hd
      · exact isWordPart_of_isWordStart hstart
      · exact List.all_eq_true.mp hparts d hd
    have hend : rest.takeWhile isWordPart = [] ∧ rest.dropWhile isWordPart = rest := by
      cases rest with
      | nil => exact ⟨rfl, rfl⟩
      | cons d ds => simp [hrest d rfl]
    have htake : (c :: (cs ++ rest)).takeWhile isWordPart = c :: cs := by
      rw [← List.cons_append, List.takeWhile_append_of_pos hall, hend.1, List.append_nil]
    have hdrop : (c :: (cs ++ rest)).dropWhile isWordPart = rest := by
      rw [← List.cons_append, List.dropWhile_append_of_pos hall, hend.2]
    simp only [List.cons_append, Lexis.first, hstart, if_true, htake, hdrop]

/-- **A name** is read as itself, in quotes or without. -/
theorem first_nameText (hfits : x.Fits s.style) (hstyle : s.style.MarksNames) (name : String) (quoted : Bool)
    {rest : List Char} (hrest : x.Closes (s.nameText name quoted).toList rest) :
    x.first ((s.nameText name quoted).toList ++ rest) = some (.name name, rest) := by
  by_cases hquotes : (quoted || s.mustQuote name) = true
  · have htext : (s.nameText name quoted).toList ++ rest = s.style.nameQuote
        :: (escaped (fun c => c == s.style.nameQuote || c == s.style.nameQuote)
            (fun _ => s.style.nameQuote) name.toList ++ s.style.nameQuote :: rest) := by
      simp [Setting.nameText, hquotes, Style.quoteName]
    have hquote : isWordStart s.style.nameQuote = false ∧ s.style.nameQuote ≠ '\'' := by
      rcases hstyle with hq | hq <;> rw [hq] <;> decide
    have hend : s.style.nameQuote = s.style.nameQuote → rest.head? ≠ some s.style.nameQuote :=
      fun _ => hfits.1 ▸ hrest.1
    rw [htext, Lexis.first, hquote.1, if_neg (by decide), if_neg hquote.2, if_pos hfits.1.symm,
      splitQuoted_escaped hend]
    simp
  · have hplain : isWord name.toList = true ∧ isReserved name = false := by
      simp only [Setting.mustQuote, Bool.or_eq_true, not_or, Bool.not_eq_true, Bool.not_eq_false'] at hquotes
      exact ⟨hquotes.2.1.2, hquotes.2.2⟩
    have hwritten : s.nameText name quoted = name := if_neg hquotes
    rw [hwritten] at hrest ⊢
    have hparts : ∀ c ∈ name.toList, isWordPart c = true := by
      have hword := hplain.1
      generalize name.toList = cs at hword
      cases cs with
      | nil => cases hword
      | cons c cs =>
        obtain ⟨hstart, hrest⟩ : isWordStart c = true ∧ cs.all isWordPart = true := by simpa [isWord] using hword
        exact List.forall_mem_cons.mpr ⟨isWordPart_of_isWordStart hstart, List.all_eq_true.mp hrest⟩
    have hfree : isKept name.toList = false := by
      rw [isKept_eq_isReserved hparts, String.ofList_toList, hplain.2]
    rw [first_word hplain.1 (hrest.2 hplain.1), hfree, String.ofList_toList]
    rfl

end

/-! ## Statements -/

/-- **Unbroken tokens** — every known dialect writes a text, and a name, as something that its database reads as one
token with that content, whatever the content is and whatever follows. -/
theorem first_run {d : Dialect} (hd : d ∈ Dialect.all) (options : Options) :
    (∀ v : String, ∃ text, run (d.setting options) (Node.string v) = (.ok text, [])
      ∧ ∀ rest : List Char, rest.head? ≠ some '\'' →
        (Lexis.of d).first (text.toList ++ rest) = some (.text v, rest))
    ∧ ∀ (name : String) (quoted : Bool),
      ∃ text, run (d.setting options) (Node.identifier name quoted) = (.ok text, [])
        ∧ ∀ rest : List Char, (Lexis.of d).Closes text.toList rest →
          (Lexis.of d).first (text.toList ++ rest) = some (.name name, rest) := by
  have hfits : (Lexis.of d).Fits (d.setting options).style := fits_of_mem hd
  have hstyle : (d.setting options).style.MarksNames := marksNames_of_mem hd
  constructor
  · intro v
    exact ⟨(d.setting options).style.quoteText v, rfl, fun rest hrest => first_quoteText hfits v hrest⟩
  · intro name quoted
    have hwritten : run (d.setting options) (Node.identifier name quoted)
        = (.ok ((d.setting options).nameText name quoted), []) := by
      have hnode : (target (d.setting options) (Node.identifier name quoted)).node = Node.identifier name quoted := rfl
      have hflag : (Node.identifier name quoted).flag "quoted" = quoted := by cases quoted <;> rfl
      have hkind : (Node.identifier name quoted).kind = .identifier := rfl
      rw [run, render, piece_text, Target.render, hnode, hkind, Node.name_identifier, hflag]
      rfl
    exact ⟨_, hwritten, fun rest hrest => first_nameText hfits hstyle name quoted hrest⟩

/-- A text that tries to end itself, and a name that does, in a dialect with backslashes. -/
theorem first_run_intruders :
    (∃ text, run (Dialect.mysql.setting {}) (Node.string "\\' OR 1 = 1 --") = (.ok text, [])
      ∧ (Lexis.of Dialect.mysql).first (text.toList ++ [')']) = some (.text "\\' OR 1 = 1 --", [')']))
    ∧ ∃ text, run (Dialect.mysql.setting {}) (Node.identifier "a\x60 OR select") = (.ok text, [])
      ∧ (Lexis.of Dialect.mysql).first (text.toList ++ [')']) = some (.name "a\x60 OR select", [')']) := by
  obtain ⟨htexts, hnames⟩ := first_run (d := Dialect.mysql) (by simp [Dialect.all]) {}
  obtain ⟨text, htext, hread⟩ := htexts "\\' OR 1 = 1 --"
  obtain ⟨written, hwritten, hfound⟩ := hnames "a\x60 OR select" false
  exact ⟨⟨text, htext, hread [')'] (by decide)⟩, written, hwritten, hfound [')'] ⟨by decide, fun _ c hc => by cases hc; rfl⟩⟩

end AlgebraSql.Render
