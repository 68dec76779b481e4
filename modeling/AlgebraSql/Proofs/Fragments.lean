import AlgebraSql.Proofs.QuotedTokens

/-!
# Fragments — the words, quoted contents and signs that a text falls into.

A reader of statements who knows only where words, texts in quotes and names in quotes end sees a text as
fragments: words and quoted contents as tokens, everything else, blanks and digits too, character by
character.  What a rule writes falls into the same fragments wherever it is put, as long as what follows does
not carry on its last word or quoted content.
-/

namespace AlgebraSql.Render

/-- A token of its own, or a single character. -/
inductive Fragment where
  | token (t : Lexeme)
  | sign (c : Char)
  deriving Repr, DecidableEq

namespace Lexis

/-- A word or something in quotes begins with the character. -/
def opens (x : Lexis) (c : Char) : Bool := isWordStart c || c == '\'' || c == x.nameQuote

/-- The fragments of a text, if its quotes are closed. -/
def fragments (x : Lexis) (cs : List Char) : Option (List Fragment) :=
  match cs with
  | [] => some []
  | c :: cs =>
    if x.opens c then do
      let (t, rest) ← x.first (c :: cs)
      let following ← x |>.fragments rest
      return .token t :: following
    else do
      let following ← x |>.fragments cs
      return .sign c :: following
partial_fixpoint

/-- The database marks names in one of the two ways. -/
def MarksNames (x : Lexis) : Prop := x.nameQuote = '"' ∨ x.nameQuote = '\x60'

end Lexis

/-- The character ends words and stands in no quotes. -/
def isSeparator (c : Char) : Bool := !isWordPart c && c != '"' && c != '\x60' && c != '\''

/-- The fragments that stand for themselves: all but blanks. -/
def withoutBlanks (fs : List Fragment) : List Fragment := fs.filter (· != .sign ' ')

/-- The text falls into the fragments, whatever follows its last word or quote. -/
def Falls (x : Lexis) (cs : List Char) (fs : List Fragment) : Prop :=
  ∀ rest, EndsName rest → x.fragments (cs ++ rest) = (x.fragments rest).map (fs ++ ·)

section

variable {x : Lexis}

/-! ## One fragment -/

theorem fragments_nil : x.fragments [] = some [] := by rw [Lexis.fragments.eq_def]

/-- A character that opens nothing stands for itself. -/
theorem fragments_sign {c : Char} (h : x.opens c = false) (cs : List Char) :
    x.fragments (c :: cs) = (x.fragments cs).map (.sign c :: ·) := by
  rw [Lexis.fragments.eq_def]
  simp only [h, Bool.false_eq_true, if_false]
  cases x.fragments cs <;> rfl

/-- What a token is read from opens it. -/
theorem opens_of_first {c : Char} {cs rest : List Char} {t : Lexeme} (h : x.first (c :: cs) = some (t, rest)) :
    x.opens c = true := by
  by_contra hopens
  obtain ⟨⟨hword, hquote⟩, hname⟩ : (isWordStart c = false ∧ c ≠ '\'') ∧ c ≠ x.nameQuote := by
    simpa [Lexis.opens] using hopens
  rw [Lexis.first, hword, if_neg (by decide), if_neg hquote, if_neg hname] at h
  cases h

/-- A token stands before the fragments of what follows it. -/
theorem fragments_first {cs rest : List Char} {t : Lexeme} (h : x.first cs = some (t, rest)) :
    x.fragments cs = (x.fragments rest).map (.token t :: ·) := by
  cases cs with
  | nil => cases h
  | cons c cs =>
    rw [Lexis.fragments.eq_def]
    simp only [opens_of_first h, if_true, h, Option.bind_eq_bind, Option.bind_some]
    cases x.fragments rest <;> rfl

theorem endsName_nil : EndsName [] := fun c hc => by cases hc

theorem endsName_cons {c : Char} (h : isSeparator c = true) (cs : List Char) : EndsName (c :: cs) := by
  intro d hd
  cases hd
  simpa [isSeparator, and_assoc] using h

/-- A separator opens nothing. -/
theorem opens_of_isSeparator (hx : x.MarksNames) {c : Char} (h : isSeparator c = true) : x.opens c = false := by
  obtain ⟨hpart, hdouble, htick, hsingle⟩ := endsName_cons h [] c rfl
  have hstart : isWordStart c = false := Bool.eq_false_iff.mpr fun hstart => by
    rw [isWordPart_of_isWordStart hstart] at hpart
    cases hpart
  have hname : c ≠ x.nameQuote := by
    rcases hx with hq | hq <;> rw [hq] <;> assumption
  simp [Lexis.opens, hstart, hsingle, hname]

/-- A digit or a point opens nothing. -/
theorem opens_of_digit (hx : x.MarksNames) {c : Char} (h : c.isDigit = true ∨ c = '.') : x.opens c = false := by
  rcases h with hdigit | rfl
  · have hquotes : c ≠ '"' ∧ c ≠ '\x60' ∧ c ≠ '\'' := by
      refine ⟨?_, ?_, ?_⟩ <;> (rintro rfl; cases hdigit)
    have hname : c ≠ x.nameQuote := by
      rcases hx with hq | hq <;> rw [hq]
      · exact hquotes.1
      · exact hquotes.2.1
    simp [Lexis.opens, isWordStart_of_isDigit hdigit, hquotes.2.2, hname]
  · exact opens_of_isSeparator hx (by decide)

/-! ## Texts put together -/

variable {as bs : List Char} {fa fb : List Fragment}

/-- The fragments of a text alone. -/
theorem Falls.alone (h : Falls x as fa) : x.fragments as = some fa := by
  have hread := h [] endsName_nil
  rw [fragments_nil, List.append_nil, Option.map_some, List.append_nil] at hread
  exact hread

theorem falls_nil : Falls x [] [] := fun rest _ => by simp

/-- A character that opens nothing may stand before a text. -/
theorem Falls.cons {c : Char} (hc : x.opens c = false) (h : Falls x as fa) : Falls x (c :: as) (.sign c :: fa) := by
  intro rest hrest
  rw [List.cons_append, fragments_sign hc, h rest hrest, Option.map_map]
  rfl

/-- Two texts follow each other if the second one ends a name. -/
theorem Falls.append (ha : Falls x as fa) (hb : Falls x bs fb) (hends : ∀ rest, EndsName rest → EndsName (bs ++ rest)) :
    Falls x (as ++ bs) (fa ++ fb) := by
  intro rest hrest
  rw [List.append_assoc, ha _ (hends rest hrest), hb rest hrest, Option.map_map]
  simp [Function.comp_def]

/-- Two texts follow each other with a separator between them. -/
theorem Falls.separated (hx : x.MarksNames) {c : Char} (hc : isSeparator c = true) (ha : Falls x as fa)
    (hb : Falls x bs fb) : Falls x (as ++ c :: bs) (fa ++ .sign c :: fb) :=
  ha.append (hb.cons (opens_of_isSeparator hx hc)) fun _ _ => endsName_cons hc _

/-- Characters that open nothing stand for themselves. -/
theorem falls_signs {cs : List Char} (h : ∀ c ∈ cs, x.opens c = false) : Falls x cs (cs.map .sign) := by
  induction cs with
  | nil => exact falls_nil
  | cons c cs ih => exact (ih fun d hd => h d (List.mem_cons_of_mem _ hd)).cons (h c List.mem_cons_self)

/-- A token that is read wherever a name may end. -/
theorem falls_token {cs : List Char} {t : Lexeme} (h : ∀ rest, EndsName rest → x.first (cs ++ rest) = some (t, rest)) :
    Falls x cs [.token t] := by
  intro rest hrest
  rw [fragments_first (h rest hrest)]
  rfl

/-- The token that a word is. -/
def Lexeme.ofWord (word : String) : Lexeme := if isKept word.toList then .reserved word else .name word

theorem falls_word {word : String} (h : isWord word.toList = true) :
    Falls x word.toList [.token (.ofWord word)] := by
  apply falls_token
  intro rest hrest
  rw [first_word h fun c hc => (hrest c hc).1, String.ofList_toList]
  rfl

/-- A text in quotes is one token. -/
theorem falls_quoteText {s : Setting} (hfits : x.Fits s.style) (v : String) :
    Falls x (s.style.quoteText v).toList [.token (.text v)] :=
  falls_token fun _ hrest => first_quoteText hfits v fun hhead => (hrest _ hhead).2.2.2 rfl

/-- A name is one token. -/
theorem falls_nameText {s : Setting} (hfits : x.Fits s.style) (hstyle : s.style.MarksNames) (name : String)
    (quoted : Bool) : Falls x (s.nameText name quoted).toList [.token (.name name)] := by
  apply falls_token
  intro rest hrest
  -- what ends a name carries on neither a word nor a quoted name
  have hcloses : x.Closes (s.nameText name quoted).toList rest := by
    refine ⟨fun hhead => ?_, fun _ c hc => (hrest c hc).1⟩
    obtain ⟨-, hdouble, htick, -⟩ := hrest _ hhead
    rw [hfits.1] at hdouble htick
    rcases hstyle with hq | hq
    · exact hdouble hq
    · exact htick hq
  exact first_nameText hfits hstyle name quoted hcloses

theorem Lexis.Fits.marksNames {style : Style} (hfits : x.Fits style) (hstyle : style.MarksNames) : x.MarksNames := by
  unfold Lexis.MarksNames
  rw [hfits.1]
  exact hstyle

/-! ## Texts in a frame -/

/-- Texts with a separator between them. -/
theorem Falls.join (hx : x.MarksNames) {c : Char} (hc : isSeparator c = true) {a b : String}
    (ha : Falls x a.toList fa) (hb : Falls x b.toList fb) :
    Falls x (a ++ String.singleton c ++ b).toList (fa ++ .sign c :: fb) := by
  have hall := ha.separated hx hc hb
  simpa using hall

/-- A text in parentheses, if they are needed. -/
def enclosedIf (needed : Bool) (fs : List Fragment) : List Fragment :=
  if needed then .sign '(' :: (fs ++ [.sign ')']) else fs

theorem Falls.parenthesized (hx : x.MarksNames) {a : String} (needed : Bool) (ha : Falls x a.toList fa) :
    Falls x (parenthesized needed a).toList (enclosedIf needed fa) := by
  cases needed with
  | false => exact ha
  | true =>
    have hopening : x.opens '(' = false := opens_of_isSeparator hx (by decide)
    have hclosed := ha.separated hx (c := ')') (by decide) falls_nil
    simpa [Render.parenthesized, enclosedIf] using hclosed.cons hopening

/-! ## Blanks -/

/-- Blanks apart, the text falls into the fragments, whatever follows its last word or quote. -/
def FallsInto (x : Lexis) (text : String) (fs : List Fragment) : Prop :=
  ∃ all, Falls x text.toList all ∧ withoutBlanks all = fs

section

variable {a b : String}

/-- The fragments of a text alone that stand for themselves. -/
theorem FallsInto.alone (h : FallsInto x a fa) : (x.fragments a.toList).map withoutBlanks = some fa := by
  obtain ⟨all, hall, rfl⟩ := h
  rw [hall.alone, Option.map_some]

/-- Two texts of which the second ends a name. -/
theorem FallsInto.append (ha : FallsInto x a fa) (hb : FallsInto x b fb)
    (hends : ∀ rest, EndsName rest → EndsName (b.toList ++ rest)) : FallsInto x (a ++ b) (fa ++ fb) := by
  obtain ⟨as, has, rfl⟩ := ha
  obtain ⟨bs, hbs, rfl⟩ := hb
  refine ⟨as ++ bs, ?_, List.filter_append ..⟩
  rw [String.toList_append]
  exact has.append hbs hends

/-- A sign before a text. -/
theorem FallsInto.cons {c : Char} (hc : x.opens c = false) (hblank : c ≠ ' ') (h : FallsInto x a fa) :
    FallsInto x (String.singleton c ++ a) (.sign c :: fa) := by
  obtain ⟨as, has, rfl⟩ := h
  refine ⟨.sign c :: as, ?_, ?_⟩
  · rw [String.toList_append, String.toList_singleton, List.singleton_append]
    exact has.cons hc
  · simp [withoutBlanks, hblank]

/-- Two texts with a blank between them. -/
theorem FallsInto.spaced (hx : x.MarksNames) (ha : FallsInto x a fa) (hb : FallsInto x b fb) :
    FallsInto x (a ++ " " ++ b) (fa ++ fb) := by
  obtain ⟨as, has, rfl⟩ := ha
  obtain ⟨bs, hbs, rfl⟩ := hb
  exact ⟨_, has.join hx (c := ' ') (by decide) hbs, by simp [withoutBlanks]⟩

theorem FallsInto.parenthesized (hx : x.MarksNames) (needed : Bool) (ha : FallsInto x a fa) :
    FallsInto x (parenthesized needed a) (enclosedIf needed fa) := by
  obtain ⟨as, has, rfl⟩ := ha
  refine ⟨_, has.parenthesized hx needed, ?_⟩
  cases needed with
  | false => rfl
  | true => simp [enclosedIf, withoutBlanks]

end

end

end AlgebraSql.Render
