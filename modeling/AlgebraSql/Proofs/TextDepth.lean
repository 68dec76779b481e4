import AlgebraSql.Proofs.Fragments
import AlgebraSql.Render.Node

/-!
# Depth of texts — how many parentheses are open behind a text.

A reader of queries looks for a few words outside parentheses: those between two queries and those that sort or limit
rows.  A text that closes the parentheses it opens, and has none of these words outside them, can stand in a query
without being taken for a part of what is around it.
-/

namespace AlgebraSql.Render

/-! ## Fragments -/

/-- Words between two queries. -/
def setWords : List String := ["UNION", "INTERSECT", "EXCEPT"]

/-- Words that sort or limit the rows of a query. -/
def rowWords : List String := ["ORDER", "LIMIT", "OFFSET", "FETCH"]

/-- Words that end the text of a clause. -/
def clauseWords : List String := setWords ++ rowWords

/-- A kept word that is one of the words, whatever letters it is written in. -/
def Lexeme.isOneOf (words : List String) : Lexeme → Bool
  | .reserved w => words.any fun word => sameWord word.toList w.toList
  | _ => false

/-- The depth behind a fragment.  Nothing is behind a parenthesis that closes what is not open, nor behind one of the
words outside parentheses. -/
def depthStep (words : List String) (depth : Nat) : Fragment → Option Nat
  | .sign '(' => some (depth + 1)
  | .sign ')' => if depth = 0 then none else some (depth - 1)
  | .sign _ => some depth
  | .token t => if depth = 0 ∧ t.isOneOf words = true then none else some depth

/-- The depth behind some fragments. -/
def depthAfter (words : List String) (depth : Nat) (fs : List Fragment) : Option Nat :=
  fs.foldlM (depthStep words) depth

section

variable {words : List String} {d e k : Nat}

theorem depthAfter_append (fa fb : List Fragment) :
    depthAfter words d (fa ++ fb) = (depthAfter words d fa).bind (depthAfter words · fb) :=
  List.foldlM_append

theorem depthAfter_cons (f : Fragment) (fs : List Fragment) :
    depthAfter words d (f :: fs) = (depthStep words d f).bind (depthAfter words · fs) :=
  List.foldlM_cons

/-- More parentheses around a fragment change nothing. -/
theorem depthStep_add {f : Fragment} (h : depthStep words d f = some e) (k : Nat) :
    depthStep words (d + k) f = some (e + k) := by
  unfold depthStep at h ⊢
  split at h
  · cases h
    simp only [Option.some.injEq]
    omega
  · split at h
    · cases h
    · cases h
      rw [if_neg (by omega)]
      simp only [Option.some.injEq]
      omega
  · cases h
    rfl
  · rename_i t
    split at h
    · cases h
    · rename_i hstop
      cases h
      refine if_neg fun hboth => hstop ⟨?_, hboth.2⟩
      omega

/-- More parentheses around a text change nothing. -/
theorem depthAfter_add {fs : List Fragment} (h : depthAfter words d fs = some e) (k : Nat) :
    depthAfter words (d + k) fs = some (e + k) := by
  induction fs generalizing d with
  | nil =>
    cases h
    rfl
  | cons f fs ih =>
    rw [depthAfter_cons, Option.bind_eq_some_iff] at h ⊢
    obtain ⟨next, hstep, hrest⟩ := h
    exact ⟨next + k, depthStep_add hstep k, ih hrest⟩

/-- In parentheses the words do not matter. -/
theorem depthAfter_enclosed {fs : List Fragment} (h : depthAfter words d fs = some e) (others : List String) :
    depthAfter others (d + 1) fs = some (e + 1) := by
  induction fs generalizing d with
  | nil =>
    cases h
    rfl
  | cons f fs ih =>
    rw [depthAfter_cons, Option.bind_eq_some_iff] at h ⊢
    obtain ⟨next, hstep, hrest⟩ := h
    refine ⟨next + 1, ?_, ih hrest⟩
    have hmore := depthStep_add hstep 1
    cases f with
    | sign c => exact hmore
    | token t =>
      have hplain : ∀ words : List String, depthStep words (d + 1) (.token t) = some (d + 1) := by
        intro words
        rw [depthStep, if_neg (by omega)]
      rw [hplain] at hmore ⊢
      exact hmore

/-- Fewer words to look for stop a reader less often. -/
theorem depthAfter_subset {fewer : List String} (hsub : fewer ⊆ words) {fs : List Fragment}
    (h : depthAfter words d fs = some e) : depthAfter fewer d fs = some e := by
  have hstep : ∀ {d e : Nat} {f : Fragment}, depthStep words d f = some e → depthStep fewer d f = some e := by
    intro d e f hf
    unfold depthStep at hf ⊢
    split at hf
    · exact hf
    · exact hf
    · exact hf
    · rename_i t
      split at hf
      · cases hf
      · rename_i hstop
        rw [if_neg]
        · exact hf
        · rintro ⟨hdepth, hone⟩
          refine hstop ⟨hdepth, ?_⟩
          cases t with
          | text _ | name _ => exact hone
          | reserved w =>
            obtain ⟨word, hword, hsame⟩ := List.any_eq_true.mp hone
            exact List.any_eq_true.mpr ⟨word, hsub hword, hsame⟩
  induction fs generalizing d with
  | nil => exact h
  | cons f fs ih =>
    rw [depthAfter_cons, Option.bind_eq_some_iff] at h ⊢
    obtain ⟨next, hnext, hrest⟩ := h
    exact ⟨next, hstep hnext, ih hrest⟩

end

/-! ## Written words -/

/-- The depth behind a word that has come to its end, if there is one. -/
def wordDepth (words : List String) (depth : Nat) : List Char → Option Nat
  | [] => some depth
  | c :: cs => if depth = 0 ∧ (words.any fun stop => sameWord stop.toList (c :: cs)) = true then none else some depth

/-- The depth behind words with separators between them; `word` is what has been read of the current one. -/
def depthFrom (words : List String) (depth : Nat) (word : List Char) : List Char → Option Nat
  | [] => wordDepth words depth word
  | c :: cs =>
    if isSeparator c then do
      let ended ← wordDepth words depth word
      let next ← depthStep words ended (.sign c)
      depthFrom words next [] cs
    else if isWord (word ++ [c]) then depthFrom words depth (word ++ [c]) cs
    else none

/-- The depth behind a text of words with separators between them. -/
def literalDepth (words : List String) (depth : Nat) (text : String) : Option Nat :=
  depthFrom words depth [] text.toList

/-- The text begins with a separator. -/
def startsApart (text : String) : Bool := text.toList.head?.any isSeparator

/-- The text ends with a separator. -/
def endsApart (text : String) : Bool := text.toList.getLast?.any isSeparator

section

variable {x : Lexis} {words : List String} {d e : Nat}

/-- A word is one fragment, and none if it is empty. -/
theorem falls_ended {word : List Char} (hword : word = [] ∨ isWord word = true)
    (h : wordDepth words d word = some e) : ∃ fs, Falls x word fs ∧ depthAfter words d fs = some e := by
  match word with
  | [] =>
    cases h
    exact ⟨[], falls_nil, rfl⟩
  | c :: cs =>
    have hword : isWord (c :: cs) = true := hword.resolve_left (by simp)
    by_cases hstop : d = 0 ∧ (words.any fun stop => sameWord stop.toList (c :: cs)) = true
    · rw [wordDepth, if_pos hstop] at h
      cases h
    · rw [wordDepth, if_neg hstop] at h
      cases h
      have hread := falls_word (x := x) (by rwa [String.toList_ofList])
      rw [String.toList_ofList] at hread
      have hfree : ¬ (d = 0 ∧ (Lexeme.ofWord (String.ofList (c :: cs))).isOneOf words = true) := by
        rintro ⟨hd, hone⟩
        unfold Lexeme.ofWord at hone
        split at hone
        · exact hstop ⟨hd, by simpa [Lexeme.isOneOf] using hone⟩
        · cases hone
      refine ⟨_, hread, ?_⟩
      rw [depthAfter_cons, depthStep, if_neg hfree]
      rfl

/-- Words with separators between them fall into fragments of their depth. -/
theorem falls_literal (hx : x.MarksNames) {cs : List Char} :
    ∀ {d : Nat} {word : List Char}, (word = [] ∨ isWord word = true) → depthFrom words d word cs = some e →
      ∃ fs, Falls x (word ++ cs) fs ∧ depthAfter words d fs = some e := by
  induction cs with
  | nil =>
    intro d word hword h
    rw [List.append_nil]
    exact falls_ended hword h
  | cons c cs ih =>
    intro d word hword h
    unfold depthFrom at h
    -- a separator ends the word that has been read so far, any other character carries it on
    split at h
    · rename_i hc
      obtain ⟨ended, hended, next, hnext, hrest⟩ : ∃ ended, wordDepth words d word = some ended
          ∧ ∃ next, depthStep words ended (.sign c) = some next ∧ depthFrom words next [] cs = some e := by
        simpa only [Option.bind_eq_bind, Option.bind_eq_some_iff] using h
      obtain ⟨fa, hfa, hda⟩ := falls_ended (x := x) hword hended
      obtain ⟨fb, hfb, hdb⟩ := ih (Or.inl rfl) hrest
      refine ⟨_, hfa.separated hx hc hfb, ?_⟩
      rw [depthAfter_append, hda, Option.bind_some, depthAfter_cons, hnext, Option.bind_some, hdb]
    · split at h
      · rename_i hc
        obtain ⟨fs, hfalls, hdepth⟩ := ih (Or.inr hc) h
        rw [List.append_assoc] at hfalls
        exact ⟨fs, hfalls, hdepth⟩
      · cases h

/-- The step for a separator at the end of a text comes last. -/
theorem depthFrom_concat {c : Char} (hc : isSeparator c = true) {cs : List Char} :
    ∀ {d : Nat} {word : List Char}, depthFrom words d word (cs ++ [c]) = some e →
      ∃ next, depthFrom words d word cs = some next ∧ depthStep words next (.sign c) = some e := by
  induction cs with
  | nil =>
    intro d word h
    rw [List.nil_append, depthFrom, if_pos hc] at h
    obtain ⟨ended, hended, next, hnext, hrest⟩ : ∃ ended, wordDepth words d word = some ended
        ∧ ∃ next, depthStep words ended (.sign c) = some next ∧ depthFrom words next [] [] = some e := by
      simpa only [Option.bind_eq_bind, Option.bind_eq_some_iff] using h
    have hsame : next = e := Option.some.inj hrest
    exact ⟨ended, hended, hsame ▸ hnext⟩
  | cons b cs ih =>
    intro d word h
    rw [List.cons_append] at h
    unfold depthFrom at h ⊢
    split at h
    · obtain ⟨ended, hended, next, hnext, hrest⟩ : ∃ ended, wordDepth words d word = some ended
          ∧ ∃ next, depthStep words ended (.sign b) = some next ∧ depthFrom words next [] (cs ++ [c]) = some e := by
        simpa only [Option.bind_eq_bind, Option.bind_eq_some_iff] using h
      obtain ⟨last, hlast, hstep⟩ := ih hrest
      refine ⟨last, ?_, hstep⟩
      rw [if_pos (by assumption), hended]
      simp only [Option.bind_eq_bind, Option.bind_some, hnext, hlast]
    · split at h
      · obtain ⟨last, hlast, hstep⟩ := ih h
        exact ⟨last, by rw [if_neg (by assumption), if_pos (by assumption), hlast], hstep⟩
      · cases h

end

/-! ## Texts -/

/-- **`Moves`** — behind a text that begins at one depth a reader is at another. -/
def Moves (x : Lexis) (words : List String) (d e : Nat) (text : String) : Prop :=
  ∃ fs, Falls x text.toList fs ∧ depthAfter words d fs = some e

/-- Words between two texts. -/
def bridges (words : List String) (d e : Nat) (text : String) : Bool :=
  startsApart text && endsApart text && literalDepth words d text == some e

/-- Words before a text. -/
def leads (words : List String) (d e : Nat) (text : String) : Bool :=
  endsApart text && literalDepth words d text == some e

/-- Words behind a text. -/
def trails (words : List String) (d e : Nat) (text : String) : Bool :=
  startsApart text && literalDepth words d text == some e

section

variable {x : Lexis} {words : List String} {d e e' e'' : Nat} {a b g : String}

theorem Moves.add (h : Moves x words d e a) (k : Nat) : Moves x words (d + k) (e + k) a := by
  obtain ⟨fs, hfalls, hdepth⟩ := h
  exact ⟨fs, hfalls, depthAfter_add hdepth k⟩

theorem Moves.enclosed (h : Moves x words d e a) (others : List String) : Moves x others (d + 1) (e + 1) a := by
  obtain ⟨fs, hfalls, hdepth⟩ := h
  exact ⟨fs, hfalls, depthAfter_enclosed hdepth others⟩

theorem Moves.subset {fewer : List String} (hsub : fewer ⊆ words) (h : Moves x words d e a) :
    Moves x fewer d e a := by
  obtain ⟨fs, hfalls, hdepth⟩ := h
  exact ⟨fs, hfalls, depthAfter_subset hsub hdepth⟩

/-- Words with separators between them. -/
theorem moves_literal (hx : x.MarksNames) (h : literalDepth words d g = some e) : Moves x words d e g := by
  exact falls_literal hx (Or.inl rfl) h

theorem startsApart_append (h : startsApart g = true) (b : String) : startsApart (g ++ b) = true := by
  unfold startsApart at h ⊢
  rw [String.toList_append]
  cases hcs : g.toList with
  | nil =>
    rw [hcs] at h
    cases h
  | cons c cs => rwa [hcs] at h

theorem endsName_of_startsApart (h : startsApart g = true) (rest : List Char) : EndsName (g.toList ++ rest) := by
  unfold startsApart at h
  cases hcs : g.toList with
  | nil =>
    rw [hcs] at h
    cases h
  | cons c cs =>
    rw [hcs] at h
    exact endsName_cons h _

/-- Two texts of which the second begins with a separator. -/
theorem Moves.append (ha : Moves x words d e a) (hb : Moves x words e e' b) (hstarts : startsApart b = true) :
    Moves x words d e' (a ++ b) := by
  obtain ⟨fa, hfa, hda⟩ := ha
  obtain ⟨fb, hfb, hdb⟩ := hb
  refine ⟨fa ++ fb, ?_, ?_⟩
  · rw [String.toList_append]
    exact hfa.append hfb fun rest _ => endsName_of_startsApart hstarts rest
  · rw [depthAfter_append, hda, Option.bind_some, hdb]

/-- Words behind a text. -/
theorem Moves.trail (hx : x.MarksNames) (ha : Moves x words d e a) (hg : trails words e e' g = true) :
    Moves x words d e' (a ++ g) := by
  obtain ⟨hstarts, hdepth⟩ : startsApart g = true ∧ literalDepth words e g = some e' := by simpa [trails] using hg
  exact ha.append (moves_literal hx hdepth) hstarts

/-- Words before a text. -/
theorem Moves.lead (hx : x.MarksNames) (hg : leads words d e g = true) (hb : Moves x words e e' b) :
    Moves x words d e' (g ++ b) := by
  obtain ⟨hends, hdepth⟩ : endsApart g = true ∧ literalDepth words d g = some e := by simpa [leads] using hg
  obtain ⟨fb, hfb, hdb⟩ := hb
  obtain ⟨c, hlast, hc⟩ : ∃ c, g.toList.getLast? = some c ∧ isSeparator c = true := by
    simpa [endsApart, Option.any_eq_true] using hends
  -- the separator at its end is taken apart, since the words alone may run into the text behind them
  obtain ⟨cs, hcs⟩ := List.getLast?_eq_some_iff.mp hlast
  rw [literalDepth, hcs] at hdepth
  obtain ⟨next, hnext, hstep⟩ := depthFrom_concat hc hdepth
  obtain ⟨fs, hfs, hfsdepth⟩ := falls_literal hx (Or.inl rfl) hnext
  refine ⟨fs ++ .sign c :: fb, ?_, ?_⟩
  · rw [String.toList_append, hcs, List.append_assoc]
    exact hfs.separated hx hc hfb
  · rw [depthAfter_append, hfsdepth, Option.bind_some, depthAfter_cons, hstep, Option.bind_some, hdb]

/-- Words between two texts. -/
theorem Moves.bridge (hx : x.MarksNames) (ha : Moves x words d e a) (hg : bridges words e e' g = true)
    (hb : Moves x words e' e'' b) : Moves x words d e'' (a ++ g ++ b) := by
  obtain ⟨⟨hstarts, hends⟩, hdepth⟩ : (startsApart g = true ∧ endsApart g = true)
      ∧ literalDepth words e g = some e' := by simpa [bridges] using hg
  have hlead : Moves x words e e'' (g ++ b) := hb.lead hx (by simp [leads, hends, hdepth])
  have happend := ha.append hlead (startsApart_append hstarts b)
  rwa [← String.append_assoc] at happend

theorem moves_empty : Moves x words d d "" := ⟨[], falls_nil, rfl⟩

/-- A token that is no word of the language. -/
theorem moves_token {t : Lexeme} (ht : t.isOneOf words = false) (h : Falls x a.toList [.token t]) :
    Moves x words d d a := by
  refine ⟨_, h, ?_⟩
  simp [depthAfter, depthStep, ht]

theorem moves_quoteText {s : Setting} (hfits : x.Fits s.style) (v : String) :
    Moves x words d d (s.style.quoteText v) := moves_token rfl (falls_quoteText hfits v)

theorem moves_nameText {s : Setting} (hfits : x.Fits s.style) (hstyle : s.style.MarksNames) (name : String)
    (quoted : Bool) : Moves x words d d (s.nameText name quoted) :=
  moves_token rfl (falls_nameText hfits hstyle name quoted)

/-- Digits. -/
theorem moves_digits (hx : x.MarksNames) (h : a.toList.all Char.isDigit = true) : Moves x words d d a := by
  refine ⟨_, falls_signs fun c hc => opens_of_digit hx (Or.inl (List.all_eq_true.mp h c hc)), ?_⟩
  generalize a.toList = cs at h
  induction cs with
  | nil => rfl
  | cons c cs ih =>
    obtain ⟨hc, hcs⟩ : c.isDigit = true ∧ cs.all Char.isDigit = true := by simpa using h
    have hplain : depthStep words d (.sign c) = some d := by
      unfold depthStep
      split
      · rename_i heq
        cases heq
        cases hc
      · rename_i heq
        cases heq
        cases hc
      · rfl
      · rename_i heq
        cases heq
    rw [List.map_cons, depthAfter_cons, hplain, Option.bind_some, ih hcs]

/-! ## Texts in a frame -/

/-- A text in parentheses, if they are needed. -/
theorem Moves.parenthesized (hx : x.MarksNames) (needed : Bool) (h : Moves x words d d a) :
    Moves x words d d (parenthesized needed a) := by
  cases needed with
  | false => exact h
  | true =>
    have hdepth : literalDepth words d "(" = some (d + 1) := rfl
    have hback : literalDepth words (d + 1) ")" = some d := rfl
    have hends : endsApart "(" = true := by decide
    have hstarts : startsApart ")" = true := by decide
    have hopen : Moves x words d (d + 1) ("(" ++ a) := (h.add 1).lead hx (by simp [leads, hends, hdepth])
    exact hopen.trail hx (by simp [trails, hstarts, hback])

/-- A text that is written behind some words unless it is empty. -/
theorem Moves.preceded (hx : x.MarksNames) (ha : Moves x words d e a) (hg : bridges words e e g = true)
    (hb : Moves x words e e b) : Moves x words d e (a ++ preceded g b) := by
  unfold Render.preceded
  split
  · rwa [String.append_empty]
  · rw [← String.append_assoc]
    exact ha.bridge hx hg hb

/-- Texts with the same words between them. -/
theorem moves_intercalate (hx : x.MarksNames) (hg : bridges words d d g = true) {texts : List String}
    (h : ∀ t ∈ texts, Moves x words d d t) : Moves x words d d (g.intercalate texts) := by
  induction texts with
  | nil => exact moves_empty
  | cons t texts ih =>
    have hrest := ih fun u hu => h u (List.mem_cons_of_mem _ hu)
    cases texts with
    | nil => exact h t (by simp)
    | cons u texts =>
      rw [String.intercalate_cons_cons]
      exact (h t (by simp)).bridge hx hg hrest

end

end AlgebraSql.Render
