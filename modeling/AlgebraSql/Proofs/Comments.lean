import AlgebraSql.Convert.Operation
import AlgebraSql.Proofs.Fragments

/-!
# Comments — which signs of a text meet.

Two minus signs next to each other, or a slash before a star, make the rest of a statement a comment.  The
operators between two operands stand between blanks and the operands that bind too weakly in parentheses, so
signs of two operations never meet.  Only a sign before an operand stands directly before its text.
-/

namespace AlgebraSql.Render

open Sql

/-! ## Comments -/

/-- Two characters that open a comment. -/
def startsComment : Fragment → Fragment → Bool
  | .sign '-', .sign '-' => true
  | .sign '/', .sign '*' => true
  | _, _ => false

/-- A comment is opened somewhere between the fragments. -/
def opensComment : List Fragment → Bool
  | f :: g :: fs => startsComment f g || opensComment (g :: fs)
  | _ => false

/-- The character takes part in no comment sign. -/
def isQuiet (c : Char) : Bool := c != '-' && c != '/' && c != '*'

theorem startsComment_quiet {c : Char} (h : isQuiet c = true) (f : Fragment) :
    startsComment f (.sign c) = false ∧ startsComment (.sign c) f = false := by
  obtain ⟨⟨hminus, hslash⟩, hstar⟩ : (c ≠ '-' ∧ c ≠ '/') ∧ c ≠ '*' := by simpa [isQuiet] using h
  constructor
  · unfold startsComment
    split <;> simp_all
  · unfold startsComment
    split <;> simp_all

/-- A quiet character keeps the texts on both sides apart. -/
theorem opensComment_append {c : Char} (h : isQuiet c = true) (fa fb : List Fragment) :
    opensComment (fa ++ .sign c :: fb) = (opensComment fa || opensComment fb) := by
  induction fa with
  | nil =>
    cases fb with
    | nil => rfl
    | cons g fb => simp [opensComment, startsComment_quiet h g]
  | cons f fa ih =>
    cases fa with
    | nil =>
      rw [List.nil_append] at ih
      simp only [List.cons_append, List.nil_append, opensComment, (startsComment_quiet h f).1, Bool.false_or, ih]
    | cons g fa =>
      rw [List.cons_append] at ih
      simp only [List.cons_append, opensComment, ih, Bool.or_assoc]

/-- One of the propositions holds. -/
def AnyOf (ps : List Prop) : Prop := ∃ p ∈ ps, p

@[simp]
theorem anyOf_nil : AnyOf [] ↔ False := by simp [AnyOf]

@[simp]
theorem anyOf_cons (p : Prop) (ps : List Prop) : AnyOf (p :: ps) ↔ p ∨ AnyOf ps :=
  List.exists_mem_cons_iff (fun q => q) p ps

@[simp]
theorem anyOf_append (ps qs : List Prop) : AnyOf (ps ++ qs) ↔ AnyOf ps ∨ AnyOf qs := by
  induction ps with
  | nil => simp
  | cons p ps ih => simp [ih, or_assoc]

/-- The text opens a comment exactly if `p` holds. -/
def Hazard (x : Lexis) (text : String) (p : Prop) : Prop :=
  ∃ fs, Falls x text.toList fs ∧ (opensComment fs = true ↔ p)

section

variable {x : Lexis} {a b : String} {p q : Prop}

theorem Hazard.congr (h : Hazard x a p) (hpq : p ↔ q) : Hazard x a q := by
  obtain ⟨fs, hfalls, hp⟩ := h
  exact ⟨fs, hfalls, hp.trans hpq⟩

/-- A token opens no comment. -/
theorem Falls.hazard {t : Lexeme} (h : Falls x a.toList [.token t]) : Hazard x a False :=
  ⟨_, h, by simp [opensComment]⟩

theorem hazard_word (h : isWord a.toList = true) : Hazard x a False := (falls_word h).hazard

/-- Separators that open no comment. -/
theorem hazard_signs (hx : x.MarksNames) (h : a.toList.all isSeparator = true)
    (hquiet : opensComment (a.toList.map .sign) = false) : Hazard x a False := by
  refine ⟨_, falls_signs fun c hc => opens_of_isSeparator hx (List.all_eq_true.mp h c hc), ?_⟩
  rw [hquiet]
  simp

/-- Two texts with a quiet separator between them. -/
theorem Hazard.join (hx : x.MarksNames) {c : Char} (hc : isSeparator c = true) (hquiet : isQuiet c = true)
    (ha : Hazard x a p) (hb : Hazard x b q) : Hazard x (a ++ String.singleton c ++ b) (p ∨ q) := by
  obtain ⟨fa, hfa, hp⟩ := ha
  obtain ⟨fb, hfb, hq⟩ := hb
  refine ⟨_, hfa.join hx hc hfb, ?_⟩
  rw [opensComment_append hquiet, Bool.or_eq_true, hp, hq]

theorem hazard_empty : Hazard x "" False := ⟨[], falls_nil, by simp [opensComment]⟩

theorem Hazard.spaced (hx : x.MarksNames) (ha : Hazard x a p) (hb : Hazard x b q) :
    Hazard x (a ++ " " ++ b) (p ∨ q) := ha.join hx (c := ' ') (by decide) (by decide) hb

theorem Hazard.comma (hx : x.MarksNames) (ha : Hazard x a p) (hb : Hazard x b q) :
    Hazard x (a ++ ", " ++ b) (p ∨ q) := by
  have hblank := hazard_empty.spaced hx hb
  have hall := ha.join hx (c := ',') (by decide) (by decide) hblank
  have htext : a ++ ", " ++ b = a ++ String.singleton ',' ++ ("" ++ " " ++ b) := by
    rw [← String.toList_inj]
    simp
  rw [htext]
  exact hall.congr (by simp)

/-- A text with something before its parentheses. -/
theorem Hazard.enclosed (hx : x.MarksNames) (ha : Hazard x a p) (hb : Hazard x b q) :
    Hazard x (a ++ "(" ++ b ++ ")") (p ∨ q) := by
  have hopening := ha.join hx (c := '(') (by decide) (by decide) hb
  have hall := hopening.join hx (c := ')') (by decide) (by decide) hazard_empty
  have htext : a ++ "(" ++ b ++ ")" = a ++ String.singleton '(' ++ b ++ String.singleton ')' ++ "" := by
    rw [← String.toList_inj]
    simp
  rw [htext]
  exact hall.congr (by simp)

theorem Hazard.parenthesized (hx : x.MarksNames) (needed : Bool) (ha : Hazard x a p) :
    Hazard x (Render.parenthesized needed a) p := by
  cases needed with
  | false => exact ha
  | true =>
    have hall := hazard_empty.enclosed hx ha
    have htext : Render.parenthesized true a = "" ++ "(" ++ a ++ ")" := by
      rw [← String.toList_inj]
      simp [Render.parenthesized]
    rw [htext]
    exact hall.congr (by simp)

/-- Texts with separators that keep them apart. -/
theorem hazard_intercalate {sep : String} (hsep : ∀ {a b : String} {p q : Prop}, Hazard x a p → Hazard x b q →
      Hazard x (a ++ sep ++ b) (p ∨ q)) {texts : List String} {ps : List Prop}
    (h : List.Forall₂ (Hazard x) texts ps) : Hazard x (sep.intercalate texts) (AnyOf ps) := by
  induction h with
  | nil => exact hazard_empty.congr (by simp)
  | @cons a p texts ps ha hrest ih =>
    cases hrest with
    | nil => exact ha.congr (by simp)
    | @cons b q texts ps hb hrest =>
      rw [String.intercalate_cons_cons]
      exact (hsep ha ih).congr (by simp)

/-- The first fragment of a text is a minus sign exactly if its first character is one. -/
theorem head_falls (hx : x.MarksNames) {fs : List Fragment} (h : Falls x a.toList fs) :
    fs.head? = some (.sign '-') ↔ a.toList.head? = some '-' := by
  have hread := h.alone
  have hminus : x.opens '-' = false := opens_of_isSeparator hx (by decide)
  -- a character that opens a token is no minus sign, any other is the first fragment itself
  cases hcs : a.toList with
  | nil =>
    rw [hcs, fragments_nil] at hread
    cases hread
    simp
  | cons c cs =>
    rw [hcs] at hread
    cases hopens : x.opens c with
    | false =>
      rw [fragments_sign hopens] at hread
      obtain ⟨fs, -, rfl⟩ := Option.map_eq_some_iff.mp hread
      simp
    | true =>
      have hne : c ≠ '-' := by
        rintro rfl
        rw [hopens] at hminus
        cases hminus
      rw [Lexis.fragments.eq_def] at hread
      simp only [hopens, if_true, Option.bind_eq_bind, Option.bind_eq_some_iff] at hread
      obtain ⟨first, -, following, -, heq⟩ := hread
      cases heq
      simp [hne]

/-- A sign before a text meets the sign that the text begins with. -/
theorem Hazard.negated (hx : x.MarksNames) (ha : Hazard x a p) :
    Hazard x ("-" ++ a) (a.toList.head? = some '-' ∨ p) := by
  obtain ⟨fs, hfalls, hp⟩ := ha
  have hminus : x.opens '-' = false := opens_of_isSeparator hx (by decide)
  refine ⟨.sign '-' :: fs, by simpa using hfalls.cons hminus, ?_⟩
  rw [← head_falls hx hfalls, ← hp]
  cases fs with
  | nil => simp [opensComment]
  | cons f fs =>
    have hstarts : startsComment (.sign '-') f = true ↔ f = .sign '-' := by
      unfold startsComment
      split <;> simp_all
    simp [opensComment, hstarts]

end

/-! ## Nodes -/

section

variable {x : Lexis} {s : Setting}

/-- The node is written as a text that opens a comment exactly if `p` holds. -/
def Shown (x : Lexis) (s : Setting) (n : Node) (p : Prop) : Prop :=
  ∃ text, (piece s n).text = pure text ∧ Hazard x text p

/-- The same for a node that needs no parentheses behind a sign and begins with a minus sign exactly if `q`
holds. -/
def ShownSigned (x : Lexis) (s : Setting) (n : Node) (p q : Prop) : Prop :=
  ∃ text, (piece s n).text = pure text ∧ Hazard x text p
    ∧ (Strength.ofKind n.kind = .atom ∧ text.toList.head? = some '-' ↔ q)

theorem ShownSigned.shown {n : Node} {p q : Prop} (h : ShownSigned x s n p q) : Shown x s n p := by
  obtain ⟨text, htext, hhazard, -⟩ := h
  exact ⟨text, htext, hhazard⟩

theorem ShownSigned.congr {n : Node} {p p' q q' : Prop} (h : ShownSigned x s n p q) (hp : p ↔ p') (hq : q ↔ q') :
    ShownSigned x s n p' q' := by
  obtain ⟨text, htext, hhazard, hsign⟩ := h
  exact ⟨text, htext, hhazard.congr hp, hsign.trans hq⟩

/-- What is no atom is put in parentheses behind a sign. -/
theorem Shown.signed {n : Node} {p : Prop} {kind : Kind} (h : Shown x s n p) (hkind : n.kind = kind)
    (hweak : Strength.ofKind kind ≠ .atom) : ShownSigned x s n p False := by
  obtain ⟨text, htext, hhazard⟩ := h
  have hnever : ¬ (Strength.ofKind n.kind = .atom ∧ text.toList.head? = some '-') := by
    rw [hkind]
    exact fun hboth => hweak hboth.1
  exact ⟨text, htext, hhazard, iff_of_false hnever id⟩

/-! ### Constants and names -/

theorem Shown.text (hfits : x.Fits s.style) (v : String) : ShownSigned x s (Node.string v) False False := by
  refine ⟨s.style.quoteText v, rfl, (falls_quoteText hfits v).hazard, ?_⟩
  simp [Style.quoteText]

/-- A name does not begin with a minus sign. -/
theorem head_nameText_ne (hstyle : s.style.MarksNames) (name : String) (quoted : Bool) (rest : List Char) :
    ((s.nameText name quoted).toList ++ rest).head? ≠ some '-' := by
  obtain ⟨c, cs, htext, hstart⟩ := starts_nameText s name quoted
  rw [htext, List.cons_append, List.head?_cons]
  rintro ⟨⟩
  rcases hstart with hstart | hquote
  · cases hstart
  · rcases hstyle with hq | hq <;> (rw [hq] at hquote; cases hquote)

theorem Shown.identifier (hfits : x.Fits s.style) (hstyle : s.style.MarksNames) (name : String) :
    ShownSigned x s (Node.identifier name) False False := by
  have htext : (piece s (Node.identifier name)).text = pure (s.nameText name false) := by
    rw [piece_text, Target.render]
    show (pure (s.nameText (Node.identifier name).name false) : RenderM String) = _
    rw [Node.name_identifier]
  refine ⟨_, htext, (falls_nameText hfits hstyle name false).hazard, ?_⟩
  have hhead := head_nameText_ne hstyle name false []
  rw [List.append_nil] at hhead
  simp [hhead]

theorem Shown.column (hfits : x.Fits s.style) (hstyle : s.style.MarksNames) (name : String) (table : Option String) :
    ShownSigned x s (Node.column name table) False False := by
  have hrender : (piece s (Node.column name table)).text = (target s (Node.column name table)).columnText := by
    rw [piece_text]
    rfl
  obtain ⟨quoted, hthis⟩ : ∃ quoted, (target s (Node.column name table)).part "this" = pure (s.nameText name quoted) :=
    part_name ⟨_, rfl, rfl, Node.name_identifier ..⟩
  have hname := (falls_nameText hfits hstyle name quoted).hazard
  cases table with
  | none =>
    have htable : (target s (Node.column name none)).part "table" = pure "" :=
      part_absent (by simp [Absent, Node.column, Node.kept])
    refine ⟨s.nameText name quoted, ?_, hname, ?_⟩
    · rw [hrender, Target.columnText, htable, hthis]
      rfl
    · have hhead := head_nameText_ne hstyle name quoted []
      rw [List.append_nil] at hhead
      simp [hhead]
  | some table =>
    obtain ⟨tableQuoted, htable⟩ : ∃ quoted,
        (target s (Node.column name (some table))).part "table" = pure (s.nameText table quoted) :=
      part_name ⟨_, rfl, rfl, Node.name_identifier ..⟩
    have hnonempty : s.nameText table tableQuoted ≠ "" := by
      obtain ⟨c, cs, htext, -⟩ := head_nameText s hstyle table tableQuoted
      intro hempty
      rw [hempty] at htext
      cases htext
    have hx := hfits.marksNames hstyle
    have hboth := (falls_nameText hfits hstyle table tableQuoted).hazard.join hx (c := '.') (by decide) (by decide) hname
    refine ⟨_, ?_, hboth.congr (by simp), ?_⟩
    · rw [hrender, Target.columnText, htable, hthis]
      simp only [pure_bind, beq_iff_eq, hnonempty, if_false]
      rfl
    · have hhead := head_nameText_ne hstyle table tableQuoted ('.' :: (s.nameText name quoted).toList)
      exact iff_of_false (fun hboth => hhead (by simpa using hboth.2)) id

/-- Digits and points, at least one of them. -/
def IsPlainNumeral (cs : List Char) : Prop := cs ≠ [] ∧ ∀ c ∈ cs, c.isDigit = true ∨ c = '.'

/-- A numeral with or without a sign before it. -/
def IsSignedNumeral (cs : List Char) : Prop :=
  IsPlainNumeral cs ∨ ∃ sign body, cs = sign :: body ∧ (sign = '-' ∨ sign = '+') ∧ IsPlainNumeral body

/-- Digits and points open no comment. -/
theorem opensComment_plain {cs : List Char} (h : ∀ c ∈ cs, c.isDigit = true ∨ c = '.') :
    opensComment (cs.map .sign) = false ∧ ∀ f, opensComment (f :: cs.map .sign) = false := by
  have hquiet : ∀ c, (c.isDigit = true ∨ c = '.') → isQuiet c = true := by
    rintro c (hdigit | rfl)
    · have hne : (c ≠ '-' ∧ c ≠ '/') ∧ c ≠ '*' := by
        refine ⟨⟨?_, ?_⟩, ?_⟩ <;> (rintro rfl; cases hdigit)
      simpa [isQuiet] using hne
    · rfl
  induction cs with
  | nil => exact ⟨rfl, fun _ => rfl⟩
  | cons c cs ih =>
    obtain ⟨-, hrest⟩ := ih fun d hd => h d (List.mem_cons_of_mem _ hd)
    have hc := hquiet c (h c List.mem_cons_self)
    refine ⟨hrest (.sign c), fun f => ?_⟩
    have hfirst := (startsComment_quiet hc f).1
    have htail : opensComment (.sign c :: cs.map .sign) = false := hrest (.sign c)
    simp only [List.map_cons, opensComment, hfirst, htail, Bool.or_false]

theorem Shown.number (hx : x.MarksNames) {digits : String} (h : IsSignedNumeral digits.toList) :
    ShownSigned x s (Node.number digits) False (digits.toList.head? = some '-') := by
  refine ⟨digits, rfl, ?_, and_iff_right rfl⟩
  rcases h with ⟨-, hall⟩ | ⟨sign, body, htext, hsign, -, hall⟩
  · refine ⟨_, falls_signs fun c hc => opens_of_digit hx (hall c hc), ?_⟩
    simp [(opensComment_plain hall).1]
  · have hopens : x.opens sign = false := by
      rcases hsign with rfl | rfl <;> exact opens_of_isSeparator hx (by decide)
    refine ⟨.sign sign :: body.map .sign, ?_, by simp [(opensComment_plain hall).2]⟩
    rw [htext]
    exact (falls_signs fun c hc => opens_of_digit hx (hall c hc)).cons hopens

/-! ### Operations -/

variable {n l r : Node} {p q : Prop}

/-- An operation is written as its operands with the operator between them. -/
theorem Shown.binary (hx : x.MarksNames) {sign : String} (hthis : n.child? "this" = some l)
    (hright : n.child? "expression" = some r) (hrender : (target s n).render = (target s n).binaryText sign)
    (hsign : Hazard x sign False) (hl : Shown x s l p) (hr : Shown x s r q) : Shown x s n (p ∨ q) := by
  obtain ⟨left, hleft, hp⟩ := hl
  obtain ⟨right, hrighttext, hq⟩ := hr
  have hlp := hp.parenthesized hx (wrapsLeft n.kind (some l))
  have hrq := hq.parenthesized hx (wrapsRight n.kind (some r))
  have hnode : (target s n).node = n := rfl
  refine ⟨_, ?_, ((hlp.spaced hx hsign).spaced hx hrq).congr (by simp)⟩
  rw [piece_text, hrender]
  simp only [Target.binaryText, one?_target hthis, one?_target hright, textOf, hleft, hrighttext, hnode, hthis,
    hright, pure_bind]

theorem shown_connective (hx : x.MarksNames) {kind : Kind} (h : kind = .and ∨ kind = .or) (hl : Shown x s l p)
    (hr : Shown x s r q) : Shown x s (Node.binary kind l r) (p ∨ q) := by
  rcases h with rfl | rfl
  · exact Shown.binary hx rfl rfl rfl (hazard_word (a := "AND") (by decide)) hl hr
  · exact Shown.binary hx rfl rfl rfl (hazard_word (a := "OR") (by decide)) hl hr

theorem shown_binaryKind (hx : x.MarksNames) {op : OperatorKind} {kind : Kind}
    (h : Convert.binaryKind? op = some kind) (hl : Shown x s l p) (hr : Shown x s r q) :
    ShownSigned x s (Node.binary kind l r) (p ∨ q) False := by
  have hsign : ∀ {a : String}, a.toList.all isSeparator = true → opensComment (a.toList.map .sign) = false →
      Hazard x a False := fun ha hquiet => hazard_signs hx ha hquiet
  have hshown : Shown x s (Node.binary kind l r) (p ∨ q) := by
    unfold Convert.binaryKind? at h
    split at h <;> cases h
    · exact Shown.binary hx rfl rfl rfl (hsign (a := "=") rfl rfl) hl hr
    · exact Shown.binary hx rfl rfl rfl (hsign (a := "<>") rfl rfl) hl hr
    · exact Shown.binary hx rfl rfl rfl (hsign (a := ">") rfl rfl) hl hr
    · exact Shown.binary hx rfl rfl rfl (hsign (a := ">=") rfl rfl) hl hr
    · exact Shown.binary hx rfl rfl rfl (hsign (a := "<") rfl rfl) hl hr
    · exact Shown.binary hx rfl rfl rfl (hsign (a := "<=") rfl rfl) hl hr
    · exact Shown.binary hx rfl rfl rfl (hsign (a := "+") rfl rfl) hl hr
    · exact Shown.binary hx rfl rfl rfl (hsign (a := "-") rfl rfl) hl hr
    · exact Shown.binary hx rfl rfl rfl (hsign (a := "*") rfl rfl) hl hr
    · exact Shown.binary hx rfl rfl rfl (hsign (a := "/") rfl rfl) hl hr
    · exact Shown.binary hx rfl rfl rfl (hsign (a := "||") rfl rfl) hl hr
  have hweak : Strength.ofKind kind ≠ .atom := by
    unfold Convert.binaryKind? at h
    split at h <;> cases h <;> decide
  exact hshown.signed rfl hweak

/-- Words with blanks between them open no comment. -/
theorem hazard_words (hx : x.MarksNames) (words : List String) (h : ∀ w ∈ words, isWord w.toList = true) :
    Hazard x (" ".intercalate words) False := by
  have hall : List.Forall₂ (Hazard x) words (words.map fun _ => False) :=
    List.forall₂_map_right_iff.mpr (List.forall₂_same.mpr fun w hw => hazard_word (h w hw))
  refine (hazard_intercalate (fun ha hb => ha.spaced hx hb) hall).congr ?_
  simp [AnyOf]

theorem Shown.distinct (hx : x.MarksNames) (negated : Bool) (hl : Shown x s l p) (hr : Shown x s r q) :
    ShownSigned x s (Convert.negatable .isDistinctFrom l [r] negated false) (p ∨ q) False := by
  refine Shown.signed ?_ (show Node.kind _ = .isDistinctFrom from rfl) (by decide)
  cases negated with
  | false => exact Shown.binary hx rfl rfl rfl (hazard_words hx ["IS", "DISTINCT", "FROM"] (by decide)) hl hr
  | true =>
    exact Shown.binary hx rfl rfl rfl (hazard_words hx ["IS", "NOT", "DISTINCT", "FROM"] (by decide)) hl hr

theorem Shown.not (hx : x.MarksNames) (h : Shown x s n p) : ShownSigned x s (Node.not n) p False := by
  obtain ⟨text, htext, hp⟩ := h
  have hword := hazard_word (x := x) (a := "NOT") (by decide)
  have hall := hword.spaced hx (hp.parenthesized hx ((Strength.ofKind n.kind).below .concat))
  refine Shown.signed ⟨_, ?_, hall.congr (by simp)⟩ (show (Node.not n).kind = .not from rfl) (by decide)
  rw [piece_text]
  show (do return "NOT " ++ (← (target s (Node.not n)).operand "this" .concat)) = _
  have hone : (target s (Node.not n)).views.one? "this" = some (piece s n) := one?_target rfl
  simp only [Target.operand, hone, textOf, htext, pure_bind]
  rfl

/-- A sign before a node meets the sign that the node begins with, if it needs no parentheses. -/
theorem ShownSigned.neg (hx : x.MarksNames) (h : ShownSigned x s n p q) :
    ShownSigned x s (Node.neg n) (q ∨ p) False := by
  obtain ⟨text, htext, hp, hsign⟩ := h
  have hall := (hp.parenthesized hx ((Strength.ofKind n.kind).below .atom)).negated hx
  refine Shown.signed ⟨_, ?_, hall.congr (or_congr ?_ Iff.rfl)⟩ (show (Node.neg n).kind = .neg from rfl) (by decide)
  · rw [piece_text]
    show (do return "-" ++ (← (target s (Node.neg n)).operand "this" .atom)) = _
    have hone : (target s (Node.neg n)).views.one? "this" = some (piece s n) := one?_target rfl
    simp only [Target.operand, hone, textOf, htext, pure_bind]
    rfl
  · rw [← hsign]
    by_cases hatom : Strength.ofKind n.kind = .atom
    · have hplain : (Strength.ofKind n.kind).below .atom = false := by rw [hatom]; rfl
      rw [hplain]
      exact (and_iff_right hatom).symm
    · -- in parentheses, no text begins with a sign
      have hweak : (Strength.ofKind n.kind).below .atom = true := by
        cases hkind : Strength.ofKind n.kind <;> first | rfl | exact absurd hkind hatom
      simp [hweak, Render.parenthesized, hatom]

/-! ### Calls and chains -/

variable {ns : List Node} {ps : List Prop}

/-- The texts of several nodes. -/
theorem texts_pieces (h : List.Forall₂ (Shown x s) ns ps) :
    ∃ texts, (pieces s ns).mapM (·.text) = pure texts ∧ List.Forall₂ (Hazard x) texts ps := by
  induction h with
  | nil => exact ⟨[], by simp [pieces], .nil⟩
  | cons hfirst _ ih =>
    obtain ⟨text, htext, hp⟩ := hfirst
    obtain ⟨texts, htexts, hps⟩ := ih
    refine ⟨text :: texts, ?_, .cons hp hps⟩
    rw [pieces, List.mapM_cons, htext, htexts]
    simp

theorem Shown.call (hx : x.MarksNames) {name : String} (hname : isWord name.toList = true)
    (h : List.Forall₂ (Shown x s) ns ps) : ShownSigned x s (Node.call name ns) (AnyOf ps) False := by
  obtain ⟨texts, htexts, hps⟩ := texts_pieces h
  have hlist : Hazard x (", ".intercalate texts) (AnyOf ps) := hazard_intercalate (fun ha hb => ha.comma hx hb) hps
  have hall := (hazard_word (x := x) hname).enclosed hx hlist
  have hrender : (target s (Node.call name ns)).render = (target s (Node.call name ns)).callText name false := rfl
  have hmany : (target s (Node.call name ns)).many "expressions" = pieces s ns := many_target (Or.inl rfl)
  refine ⟨name ++ "(" ++ ", ".intercalate texts ++ ")", ?_, hall.congr (by simp), ?_⟩
  · rw [piece_text, hrender]
    simp only [Target.callText, Target.list, joined, hmany, htexts, pure_bind, Bool.false_eq_true, if_false,
      String.append_empty]
  · refine iff_of_false (fun hboth => ?_) id
    cases hcs : name.toList with
    | nil =>
      rw [hcs] at hname
      cases hname
    | cons c cs =>
      have hhead : c = '-' := by simpa [hcs] using hboth.2
      rw [hcs, hhead] at hname
      cases hname

/-- A chain of nodes opens a comment if one of them does. -/
theorem shown_foldl (hx : x.MarksNames) {kind : Kind} (hkind : kind = .and ∨ kind = .or)
    (h : List.Forall₂ (Shown x s) ns ps) (hn : Shown x s n p) :
    Shown x s (ns.foldl (Node.binary kind) n) (p ∨ AnyOf ps) := by
  induction h generalizing n p with
  | nil => simpa using hn
  | cons hfirst _ ih =>
    have hall := ih (shown_connective hx hkind hn hfirst)
    simpa only [List.foldl_cons, anyOf_cons, or_assoc] using hall

/-- A chain of more than one node is no atom. -/
theorem kind_foldl {kind : Kind} (n m : Node) (ns : List Node) :
    ((m :: ns).foldl (Node.binary kind) n).kind = kind := by
  induction ns generalizing n m with
  | nil => rfl
  | cons m' ns ih => exact ih (Node.binary kind n m) m'

theorem Shown.boolean (b : Bool) : ShownSigned x s (Node.boolean b) False False := by
  cases b with
  | true => exact ⟨"TRUE", rfl, hazard_word (by decide), by decide⟩
  | false => exact ⟨"FALSE", rfl, hazard_word (by decide), by decide⟩

/-- A chain stands for its only node if it has no others. -/
theorem shown_connect (hx : x.MarksNames) {kind : Kind} (hkind : kind = .and ∨ kind = .or) (unit : Bool)
    (hps : List.Forall₂ (Shown x s) ns ps) (hsingle : ∀ m, ns = [m] → ShownSigned x s m p q)
    (hp : p ↔ AnyOf ps) (hq : q → ns.length = 1) :
    ShownSigned x s (Node.connect kind (Node.boolean unit) ns) p q := by
  cases hps with
  | nil =>
    have hnone : ¬ p := fun h => by simpa using hp.mp h
    have hnever : ¬ q := fun h => by simpa using hq h
    obtain ⟨text, htext, hhazard, hsign⟩ := Shown.boolean (x := x) (s := s) unit
    exact ⟨text, htext, hhazard.congr (iff_of_false id hnone), hsign.trans (iff_of_false id hnever)⟩
  | @cons n p₁ rest ps hfirst hrest =>
    cases hrest with
    | nil => exact hsingle n rfl
    | @cons m p₂ rest ps hnext hrest =>
      -- from two operands on the chain is an operation of its kind, which is no atom
      have hall := shown_foldl hx hkind (.cons hnext hrest) hfirst
      have hweak : Strength.ofKind kind ≠ .atom := by rcases hkind with rfl | rfl <;> decide
      have hnone : ¬ q := fun h => by simpa using hq h
      obtain ⟨text, htext, hhazard, hsign⟩ := hall.signed (kind_foldl n m rest) hweak
      have hany : p₁ ∨ AnyOf (p₂ :: ps) ↔ p := by simp [hp]
      exact ⟨text, htext, hhazard.congr hany, hsign.trans (iff_of_false id hnone)⟩

/-! ### Case distinctions -/

/-- The pieces of a branch and of those behind it. -/
theorem filter_branches (condition value : Node) (rest : List Node) :
    (pieces s (Convert.branches (condition :: value :: rest))).filter (·.node.is .branch)
      = piece s (Node.branch condition value) :: (pieces s (Convert.branches rest)).filter (·.node.is .branch) := by
  rw [Convert.branches, pieces]
  exact List.filter_cons_of_pos rfl

theorem branchText_branch {condition value : Node} {first second : String}
    (hfirst : (piece s condition).text = pure first) (hsecond : (piece s value).text = pure second) :
    Target.branchText (piece s (Node.branch condition value)) = pure ("WHEN " ++ first ++ " THEN " ++ second) := by
  show (do return "WHEN " ++ (← (piece s condition).text) ++ " THEN " ++ (← (piece s value).text)) = _
  rw [hfirst, hsecond]
  simp only [pure_bind]

theorem Hazard.branch (hx : x.MarksNames) {first second : String} (hp : Hazard x first p) (hq : Hazard x second q) :
    Hazard x ("WHEN " ++ first ++ " THEN " ++ second) (p ∨ q) := by
  have hwhen := (hazard_word (x := x) (a := "WHEN") (by decide)).spaced hx hp
  have hthen := (hwhen.spaced hx (hazard_word (a := "THEN") (by decide))).spaced hx hq
  have htext : "WHEN" ++ " " ++ first ++ " " ++ "THEN" ++ " " ++ second = "WHEN " ++ first ++ " THEN " ++ second := by
    rw [← String.toList_inj]
    simp
  rw [htext] at hthen
  exact hthen.congr (by simp)

/-- The branches of pairs of conditions and values. -/
theorem texts_branches (hx : x.MarksNames) :
    ∀ (ns : List Node) (ps : List Prop), ns.length % 2 = 0 → List.Forall₂ (Shown x s) ns ps →
      ∃ texts qs, (((pieces s (Convert.branches ns)).filter (·.node.is .branch)).mapM Target.branchText) = pure texts
        ∧ List.Forall₂ (Hazard x) texts qs ∧ (AnyOf qs ↔ AnyOf ps)
  | [], ps, _, h => by
    cases h
    exact ⟨[], [], rfl, .nil, Iff.rfl⟩
  | [_], _, hlength, _ => by cases hlength
  | condition :: value :: rest, ps, hlength, h => by
    obtain ⟨p, _, hcondition, htail, rfl⟩ := List.forall₂_cons_left_iff.mp h
    obtain ⟨q, ps, hvalue, hrest, rfl⟩ := List.forall₂_cons_left_iff.mp htail
    obtain ⟨first, hfirst, hp⟩ := hcondition
    obtain ⟨second, hsecond, hq⟩ := hvalue
    have hlength : rest.length % 2 = 0 := by
      rw [List.length_cons, List.length_cons] at hlength
      omega
    obtain ⟨texts, qs, htexts, hqs, hany⟩ := texts_branches hx rest ps hlength hrest
    refine ⟨_ :: texts, _ :: qs, ?_, .cons (hp.branch hx hq) hqs, ?_⟩
    · rw [filter_branches, List.mapM_cons, branchText_branch hfirst hsecond, htexts]
      simp
    · simp only [anyOf_cons, hany, or_assoc]

/-- The operands of a case distinction: perhaps a value to compare, then pairs of conditions and values, then
the value for no condition. -/
theorem caseNode_split (ns : List Node) : Convert.caseNode ns = Node.mk .case [("ifs", .nodes [])] ∧ ns = []
    ∨ ∃ (subject : Option Node) (pairs : List Node) (last : Node), ns = subject.toList ++ pairs ++ [last]
      ∧ pairs.length % 2 = 0 ∧ Convert.caseNode ns = .mk .case (Node.optional "this" subject
        ++ [("ifs", .nodes (Convert.branches pairs))] ++ Node.optional "default" (some last)) := by
  rcases List.eq_nil_or_concat' ns with rfl | ⟨inner, last, rfl⟩
  · exact Or.inl ⟨rfl, rfl⟩
  · right
    by_cases heven : (inner ++ [last]).length % 2 = 0
    · -- an even number of operands: the first one is compared
      cases inner with
      | nil => cases heven
      | cons first pairs =>
        have hpairs : pairs.length % 2 = 0 := by
          simp only [List.cons_append, List.length_cons, List.length_append, List.length_nil] at heven
          omega
        refine ⟨some first, pairs, last, by simp, hpairs, ?_⟩
        have hlast : (first :: pairs ++ [last]).getLast? = some last := List.getLast?_concat
        simp only [Convert.caseNode, heven, if_true, hlast, List.dropLast_concat, List.head?_cons, List.drop_one,
          List.tail_cons]
    · have hpairs : inner.length % 2 = 0 := by
        simp only [List.length_append, List.length_cons, List.length_nil] at heven
        omega
      refine ⟨none, inner, last, by simp, hpairs, ?_⟩
      have hlast : (inner ++ [last]).getLast? = some last := List.getLast?_concat
      simp only [Convert.caseNode, heven, if_false, hlast, List.dropLast_concat]

/-- What a list in two parts is related to has two parts. -/
theorem forall₂_append_left {α β : Type} {R : α → β → Prop} {as bs : List α} :
    ∀ {cs : List β}, List.Forall₂ R (as ++ bs) cs →
      ∃ ca cb, cs = ca ++ cb ∧ List.Forall₂ R as ca ∧ List.Forall₂ R bs cb := by
  induction as with
  | nil => exact fun h => ⟨[], _, rfl, .nil, h⟩
  | cons a as ih =>
    intro cs h
    obtain ⟨c, cs, hfirst, hrest, rfl⟩ := List.forall₂_cons_left_iff.mp h
    obtain ⟨ca, cb, rfl, ha, hb⟩ := ih hrest
    exact ⟨c :: ca, cb, rfl, .cons hfirst ha, hb⟩

/-- The value that a case distinction compares, if there is one. -/
theorem texts_subject {subject : Option Node} (h : List.Forall₂ (Shown x s) subject.toList ps) :
    ∃ text : Option String, (subject.map (piece s)).mapM (·.text) = pure text
      ∧ List.Forall₂ (Hazard x) text.toList ps := by
  cases subject with
  | none =>
    cases h
    exact ⟨none, rfl, .nil⟩
  | some n =>
    obtain ⟨p, _, ⟨text, htext, hp⟩, hnil, rfl⟩ := List.forall₂_cons_left_iff.mp h
    cases hnil
    exact ⟨some text, by simp [htext], .cons hp .nil⟩

/-- The text of a case distinction from the texts of its parts. -/
theorem text_case {subject : Option Node} {pairs : List Node} {last : Node} {first : Option String}
    {texts : List String} {fallback : String} (hfirst : (subject.map (piece s)).mapM (·.text) = pure first)
    (htexts : (((pieces s (Convert.branches pairs)).filter (·.node.is .branch)).mapM Target.branchText) = pure texts)
    (hfallback : (piece s last).text = pure fallback) :
    (piece s (.mk .case (Node.optional "this" subject ++ [("ifs", .nodes (Convert.branches pairs))]
        ++ Node.optional "default" (some last)))).text
      = pure (" ".intercalate ("CASE" :: (first.toList ++ texts ++ ["ELSE " ++ fallback, "END"]))) := by
  generalize hargs : Node.optional "this" subject ++ [("ifs", .nodes (Convert.branches pairs))]
    ++ Node.optional "default" (some last) = args
  have hthis : (viewsOf s args).one? "this" = subject.map (piece s) := by subst hargs; cases subject <;> rfl
  have hifs : (viewsOf s args).many "ifs" = pieces s (Convert.branches pairs) := by subst hargs; cases subject <;> rfl
  have hdefault : (viewsOf s args).one? "default" = some (piece s last) := by subst hargs; cases subject <;> rfl
  rw [piece_text]
  show Target.caseText (target s _) = _
  unfold Target.caseText Target.many target
  simp only [Node.args, hthis, hifs, hdefault, hfirst, htexts, hfallback, Option.mapM_some, map_pure, pure_bind,
    Option.map_some, Option.toList_some]
  simp

/-- A case distinction opens a comment where one of its operands does, and begins with a word. -/
theorem shown_case (hx : x.MarksNames) (h : List.Forall₂ (Shown x s) ns ps) :
    ShownSigned x s (Convert.caseNode ns) (AnyOf ps) False := by
  have hcase := hazard_word (x := x) (a := "CASE") (by decide)
  have hend := hazard_word (x := x) (a := "END") (by decide)
  have hjoin : ∀ {texts : List String} {qs : List Prop}, List.Forall₂ (Hazard x) texts qs →
      Hazard x (" ".intercalate texts) (AnyOf qs) := hazard_intercalate fun ha hb => ha.spaced hx hb
  have hhead : ∀ rest : List String, (" ".intercalate ("CASE" :: rest)).toList.head? ≠ some '-' := by
    intro rest
    cases rest with
    | nil => decide
    | cons a rest =>
      rw [String.intercalate_cons_cons]
      simp
  rcases caseNode_split ns with ⟨hnode, rfl⟩ | ⟨subject, pairs, last, rfl, hlength, hnode⟩
  · cases h
    rw [hnode]
    refine ⟨" ".intercalate ["CASE", "END"], rfl, (hjoin (.cons hcase (.cons hend .nil))).congr (by simp), ?_⟩
    exact iff_of_false (fun hboth => hhead _ hboth.2) id
  · obtain ⟨front, plast, rfl, hfront, hlast⟩ := forall₂_append_left h
    obtain ⟨psubject, ppairs, rfl, hsubject, hpairs⟩ := forall₂_append_left hfront
    obtain ⟨p, _, ⟨fallback, hfallback, hp⟩, hnil, rfl⟩ := List.forall₂_cons_left_iff.mp hlast
    cases hnil
    obtain ⟨first, hfirst, hps⟩ := texts_subject hsubject
    obtain ⟨texts, qs, htexts, hqs, hany⟩ := texts_branches hx pairs ppairs hlength hpairs
    have helse := (hazard_word (x := x) (a := "ELSE") (by decide)).spaced hx hp
    have htext : "ELSE" ++ " " ++ fallback = "ELSE " ++ fallback := by
      rw [← String.toList_inj]
      simp
    rw [htext] at helse
    have hall := hjoin (.cons hcase (List.rel_append (List.rel_append hps hqs) (.cons helse (.cons hend .nil))))
    rw [hnode]
    refine ⟨_, ?_, hall.congr ?_, iff_of_false (fun hboth => hhead _ hboth.2) id⟩
    · exact text_case hfirst htexts hfallback
    · simp [hany]

end

end AlgebraSql.Render
