import AlgebraSql.Proofs.TextDepth

/-!
# Set operations — reading queries with operators between them.

A reader of queries takes operators in the order in which they stand, `INTERSECT` before the others if it follows that
convention.  What sorts and limits rows belongs to the query it stands in if that is a single `SELECT`, and to the
whole operation behind a set operation.  The text of a tree of set operations is read as the tree under both conventions.
-/

namespace AlgebraSql.Render

/-! ## Trees -/

/-- An operator between two queries. -/
inductive SetOperator where
  | union | intersect | except
  deriving Repr, DecidableEq

/-- A tree of set operations over queries. -/
inductive SetTree (α : Type) where
  | query (a : α)
  | combine (op : SetOperator) (all : Bool) (left right : SetTree α)

/-- How set operators group: each as it stands, or `INTERSECT` before the others. -/
inductive Convention where
  | equal | intersectFirst
  deriving Repr, DecidableEq

/-- What a text is read as. -/
inductive SetReading where
  /-- A single `SELECT`, and what sorts and limits its rows. -/
  | select (body tail : List Fragment)
  | combine (op : SetOperator) (all : Bool) (left right : SetReading)
  /-- A set operation that is sorted or limited as a whole. -/
  | modified (query : SetReading) (tail : List Fragment)

namespace SetOperator

/-- The word for an operator. -/
def word : SetOperator → String
  | .union => "UNION"
  | .intersect => "INTERSECT"
  | .except => "EXCEPT"

/-- The operator that a token is. -/
def ofLexeme? (t : Lexeme) : Option SetOperator :=
  [SetOperator.union, .intersect, .except].find? fun op => t.isOneOf [op.word]

end SetOperator

/-- The operator is taken before the others. -/
def Convention.isTight : Convention → SetOperator → Bool
  | .intersectFirst, .intersect => true
  | _, _ => false

/-! ## Reading -/

/-- The fragments up to the end of the query or one of the words outside parentheses, and what follows. -/
def upTo (words : List String) (depth : Nat) : List Fragment → List Fragment × List Fragment
  | [] => ([], [])
  | f :: fs =>
    match depthStep words depth f with
    | none => ([], f :: fs)
    | some next => (f :: (upTo words next fs).1, (upTo words next fs).2)

/-- The operator that fragments begin with, whether it keeps duplicates, and what follows. -/
def splitOperator : List Fragment → Option (SetOperator × Bool × List Fragment)
  | .token t :: rest =>
    (SetOperator.ofLexeme? t).map fun op =>
      match rest with
      | .token a :: more => if a.isOneOf ["ALL"] then (op, true, more) else (op, false, rest)
      | _ => (op, false, rest)
  | _ => none

/-- Fragments begin with a word that sorts or limits rows. -/
def startsTail : List Fragment → Bool
  | .token t :: _ => t.isOneOf rowWords
  | _ => false

/-- A query with what stands behind it. -/
def SetReading.withTail (q : SetReading) (tail : List Fragment) : SetReading :=
  match q with
  | .select body [] => .select body tail
  | q => .modified q tail

mutual

/-- Reads a single `SELECT` or a query in parentheses. -/
def Convention.readPrimary (c : Convention) (fs : List Fragment) : Option (SetReading × List Fragment) :=
  match fs with
  | .sign '(' :: fs => do
    let (q, rest) ← c |>.readQuery fs
    match rest with
    | .sign ')' :: rest => return (q, rest)
    | _ => none
  | .token t :: fs =>
    if t.isOneOf ["SELECT"] then
      let (body, rest) := upTo clauseWords 0 fs
      some (.select body [], rest)
    else none
  | _ => none
partial_fixpoint

/-- Reads on in a chain of operators, those that are taken before the others or those that are not. -/
def Convention.readMore (c : Convention) (tight : Bool) (left : SetReading) (fs : List Fragment) :
    Option (SetReading × List Fragment) :=
  match splitOperator fs with
  | some (op, all, rest) =>
    if c.isTight op = tight then do
      let (right, rest) ← c |>.readOperand tight rest
      c |>.readMore tight (.combine op all left right) rest
    else some (left, fs)
  | none => some (left, fs)
partial_fixpoint

/-- Reads an operand of such a chain. -/
def Convention.readOperand (c : Convention) (tight : Bool) (fs : List Fragment) :
    Option (SetReading × List Fragment) :=
  match tight with
  | true => c |>.readPrimary fs
  | false => do
    let (first, rest) ← c |>.readPrimary fs
    c |>.readMore true first rest
partial_fixpoint

/-- Reads a query with what sorts and limits its rows. -/
def Convention.readQuery (c : Convention) (fs : List Fragment) : Option (SetReading × List Fragment) := do
  let (first, rest) ← c |>.readOperand false fs
  let (q, rest) ← c |>.readMore false first rest
  if startsTail rest then
    let (tail, rest) := upTo setWords 0 rest
    return (q.withTail tail, rest)
  else return (q, rest)
partial_fixpoint

end

/-- The query that a text is read as, if it is read to its end. -/
def Lexis.readQuery (x : Lexis) (c : Convention) (text : String) : Option SetReading := do
  let fs ← x.fragments text.toList
  match ← c.readQuery (withoutBlanks fs) with
  | (q, []) => some q
  | _ => none

/-! ## Writing -/

/-- A query as it is written: what it selects, what sorts and limits its rows, and whether it is put in parentheses for
that. -/
structure Query where
  body : List Fragment
  tail : List Fragment
  modified : Bool

/-- A query can be told from what is around it. -/
structure Query.Readable (q : Query) : Prop where
  body : depthAfter clauseWords 0 q.body = some 0
  tail : depthAfter setWords 0 q.tail = some 0
  starts : q.tail = [] ∨ startsTail q.tail = true
  plain : q.modified = false → q.tail = []

namespace SetTree

variable {α : Type}

/-- Each query of the tree has the property. -/
def Every (p : α → Prop) : SetTree α → Prop
  | .query a => p a
  | .combine _ _ left right => left.Every p ∧ right.Every p

/-- The operand of an operation is put in parentheses. -/
def wraps (op : SetOperator) (isRight : Bool) : SetTree Query → Bool
  | .query q => q.modified
  | .combine inner _ _ _ => isRight || inner != op

/-- The operator and the word that keeps duplicates. -/
def operatorFragments (op : SetOperator) (all : Bool) : List Fragment :=
  .token (.reserved op.word) :: (if all then [.token (.reserved "ALL")] else [])

/-- The fragments of a tree. -/
def fragments : SetTree Query → List Fragment
  | .query q => .token (.reserved "SELECT") :: (q.body ++ q.tail)
  | .combine op all left right =>
    enclosedIf (left.wraps op false) left.fragments
      ++ (operatorFragments op all ++ enclosedIf (right.wraps op true) right.fragments)

/-- The reading of a tree. -/
def reading : SetTree Query → SetReading
  | .query q => .select q.body q.tail
  | .combine op all left right => .combine op all left.reading right.reading

end SetTree

/-! ## Fragments up to a word -/

/-- What follows ends the text of a clause. -/
def Ends (rest : List Fragment) : Prop := ∀ f, rest.head? = some f → depthStep clauseWords 0 f = none

/-- What follows ends a query: nothing or a closing parenthesis. -/
def Closes (rest : List Fragment) : Prop := ∀ f, rest.head? = some f → f = .sign ')'

section

variable {words : List String} {d e : Nat} {fs rest more : List Fragment}

/-- Fragments without a word outside parentheses are passed over. -/
theorem upTo_append (h : depthAfter words d fs = some e) (rest : List Fragment) :
    upTo words d (fs ++ rest) = (fs ++ (upTo words e rest).1, (upTo words e rest).2) := by
  induction fs generalizing d with
  | nil =>
    cases h
    rfl
  | cons f fs ih =>
    rw [depthAfter_cons, Option.bind_eq_some_iff] at h
    obtain ⟨next, hstep, hrest⟩ := h
    rw [List.cons_append, upTo]
    simp only [hstep, ih hrest, List.cons_append]

theorem upTo_stop (h : ∀ f, rest.head? = some f → depthStep words 0 f = none) : upTo words 0 rest = ([], rest) := by
  cases rest with
  | nil => rfl
  | cons f fs => simp only [upTo, h f rfl]

theorem Closes.stop (h : Closes rest) (words : List String) :
    ∀ f, rest.head? = some f → depthStep words 0 f = none := by
  intro f hf
  rw [h f hf]
  rfl

theorem Closes.ends (h : Closes rest) : Ends rest := h.stop clauseWords

theorem Closes.splitOperator_eq (h : Closes rest) : splitOperator rest = none := by
  cases rest with
  | nil => rfl
  | cons f fs =>
    rw [h f rfl]
    rfl

theorem Closes.startsTail_eq (h : Closes rest) : startsTail rest = false := by
  cases rest with
  | nil => rfl
  | cons f fs =>
    rw [h f rfl]
    rfl

/-- A token that is one of some words is one of more words. -/
theorem isOneOf_subset {fewer more : List String} (hsub : fewer ⊆ more) {t : Lexeme} (h : t.isOneOf fewer = true) :
    t.isOneOf more = true := by
  cases t with
  | text _ | name _ => exact h
  | reserved w =>
    obtain ⟨word, hword, hsame⟩ := List.any_eq_true.mp h
    exact List.any_eq_true.mpr ⟨word, hsub hword, hsame⟩

/-- A word that sorts or limits rows ends the text of a clause and is no operator. -/
theorem ends_of_startsTail (h : startsTail fs = true) (rest : List Fragment) : Ends (fs ++ rest) := by
  match fs, h with
  | .token t :: fs, h =>
    intro f hf
    cases hf
    have hstop : t.isOneOf clauseWords = true := isOneOf_subset (List.subset_append_right _ _) h
    exact if_pos ⟨rfl, hstop⟩

theorem splitOperator_of_startsTail (h : startsTail fs = true) (rest : List Fragment) :
    splitOperator (fs ++ rest) = none := by
  match fs, h with
  | .token (.reserved w) :: fs, h =>
    have hnone : SetOperator.ofLexeme? (.reserved w) = none := by
      obtain ⟨row, hrow, hsame⟩ := List.any_eq_true.mp h
      rw [SetOperator.ofLexeme?, List.find?_eq_none]
      intro op _ hop
      -- no word is both an operator and a word for rows
      have hother : ∀ op : SetOperator, ∀ row ∈ rowWords, sameWord op.word.toList row.toList = false := by
        intro op
        cases op <;> decide
      have hboth : sameWord op.word.toList row.toList = true := by
        simp only [Lexeme.isOneOf, List.any_cons, List.any_nil, Bool.or_false, sameWord, beq_iff_eq] at hop hsame ⊢
        rw [hop, hsame]
      rw [hother op row hrow] at hboth
      cases hboth
    rw [List.cons_append, splitOperator, hnone]
    rfl

/-! ## Operators -/

theorem ofLexeme?_word (op : SetOperator) : SetOperator.ofLexeme? (.reserved op.word) = some op := by
  cases op <;> decide

/-- Behind the words of an operator its operand is found. -/
theorem splitOperator_operatorFragments (op : SetOperator) (all : Bool)
    (h : ∀ t, fs.head? = some (.token t) → t.isOneOf ["ALL"] = false) :
    splitOperator (SetTree.operatorFragments op all ++ fs) = some (op, all, fs) := by
  cases all with
  | true =>
    rw [SetTree.operatorFragments, if_pos rfl, List.cons_append, splitOperator, ofLexeme?_word]
    have hall : (Lexeme.reserved "ALL").isOneOf ["ALL"] = true := by decide
    simp [hall]
  | false =>
    rw [SetTree.operatorFragments, if_neg Bool.false_ne_true, List.cons_append, splitOperator, ofLexeme?_word]
    cases fs with
    | nil => rfl
    | cons f fs =>
      cases f with
      | sign c => rfl
      | token t =>
        have ht := h t rfl
        simp [ht]

theorem ends_operatorFragments (op : SetOperator) (all : Bool) (rest : List Fragment) :
    Ends (SetTree.operatorFragments op all ++ rest) := by
  intro f hf
  cases hf
  cases op <;> decide

/-- A tree begins with a parenthesis or with `SELECT`. -/
theorem head_fragments (T : SetTree Query) (needed : Bool) (rest : List Fragment) :
    ∀ t, (enclosedIf needed T.fragments ++ rest).head? = some (.token t) → t = .reserved "SELECT" := by
  induction T generalizing needed rest with
  | query q =>
    intro t ht
    cases needed <;> cases ht
    rfl
  | combine op all left right ihl _ =>
    intro t ht
    cases needed with
    | true => cases ht
    | false =>
      refine ihl (left.wraps op false)
        (SetTree.operatorFragments op all ++ enclosedIf (right.wraps op true) right.fragments ++ rest) t ?_
      simpa [enclosedIf, SetTree.fragments] using ht

/-! ## Chains -/

/-- Reads a chain of operators from its beginning. -/
def Convention.readChain (c : Convention) (tight : Bool) (fs : List Fragment) :
    Option (SetReading × List Fragment) := do
  let (first, rest) ← c.readOperand tight fs
  c.readMore tight first rest

/-- What follows does not go on with an operator that is taken before the others. -/
def Loose (c : Convention) (rest : List Fragment) : Prop :=
  ∀ op all more, splitOperator rest = some (op, all, more) → c.isTight op = false

variable {c : Convention} {q : SetReading} {tight : Bool}

theorem readMore_stop (h : ∀ op all more, splitOperator rest = some (op, all, more) → c.isTight op ≠ tight) :
    c.readMore tight q rest = some (q, rest) := by
  rw [Convention.readMore]
  split
  · rename_i op all more hsplit
    rw [if_neg (h op all more hsplit)]
  · rfl

/-- A primary is an operand of every chain. -/
theorem readOperand_primary (h : c.readPrimary fs = some (q, rest)) (hloose : tight = false → Loose c rest) :
    c.readOperand tight fs = some (q, rest) := by
  cases tight with
  | true =>
    rw [Convention.readOperand]
    exact h
  | false =>
    have hstop : c.readMore true q rest = some (q, rest) :=
      readMore_stop fun op all more hsplit => by
        rw [hloose rfl op all more hsplit]
        exact Bool.false_ne_true
    rw [Convention.readOperand]
    simp only [h, Option.bind_eq_bind, Option.bind_some, hstop]

/-- A chain goes on with an operator of its kind and a primary. -/
theorem readMore_operator {op : SetOperator} {all : Bool} {right : SetReading} (htight : c.isTight op = tight)
    (hsplit : splitOperator fs = some (op, all, more)) (hright : c.readOperand tight more = some (right, rest)) :
    c.readMore tight q fs = c.readMore tight (.combine op all q right) rest := by
  rw [Convention.readMore]
  simp only [hsplit, if_pos htight, hright, Option.bind_eq_bind, Option.bind_some]

/-! ## Trees -/

/-- The fragments of a tree are read as the tree: as a query, as the beginning of a chain of its operator, and as an
operand of another operator. -/
structure SetTree.Reads (c : Convention) (T : SetTree Query) : Prop where
  query : ∀ rest, Closes rest → c.readQuery (T.fragments ++ rest) = some (T.reading, rest)
  chain : ∀ op all left right, T = .combine op all left right → ∀ rest, Ends rest →
    (c.isTight op = false → Loose c rest) →
    c.readChain (c.isTight op) (T.fragments ++ rest) = c.readMore (c.isTight op) T.reading rest
  primary : ∀ op isRight, (T.wraps op isRight = true ∨ ∃ q, T = .query q) → ∀ rest, Ends rest →
    c.readPrimary (enclosedIf (T.wraps op isRight) T.fragments ++ rest) = some (T.reading, rest)

/-- In parentheses a query is a primary. -/
theorem readPrimary_enclosed {T : SetTree Query}
    (h : ∀ rest, Closes rest → c.readQuery (T.fragments ++ rest) = some (T.reading, rest)) (rest : List Fragment) :
    c.readPrimary (enclosedIf true T.fragments ++ rest) = some (T.reading, rest) := by
  have hclosing : Closes (.sign ')' :: rest) := fun f hf => by
    cases hf
    rfl
  have hinner := h _ hclosing
  rw [enclosedIf, if_pos rfl, List.cons_append, List.append_assoc, List.singleton_append, Convention.readPrimary]
  simp only [hinner, Option.bind_eq_bind, Option.bind_some]
  rfl

/-- A `SELECT` is read up to what sorts and limits its rows. -/
theorem readPrimary_select {l : Query} (h : l.Readable) (hends : Ends (l.tail ++ rest)) :
    c.readPrimary ((SetTree.query l).fragments ++ rest) = some (.select l.body [], l.tail ++ rest) := by
  have hselect : (Lexeme.reserved "SELECT").isOneOf ["SELECT"] = true := by decide
  rw [SetTree.fragments, List.cons_append, List.append_assoc, Convention.readPrimary]
  simp only [hselect, if_true, upTo_append h.body, upTo_stop hends, List.append_nil]

theorem reads_query (c : Convention) {l : Query} (h : l.Readable) : (SetTree.query l).Reads c := by
  have hquery : ∀ rest, Closes rest →
      c.readQuery ((SetTree.query l).fragments ++ rest) = some ((SetTree.query l).reading, rest) := by
    intro rest hrest
    obtain ⟨hends, hnone⟩ : Ends (l.tail ++ rest) ∧ splitOperator (l.tail ++ rest) = none := by
      rcases h.starts with hempty | hstarts
      · rw [hempty]
        exact ⟨hrest.ends, hrest.splitOperator_eq⟩
      · exact ⟨ends_of_startsTail hstarts rest, splitOperator_of_startsTail hstarts rest⟩
    have hfirst : c.readOperand false ((SetTree.query l).fragments ++ rest) = some (.select l.body [], l.tail ++ rest) :=
      readOperand_primary (readPrimary_select h hends) fun _ op all more hsplit => by
        rw [hnone] at hsplit
        cases hsplit
    have hmore : c.readMore false (.select l.body []) (l.tail ++ rest) = some (.select l.body [], l.tail ++ rest) :=
      readMore_stop fun op all more hsplit => by
        rw [hnone] at hsplit
        cases hsplit
    rw [Convention.readQuery]
    simp only [hfirst, hmore, Option.bind_eq_bind, Option.bind_some]
    rcases h.starts with hempty | hstarts
    · rw [SetTree.reading, hempty, List.nil_append, hrest.startsTail_eq]
      rfl
    · have htail : startsTail (l.tail ++ rest) = true := by
        match htail : l.tail, hstarts with
        | .token t :: fs, hstarts => exact hstarts
      simp only [htail, if_true, upTo_append h.tail, upTo_stop (hrest.stop setWords), List.append_nil]
      rfl
  refine ⟨hquery, (fun op all left right heq => by cases heq), fun op isRight _ rest hrest => ?_⟩
  show c.readPrimary (enclosedIf l.modified (SetTree.query l).fragments ++ rest) = _
  cases hmodified : l.modified with
  | true => exact readPrimary_enclosed hquery rest
  | false =>
    have hempty := h.plain hmodified
    have hselect : c.readPrimary ((SetTree.query l).fragments ++ rest) = some (.select l.body [], l.tail ++ rest) :=
      readPrimary_select h (by rwa [hempty])
    rw [hempty] at hselect
    rw [enclosedIf, if_neg Bool.false_ne_true, hselect, SetTree.reading, hempty]
    rfl

/-- The operands of an operation and the operation itself are read one after the other. -/
theorem readChain_combine {op : SetOperator} {all : Bool} {left right : SetTree Query} (hl : left.Reads c)
    (hr : right.Reads c) (hrest : Ends rest) (hloose : c.isTight op = false → Loose c rest) :
    c.readChain (c.isTight op) ((SetTree.combine op all left right).fragments ++ rest)
      = c.readMore (c.isTight op) (.combine op all left.reading right.reading) rest := by
  set following := enclosedIf (right.wraps op true) right.fragments ++ rest with hfollowing
  have hsplit : splitOperator (SetTree.operatorFragments op all ++ following) = some (op, all, following) :=
    splitOperator_operatorFragments op all fun t ht => by
      rw [head_fragments right _ _ t ht]
      decide
  have hends := ends_operatorFragments op all following
  have hown : c.isTight op = false → Loose c (SetTree.operatorFragments op all ++ following) := by
    intro hop op' all' more' hother
    rw [hsplit] at hother
    cases hother
    exact hop
  -- the left operand begins the chain, whether it is one of the same kind or stands for itself
  have hbegins : c.readChain (c.isTight op) (enclosedIf (left.wraps op false) left.fragments
      ++ (SetTree.operatorFragments op all ++ following))
      = c.readMore (c.isTight op) left.reading (SetTree.operatorFragments op all ++ following) := by
    by_cases hprimary : left.wraps op false = true ∨ ∃ q, left = .query q
    · have hoperand := readOperand_primary (hl.primary op false hprimary _ hends) hown
      rw [Convention.readChain]
      simp only [hoperand, Option.bind_eq_bind, Option.bind_some]
    · obtain ⟨hwraps, hother⟩ := not_or.mp hprimary
      match left, hl, hwraps, hother with
      | .query l, _, _, hother => exact absurd ⟨l, rfl⟩ hother
      | .combine inner all' l r, hl, hwraps, _ =>
        obtain rfl : inner = op := by simpa [SetTree.wraps] using hwraps
        have hplain : (SetTree.combine inner all' l r).wraps inner false = false := by simp [SetTree.wraps]
        rw [hplain]
        exact hl.chain inner all' l r rfl _ hends hown
  have hright : c.readOperand (c.isTight op) following = some (right.reading, rest) := by
    refine readOperand_primary (hr.primary op true ?_ rest hrest) hloose
    cases right with
    | query r => exact Or.inr ⟨r, rfl⟩
    | combine _ _ _ _ => exact Or.inl rfl
  rw [SetTree.fragments, List.append_assoc, List.append_assoc, ← hfollowing, hbegins]
  exact readMore_operator rfl hsplit hright

/-- An operand of the operators that are not taken first is a chain of those that are. -/
theorem readOperand_eq_readChain (c : Convention) (fs : List Fragment) :
    c.readOperand false fs = c.readChain true fs := by
  rw [Convention.readChain, Convention.readOperand, Convention.readOperand]

theorem readQuery_of_readChain (h : c.readChain false fs = some (q, rest)) :
    c.readQuery fs = if startsTail rest then
      some (q.withTail (upTo setWords 0 rest).1, (upTo setWords 0 rest).2) else some (q, rest) := by
  rw [Convention.readChain, Option.bind_eq_bind, Option.bind_eq_some_iff] at h
  obtain ⟨⟨first, behind⟩, hfirst, hmore⟩ := h
  rw [Convention.readQuery]
  simp only [hfirst, hmore, Option.bind_eq_bind, Option.bind_some]
  rfl

theorem reads_combine (op : SetOperator) (all : Bool) {left right : SetTree Query} (hl : left.Reads c)
    (hr : right.Reads c) : (SetTree.combine op all left right).Reads c := by
  have hchain : ∀ rest, Ends rest → (c.isTight op = false → Loose c rest) →
      c.readChain (c.isTight op) ((SetTree.combine op all left right).fragments ++ rest)
        = c.readMore (c.isTight op) (.combine op all left.reading right.reading) rest :=
    fun rest hrest hloose => readChain_combine hl hr hrest hloose
  have hquery : ∀ rest, Closes rest → c.readQuery ((SetTree.combine op all left right).fragments ++ rest)
      = some (.combine op all left.reading right.reading, rest) := by
    intro rest hrest
    have hstop : ∀ tight, c.readMore tight (.combine op all left.reading right.reading) rest
        = some (.combine op all left.reading right.reading, rest) := fun tight =>
      readMore_stop fun op' all' more' hsplit => by
        rw [hrest.splitOperator_eq] at hsplit
        cases hsplit
    have hloose : Loose c rest := fun op' all' more' hsplit => by
      rw [hrest.splitOperator_eq] at hsplit
      cases hsplit
    have hread : c.readChain false ((SetTree.combine op all left right).fragments ++ rest)
        = some (.combine op all left.reading right.reading, rest) := by
      have hown := hchain rest hrest.ends fun _ => hloose
      cases htight : c.isTight op with
      | false =>
        rw [htight] at hown
        rw [hown, hstop]
      | true =>
        -- a chain of operators that are taken first is a single operand of the others
        rw [htight, hstop] at hown
        rw [Convention.readChain, readOperand_eq_readChain, hown]
        exact hstop false
    rw [readQuery_of_readChain hread, hrest.startsTail_eq]
    rfl
  refine ⟨hquery, ?_, fun op' isRight hprimary rest _ => ?_⟩
  · rintro op' all' left' right' ⟨⟩ rest hrest hloose
    exact hchain rest hrest hloose
  · have hwraps : (SetTree.combine op all left right).wraps op' isRight = true :=
      hprimary.resolve_right fun ⟨_, hother⟩ => by cases hother
    rw [hwraps]
    exact readPrimary_enclosed hquery rest

/-- A tree of queries that can be told apart is read as itself. -/
theorem reads (c : Convention) : ∀ T : SetTree Query, T.Every Query.Readable → T.Reads c
  | .query _, h => reads_query c h
  | .combine op all left right, h => reads_combine op all (reads c left h.1) (reads c right h.2)

end

end AlgebraSql.Render
