import AlgebraSql.Proofs.Tokens
import AlgebraSql.Render.Precedence

/-!
# Operator grammar — trees of operations and how tokens are read as trees.

The grammar has one level for each binding strength.  Operations between two operands chain to the
left, comparisons do not chain, `NOT` and the minus sign stand before their operand, and an atom is
a constant, a column, a call, or anything in parentheses.  The reader goes down the levels and reads
at each of them as far as it can.
-/

namespace AlgebraSql.Render

open AlgebraSql.Sql

/-! ## Operations -/

/-- Operations between two operands that chain to the left. -/
inductive Operation where
  | or | and | concat | add | sub | mul | div | mod
  deriving Repr, DecidableEq

namespace Operation

/-- The level of an operation. -/
def strength : Operation → Strength
  | .or => .or
  | .and => .and
  | .concat => .concat
  | .add | .sub => .additive
  | .mul | .div | .mod => .multiplicative

/-- The token between the operands. -/
def token : Operation → Token
  | .or => .keyword .or
  | .and => .keyword .and
  | .concat => .symbol .bars
  | .add => .symbol .plus
  | .sub => .symbol .minus
  | .mul => .symbol .times
  | .div => .symbol .slash
  | .mod => .symbol .percent

/-- The operation that a token stands for. -/
def ofToken? : Token → Option Operation
  | .keyword .or => some .or
  | .keyword .and => some .and
  | .symbol .bars => some .concat
  | .symbol .plus => some .add
  | .symbol .minus => some .sub
  | .symbol .times => some .mul
  | .symbol .slash => some .div
  | .symbol .percent => some .mod
  | _ => none

/-- The kind of the nodes of an operation. -/
def kind : Operation → Kind
  | .or => .or
  | .and => .and
  | .concat => .concat
  | .add => .add
  | .sub => .sub
  | .mul => .mul
  | .div => .div
  | .mod => .mod

/-- A chain of the operation may be regrouped. -/
def regroups : Operation → Bool
  | .or | .and | .concat => true
  | _ => false

end Operation

/-! ## Tests -/

/-- `LIKE` or `SIMILAR TO`, perhaps denied. -/
structure Pattern where
  similar : Bool
  negated : Bool
  deriving Repr, DecidableEq

/-- Comparisons of two operands. -/
inductive Comparison where
  | eq | neq | gt | gte | lt | lte
  | distinct (negated : Bool)
  | pattern (p : Pattern)
  deriving Repr, DecidableEq

/-- What a value is tested for. -/
inductive Constant where
  | null
  | boolean (b : Bool)
  deriving Repr, DecidableEq

/-- What may stand behind the operand of a test, up to the next operand. -/
inductive Test where
  | compare (c : Comparison)
  | isConstant (c : Constant) (negated : Bool)
  | inList (negated : Bool)
  deriving Repr, DecidableEq

/-- `NOT` before a test that is denied. -/
def denial (negated : Bool) : List Token := if negated then [.keyword .not] else []

/-- The tokens of a pattern. -/
def Pattern.tokens (p : Pattern) : List Token :=
  denial p.negated ++ if p.similar then [.keyword .similar, .keyword .to] else [.keyword .like]

/-- The tokens of a comparison. -/
def Comparison.tokens : Comparison → List Token
  | .eq => [.symbol .eq]
  | .neq => [.symbol .neq]
  | .gt => [.symbol .gt]
  | .gte => [.symbol .gte]
  | .lt => [.symbol .lt]
  | .lte => [.symbol .lte]
  | .distinct negated => .keyword .is :: (denial negated ++ [.keyword .distinct, .keyword .from])
  | .pattern p => p.tokens

/-- The token of a constant. -/
def Constant.token : Constant → Token
  | .null => .keyword .null
  | .boolean true => .keyword .true
  | .boolean false => .keyword .false

/-- The tokens of a test, up to the next operand. -/
def Test.tokens : Test → List Token
  | .compare c => c.tokens
  | .isConstant c negated => .keyword .is :: (denial negated ++ [c.token])
  | .inList negated => denial negated ++ [.keyword .in, .symbol .opening]

/-- The constant that tokens begin with. -/
def Constant.split : List Token → Option (Constant × List Token)
  | .keyword .null :: ts => some (.null, ts)
  | .keyword .true :: ts => some (.boolean true, ts)
  | .keyword .false :: ts => some (.boolean false, ts)
  | _ => none

/-- What follows `IS` and perhaps `NOT`. -/
def Test.splitIs (negated : Bool) : List Token → Option (Test × List Token)
  | .keyword .distinct :: .keyword .from :: ts => some (.compare (.distinct negated), ts)
  | ts => (Constant.split ts).map fun (c, rest) => (.isConstant c negated, rest)

/-- A test whose denial stands first. -/
def Test.splitDenied (negated : Bool) : List Token → Option (Test × List Token)
  | .keyword .like :: ts => some (.compare (.pattern ⟨false, negated⟩), ts)
  | .keyword .similar :: .keyword .to :: ts => some (.compare (.pattern ⟨true, negated⟩), ts)
  | .keyword .in :: .symbol .opening :: ts => some (.inList negated, ts)
  | _ => none

/-- The test that tokens begin with. -/
def Test.split : List Token → Option (Test × List Token)
  | .symbol .eq :: ts => some (.compare .eq, ts)
  | .symbol .neq :: ts => some (.compare .neq, ts)
  | .symbol .gt :: ts => some (.compare .gt, ts)
  | .symbol .gte :: ts => some (.compare .gte, ts)
  | .symbol .lt :: ts => some (.compare .lt, ts)
  | .symbol .lte :: ts => some (.compare .lte, ts)
  | .keyword .is :: .keyword .not :: ts => splitIs true ts
  | .keyword .is :: ts => splitIs false ts
  | .keyword .not :: ts => splitDenied true ts
  | ts => splitDenied false ts

theorem Test.split_tokens (t : Test) (rest : List Token) : split (t.tokens ++ rest) = some (t, rest) := by
  rcases t with c | ⟨c, negated⟩ | negated
  · rcases c with _ | _ | _ | _ | _ | _ | negated | ⟨similar, negated⟩ <;> try rfl
    · cases negated <;> rfl
    · cases similar <;> cases negated <;> rfl
  · rcases c with _ | b
    · cases negated <;> rfl
    · cases b <;> cases negated <;> rfl
  · cases negated <;> rfl

/-! ## Trees -/

/-- A tree of operations. -/
inductive Term where
  | column (table : Option String) (name : String)
  | text (s : String)
  | number (s : String)
  | call (name : String) (distinct : Bool) (args : List Term)
  | operation (op : Operation) (left right : Term)
  | compare (c : Comparison) (left right : Term)
  /-- A pattern whose special characters lose their meaning behind an escape character. -/
  | escaped (p : Pattern) (left right escape : Term)
  | isConstant (c : Constant) (negated : Bool) (operand : Term)
  | inList (negated : Bool) (operand : Term) (items : List Term)
  | not (operand : Term)
  | neg (operand : Term)

/-! ## Reading -/

/-- The next stronger level. -/
def Strength.next : Strength → Strength
  | .or => .and
  | .and => .not
  | .not => .comparison
  | .comparison => .concat
  | .concat => .additive
  | .additive => .multiplicative
  | .multiplicative => .unary
  | .unary => .atom
  | .atom => .atom

/-- The operation of a level that tokens begin with. -/
def splitOperation (level : Strength) : List Token → Option (Operation × List Token)
  | [] => none
  | t :: ts =>
    match Operation.ofToken? t with
    | some op => if op.strength = level then some (op, ts) else none
    | none => none

mutual

/-- Reads a tree at a level. -/
def Strength.readAt (level : Strength) (ts : List Token) : Option (Term × List Token) :=
  match level with
  | .atom => Strength.or |>.readAtom ts
  | .unary =>
    match ts with
    | .symbol .minus :: ts => do
      let (operand, rest) ← Strength.unary |>.readAt ts
      return (.neg operand, rest)
    | ts => Strength.or |>.readAtom ts
  | .comparison => do
    let (left, rest) ← Strength.concat |>.readAt ts
    left |>.readTest rest
  | .not =>
    match ts with
    | .keyword .not :: ts => do
      let (operand, rest) ← Strength.not |>.readAt ts
      return (.not operand, rest)
    | ts => Strength.comparison |>.readAt ts
  | level => do
    let (left, rest) ← level.next |>.readAt ts
    level |>.readMore left rest
partial_fixpoint

/-- Reads on in a chain of operations of a level. -/
def Strength.readMore (level : Strength) (left : Term) (ts : List Token) : Option (Term × List Token) :=
  match splitOperation level ts with
  | some (op, rest) => do
    let (right, rest) ← level.next |>.readAt rest
    level |>.readMore (.operation op left right) rest
  | none => some (left, ts)
partial_fixpoint

/-- Reads the test of an operand, if there is one. -/
def Term.readTest (left : Term) (ts : List Token) : Option (Term × List Token) :=
  match Test.split ts with
  | some (.compare c, rest) => do
    let (right, rest) ← Strength.concat |>.readAt rest
    match c, rest with
    | .pattern p, .keyword .escape :: rest => do
      let (escape, rest) ← Strength.concat |>.readAt rest
      return (.escaped p left right escape, rest)
    | c, rest => return (.compare c left right, rest)
  | some (.isConstant c negated, rest) => some (.isConstant c negated left, rest)
  | some (.inList negated, rest) => do
    let (items, rest) ← Strength.or |>.readItems rest
    return (.inList negated left items, rest)
  | none => some (left, ts)
partial_fixpoint

/-- Reads an atom, with trees of a level between its parentheses. -/
def Strength.readAtom (level : Strength) (ts : List Token) : Option (Term × List Token) :=
  match ts with
  | .symbol .opening :: ts => do
    let (t, rest) ← level |>.readAt ts
    match rest with
    | .symbol .closing :: rest => return (t, rest)
    | _ => none
  | .text s :: rest => some (.text s, rest)
  | .number s :: rest => some (.number s, rest)
  | .name f :: .symbol .opening :: .keyword .distinct :: ts => do
    let (args, rest) ← level |>.readItems ts
    return (.call f true args, rest)
  | .name f :: .symbol .opening :: ts => do
    let (args, rest) ← level |>.readItems ts
    return (.call f false args, rest)
  | .name table :: .symbol .dot :: .name name :: rest => some (.column (some table) name, rest)
  | .name name :: rest => some (.column none name, rest)
  | _ => none
partial_fixpoint

/-- Reads a list of trees of a level behind its opening parenthesis. -/
def Strength.readItems (level : Strength) (ts : List Token) : Option (List Term × List Token) :=
  match ts with
  | .symbol .closing :: rest => some ([], rest)
  | ts => do
    let (t, rest) ← level |>.readAt ts
    let (items, rest) ← level |>.readMoreItems rest
    return (t :: items, rest)
partial_fixpoint

/-- Reads on in a list. -/
def Strength.readMoreItems (level : Strength) (ts : List Token) : Option (List Term × List Token) :=
  match ts with
  | .symbol .closing :: rest => some ([], rest)
  | .symbol .comma :: ts => do
    let (t, rest) ← level |>.readAt ts
    let (items, rest) ← level |>.readMoreItems rest
    return (t :: items, rest)
  | _ => none
partial_fixpoint

end

/-- The tree that a text is read as, if it is read to its end. -/
def read (style : Style) (text : String) : Option Term := do
  let ts ← style.tokens text.toList
  match ← Strength.or.readAt ts with
  | (t, []) => some t
  | _ => none

end AlgebraSql.Render
