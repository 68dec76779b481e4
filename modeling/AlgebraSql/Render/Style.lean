import AlgebraSql.Error
import AlgebraSql.OrderedMap

/-!
# Style — how a dialect writes statements, and what happens to what it cannot write.

A style is a record of choices: which characters quote names and texts, what types are called, how
the number of rows is limited.  Options add what the caller wants.  Rendering may leave notices
behind and may fail, if the caller wants a failure for constructs that the style lacks.
-/

namespace AlgebraSql.Render

/-! ## Choices -/

/-- How a quote inside a text is written. -/
inductive QuoteEscape where
  /-- The quote twice. -/
  | doubled
  /-- A backslash before the quote, and before each backslash. -/
  | backslash
  deriving Repr, DecidableEq

/-- How the number of rows is limited. -/
inductive LimitForm where
  /-- `LIMIT n OFFSET m` -/
  | limit
  /-- `OFFSET m ROWS FETCH NEXT n ROWS ONLY` -/
  | fetch
  deriving Repr, DecidableEq

/-- The choices of a dialect. -/
structure Style where
  /-- What types are called whose names differ from the usual ones. -/
  typeNames : OrderedMap String := []
  /-- The character around a quoted name. -/
  nameQuote : Char := '"'
  quoteEscape : QuoteEscape := .doubled
  limitForm : LimitForm := .fetch
  /-- Sort keys may say where rows without a value go. -/
  nullOrdering : Bool := true
  /-- An interval of a whole number of units is written without quotes. -/
  plainIntervals : Bool := false

/-- What to do about a construct that a style lacks. -/
inductive UnsupportedLevel where
  | ignore | warn | raise
  deriving Repr, DecidableEq

/-- The written form of a level. -/
def UnsupportedLevel.toText : UnsupportedLevel → String
  | .ignore => "IGNORE"
  | .warn => "WARN"
  | .raise => "RAISE"

/-- The level written as `text`. -/
def UnsupportedLevel.ofText? (text : String) : Option UnsupportedLevel :=
  [UnsupportedLevel.ignore, .warn, .raise].find? (·.toText == text)

/-- What the caller wants, where it has a wish. -/
structure Options where
  /-- Quote all names. -/
  identify : Option Bool := none
  unsupportedLevel : Option UnsupportedLevel := none

/-- The wishes of `o`, and those of `defaults` where `o` has none. -/
def Options.withDefaults (o defaults : Options) : Options :=
  { identify := o.identify.or defaults.identify
    unsupportedLevel := o.unsupportedLevel.or defaults.unsupportedLevel }

/-- All that decides how a node is written. -/
structure Setting where
  style : Style := {}
  options : Options := {}
  /-- The name of the dialect, for complaints. -/
  dialect : String := ""

/-! ## Effects -/

/-- Something that the caller should know about a rendering. -/
inductive Notice where
  | unsupported (message : String)
  | noRule (key : String)
  deriving Repr, DecidableEq

/-- A notice is a mere warning. -/
def Notice.isWarning : Notice → Bool
  | .unsupported _ => true
  | .noRule _ => false

/-- The text of a notice. -/
def Notice.message : Notice → String
  | .unsupported message => message
  | .noRule key => "No handler for expression type: " ++ key

/-- A rendering, which may fail and leaves notices behind in either case. -/
abbrev RenderM := ExceptT Error (StateM (List Notice))

/-- Leaves a notice behind. -/
def notify (notice : Notice) : RenderM Unit :=
  modify (· ++ [notice])

/-- Complains about a construct that the style lacks, in the way the caller wants. -/
def Setting.unsupported (s : Setting) (construct : String) : RenderM Unit :=
  match s.options.unsupportedLevel.getD .warn with
  | .raise => throw (.unsupportedSyntax construct s.dialect)
  | .ignore => pure ()
  | .warn => notify (.unsupported construct)

end AlgebraSql.Render
