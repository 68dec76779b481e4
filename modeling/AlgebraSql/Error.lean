import AlgebraSql.Clause
import AlgebraSql.Ordinal
import AlgebraSql.RangeSet.Value
import AlgebraSql.Types

/-!
# Errors — why a plan cannot be built, converted or written.

Each constructor is one cause.  A cause belongs to one of four classes: a broken contract between
the parts of a plan, a construct that the target dialect cannot express, an unknown dialect, or a
malformed argument.
-/

namespace AlgebraSql

/-- A cause of failure. -/
inductive Error where
  -- building values, expressions and relations
  | incomparable (a b : Value)
  | unknownLibraryFunction (name : String)
  | localRefOutOfRange (index : Ordinal) (count : Nat)
  | noLiteralOfType (type : TypeName) (value : Value)
  | noSuchField (field : String) (type : TypeName)
  | inputOrdinalOutOfRange (ordinal : Ordinal) (count : Nat)
  | projectionNames (projections names : Nat)
  | tooFewInputs (operation : String)
  | tupleWidth (values fields : Nat)
  | emptyTableName
  -- resolving names
  | ordinalOutOfRange (ordinal : Ordinal) (count : Nat)
  | emptySelectItem (ordinal : Ordinal)
  | unknownCorrelation (id : String)
  | correlationWithoutField (id : String)
  -- converting expressions
  | danglingLocalRef (index : Ordinal)
  | patternFieldNotColumn (index : Ordinal)
  | unknownSubQueryOperator (operator : String)
  | notWithoutOperand
  | quantifierWithoutPattern
  | quantifierBounds
  | searchOperands
  | searchWithoutType
  | castWithoutOperand
  | cursorCastOperand
  | binaryOperands (count : Nat)
  | operatorWithoutOperands (operator : String)
  | operatorWithoutForm (operator : String)
  | windowConstantOutOfRange (index : Ordinal)
  | sargOutsideSearch
  -- converting relations
  | noInputs (relation : String)
  | noInput (relation : String) (index : Ordinal)
  | foreignBuilder (relation : String)
  | undeclaredClause (clause : Clause) (relation : String)
  | selectItemBeyondType (index : Nat)
  | notFromItem (key : String)
  -- dialects
  | unsupportedFunction (operator dialect : String)
  | unsupportedGrouping (construct dialect : String)
  | unsupportedSyntax (construct dialect : String)
  | unknownDialect (name : String)
  | invalidSetting (key value : String)
  deriving Repr, DecidableEq

namespace Error

/-- The class of a cause, with what a caller may want to know about it. -/
inductive Class where
  | contract
  | unsupported (construct dialect : String)
  | unknownDialect (name : String)
  | argument
  deriving Repr, DecidableEq

/-- The class of each cause. -/
def classify : Error → Class
  | .unsupportedFunction operator dialect => .unsupported ("Function " ++ operator) dialect
  | .unsupportedGrouping construct dialect => .unsupported construct dialect
  | .unsupportedSyntax construct dialect => .unsupported construct dialect
  | .unknownDialect name => .unknownDialect name
  | .invalidSetting _ _ => .argument
  | .emptyTableName => .argument
  | _ => .contract

/-- The message for a construct that a dialect lacks. -/
def notSupported (construct dialect : String) : String :=
  construct ++ " is not supported by dialect " ++ dialect

/-- The message of each cause. -/
def message : Error → String
  | .incomparable a b => "Cannot compare " ++ a.sortName ++ " with " ++ b.sortName
  | .unknownLibraryFunction name => "Unknown library function: " ++ name
  | .localRefOutOfRange index count =>
    "Local reference " ++ index.toText ++ " out of range " ++ toString count
  | .noLiteralOfType type value =>
    "Cannot make a " ++ type.toText ++ " literal from " ++ value.toText
  | .noSuchField field type => "Field " ++ field ++ " not found in " ++ type.toText
  | .inputOrdinalOutOfRange ordinal count =>
    "Field ordinal " ++ ordinal.toText ++ " out of range " ++ toString count
  | .projectionNames projections names =>
    toString projections ++ " projections but " ++ toString names ++ " names"
  | .tooFewInputs operation => operation ++ " needs at least two inputs"
  | .tupleWidth values fields =>
    "Tuple of " ++ toString values ++ " values for " ++ toString fields ++ " fields"
  | .emptyTableName => "A table name needs at least one part"
  | .ordinalOutOfRange ordinal count =>
    "Field ordinal " ++ ordinal.toText ++ " out of range [0, " ++ toString count ++ ")"
  | .emptySelectItem ordinal => "Empty select item " ++ ordinal.toText
  | .unknownCorrelation id => "Unknown correlation variable " ++ id
  | .correlationWithoutField id => "Correlation variable " ++ id ++ " used without a field"
  | .danglingLocalRef index => "Local reference " ++ index.toText ++ " out of range"
  | .patternFieldNotColumn index =>
    "Pattern field " ++ index.toText ++ " does not resolve to a column"
  | .unknownSubQueryOperator operator => "Unknown subquery operator " ++ operator
  | .notWithoutOperand => "NOT without an operand"
  | .quantifierWithoutPattern => "Pattern quantifier without a pattern"
  | .quantifierBounds => "Pattern quantifier bounds must be exact literals"
  | .searchOperands => "SEARCH takes an operand and a search argument"
  | .searchWithoutType => "Search argument without a value type"
  | .castWithoutOperand => "CAST without an operand"
  | .cursorCastOperand => "A CURSOR cast applies to an input field"
  | .binaryOperands count => "Binary operator with " ++ toString count ++ " operands"
  | .operatorWithoutOperands operator => operator ++ " without operands"
  | .operatorWithoutForm operator => "Cannot translate operator " ++ operator
  | .windowConstantOutOfRange index => "Window constant " ++ index.toText ++ " out of range"
  | .sargOutsideSearch => "A search argument is only valid inside SEARCH"
  | .noInputs relation => "A " ++ relation ++ " node has no input"
  | .noInput relation index => "A " ++ relation ++ " node has no input " ++ index.toText
  | .foreignBuilder relation =>
    "Builder requested by a " ++ relation ++ " node for an input visited by another node"
  | .undeclaredClause clause relation =>
    "Clause " ++ clause.toText ++ " was not declared by the " ++ relation ++ " node"
  | .selectItemBeyondType index => "Select item " ++ toString index ++ " beyond the row type"
  | .notFromItem key => "Cannot use a " ++ key ++ " as a FROM item"
  | .unsupportedFunction operator dialect => notSupported ("Function " ++ operator) dialect
  | .unsupportedGrouping construct dialect => notSupported construct dialect
  | .unsupportedSyntax construct _ => construct
  | .unknownDialect name => "Unknown dialect: " ++ name
  | .invalidSetting key value => "Invalid dialect setting: " ++ key ++ "=" ++ value

end Error

end AlgebraSql
