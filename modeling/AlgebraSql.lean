import AlgebraSql.Convert.Statement
import AlgebraSql.Convert.Visit
import AlgebraSql.Sql.Edit
import AlgebraSql.Proofs.JoinTree
import AlgebraSql.Proofs.References
import AlgebraSql.Proofs.ClausesKept
import AlgebraSql.Proofs.GroupNames
import AlgebraSql.Proofs.SpelledStars
import AlgebraSql.Proofs.Searches
import AlgebraSql.Proofs.ScalarValues
import AlgebraSql.Proofs.OuterRows
import AlgebraSql.Proofs.FilterRows
import AlgebraSql.Proofs.OperatorText
import AlgebraSql.Proofs.ListedNames
import AlgebraSql.Proofs.JoinFields
import AlgebraSql.Proofs.GrandTotals
import AlgebraSql.Proofs.JoinRows
import AlgebraSql.Proofs.AdmittedExpressions
import AlgebraSql.Proofs.Parts
import AlgebraSql.Proofs.Assembled
import AlgebraSql.Proofs.AssembledOperators
import AlgebraSql.Proofs.CallScopes
import AlgebraSql.Proofs.CallNesting
import AlgebraSql.Proofs.UnnestedPlans
import AlgebraSql.Proofs.ColumnShapes
import AlgebraSql.Proofs.AggregateArguments
import AlgebraSql.Proofs.MappedOperators
import AlgebraSql.Proofs.OfferedFunctions
import AlgebraSql.Proofs.SubstitutedFunctions
import AlgebraSql.Proofs.SubstitutedPlans
import AlgebraSql.Proofs.SourceLevels
import AlgebraSql.Proofs.SourcedExpressions
import AlgebraSql.Proofs.SettledSources
import AlgebraSql.Proofs.SourcedOperators
import AlgebraSql.Proofs.SourcedInputs
import AlgebraSql.Proofs.SourcedPlans
import AlgebraSql.Proofs.QuotedTokens
import AlgebraSql.Proofs.GroupingSets
import AlgebraSql.Proofs.SortOrder
import AlgebraSql.Proofs.FilteredAggregates
import AlgebraSql.Proofs.Arithmetic
import AlgebraSql.Proofs.ElementaryTexts
import AlgebraSql.Proofs.SetOperations
import AlgebraSql.Proofs.RowPatternTexts
import AlgebraSql.Proofs.JoinConditions
import AlgebraSql.Proofs.WindowConstants
import AlgebraSql.Proofs.BareExpressions
import AlgebraSql.Proofs.OpenedOperators
import AlgebraSql.Proofs.OrderedAggregates
import AlgebraSql.Proofs.GroupClauses
import AlgebraSql.Proofs.GroupNumerals
import AlgebraSql.Proofs.CanonicalRanges
import AlgebraSql.Proofs.NullKeys
import AlgebraSql.Proofs.NamedInputs
import AlgebraSql.Proofs.StrippedAliases
import AlgebraSql.Proofs.TrivialNames
import AlgebraSql.Proofs.TableQualifiers
import AlgebraSql.Proofs.QualifiedPlans
import AlgebraSql.Proofs.FieldPositions
import AlgebraSql.Proofs.PlainNumerals
import AlgebraSql.Proofs.ScopeWalks
import AlgebraSql.Proofs.UniqueColumns
