import CommonDecl.Outline
import CommonDecl.Proofs.Reading
import CommonDecl.Qualifiers.Edit
import CommonDecl.Settings.Reader
import CommonDecl.Source
import CommonDecl.Proofs.Rests
import CommonDecl.Proofs.Grouping
import CommonDecl.Proofs.Shapes
import CommonDecl.Proofs.References
import CommonDecl.Proofs.Integrity
import CommonDecl.Proofs.Writing
import CommonDecl.Proofs.Grammar
import CommonDecl.Proofs.Rendering
import CommonDecl.Proofs.Levels
import CommonDecl.Proofs.RoundTrip
import CommonDecl.Proofs.Statements
import CommonDecl.Proofs.Names
import CommonDecl.Proofs.Lists
import CommonDecl.Proofs.Bodies
import CommonDecl.Proofs.TypeHeads
import CommonDecl.Proofs.Typedefs
import CommonDecl.Proofs.StatementRoundTrip
import CommonDecl.Proofs.Places
import CommonDecl.Proofs.Lookahead
import CommonDecl.Proofs.Evolution
import CommonDecl.Proofs.Aliases
import CommonDecl.Proofs.Information
import CommonDecl.Proofs.Faults
import CommonDecl.Proofs.Progress
import CommonDecl.Proofs.Boundaries
import CommonDecl.Proofs.Rounds
import CommonDecl.Proofs.FunctionBodies
import CommonDecl.Proofs.Comments
import CommonDecl.Proofs.Likeness
import CommonDecl.Proofs.LikeDeclarators
import CommonDecl.Proofs.MappedReferences
import CommonDecl.Proofs.Comparisons
import CommonDecl.Proofs.Simulations
import CommonDecl.Proofs.ComparedStatements
import CommonDecl.Proofs.LikeStatements
import CommonDecl.Proofs.Composition
import CommonDecl.Proofs.Balance
import CommonDecl.Proofs.Rejoining
import CommonDecl.Proofs.Translation
import CommonDecl.Proofs.Written
import CommonDecl.Proofs.Rereading
import CommonDecl.Proofs.Nests
import CommonDecl.Proofs.Legible
import CommonDecl.Proofs.DeclaratorTexts
import CommonDecl.Proofs.LegibleDeclarators
import CommonDecl.Proofs.Headers
import CommonDecl.Proofs.Locality
import CommonDecl.Proofs.Distribution
import CommonDecl.Proofs.Renumbering
import CommonDecl.Proofs.Interference
import CommonDecl.Proofs.DeclaratorEnds
import CommonDecl.Proofs.TypedefEnds
import CommonDecl.Proofs.QualifierTypedefs
import CommonDecl.Proofs.Arguments
import CommonDecl.Proofs.Unplaced
import CommonDecl.Proofs.Knowledge
import CommonDecl.Proofs.Resolutions
import CommonDecl.Proofs.StructForms
import CommonDecl.Proofs.SelfReferences
import CommonDecl.Proofs.WellFormed
import CommonDecl.Proofs.ArgumentLists
import CommonDecl.Proofs.Attributes
import CommonDecl.Proofs.AttributeOrder
import CommonDecl.Proofs.OwnDimensions
import CommonDecl.Proofs.Intents
import CommonDecl.Proofs.LetterCase
import CommonDecl.Proofs.AnyCase
import CommonDecl.Proofs.KeywordCase
import CommonDecl.Proofs.Scanning
import CommonDecl.Proofs.NormalForms
import CommonDecl.Proofs.Indentation
import CommonDecl.Proofs.CommentLines
import CommonDecl.Proofs.Edits
