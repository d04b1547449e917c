import Sigil.CommandLine
import Sigil.Config
import Sigil.Error
import Sigil.Eval.Monad
import Sigil.Eval.Path
import Sigil.Eval.Registry
import Sigil.Eval.Scope
import Sigil.Fields
import Sigil.Json.Basic
import Sigil.Json.Reader
import Sigil.Json.Writer
import Sigil.Loading
import Sigil.Main
import Sigil.Number.Binary64
import Sigil.Number.Numeral
import Sigil.Number.Power
import Sigil.Number.Shortest
import Sigil.Number.Style
import Sigil.Operand
import Sigil.Operators.Arithmetic
import Sigil.Operators.Builtin
import Sigil.Operators.Container
import Sigil.Operators.Control
import Sigil.Operators.Data
import Sigil.Operators.Documents
import Sigil.Operators.Function
import Sigil.Operators.Host
import Sigil.Operators.Iteration
import Sigil.Operators.Predicate
import Sigil.Operators.Request
import Sigil.Operators.Schedule
import Sigil.Operators.Template
import Sigil.Operators.Yaml
import Sigil.Program
import Sigil.Regex.Basic
import Sigil.Regex.Pattern
import Sigil.Regex.Property
import Sigil.Regex.Reader
import Sigil.Shorthand
import Sigil.Store
import Sigil.Text.Blank
import Sigil.Text.Category
import Sigil.Text.CharSet
import Sigil.Text.Folding
import Sigil.Text.Quoted
import Sigil.Text.Script
import Sigil.Toml.Basic
import Sigil.Toml.Document
import Sigil.Toml.Scalar
import Sigil.Value.Basic
import Sigil.Value.Coercion
import Sigil.Value.Document
import Sigil.Value.Equality
import Sigil.Window
import Sigil.Yaml.Cursor
import Sigil.Yaml.Document
import Sigil.Yaml.Node
import Sigil.Yaml.Scalar
import Sigil.Yaml.Token
import Sigil.Yaml.Token.Lexer
import Sigil.Proofs.ArithmeticShape
import Sigil.Proofs.ShorthandOperands
import Sigil.Proofs.Bisimulation
import Sigil.Proofs.Double
import Sigil.Proofs.Numeral
import Sigil.Proofs.DocumentText
import Sigil.Proofs.HeapGrowth
import Sigil.Proofs.IdentityKey
import Sigil.Proofs.Uniformity
import Sigil.Proofs.OperatorUniformity
import Sigil.Proofs.StepUniformity
import Sigil.Proofs.Termination
import Sigil.Proofs.Sequence
import Sigil.Proofs.RecentKeys
import Sigil.Proofs.StateInvariant
import Sigil.Proofs.ReadOnly
import Sigil.Proofs.Frame
import Sigil.Proofs.DocumentEquality
import Sigil.Proofs.StoreHistory
import Sigil.Proofs.MadeUpIds
import Sigil.Proofs.ErrorKinds
import Sigil.Proofs.DocumentCopies
import Sigil.Proofs.PathWalk
import Sigil.Proofs.SetGet
import Sigil.Proofs.ComparisonShape
import Sigil.Proofs.PlainData
import Sigil.Proofs.TimerRuns
import Sigil.Proofs.FormatTemplate
import Sigil.Proofs.ArithmeticChain
import Sigil.Proofs.PathNormalization
import Sigil.Proofs.PathSegments
import Sigil.Proofs.PathSpelling
import Sigil.Proofs.KeyedReads
import Sigil.Proofs.DocumentRoundTrip
import Sigil.Proofs.SingleWrite
import Sigil.Proofs.CycleMarks
import Sigil.Proofs.IterationPasses
import Sigil.Proofs.DocumentKeys
import Sigil.Proofs.ListIteration
import Sigil.Proofs.UniqueElements
import Sigil.Proofs.BranchChoice
import Sigil.Proofs.SequenceSlots
import Sigil.Proofs.SequenceExit
import Sigil.Proofs.ClosureCalls
import Sigil.Proofs.IntegerOperands
import Sigil.Proofs.TruncatedDivision
import Sigil.Proofs.TemplatePieces
import Sigil.Proofs.StorableValues
import Sigil.Proofs.StoredDocuments
import Sigil.Proofs.ArgumentGroups
import Sigil.Proofs.NumberText
