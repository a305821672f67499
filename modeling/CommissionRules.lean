import CommissionRules.Dict
import CommissionRules.Number
import CommissionRules.Number.Rounding
import CommissionRules.Number.Arithmetic
import CommissionRules.Number.Decimal
import CommissionRules.Text.Blank
import CommissionRules.Text.Word
import CommissionRules.Text.Case
import CommissionRules.Text.Similarity
import CommissionRules.Text.Printable
import CommissionRules.Binary
import CommissionRules.Value
import CommissionRules.Json
import CommissionRules.Json.Numeral
import CommissionRules.Json.Reader
import CommissionRules.Json.Writer
import CommissionRules.Operator
import CommissionRules.Expr
import CommissionRules.Catalog
import CommissionRules.CompileError
import CommissionRules.Token
import CommissionRules.Shape
import CommissionRules.Validation
import CommissionRules.Grammar
import CommissionRules.Compiler
import CommissionRules.Calendar
import CommissionRules.Calendar.Text
import CommissionRules.Json.Decode
import CommissionRules.Config
import CommissionRules.Context
import CommissionRules.EvalError
import CommissionRules.Evaluation.Operation
import CommissionRules.Evaluation.Function
import CommissionRules.Evaluation.Run
import CommissionRules.Evaluation.Collection
import CommissionRules.Evaluation
import CommissionRules.Evaluator
import CommissionRules.Rule
import CommissionRules.Rule.Artifact
import CommissionRules.Graph.Node
import CommissionRules.Graph.Error
import CommissionRules.Graph
import CommissionRules.Graph.Snapshot
import CommissionRules.Graph.Assembly
import CommissionRules.Template
import CommissionRules.Template.Standard
import CommissionRules.Schema
import CommissionRules.Folder
import CommissionRules.CommandLine.Command
import CommissionRules.CommandLine.Refusal
import CommissionRules.CommandLine.Arguments
import CommissionRules.CommandLine
import CommissionRules.Main
import CommissionRules.Proofs.Except
import CommissionRules.Proofs.Grammar.Spelling
import CommissionRules.Proofs.Grammar.Formation
import CommissionRules.Proofs.Evaluation.Failure
import CommissionRules.Proofs.Depth
import CommissionRules.Proofs.Graph.Ids
import CommissionRules.Proofs.Graph.Dispatch
import CommissionRules.Proofs.Graph.Store
import CommissionRules.Proofs.Graph.Order
import CommissionRules.Proofs.Graph.Forest
import CommissionRules.Proofs.Graph.Walks
import CommissionRules.Proofs.Graph.Import
import CommissionRules.Proofs.Graph.Indexing
import CommissionRules.Proofs.Graph.Consistency
import CommissionRules.Proofs.Graph.Growth
import CommissionRules.Proofs.Graph.Names
import CommissionRules.Proofs.Graph.Restore
import CommissionRules.Proofs.Graph.Uniqueness
import CommissionRules.Proofs.Graph.Acceptance
import CommissionRules.Proofs.Graph.RoundTrip
import CommissionRules.Proofs.Grammar.Reading
import CommissionRules.Proofs.Grammar.Printing
import CommissionRules.Proofs.Grammar.Grouping
import CommissionRules.Proofs.Grammar.Locality
import CommissionRules.Proofs.Token.Lexeme
import CommissionRules.Proofs.Token.Scanning
import CommissionRules.Proofs.Grammar.Writing
import CommissionRules.Proofs.Grammar.Enclosure
import CommissionRules.Proofs.Validation
import CommissionRules.Proofs.Graph.Terms
import CommissionRules.Proofs.Graph.Meaning
import CommissionRules.Proofs.Graph.Hygiene
import CommissionRules.Proofs.Catalog
import CommissionRules.Proofs.Evaluation.Outcome
import CommissionRules.Proofs.Evaluation.Errors
import CommissionRules.Proofs.Vocabulary
import CommissionRules.Proofs.Evaluation.Items
import CommissionRules.Proofs.Shapes
import CommissionRules.Proofs.Evaluation.Families
import CommissionRules.Proofs.Evaluation.Cutoff
import CommissionRules.Proofs.Binary
import CommissionRules.Proofs.Artifact
import CommissionRules.Proofs.Graph.Reimport
import CommissionRules.Proofs.Graph.Placement
import CommissionRules.Proofs.Evaluation.Sources
import CommissionRules.Proofs.Graph.Additions
import CommissionRules.Proofs.Graph.Allotment
import CommissionRules.Proofs.Schema.Caching
import CommissionRules.Proofs.Graph.Frame
import CommissionRules.Proofs.Graph.Lifetime
import CommissionRules.Proofs.Schema.Overlap
import CommissionRules.Proofs.Graph.Refusal
import CommissionRules.Proofs.Graph.Deletion
import CommissionRules.Proofs.Evaluation.Pruning
import CommissionRules.Proofs.Grammar.Limits
import CommissionRules.Proofs.Grammar.Parentheses
import CommissionRules.Proofs.Grammar.Parallel
import CommissionRules.Proofs.Grammar.Spacing
import CommissionRules.Proofs.Grammar.Positions
import CommissionRules.Proofs.Graph.Series
import CommissionRules.Proofs.Graph.Actions
import CommissionRules.Proofs.Graph.Headroom
import CommissionRules.Proofs.Truncation
import CommissionRules.Proofs.Evaluation.Renaming
import CommissionRules.Proofs.Ordering
import CommissionRules.Proofs.Evaluation.Sorting
import CommissionRules.Proofs.Equality
import CommissionRules.Proofs.Evaluation.Grouping
import CommissionRules.Proofs.Evaluation.Distinct
import CommissionRules.Proofs.Counts
import CommissionRules.Proofs.Evaluation.Testing
import CommissionRules.Proofs.Token.Coverage
import CommissionRules.Proofs.Token.Slicing
import CommissionRules.Proofs.Token.Rendering
import CommissionRules.Proofs.Grammar.Registration
import CommissionRules.Proofs.Calendar
import CommissionRules.Proofs.Calendar.Text
import CommissionRules.Proofs.Integers
import CommissionRules.Proofs.Calendar.Shifting
import CommissionRules.Proofs.Grammar.Adjacency
import CommissionRules.Proofs.Token.Searching
import CommissionRules.Proofs.Grammar.Warnings
import CommissionRules.Proofs.Grammar.Cursor
import CommissionRules.Proofs.Grammar.Following
import CommissionRules.Proofs.Grammar.Fuel
import CommissionRules.Proofs.Grammar.Descent
import CommissionRules.Proofs.Hashing
import CommissionRules.Proofs.Evaluation.Lookup
