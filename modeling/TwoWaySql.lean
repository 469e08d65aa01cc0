import TwoWaySql.Clause.Cleanup
import TwoWaySql.Clause.Mask
import TwoWaySql.Clause.Span
import TwoWaySql.Coverage
import TwoWaySql.Coverage.Collector
import TwoWaySql.Coverage.Report
import TwoWaySql.Decimal.Layout
import TwoWaySql.Decimal.Shortest
import TwoWaySql.Decimal.Whole
import TwoWaySql.Directive
import TwoWaySql.Draft
import TwoWaySql.Dummy
import TwoWaySql.Encoding.Coverage
import TwoWaySql.Encoding.Error
import TwoWaySql.Encoding.Record
import TwoWaySql.Encoding.Statement
import TwoWaySql.Encoding.Template
import TwoWaySql.Encoding.Token
import TwoWaySql.Encoding.Value
import TwoWaySql.Error
import TwoWaySql.Evaluator
import TwoWaySql.Event
import TwoWaySql.Expr
import TwoWaySql.Expr.Builtin
import TwoWaySql.Expr.Eval
import TwoWaySql.Expr.Parse
import TwoWaySql.Json
import TwoWaySql.Json.Number
import TwoWaySql.Json.Reader
import TwoWaySql.Json.Text
import TwoWaySql.Json.Writer
import TwoWaySql.Lexeme
import TwoWaySql.Lookup
import TwoWaySql.Mapper
import TwoWaySql.Move
import TwoWaySql.Name
import TwoWaySql.Place
import TwoWaySql.Position
import TwoWaySql.Render
import TwoWaySql.Renderer
import TwoWaySql.Scanner
import TwoWaySql.Settings
import TwoWaySql.Sheet
import TwoWaySql.Statement
import TwoWaySql.Table
import TwoWaySql.Template
import TwoWaySql.Text.Blank
import TwoWaySql.Text.Bytes
import TwoWaySql.Text.Split
import TwoWaySql.Text.Visible
import TwoWaySql.Text.Word
import TwoWaySql.Token
import TwoWaySql.Token.Scan
import TwoWaySql.Tree
import TwoWaySql.Tree.Arena
import TwoWaySql.Tree.Build
import TwoWaySql.Tree.Contents
import TwoWaySql.Tree.Listing
import TwoWaySql.Value
import TwoWaySql.Value.Dump
import TwoWaySql.Value.Path
import TwoWaySql.Proofs.Marks
import TwoWaySql.Proofs.Meaning
import TwoWaySql.Proofs.Rendering
import TwoWaySql.Proofs.Alignment
import TwoWaySql.Proofs.Secrecy
import TwoWaySql.Proofs.Directives
import TwoWaySql.Proofs.Nesting
import TwoWaySql.Proofs.Printing
import TwoWaySql.Proofs.RoundTrip
import TwoWaySql.Proofs.Validation
import TwoWaySql.Proofs.Recording
import TwoWaySql.Proofs.Extension
import TwoWaySql.Proofs.Appending
import TwoWaySql.Proofs.Masking
import TwoWaySql.Proofs.Tidying
import TwoWaySql.Proofs.LineComments
import TwoWaySql.Proofs.Runs
import TwoWaySql.Proofs.RunRules
import TwoWaySql.Proofs.RunModels
import TwoWaySql.Proofs.Pruning
import TwoWaySql.Proofs.Leftovers
import TwoWaySql.Proofs.Settling
import TwoWaySql.Proofs.Rounding
import TwoWaySql.Proofs.Comparisons
import TwoWaySql.Proofs.Quoting
import TwoWaySql.Proofs.Places
import TwoWaySql.Proofs.Dummies
import TwoWaySql.Proofs.Grammar
import TwoWaySql.Proofs.Spelling
import TwoWaySql.Proofs.Reading
import TwoWaySql.Proofs.Observation
import TwoWaySql.Proofs.Mentions
import TwoWaySql.Proofs.Height
import TwoWaySql.Proofs.Atoms
import TwoWaySql.Proofs.Slices
import TwoWaySql.Proofs.Causes
import TwoWaySql.Proofs.VariableNames
import TwoWaySql.Proofs.Collecting
import TwoWaySql.Proofs.Omissions
import TwoWaySql.Proofs.Operands
import TwoWaySql.Proofs.Groups
import TwoWaySql.Proofs.Locations
import TwoWaySql.Proofs.Progress
import TwoWaySql.Proofs.Moves
import TwoWaySql.Proofs.Arenas
import TwoWaySql.Proofs.PostOrder
import TwoWaySql.Proofs.Introspection
import TwoWaySql.Proofs.Presence
import TwoWaySql.Proofs.Paths
import TwoWaySql.Proofs.Documents
import TwoWaySql.Proofs.Encodings
import TwoWaySql.Proofs.StoredTemplates
import TwoWaySql.Proofs.Logging
import TwoWaySql.Proofs.Courses
import TwoWaySql.Proofs.Consistency
import TwoWaySql.Proofs.Unmasking
