import DocLint.Calendar
import DocLint.Check.Basic
import DocLint.Check.Choice
import DocLint.Check.Measure
import DocLint.Check.Ordering
import DocLint.Check.Presence
import DocLint.Check.Registry
import DocLint.Check.Spelling
import DocLint.Command
import DocLint.Command.Arguments
import DocLint.Command.Outcome
import DocLint.Command.Request
import DocLint.Command.Usage
import DocLint.Diagnostic
import DocLint.Document.Basic
import DocLint.Document.Format
import DocLint.Document.Inventory
import DocLint.Document.SourceMap
import DocLint.Failure
import DocLint.File.Access
import DocLint.File.Name
import DocLint.Json.Basic
import DocLint.Linter
import DocLint.Log
import DocLint.Main
import DocLint.Number.Binary64
import DocLint.Number.Decimal
import DocLint.Number.Integer
import DocLint.Number.Rounding
import DocLint.Path.Basic
import DocLint.Path.Compile
import DocLint.Path.Pointer
import DocLint.Path.Selector
import DocLint.Pattern.Basic
import DocLint.Pattern.Matching
import DocLint.Pattern.Reader
import DocLint.Pattern.Syntax
import DocLint.Proofs.Document.Places
import DocLint.Proofs.Document.Ranges
import DocLint.Proofs.Lists
import DocLint.Proofs.Path.Address
import DocLint.Proofs.Path.Keys
import DocLint.Proofs.Path.Pieces
import DocLint.Proofs.Path.Sameness
import DocLint.Proofs.Query.Places
import DocLint.Proofs.Query.Reading
import DocLint.Proofs.Query.Standard
import DocLint.Proofs.Run.Course
import DocLint.Proofs.Run.Grounds
import DocLint.Proofs.Run.Identity
import DocLint.Proofs.Run.Interleaving
import DocLint.Proofs.Run.Isolation
import DocLint.Proofs.Run.Once
import DocLint.Proofs.Run.Outcome
import DocLint.Proofs.Run.Plan
import DocLint.Proofs.Run.Settling
import DocLint.Proofs.Run.Strategies
import DocLint.Proofs.Run.Streams
import DocLint.Proofs.Run.Suppression
import DocLint.Proofs.Run.Trace
import DocLint.Proofs.Run.Visits
import DocLint.Proofs.Run.Waiting
import DocLint.Proofs.Suppression.Pivot
import DocLint.Proofs.Tree
import DocLint.Proofs.Walk.Delivery
import DocLint.Proofs.Walk.Depth
import DocLint.Proofs.Walk.Reach
import DocLint.Proofs.Yaml.Escapes
import DocLint.Proofs.Yaml.Faults
import DocLint.Proofs.Yaml.Filling
import DocLint.Proofs.Yaml.Merging
import DocLint.Proofs.Yaml.Origin
import DocLint.Proofs.Yaml.Reading
import DocLint.Proofs.Yaml.Scalars
import DocLint.Proofs.Yaml.Scanning
import DocLint.Proofs.Yaml.Steps
import DocLint.Proofs.Yaml.Values
import DocLint.Query.Basic
import DocLint.Query.Error
import DocLint.Query.Evaluation
import DocLint.Query.Reader
import DocLint.Query.Step
import DocLint.Query.Token
import DocLint.Report.Lines
import DocLint.Report.Markup
import DocLint.Report.Result
import DocLint.Report.Structured
import DocLint.Report.Table
import DocLint.Rule.Basic
import DocLint.Rule.Ruleset
import DocLint.Run.Execution
import DocLint.Run.Ledger
import DocLint.Run.Linting
import DocLint.Run.Message
import DocLint.Run.Switchboard
import DocLint.Run.Target
import DocLint.Run.Walk
import DocLint.Settings
import DocLint.Severity
import DocLint.Suppression.Declaration
import DocLint.Suppression.Location
import DocLint.Text.Base64
import DocLint.Text.Blank
import DocLint.Text.Case
import DocLint.Text.Cells
import DocLint.Text.Digit
import DocLint.Text.Hex
import DocLint.Text.Likeness
import DocLint.Text.Lines
import DocLint.Text.Printable
import DocLint.Text.Quoted
import DocLint.Text.Ranges
import DocLint.Text.Styling
import DocLint.Text.Utf8
import DocLint.Text.Word
import DocLint.Value.Compare
import DocLint.Value.Graph
import DocLint.Value.Printed
import DocLint.Value.Scalar
import DocLint.Value.Text
import DocLint.Yaml.Construction
import DocLint.Yaml.Cursor
import DocLint.Yaml.Error
import DocLint.Yaml.Node
import DocLint.Yaml.Node.Reader
import DocLint.Yaml.Schema
import DocLint.Yaml.Token
import DocLint.Yaml.Token.Lexer
import DocLint.Yaml.Token.Scalar
import DocLint.Proofs.Path.Compiling
import DocLint.Proofs.Command.Documents
import DocLint.Proofs.Command.Refusals
import DocLint.Proofs.Suppression.Pointers
import DocLint.Proofs.Run.Fields
import DocLint.Proofs.Run.Stopping
import DocLint.Proofs.Run.DottedNames
import DocLint.Proofs.Pattern.Backtracking
import DocLint.Proofs.Check.Casing
import DocLint.Proofs.Document.Formats
import DocLint.Proofs.File.Names
import DocLint.Proofs.Suppression.Sources
import DocLint.Proofs.Rule.Accepted
import DocLint.Proofs.Check.Ordering
import DocLint.Proofs.Check.StrayEntries
import DocLint.Proofs.Command.Settings
import DocLint.Proofs.Report.Lines
import DocLint.Proofs.Run.StrayEntries
import DocLint.Proofs.Run.Messages
import DocLint.Proofs.Report.Rearranged
import DocLint.Proofs.Report.Markup
import DocLint.Proofs.Report.Table
import DocLint.Proofs.Report.Structured
