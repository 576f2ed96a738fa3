import SqlAudit.Assessment
import SqlAudit.Catalog.Basic
import SqlAudit.Catalog.Builtin
import SqlAudit.Catalog.Definition
import SqlAudit.Catalog.Error
import SqlAudit.Catalog.Reader
import SqlAudit.CommandLine.Files
import SqlAudit.CommandLine.Options
import SqlAudit.CommandLine.Run
import SqlAudit.Dialect
import SqlAudit.Evaluation
import SqlAudit.Finding
import SqlAudit.Grammar.Alteration
import SqlAudit.Grammar.Basic
import SqlAudit.Grammar.Binding
import SqlAudit.Grammar.Creation
import SqlAudit.Grammar.DataType
import SqlAudit.Grammar.Expression
import SqlAudit.Grammar.Privilege
import SqlAudit.Grammar.Query
import SqlAudit.Grammar.Reading
import SqlAudit.Grammar.Routine
import SqlAudit.Grammar.Statement
import SqlAudit.Grammar.Table
import SqlAudit.Json.Basic
import SqlAudit.Json.Number
import SqlAudit.Json.Printer
import SqlAudit.Json.Reader
import SqlAudit.Json.Record
import SqlAudit.Keyword
import SqlAudit.Main
import SqlAudit.Proofs.Assessment.WellFormed
import SqlAudit.Proofs.Grammar.Derivation
import SqlAudit.Proofs.Grammar.Movement
import SqlAudit.Proofs.Grammar.Nesting
import SqlAudit.Proofs.Grammar.Outline
import SqlAudit.Proofs.Grammar.Rules
import SqlAudit.Proofs.Grammar.Soundness
import SqlAudit.Proofs.Grammar.Steps
import SqlAudit.Proofs.Grammar.Survey
import SqlAudit.Proofs.Grammar.Twins
import SqlAudit.Proofs.Grammar.Whole
import SqlAudit.Proofs.Script.Coverage
import SqlAudit.Proofs.Script.Isolation
import SqlAudit.Proofs.Script.Layout
import SqlAudit.Proofs.Script.Lexical
import SqlAudit.Proofs.Script.Nesting
import SqlAudit.Proofs.Script.Reads
import SqlAudit.Proofs.Script.Source
import SqlAudit.Proofs.Script.Twins
import SqlAudit.Proofs.Token.Cover
import SqlAudit.Proofs.Token.Locality
import SqlAudit.Proofs.Token.Order
import SqlAudit.Proofs.Tree.Every
import SqlAudit.Proofs.Tree.Nesting
import SqlAudit.Proofs.Tree.Relocation
import SqlAudit.Report.Basic
import SqlAudit.Report.Json
import SqlAudit.Report.Text
import SqlAudit.Report.Timestamp
import SqlAudit.Rule.Basic
import SqlAudit.Rule.Check
import SqlAudit.Rule.Fault
import SqlAudit.Rule.Reader
import SqlAudit.Script
import SqlAudit.Sequence.Basic
import SqlAudit.Sequence.Options
import SqlAudit.Severity
import SqlAudit.SyntaxError
import SqlAudit.Text.AlphabeticTable
import SqlAudit.Text.Blank
import SqlAudit.Text.Case
import SqlAudit.Text.CasingTable
import SqlAudit.Text.Decimal
import SqlAudit.Text.Letter
import SqlAudit.Text.LineIndex
import SqlAudit.Text.LowercaseTable
import SqlAudit.Text.NumericTable
import SqlAudit.Text.Span
import SqlAudit.Text.Substitution
import SqlAudit.Token
import SqlAudit.Token.Lexer
import SqlAudit.Tree.Kind
import SqlAudit.Tree.Node
import SqlAudit.Tree.Shape
import SqlAudit.Proofs.Evaluation.Visit
import SqlAudit.Proofs.Finding.Aggregation
import SqlAudit.Proofs.Script.Regions
import SqlAudit.Proofs.Assessment.Regions
import SqlAudit.Proofs.Grammar.Analysis
import SqlAudit.Proofs.Grammar.Outcomes
import SqlAudit.Proofs.Grammar.Tiers
import SqlAudit.Proofs.Script.Distinct
import SqlAudit.Proofs.Catalog.Named
import SqlAudit.Proofs.Evaluation.Distinct
import SqlAudit.Proofs.Assessment.Lossless
import SqlAudit.Proofs.Grammar.Weights
import SqlAudit.Proofs.Script.Depth
import SqlAudit.Proofs.Finding.Order
import SqlAudit.Proofs.Finding.Neighbours
import SqlAudit.Proofs.Evaluation.Independence
import SqlAudit.Proofs.Assessment.Independence
import SqlAudit.Proofs.Catalog.Layer
import SqlAudit.Proofs.Catalog.Chain
import SqlAudit.Proofs.Catalog.Resolution
import SqlAudit.Proofs.Evaluation.Narrowing
import SqlAudit.Proofs.Assessment.Upgrade
import SqlAudit.Proofs.Token.Spacing
import SqlAudit.Proofs.Token.Spelling
import SqlAudit.Proofs.Token.Lossless
import SqlAudit.Proofs.Token.Insertion
import SqlAudit.Proofs.Report.Rollup
import SqlAudit.Proofs.Grammar.Forward
import SqlAudit.Proofs.Grammar.Formula
import SqlAudit.Proofs.Grammar.Operators
import SqlAudit.Proofs.Script.Precedence
import SqlAudit.Proofs.Grammar.Phrases
import SqlAudit.Proofs.Grammar.Voices
import SqlAudit.Proofs.Grammar.Phrased
import SqlAudit.Proofs.Script.Phrases
import SqlAudit.Proofs.Tree.Walk
import SqlAudit.Proofs.Evaluation.Specification
import SqlAudit.Proofs.Finding.Runs
import SqlAudit.Proofs.Finding.Canonical
import SqlAudit.Proofs.Grammar.Origin
import SqlAudit.Proofs.Grammar.Options
import SqlAudit.Proofs.Script.Options
import SqlAudit.Proofs.Catalog.Loading
import SqlAudit.Proofs.Assessment.Reserved
import SqlAudit.Proofs.Tree.Shape
import SqlAudit.Proofs.Assessment.Unsupported
import SqlAudit.Proofs.Rule.Template
import SqlAudit.Proofs.Rule.Rendering
import SqlAudit.Proofs.Grammar.Names
import SqlAudit.Proofs.Grammar.Types
import SqlAudit.Proofs.Grammar.Sequences
import SqlAudit.Proofs.Assessment.Sequences
import SqlAudit.Proofs.Tree.Ancestors
import SqlAudit.Proofs.Script.Subqueries
import SqlAudit.Proofs.Assessment.Findings
import SqlAudit.Proofs.Assessment.Sharded
import SqlAudit.Proofs.Token.Casing
import SqlAudit.Proofs.Token.Steady
import SqlAudit.Proofs.Token.Recasing
import SqlAudit.Proofs.Tree.Values
import SqlAudit.Proofs.Grammar.Spelled
import SqlAudit.Proofs.Grammar.Recasing
import SqlAudit.Proofs.Grammar.Heeding
import SqlAudit.Proofs.Script.Recasing
import SqlAudit.Proofs.Token.Quoting
import SqlAudit.Proofs.Grammar.Joins
import SqlAudit.Proofs.Script.Joins
import SqlAudit.Proofs.Script.Columns
import SqlAudit.Proofs.Script.Infix
import SqlAudit.Proofs.Token.Alone
import SqlAudit.Proofs.Token.Dialects
import SqlAudit.Proofs.Text.Position
import SqlAudit.Proofs.Sequence.Capacity
import SqlAudit.Proofs.Grammar.Padding
import SqlAudit.Proofs.Token.Opening
import SqlAudit.Proofs.Script.Placement
import SqlAudit.Proofs.Script.StoredQueries
import SqlAudit.Proofs.Grammar.Arrivals
import SqlAudit.Proofs.Script.NestedQueries
import SqlAudit.Proofs.Sequence.Arithmetic
import SqlAudit.Proofs.Rule.Connectives
import SqlAudit.Proofs.Grammar.Parents
import SqlAudit.Proofs.Script.Methods
import SqlAudit.Proofs.Assessment.Methods
import SqlAudit.Proofs.Grammar.Refusal
import SqlAudit.Proofs.Grammar.Levels
import SqlAudit.Proofs.Script.Levels
import SqlAudit.Proofs.Grammar.Blocks
