import SqlInjection.Clause.Keyword
import SqlInjection.Clause.Operand
import SqlInjection.Clause.Position
import SqlInjection.Clause.Statement
import SqlInjection.Command.Arguments
import SqlInjection.Command.Help
import SqlInjection.Command.Run
import SqlInjection.Config.Exclude
import SqlInjection.Config.Initial
import SqlInjection.Config.Project
import SqlInjection.Config.User
import SqlInjection.Detector.AnnotatedMethod
import SqlInjection.Detector.Basic
import SqlInjection.Detector.Concatenation
import SqlInjection.Detector.Engine
import SqlInjection.Detector.FormatTemplate
import SqlInjection.Detector.MapperDocument
import SqlInjection.Detector.Settings
import SqlInjection.Digest.Long
import SqlInjection.Digest.Short
import SqlInjection.Digest.Word
import SqlInjection.Edit.Basic
import SqlInjection.Edit.Fix
import SqlInjection.Expr.Basic
import SqlInjection.Expr.Care
import SqlInjection.Expr.Fragment
import SqlInjection.Feedback.Ledger
import SqlInjection.Feedback.Record
import SqlInjection.Feedback.Store
import SqlInjection.Feedback.Upload
import SqlInjection.Finding.Basic
import SqlInjection.Finding.Fingerprint
import SqlInjection.Finding.Severity
import SqlInjection.Java.Grammar.Basic
import SqlInjection.Java.Grammar.Declarations
import SqlInjection.Java.Grammar.Expressions
import SqlInjection.Java.Grammar.Statements
import SqlInjection.Java.Grammar.Types
import SqlInjection.Java.Lowering
import SqlInjection.Java.Scope
import SqlInjection.Java.Source
import SqlInjection.Java.StringLiteral
import SqlInjection.Java.Token
import SqlInjection.Java.Tree
import SqlInjection.Json.Basic
import SqlInjection.Main
import SqlInjection.Mapper.Document
import SqlInjection.Mapper.Markup
import SqlInjection.Project.FileTree
import SqlInjection.Project.Fixing
import SqlInjection.Project.Glob
import SqlInjection.Project.IgnoreFile
import SqlInjection.Project.Path
import SqlInjection.Project.Scan
import SqlInjection.Project.Session
import SqlInjection.Project.SourceKind
import SqlInjection.Project.Walk
import SqlInjection.Proofs.Clause.Layout
import SqlInjection.Proofs.Clause.NearestClause
import SqlInjection.Proofs.Clause.ValueClauses
import SqlInjection.Proofs.Config.Exclusion
import SqlInjection.Proofs.Detector.AnnotationFixpoint
import SqlInjection.Proofs.Detector.Concatenations
import SqlInjection.Proofs.Detector.Fitting
import SqlInjection.Proofs.Detector.FormatAgreement
import SqlInjection.Proofs.Detector.FormatPairing
import SqlInjection.Proofs.Detector.MapperFixes
import SqlInjection.Proofs.Detector.MapperFixpoint
import SqlInjection.Proofs.Detector.Unflagged
import SqlInjection.Proofs.Edit.Acceptance
import SqlInjection.Proofs.Edit.Advisories
import SqlInjection.Proofs.Edit.Splicing
import SqlInjection.Proofs.Expr.Builders
import SqlInjection.Proofs.Expr.ChainVerdict
import SqlInjection.Proofs.Expr.Fragments
import SqlInjection.Proofs.Feedback.Bounds
import SqlInjection.Proofs.Feedback.Concurrency
import SqlInjection.Proofs.Feedback.History
import SqlInjection.Proofs.Java.Bindings
import SqlInjection.Proofs.Java.ConstantLocals
import SqlInjection.Proofs.Java.Evaluation
import SqlInjection.Proofs.Java.Joins
import SqlInjection.Proofs.Java.LiteralRules
import SqlInjection.Proofs.Java.LiteralValues
import SqlInjection.Proofs.Java.Order
import SqlInjection.Proofs.Java.Paths
import SqlInjection.Proofs.Java.Places
import SqlInjection.Proofs.Java.Reading
import SqlInjection.Proofs.Java.Rules
import SqlInjection.Proofs.Java.Scopes
import SqlInjection.Proofs.Java.StraightLine
import SqlInjection.Proofs.Java.Tokens
import SqlInjection.Proofs.Java.Walk
import SqlInjection.Proofs.Java.WrittenLiterals
import SqlInjection.Proofs.Mapper.Blocks
import SqlInjection.Proofs.Mapper.Nodes
import SqlInjection.Proofs.Mapper.Pieces
import SqlInjection.Proofs.Mapper.Reading
import SqlInjection.Proofs.Mapper.Spans
import SqlInjection.Proofs.Mapper.Tree
import SqlInjection.Proofs.Project.FixRuns
import SqlInjection.Proofs.Project.Sessions
import SqlInjection.Proofs.Template.Cut
import SqlInjection.Proofs.Template.DecodedPoints
import SqlInjection.Proofs.Template.Delimiters
import SqlInjection.Proofs.Template.Entities
import SqlInjection.Proofs.Template.InOperands
import SqlInjection.Proofs.Template.LikePatterns
import SqlInjection.Proofs.Template.NormalForm
import SqlInjection.Proofs.Template.Quoting
import SqlInjection.Proofs.Template.Rounds
import SqlInjection.Proofs.Template.Scan
import SqlInjection.Proofs.Template.Segments
import SqlInjection.Proofs.Template.Sight
import SqlInjection.Proofs.Text.Cutting
import SqlInjection.Proofs.Text.SmallLetters
import SqlInjection.Proofs.Text.Words
import SqlInjection.Report.Basic
import SqlInjection.Report.Format
import SqlInjection.Report.Stamp
import SqlInjection.Report.Style
import SqlInjection.Repository.Config
import SqlInjection.Repository.Refspec
import SqlInjection.Repository.Remote
import SqlInjection.Risk
import SqlInjection.Template.Binding
import SqlInjection.Template.Entity
import SqlInjection.Template.Ignore
import SqlInjection.Template.Pattern
import SqlInjection.Text.Basic
import SqlInjection.Text.Blank
import SqlInjection.Text.Bytes
import SqlInjection.Text.Case
import SqlInjection.Text.Line
import SqlInjection.Text.Similarity
import SqlInjection.Text.Word
import SqlInjection.Toml.Document
import SqlInjection.Toml.Scan
import SqlInjection.Toml.Table
import SqlInjection.Toml.Value
