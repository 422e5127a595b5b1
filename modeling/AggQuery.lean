import AggQuery.Aggregation.Descriptors
import AggQuery.Aggregation.Error
import AggQuery.Aggregation.Kind
import AggQuery.Aggregation.Node
import AggQuery.CommandLine.Arguments
import AggQuery.CommandLine.Execution
import AggQuery.CommandLine.KindTable
import AggQuery.CommandLine.Options
import AggQuery.CommandLine.Translate
import AggQuery.Document.Basic
import AggQuery.Document.Lexeme
import AggQuery.Document.Path
import AggQuery.Document.Reader
import AggQuery.Document.Writer
import AggQuery.Expr.Basic
import AggQuery.Expr.Script
import AggQuery.Files.Path
import AggQuery.Files.Session
import AggQuery.Files.Tree
import AggQuery.Main
import AggQuery.Number.Binary64
import AggQuery.Number.Decimal
import AggQuery.Number.Steps
import AggQuery.Number.IntegerText
import AggQuery.Number.Layout
import AggQuery.Proofs.Aggregation.Descriptors
import AggQuery.Proofs.Document.Insertion
import AggQuery.Proofs.Document.Legible
import AggQuery.Proofs.Document.Lexeme
import AggQuery.Proofs.Document.Reading
import AggQuery.Proofs.Document.Spacing
import AggQuery.Proofs.Expr.Grouping
import AggQuery.Proofs.Expr.Parsed
import AggQuery.Proofs.Request.Decoding
import AggQuery.Proofs.Request.Faults
import AggQuery.Proofs.Request.Placement
import AggQuery.Proofs.Request.Text
import AggQuery.Proofs.Request.Tree
import AggQuery.Query.Basic
import AggQuery.Query.Document
import AggQuery.Reading.Error
import AggQuery.Reading.LimitedDocument
import AggQuery.Reading.InputFormat
import AggQuery.Reading.OfDocument
import AggQuery.Reading.OfInput
import AggQuery.Reading.OfText
import AggQuery.Reading.Slots
import AggQuery.Reading.Text
import AggQuery.Request.AggsPath
import AggQuery.Request.Translate
import AggQuery.Settings.Basic
import AggQuery.Settings.Home
import AggQuery.Settings.OfToml
import AggQuery.Settings.Store
import AggQuery.Settings.Writer
import AggQuery.Text.Padded
import AggQuery.Text.Quoted
import AggQuery.Text.Shown
import AggQuery.Text.Unprintable
import AggQuery.Toml.Number
import AggQuery.Toml.Quoted
import AggQuery.Toml.Reader
import AggQuery.Toml.Value
import AggQuery.Yaml.Cursor
import AggQuery.Yaml.Document
import AggQuery.Yaml.Node
import AggQuery.Yaml.Scalar
import AggQuery.Yaml.Token
import AggQuery.Proofs.Document.Blanks
import AggQuery.Proofs.Reading.Skipping
import AggQuery.Proofs.Reading.Agreement
import AggQuery.Proofs.Reading.Collections
import AggQuery.Proofs.Reading.Expressions
import AggQuery.Proofs.Document.DecimalText
import AggQuery.Proofs.Document.FloatText
import AggQuery.Proofs.Reading.Queries
import AggQuery.Proofs.Reading.Written
import AggQuery.Proofs.Reading.ObjectReader
import AggQuery.Proofs.Reading.Schema
import AggQuery.Proofs.Reading.Relayout
import AggQuery.Proofs.Toml.Quoted
import AggQuery.Proofs.Toml.Lines
import AggQuery.Proofs.Files.Writing
import AggQuery.Proofs.Settings.RoundTrip
import AggQuery.Proofs.CommandLine.Translation
import AggQuery.Proofs.Yaml.Folding
import AggQuery.Proofs.Yaml.FlowTokens
import AggQuery.Proofs.Yaml.Numbers
import AggQuery.Proofs.Document.Strings
import AggQuery.Proofs.Yaml.DocumentTokens
import AggQuery.Proofs.Yaml.DocumentNodes
import AggQuery.Proofs.Yaml.DocumentText
import AggQuery.Proofs.Reading.Texts
import AggQuery.Proofs.Reading.Formats
import AggQuery.Proofs.Document.KeyPaths
import AggQuery.Proofs.Request.NodePaths
import AggQuery.Proofs.Files.Directories
import AggQuery.Proofs.Settings.LoadOrCreate
import AggQuery.Proofs.Reading.Outline
import AggQuery.Proofs.Reading.Spelled
import AggQuery.Proofs.Reading.Respected
import AggQuery.Proofs.Reading.RespectedQueries
import AggQuery.Proofs.Reading.DocumentOutline
import AggQuery.Proofs.Yaml.Outlines
import AggQuery.Proofs.Reading.RepeatedFields
import AggQuery.Proofs.Aggregation.Repeats
import AggQuery.Proofs.Expr.Quoting
import AggQuery.Proofs.Settings.Home
import AggQuery.Proofs.Document.WritePairs
import AggQuery.Proofs.Reading.NestingLimit
import AggQuery.Proofs.Request.Depth
