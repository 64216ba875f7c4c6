import DependencyAudit.Analysis.Facts
import DependencyAudit.Analysis.Report
import DependencyAudit.Analysis.Run
import DependencyAudit.Analysis.State
import DependencyAudit.Binding
import DependencyAudit.Collector
import DependencyAudit.CommandLine.Invocation
import DependencyAudit.CommandLine.Option
import DependencyAudit.CommandLine.Run
import DependencyAudit.CommandLine.Session
import DependencyAudit.Config.Basic
import DependencyAudit.Config.Load
import DependencyAudit.Config.Save
import DependencyAudit.Config.Schema
import DependencyAudit.Config.Size
import DependencyAudit.Config.Validate
import DependencyAudit.Config.Value
import DependencyAudit.Fault
import DependencyAudit.FileSystem.Basic
import DependencyAudit.FileSystem.Change
import DependencyAudit.FileSystem.Confine
import DependencyAudit.FileSystem.RealPath
import DependencyAudit.Import.Clause
import DependencyAudit.Import.Comment
import DependencyAudit.Import.Cursor
import DependencyAudit.Import.Declaration
import DependencyAudit.Import.Statement
import DependencyAudit.Json.Number
import DependencyAudit.Json.String
import DependencyAudit.Json.Token
import DependencyAudit.Json.Value
import DependencyAudit.KeepList
import DependencyAudit.Log.Handler
import DependencyAudit.Log.Instant
import DependencyAudit.Log.Json
import DependencyAudit.Log.Level
import DependencyAudit.Log.Line
import DependencyAudit.Log.Record
import DependencyAudit.Main
import DependencyAudit.Manifest.Basic
import DependencyAudit.Manifest.File
import DependencyAudit.Number.Binary64
import DependencyAudit.Number.Decimal
import DependencyAudit.Number.Power
import DependencyAudit.Output.Format
import DependencyAudit.Output.Human
import DependencyAudit.Output.Response
import DependencyAudit.Output.Table
import DependencyAudit.PackageManager
import DependencyAudit.Path
import DependencyAudit.Project
import DependencyAudit.Removal
import DependencyAudit.Specifier
import DependencyAudit.Syntax.Grammar
import DependencyAudit.Syntax.Parsed
import DependencyAudit.Syntax.Tree
import DependencyAudit.Text.Ascii
import DependencyAudit.Text.Base64
import DependencyAudit.Text.Basic
import DependencyAudit.Text.Blank
import DependencyAudit.Text.Case
import DependencyAudit.Text.Digit
import DependencyAudit.Text.Letter
import DependencyAudit.Text.Printable
import DependencyAudit.Text.Quoted
import DependencyAudit.Text.Scalar
import DependencyAudit.Text.Utf8
import DependencyAudit.Text.Width
import DependencyAudit.Toml.Document
import DependencyAudit.Toml.Scope
import DependencyAudit.Toml.Text
import DependencyAudit.Usage.References
import DependencyAudit.Usage.Signal
import DependencyAudit.Yaml.Document
import DependencyAudit.Yaml.KeyOrder
import DependencyAudit.Yaml.Resolve
import DependencyAudit.Yaml.Scalar
import DependencyAudit.Proofs.Json.Lexeme
import DependencyAudit.Proofs.Json.ReadBack
import DependencyAudit.Proofs.Json.Layout
import DependencyAudit.Proofs.Json.StringText
import DependencyAudit.Proofs.Json.Members
import DependencyAudit.Proofs.FirstOccurrences
import DependencyAudit.Proofs.Manifest.Parse
import DependencyAudit.Proofs.Manifest.Without
import DependencyAudit.Proofs.Analysis.Sightings
import DependencyAudit.Proofs.Analysis.Merge
import DependencyAudit.Proofs.FileSystem.Content
import DependencyAudit.Proofs.Analysis.Candidates
import DependencyAudit.Proofs.Removal
import DependencyAudit.Proofs.CommandLine.Session
import DependencyAudit.Proofs.CommandLine.Remove
import DependencyAudit.Proofs.CommandLine.Failure
import DependencyAudit.Proofs.Removal.Outcome
import DependencyAudit.Proofs.Analysis.Partition
import DependencyAudit.Proofs.Path
import DependencyAudit.Proofs.Analysis.LinkedRoot
import DependencyAudit.Proofs.Import.Cursor
import DependencyAudit.Proofs.Import.Comment
import DependencyAudit.Proofs.Import.Words
import DependencyAudit.Proofs.Import.ImportClause
import DependencyAudit.Proofs.Import.ClauseNames
import DependencyAudit.Proofs.Import.ObjectPattern
import DependencyAudit.Proofs.Import.Program
import DependencyAudit.Proofs.Import.Scan
import DependencyAudit.Proofs.Import.Origin
import DependencyAudit.Proofs.Import.Outlook
import DependencyAudit.Proofs.Import.Statement
import DependencyAudit.Proofs.Import.Declarations
import DependencyAudit.Proofs.Import.Bindings
import DependencyAudit.Proofs.Manifest.Format
import DependencyAudit.Proofs.Json.Document
import DependencyAudit.Proofs.Manifest.Canonical
import DependencyAudit.Proofs.Manifest.Composition
import DependencyAudit.Proofs.Analysis.ParseResults
import DependencyAudit.Proofs.Usage.UsePositions
import DependencyAudit.Proofs.Analysis.PrefixMatch
import DependencyAudit.Proofs.Import.Packages
import DependencyAudit.Proofs.Import.Extent
import DependencyAudit.Proofs.Import.Calls
import DependencyAudit.Proofs.Import.RunOn
import DependencyAudit.Proofs.Import.LineComment
import DependencyAudit.Proofs.Analysis.Classification
import DependencyAudit.Proofs.Path.Relative
import DependencyAudit.Proofs.FileSystem.Orderly
import DependencyAudit.Proofs.FileSystem.RealPath
import DependencyAudit.Proofs.Collector
import DependencyAudit.Proofs.FileSystem.Shape
import DependencyAudit.Proofs.FileSystem.Confine
import DependencyAudit.Proofs.FileSystem.Rewriting
import DependencyAudit.Proofs.FileSystem.Missing
import DependencyAudit.Proofs.CommandLine.Confinement
import DependencyAudit.Proofs.Specifier
import DependencyAudit.Proofs.Syntax.FirstFault
import DependencyAudit.Proofs.Json.WholeText
import DependencyAudit.Proofs.Output.Record
import DependencyAudit.Proofs.Output.Decoding
import DependencyAudit.Proofs.Json.Integer
import DependencyAudit.Proofs.Config.Schema
import DependencyAudit.Proofs.Config.Setting
import DependencyAudit.Proofs.Config.Layers
import DependencyAudit.Proofs.Text.Quoted
import DependencyAudit.Proofs.Log.Derivation
import DependencyAudit.Proofs.Log.Splitting
