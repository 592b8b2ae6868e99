import DqlScan.CommandLine.Arguments
import DqlScan.CommandLine.Collection
import DqlScan.CommandLine.Run
import DqlScan.File.FileSystem
import DqlScan.File.Listing
import DqlScan.File.Path
import DqlScan.Ignore.Rule
import DqlScan.Ignore.Pattern
import DqlScan.Ignore.PathFilter
import DqlScan.Json.Basic
import DqlScan.Json.Double
import DqlScan.Json.Read
import DqlScan.Literal.Machine
import DqlScan.Literal.Scan
import DqlScan.Main
import DqlScan.Notice
import DqlScan.Query.Find
import DqlScan.Report
import DqlScan.Result.Basic
import DqlScan.Result.Stored
import DqlScan.Scan.Directory
import DqlScan.Scan.Walk
import DqlScan.Text.Basic
import DqlScan.Text.Case
import DqlScan.Text.Quoted
import DqlScan.Text.Utf8
import DqlScan.Proofs.Text.Position
import DqlScan.Proofs.Literal.Closing
import DqlScan.Proofs.Literal.Runs
import DqlScan.Proofs.Literal.Decomposition
import DqlScan.Proofs.Literal.Tokens
import DqlScan.Proofs.Literal.Concatenation
import DqlScan.Proofs.Literal.Escaping
import DqlScan.Proofs.Literal.Exchange
import DqlScan.Proofs.Literal.Points
import DqlScan.Proofs.Query.Location
import DqlScan.Proofs.Query.Concatenation
import DqlScan.Proofs.Query.Embedding
import DqlScan.Proofs.Query.Exchange
import DqlScan.Proofs.Json.Scalar
import DqlScan.Proofs.Json.Written
import DqlScan.Proofs.Result.Stored
import DqlScan.Proofs.File.Lookup
import DqlScan.Proofs.File.Place
import DqlScan.Proofs.Ignore.Scopes
import DqlScan.Proofs.Ignore.Language
import DqlScan.Proofs.Ignore.Shape
import DqlScan.Proofs.Ignore.Descent
import DqlScan.Proofs.Scan.Outcomes
import DqlScan.Proofs.Scan.Selection
import DqlScan.Proofs.Scan.Spelling
import DqlScan.Proofs.Scan.Pruning
import DqlScan.Proofs.CommandLine.Endings
import DqlScan.Proofs.Scan.Unseen
import DqlScan.Proofs.Ignore.Floating
import DqlScan.Proofs.Scan.Subtree
import DqlScan.Proofs.File.Rewriting
import DqlScan.Proofs.Scan.Rewriting
import DqlScan.Proofs.Scan.Accounting
import DqlScan.Proofs.CommandLine.ExitCodes
import DqlScan.Proofs.Report.Lines
import DqlScan.Proofs.CommandLine.Counts
import DqlScan.Proofs.CommandLine.Composition
import DqlScan.Proofs.Text.Lines
import DqlScan.Proofs.Query.NormalForm
import DqlScan.Proofs.Query.Parts
import DqlScan.Proofs.Literal.Completion
import DqlScan.Proofs.Scan.Reading
import DqlScan.Proofs.Ignore.Precedence
import DqlScan.Proofs.Ignore.Components
import DqlScan.Proofs.Json.Limits
import DqlScan.Proofs.Result.Normal
import DqlScan.Proofs.Ignore.LineStyle
import DqlScan.Proofs.File.Removal
import DqlScan.Proofs.Scan.Undecoded
import DqlScan.Proofs.CommandLine.Flags
import DqlScan.Proofs.Report.Summary
import DqlScan.Proofs.Report.Console
import DqlScan.Proofs.Query.Pipe
import DqlScan.Proofs.Text.Offset
