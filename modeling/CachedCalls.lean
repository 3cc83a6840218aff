import CachedCalls.Text.Bytes
import CachedCalls.Text.Hex
import CachedCalls.Text.Blank
import CachedCalls.Text.WordChar
import CachedCalls.Text.Word
import CachedCalls.Text.Printable
import CachedCalls.Span
import CachedCalls.Edit
import CachedCalls.SymbolTable
import CachedCalls.Lexical
import CachedCalls.Rejection
import CachedCalls.Definition
import CachedCalls.Wrapper
import CachedCalls.Plan
import CachedCalls.SourceUnit
import CachedCalls.Tree
import CachedCalls.Discovery
import CachedCalls.Json.Decimal
import CachedCalls.Json.Value
import CachedCalls.Json.Access
import CachedCalls.Json.Printer
import CachedCalls.Json.Fault
import CachedCalls.Json.Reader
import CachedCalls.Json.Quoted
import CachedCalls.Json.Numeral
import CachedCalls.Json.Document
import CachedCalls.Json.Skip
import CachedCalls.Json.Decode
import CachedCalls.Json.Record
import CachedCalls.Edit.Json
import CachedCalls.Tree.Json
import CachedCalls.Glob.Pattern
import CachedCalls.Glob.Method
import CachedCalls.Glob.Nesting
import CachedCalls.Glob
import CachedCalls.Files.Path
import CachedCalls.Files.Store
import CachedCalls.Fault
import CachedCalls.Config
import CachedCalls.Report
import CachedCalls.Report.Text
import CachedCalls.Report.Json
import CachedCalls.Project
import CachedCalls.Files.Snapshot
import CachedCalls.CommandLine.Arguments
import CachedCalls.CommandLine
import CachedCalls.Main
import CachedCalls.Proofs.Text.Slice
import CachedCalls.Proofs.Edit.Batch
import CachedCalls.Proofs.Edit.Splice
import CachedCalls.Proofs.Definition.Placement
import CachedCalls.Proofs.Definition.Blame
import CachedCalls.Proofs.SourceUnit.Gates
import CachedCalls.Proofs.SourceUnit.Overlap
import CachedCalls.Proofs.SourceUnit.Survivors
import CachedCalls.Proofs.SourceUnit.Layout
import CachedCalls.Proofs.Places
import CachedCalls.Proofs.SourceUnit.AllPairs
import CachedCalls.Proofs.SourceUnit.Selection
import CachedCalls.Proofs.SourceUnit.Accounting
import CachedCalls.Proofs.Edit.Acceptance
import CachedCalls.Proofs.Edit.InPlace
import CachedCalls.Proofs.Edit.Supplied
import CachedCalls.Proofs.SourceUnit.Exits
import CachedCalls.Proofs.SourceUnit.Isolation
import CachedCalls.Proofs.SourceUnit.Reordering
import CachedCalls.Proofs.Text.Trim
import CachedCalls.Proofs.Text.Pattern
import CachedCalls.Proofs.Lexical.Context
import CachedCalls.Proofs.Lexical.Closing
import CachedCalls.Proofs.Text.ByteAt
import CachedCalls.Proofs.Lexical.Bytes
import CachedCalls.Proofs.Lexical.Offsets
import CachedCalls.Proofs.SourceUnit.Overloads
import CachedCalls.Proofs.Definition.LiveText
import CachedCalls.Proofs.Discovery.ReturnType
import CachedCalls.Proofs.SourceUnit.SecondPass
import CachedCalls.Proofs.Json.Document
import CachedCalls.Proofs.Json.Record
import CachedCalls.Proofs.Edit.Json
import CachedCalls.Proofs.Report.Json
import CachedCalls.Proofs.Discovery.Declarators
import CachedCalls.Proofs.Discovery.NamesInUse
import CachedCalls.Proofs.Files.Lookup
import CachedCalls.Proofs.Files.Writing
import CachedCalls.Proofs.Files.Descent
import CachedCalls.Proofs.Project.Reports
import CachedCalls.Proofs.Project.Unchanged
import CachedCalls.Proofs.CommandLine.Effects
import CachedCalls.Proofs.Project.Walk
import CachedCalls.Proofs.Project.Directory
import CachedCalls.Proofs.Config.QualifiedName
import CachedCalls.Proofs.Config.History
import CachedCalls.Proofs.Definition.Balance
import CachedCalls.Proofs.Definition.WholeName
import CachedCalls.Proofs.Definition.Hygiene
import CachedCalls.Proofs.Discovery.Spans
import CachedCalls.Proofs.Discovery.ScannedNames
import CachedCalls.Proofs.Files.Components
import CachedCalls.Proofs.Files.Ancestors
import CachedCalls.Proofs.Files.Resolution
import CachedCalls.Proofs.CommandLine.ProjectRoot
import CachedCalls.Proofs.Config.BelowRoot
import CachedCalls.Proofs.Glob.Language
import CachedCalls.Proofs.Text.Utf8
import CachedCalls.Proofs.Glob.Below
import CachedCalls.Proofs.Config.DefaultFilter
