import CodeGraph.Analysis.Context
import CodeGraph.Analysis.Files
import CodeGraph.Analysis.ReadSource
import CodeGraph.Analysis.Run
import CodeGraph.Analysis.Symbols
import CodeGraph.CommandLine.Arguments
import CodeGraph.CommandLine.Command
import CodeGraph.CommandLine.Report
import CodeGraph.CommandLine.Session
import CodeGraph.Fact
import CodeGraph.Facts.Callers
import CodeGraph.Facts.Conditions
import CodeGraph.Facts.Declarations
import CodeGraph.Facts.Exports
import CodeGraph.Facts.Imports
import CodeGraph.Facts.Reading
import CodeGraph.Facts.ScriptTags
import CodeGraph.Facts.Symbols
import CodeGraph.FileGraph.Assemble
import CodeGraph.FileGraph.Builder
import CodeGraph.FileTree
import CodeGraph.Graph
import CodeGraph.Json
import CodeGraph.Json.Printer
import CodeGraph.Json.Reader
import CodeGraph.Logging
import CodeGraph.Main
import CodeGraph.Path
import CodeGraph.Proofs.Analysis.Context
import CodeGraph.Proofs.Analysis.Coverage
import CodeGraph.Proofs.Analysis.ReadSource
import CodeGraph.Proofs.Analysis.Records
import CodeGraph.Proofs.Analysis.Snapshot
import CodeGraph.Proofs.CommandLine.Refusals
import CodeGraph.Proofs.Disk.Listing
import CodeGraph.Proofs.Disk.Opening
import CodeGraph.Proofs.Disk.RealPath
import CodeGraph.Proofs.Disk.Resolution
import CodeGraph.Proofs.Disk.Scanning
import CodeGraph.Proofs.Facts.CallOrder
import CodeGraph.Proofs.Facts.Callers
import CodeGraph.Proofs.Facts.ConditionTexts
import CodeGraph.Proofs.Facts.Declarations
import CodeGraph.Proofs.Facts.Exported
import CodeGraph.Proofs.Facts.InnermostBranch
import CodeGraph.Proofs.Facts.LastDeclared
import CodeGraph.Proofs.Facts.LineRanges
import CodeGraph.Proofs.Facts.Members
import CodeGraph.Proofs.Facts.ScriptFiles
import CodeGraph.Proofs.Facts.Symbols
import CodeGraph.Proofs.FileGraph.Assembly
import CodeGraph.Proofs.FileGraph.Connections
import CodeGraph.Proofs.FileGraph.MergedExports
import CodeGraph.Proofs.Logging
import CodeGraph.Proofs.Path.Components
import CodeGraph.Proofs.Path.Composed
import CodeGraph.Proofs.Path.Containment
import CodeGraph.Proofs.Resolve.Addressing
import CodeGraph.Proofs.Resolve.FirstMatch
import CodeGraph.Proofs.Resolve.RootFree
import CodeGraph.Proofs.Service.FileAnswers
import CodeGraph.Proofs.Service.History
import CodeGraph.Proofs.Service.Serving
import CodeGraph.Proofs.Source.ListForm
import CodeGraph.Proofs.Source.Reexport
import CodeGraph.Proofs.SymbolGraph.CallEdges
import CodeGraph.Proofs.SymbolGraph.EdgeSet
import CodeGraph.Proofs.SymbolGraph.FanOut
import CodeGraph.Proofs.SymbolGraph.FileOrder
import CodeGraph.Proofs.SymbolGraph.ImportEdges
import CodeGraph.Proofs.SymbolGraph.Index
import CodeGraph.Proofs.SymbolGraph.LinkedGraph
import CodeGraph.Proofs.SymbolGraph.Locality
import CodeGraph.Proofs.SymbolGraph.NewFile
import CodeGraph.Proofs.SymbolGraph.OwnClass
import CodeGraph.Proofs.SymbolGraph.SameFacts
import CodeGraph.Proofs.Syntax.Preorder
import CodeGraph.Proofs.Syntax.SourceOrder
import CodeGraph.Proofs.Syntax.Walk
import CodeGraph.Proofs.Table
import CodeGraph.Proofs.Text.LineEnds
import CodeGraph.Proofs.Text.Words
import CodeGraph.Record.Checked
import CodeGraph.Record.Decode
import CodeGraph.Record.Encode
import CodeGraph.Resolve
import CodeGraph.Scan
import CodeGraph.Service
import CodeGraph.Settings
import CodeGraph.Source
import CodeGraph.Summary
import CodeGraph.SymbolGraph.EdgeSet
import CodeGraph.SymbolGraph.Index
import CodeGraph.SymbolGraph.Link
import CodeGraph.SymbolGraph.Resolver
import CodeGraph.Syntax.Form
import CodeGraph.Syntax.Grammar
import CodeGraph.Syntax.Grammar.Element
import CodeGraph.Syntax.Grammar.Expression
import CodeGraph.Syntax.Grammar.Pattern
import CodeGraph.Syntax.Grammar.Rule
import CodeGraph.Syntax.Grammar.Statement
import CodeGraph.Syntax.Grammar.TypeForm
import CodeGraph.Syntax.Lexeme
import CodeGraph.Syntax.Node
import CodeGraph.Syntax.Semicolon
import CodeGraph.Syntax.Walk
import CodeGraph.Table
import CodeGraph.Text.CaseClass
import CodeGraph.Text.Lowercase
import CodeGraph.Text.Utf8
import CodeGraph.Text.Words
