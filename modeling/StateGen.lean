import StateGen.Analysis
import StateGen.Artifact
import StateGen.Artifact.Write
import StateGen.CommandLine
import StateGen.CommandLine.Arguments
import StateGen.Config
import StateGen.Declaration
import StateGen.Description
import StateGen.Description.Cursor
import StateGen.Description.Declarations
import StateGen.Description.Parser
import StateGen.Diagnostic
import StateGen.FileSystem
import StateGen.Generation
import StateGen.Generation.Options
import StateGen.Generation.Report
import StateGen.Json
import StateGen.Json.Number
import StateGen.Json.Reader
import StateGen.Log
import StateGen.Machine
import StateGen.Machine.Script
import StateGen.Machine.Spec
import StateGen.Main
import StateGen.Model
import StateGen.Model.Error
import StateGen.Model.Namespace
import StateGen.OrderedMap
import StateGen.Proofs.Declarations
import StateGen.Proofs.Emitter
import StateGen.Proofs.Emitter.Namespace
import StateGen.Proofs.Emitter.Rendering
import StateGen.Proofs.Machine.Loading
import StateGen.Proofs.Model.Declared
import StateGen.Proofs.Model.Publish
import StateGen.Proofs.Model.Step
import StateGen.Proofs.Tables
import StateGen.Proofs.Template.Directive
import StateGen.Proofs.Template.Filling
import StateGen.Proofs.Template.Layout
import StateGen.Proofs.Template.Printing
import StateGen.Proofs.Template.Reading
import StateGen.Proofs.Template.Semantics
import StateGen.Proofs.Template.Similarity
import StateGen.Proofs.Template.Trees
import StateGen.Proofs.TransitionProtocol
import StateGen.Sha256
import StateGen.Source
import StateGen.Status
import StateGen.Template.Builtin
import StateGen.Template.Builtin.Graphviz
import StateGen.Template.Builtin.Header
import StateGen.Template.Builtin.Source
import StateGen.Template.Error
import StateGen.Template.Node
import StateGen.Template.Path
import StateGen.Template.Render
import StateGen.Template.Segment
import StateGen.Text
import StateGen.Text.Utf8
import StateGen.Token
import StateGen.Token.Lexer
import StateGen.Value
import StateGen.Proofs.Model.Rejection
import StateGen.Proofs.Model.Invariant
import StateGen.Proofs.Model.Acceptance
import StateGen.Proofs.Description.WellFormed
import StateGen.Proofs.Description.Grammar
import StateGen.Proofs.Description.Reading
import StateGen.Proofs.Description.Parsing
import StateGen.Proofs.Diagnostic
import StateGen.Proofs.Description.Reports
import StateGen.Proofs.Machine.Reachability
import StateGen.Proofs.Analysis
import StateGen.Proofs.Generation
import StateGen.Proofs.Description.Names
import StateGen.Proofs.Namespace
import StateGen.Proofs.Artifact.Write
import StateGen.Proofs.Description.Placement
import StateGen.Proofs.Model.EmittedNames
import StateGen.Proofs.Template.Rules
import StateGen.Proofs.Description.Blame
import StateGen.Proofs.Description.Recovery
import StateGen.Proofs.Machine.Unreachable
import StateGen.Proofs.Token.Printing
import StateGen.Proofs.Template.Wording
import StateGen.Proofs.Template.Blocks
import StateGen.Proofs.Token.Places
import StateGen.Proofs.Description.Places
import StateGen.Proofs.Template.Paths
import StateGen.Proofs.Template.Leftmost
import StateGen.Proofs.Token.Spans
import StateGen.Proofs.Description.EndOfText
import StateGen.Proofs.Description.Loops
import StateGen.Proofs.Results
import StateGen.Proofs.Value
import StateGen.Proofs.Machine.Validity
import StateGen.Proofs.Config
import StateGen.Proofs.Model.Configuration
import StateGen.Proofs.Emitter.Diagram
import StateGen.Proofs.HookLists
import StateGen.Proofs.Emitter.Prototypes
import StateGen.Proofs.Machine.NameLookups
import StateGen.Proofs.Lines
import StateGen.Proofs.Template.Failures
import StateGen.Proofs.Template.FreeNames
import StateGen.Proofs.Template.Balance
import StateGen.Proofs.Template.Quoting
import StateGen.Proofs.Diagnostics.History
import StateGen.Proofs.Token.Faults
import StateGen.Proofs.Generation.Destinations
import StateGen.Proofs.Generation.Presets
import StateGen.OrderedMap.Indexed
import StateGen.Proofs.Digits
import StateGen.Proofs.Json.Compact
import StateGen.Proofs.Json.Strings
import StateGen.Proofs.Json.Values
import StateGen.Proofs.OrderedMap.Indexed
