import ScriptFlow.Analyzer
import ScriptFlow.FileAnalyzer
import ScriptFlow.Command
import ScriptFlow.CommandLine.Action
import ScriptFlow.CommandLine.Flag
import ScriptFlow.CommandLine.Invocation
import ScriptFlow.CommandLine.Run
import ScriptFlow.CommandLine.Topic
import ScriptFlow.Config.Basic
import ScriptFlow.Config.File
import ScriptFlow.Dataflow.Engine
import ScriptFlow.Dataflow.Queue
import ScriptFlow.Dataflow.Trace
import ScriptFlow.Dataflow.Workbench
import ScriptFlow.Description.Basic
import ScriptFlow.Description.Yaml
import ScriptFlow.Domains
import ScriptFlow.Graph.Listing
import ScriptFlow.Graph.Network
import ScriptFlow.Graph.PointMap
import ScriptFlow.Graph.Traversal
import ScriptFlow.Report.Basic
import ScriptFlow.Lattice.ItemSet
import ScriptFlow.Lattice.PathState
import ScriptFlow.Lattice.Presence
import ScriptFlow.Main
import ScriptFlow.Proofs.Basic
import ScriptFlow.Proofs.SortedMap
import ScriptFlow.Proofs.Analyzer.Convergence
import ScriptFlow.Proofs.Analyzer.Findings
import ScriptFlow.Proofs.Analyzer.Passes
import ScriptFlow.Proofs.Dataflow.Ascent
import ScriptFlow.Proofs.Dataflow.FixedPoint
import ScriptFlow.Proofs.Dataflow.Iteration
import ScriptFlow.Proofs.Dataflow.LeastSolution
import ScriptFlow.Proofs.Dataflow.Rerun
import ScriptFlow.Proofs.Dataflow.Termination
import ScriptFlow.Proofs.Dataflow.Walks
import ScriptFlow.Proofs.Dataflow.WorkList
import ScriptFlow.Proofs.Description.Build
import ScriptFlow.Proofs.Domains.Heights
import ScriptFlow.Proofs.Domains.Labels
import ScriptFlow.Proofs.Domains.PathPresence
import ScriptFlow.Proofs.Graph.Construction
import ScriptFlow.Proofs.Graph.Points
import ScriptFlow.Proofs.Graph.Reachability
import ScriptFlow.Proofs.Graph.Rearrangement
import ScriptFlow.Proofs.Lattice.ItemSet
import ScriptFlow.Proofs.Lattice.PathOrder
import ScriptFlow.Proofs.Lattice.PathState
import ScriptFlow.Proofs.Suppression
import ScriptFlow.Report.Json
import ScriptFlow.Report.Text
import ScriptFlow.SortedMap
import ScriptFlow.Suppression
import ScriptFlow.Text.Blank
import ScriptFlow.Text.CommaList
import ScriptFlow.Text.Duration
import ScriptFlow.Text.Json
import ScriptFlow.Text.Quoted
import ScriptFlow.Text.Table
import ScriptFlow.Workspace.Basic
import ScriptFlow.Workspace.GraphFiles
import ScriptFlow.Workspace.Path
import ScriptFlow.Yaml.Cursor
import ScriptFlow.Yaml.Decode
import ScriptFlow.Yaml.Lexer
import ScriptFlow.Yaml.Node
import ScriptFlow.Yaml.Number
import ScriptFlow.Yaml.Resolve
import ScriptFlow.Yaml.Scalar
import ScriptFlow.Yaml.Token
import ScriptFlow.Yaml.Writer
import ScriptFlow.Proofs.Graph.Coherence
import ScriptFlow.Proofs.Dataflow.Interference
import ScriptFlow.Proofs.Description.Faults
import ScriptFlow.Proofs.Description.Depiction
import ScriptFlow.Proofs.Analyzer.Composition
import ScriptFlow.Proofs.Analyzer.Rows
import ScriptFlow.Proofs.FileAnalyzer.Sessions
import ScriptFlow.Proofs.Workspace.Resolution
import ScriptFlow.Proofs.Workspace.Installation
import ScriptFlow.Proofs.Annotation
import ScriptFlow.Proofs.Analyzer.Uncreated
import ScriptFlow.Proofs.Dataflow.Truncation
import ScriptFlow.Proofs.Graph.DepthFirst
import ScriptFlow.Proofs.Dataflow.Cancellation
import ScriptFlow.Proofs.Lattice.Semilattice
import ScriptFlow.Proofs.Graph.DotListing
import ScriptFlow.Proofs.Graph.DotLabel
import ScriptFlow.Proofs.Graph.LineListing
import ScriptFlow.Proofs.Analyzer.Renderings
import ScriptFlow.Proofs.Text.Columns
import ScriptFlow.Proofs.Workspace.Watching
import ScriptFlow.Proofs.Report.Grid
import ScriptFlow.Proofs.Dataflow.Balance
import ScriptFlow.Proofs.Domains.PathTransfer
import ScriptFlow.Proofs.CacheHistory
import ScriptFlow.Proofs.Text.JsonReading
import ScriptFlow.Proofs.Report.ReadBack
import ScriptFlow.Proofs.AnnotationHistory
import ScriptFlow.Proofs.Lattice.SharedStorage
import ScriptFlow.Proofs.Yaml.Strictness
