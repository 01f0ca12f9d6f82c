import CallImpact.Text.Number
import CallImpact.Go.Token
import CallImpact.Go.Node
import CallImpact.Go.Parser.Basic
import CallImpact.Go.Parser.Expressions
import CallImpact.Go.Parser.Statements
import CallImpact.Go.Source
import CallImpact.Facts
import CallImpact.Facts.Declarations
import CallImpact.Facts.Extract
import CallImpact.Json
import CallImpact.Json.Reader
import CallImpact.Names
import CallImpact.Spans
import CallImpact.Ordered
import CallImpact.Preorder
import CallImpact.Algorithm
import CallImpact.Program
import CallImpact.Program.Dispatch
import CallImpact.Construct
import CallImpact.FileTree
import CallImpact.Text.Glob
import CallImpact.Error
import CallImpact.Module
import CallImpact.Progress
import CallImpact.Build
import CallImpact.Scan
import CallImpact.Config
import CallImpact.Scenario.Files
import CallImpact.Identity
import CallImpact.Diff.Change
import CallImpact.Diff.Range
import CallImpact.Impact
import CallImpact.Snapshot.Search
import CallImpact.History
import CallImpact.History.Document
import CallImpact.Store
import CallImpact.Session
import CallImpact.Vcs
import CallImpact.Worktree
import CallImpact.Diff.Analysis
import CallImpact.Scenario
import CallImpact.Status
import CallImpact.Toml
import CallImpact.Service
import CallImpact.Facts.Document
import CallImpact.Task
import CallImpact.CommandLine
import CallImpact.Main
import CallImpact.Proofs.FileTree
import CallImpact.Proofs.Text.Cut
import CallImpact.Proofs.Path
import CallImpact.Proofs.Snapshot.Writing
import CallImpact.Proofs.History
import CallImpact.Proofs.Store.DataFiles
import CallImpact.Proofs.Store.Layout
import CallImpact.Proofs.Store.Operations
import CallImpact.Proofs.Store.Runs
import CallImpact.Proofs.Ordered
import CallImpact.Proofs.Construct.Precision
import CallImpact.Proofs.Diff.Matching
import CallImpact.Proofs.Construct.Bounds
import CallImpact.Proofs.Construct.Reach
import CallImpact.Proofs.Graph
import CallImpact.Proofs.Construct.Opacity
import CallImpact.Proofs.Session
import CallImpact.Proofs.Worktree
import CallImpact.Proofs.Store.Projects
import CallImpact.Proofs.Store.Reached
import CallImpact.Proofs.Generate
import CallImpact.Proofs.Construct.Naming
import CallImpact.Proofs.Construct.Threshold
import CallImpact.Proofs.Text.Reading
import CallImpact.Proofs.Diff.Rendering
import CallImpact.Proofs.Store.Strays
import CallImpact.Proofs.Construct.Fixpoint
import CallImpact.Proofs.Snapshot.Transactions
import CallImpact.Proofs.Snapshot.Walk
import CallImpact.Proofs.Construct.Arrival
import CallImpact.Proofs.Preorder
import CallImpact.Proofs.Program.Embedding
import CallImpact.Proofs.Diff.Attribution
import CallImpact.Proofs.Diff.Overlap
import CallImpact.Proofs.Diff.Deletions
import CallImpact.Proofs.Store.Survival
import CallImpact.Proofs.Store.Revision
import CallImpact.Proofs.Store.Refusal
import CallImpact.Proofs.Store.Retention
import CallImpact.Proofs.Store.References
import CallImpact.Proofs.Construct.Exactness
import CallImpact.Proofs.Program.Promotion
import CallImpact.Proofs.Program.Fields
import CallImpact.Proofs.Construct.EntryOrder
import CallImpact.Proofs.Go.Spots
import CallImpact.Proofs.Facts.Calls
import CallImpact.Proofs.Facts.Values
import CallImpact.Proofs.Facts.Recording
import CallImpact.Proofs.Construct.Fallback
import CallImpact.Proofs.Impact
import CallImpact.Proofs.FileTree.Order
import CallImpact.Proofs.Sources
import CallImpact.Proofs.Status
import CallImpact.Proofs.Text.Case
import CallImpact.Proofs.Identity
import CallImpact.Proofs.Diff.Range
import CallImpact.Proofs.Diff.Resolution
import CallImpact.Proofs.Store.AgeBound
import CallImpact.Proofs.Registry
import CallImpact.Proofs.Registry.Runs
import CallImpact.Proofs.Snapshot.Search
import CallImpact.Proofs.Snapshot.Innermost
import CallImpact.Proofs.Snapshot.Deepening
import CallImpact.Proofs.Module.Root
import CallImpact.Proofs.Scan
