import Canon.Lib.Machine
import Canon.Lib.Bytes
import Canon.Lib.Text
import Canon.Lib.FileTable
import Canon.Lib.Json
import Canon.Tlog.Event
import Canon.Tlog.Segment
import Canon.Tlog.Writer
import Canon.Tlog.Layout
import Canon.Tlog.RoundTrip
import Canon.Tlog.GoalScan
import Canon.Tlog.Recovery
import Canon.Tlog.CrashRecovery
import Canon.Tlog.Gate
import Canon.Tlog.ControlChain
import Canon.Tlog.Obligation
import Canon.Tlog.Acceptance
import Canon.Tlog.Replayed
import Canon.Tlog.Durability
import Canon.Tlog.Reopen
import Canon.Tlog.FailedWrites
import Canon.Tlog.Indexed
import Canon.Tlog.IndexedRead
import Canon.Tlog.DirectoryRead
import Canon.Lib.Maps
import Canon.Lib.Cells
import Canon.Lib.Claims
import Canon.Lib.Records
import Canon.Lib.Numbering
import Canon.Lib.Decimal
import Canon.Lib.Fallible
import Canon.Lib.Path
import Canon.Lib.Consume
import Canon.Lib.CountingSort
import Canon.Lib.Cut
import Canon.Lib.Words
import Canon.Lib.PriorityQueue
import Canon.Graph.Projection
import Canon.Graph.Invariant
import Canon.Graph.Refinement
import Canon.Graph.Snapshot
import Canon.Graph.Replay
import Canon.Graph.SnapshotRuns
import Canon.Graph.Sessions
import Canon.Graph.Incremental
import Canon.Graph.Formats
import Canon.Graph.CrateReplay
import Canon.Graph.Cache
import Canon.Graph.CacheReplay
import Canon.Graph.GraphBin
import Canon.Graph.GraphBinRoundTrip
import Canon.Graph.ArtifactsLoader
import Canon.Graph.GraphBinSafety
import Canon.Graph.Normalize
import Canon.Runtime.RustcState
import Canon.Runtime.ReplayVerify
import Canon.Runtime.Event
import Canon.Runtime.Bus
import Canon.Runtime.Append
import Canon.Runtime.Handle
import Canon.Runtime.Live
import Canon.Runtime.Containment
import Canon.Runtime.KindChain
import Canon.Runtime.Heartbeat
import Canon.Runtime.Observations
import Canon.Runtime.Replay
import Canon.Runtime.Watcher
import Canon.Runtime.GoalGraph
import Canon.Bridge.Parsers
import Canon.Bridge.Server
import Canon.Bridge.Turns
import Canon.Bridge.AckOrder
import Canon.Bridge.Isolation
import Canon.Bridge.Outbound
import Canon.Bridge.Conservation
import Canon.Bridge.Assembly
import Canon.Bridge.TabClaims
import Canon.Bridge.TabManager
import Canon.Bridge.TabExclusion
import Canon.Patch.Faults
import Canon.Patch.Heredoc
import Canon.Patch.Parser
import Canon.Patch.RoundTrip
import Canon.Lib.FileTree
import Canon.Loop.Summary
import Canon.Loop.Events
import Canon.Loop.Constraints
import Canon.Loop.Workspace
import Canon.Loop.PlanCheck
import Canon.Loop.Repair
import Canon.Loop.Confinement
import Canon.Route.Successor
import Canon.Loop.Context
import Canon.Loop.Stages
import Canon.Loop.Plan
import Canon.Loop.Act
import Canon.Loop.Executor
import Canon.Loop.Footprint
import Canon.Loop.Decompose
import Canon.Loop.Handover
import Canon.Loop.Halt
import Canon.Loop.ActSafety
import Canon.Loop.Replanning
import Canon.Loop.Slots
import Canon.Loop.Completion
import Canon.Loop.Markers
import Canon.Loop.Observation
import Canon.Loop.Scheduler
import Canon.Loop.Dependencies
import Canon.Route.ToolResults
import Canon.Loop.Truncation
import Canon.Loop.DestructiveGuard
import Canon.Loop.WrittenPaths
import Canon.Loop.WriteClaims
import Canon.Loop.RepairControl
import Canon.Loop.RepairRuns
import Canon.Ir.Arena
import Canon.Ir.Interning
import Canon.Ir.Labels
import Canon.Ir.Sealed
import Canon.Ir.EmitTlog
import Canon.Ir.EmitReplay
import Canon.Ir.EmitFaithful
import Canon.Lib.History
import Canon.Loop.DiscoveredInvariants
import Canon.Lib.Walks
import Canon.Lib.Sweep
import Canon.Algorithms.Dominators
import Canon.Algorithms.PostDominators
import Canon.Lib.SortedRows
import Canon.Ir.GlobalCsr
import Canon.Lib.Splice
import Canon.Editor.SynPatcher
import Canon.Editor.UseTrees
import Canon.Editor.Paths
import Canon.Lib.PathParts
import Canon.Capture.InternPath
import Canon.Capture.InternType
import Canon.Lib.Accumulate
import Canon.Lib.Components
import Canon.Lib.DepthFirst
import Canon.Algorithms.Scc
import Canon.Analysis.DependencyCycles
import Canon.Algorithms.BackEdges
import Canon.Algorithms.Ac3
import Canon.Lib.ChaoticIteration
import Canon.Algorithms.IntervalNarrowing
import Canon.Algorithms.ReachingDefinitions
import Canon.Algorithms.UseDef
import Canon.Lib.Kahn
import Canon.Algorithms.TopologicalSort
import Canon.Algorithms.CycleReport
import Canon.Algorithms.Dijkstra
import Canon.Algorithms.AStar
import Canon.Lib.Flow
import Canon.Lib.PushRelabel
import Canon.Algorithms.MaxFlow
import Canon.Algorithms.Sat
import Canon.Algorithms.DeltaDebug
import Canon.Algorithms.Merkle
import Canon.Algorithms.Unification
import Canon.Algorithms.OpenAddressing
import Canon.Algorithms.StringSearch
import Canon.Algorithms.GpuLayout
import Canon.Algorithms.Z3Model
import Canon.Lib.Tables
import Canon.Capture.ArtifactStore
import Canon.Analysis.InvariantLifecycle
import Canon.Loop.Watchdog
import Canon.Tlog.CapabilityGraph
import Canon.Analysis.SmtInvariants
import Canon.Route.Gatekeeper
