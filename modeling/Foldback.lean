import Foldback.Bevy.Explicit
import Foldback.Bevy.Faithful
import Foldback.Bevy.IterationOrder
import Foldback.Bevy.Paths
import Foldback.Bevy.Reflect
import Foldback.Bevy.Reordered
import Foldback.Bevy.ScalarText
import Foldback.Bevy.StableOrder
import Foldback.Bevy.Steps
import Foldback.Bevy.Typed
import Foldback.Bevy.Unnoticed
import Foldback.Bevy.VisibleOrder
import Foldback.Bevy.Walk
import Foldback.Cli.Lint
import Foldback.Cli.Main
import Foldback.Cli.Mesh
import Foldback.Cli.Report
import Foldback.Cli.SchemaDiff
import Foldback.Core.Bisect
import Foldback.Core.Decode
import Foldback.Core.Divergence
import Foldback.Core.Exchange
import Foldback.Core.FailedReports
import Foldback.Core.FailedSchemas
import Foldback.Core.FieldBytes
import Foldback.Core.FieldCollisions
import Foldback.Core.FieldFaithful
import Foldback.Core.FieldOrder
import Foldback.Core.FieldRecording
import Foldback.Core.Finish
import Foldback.Core.Format
import Foldback.Core.Io
import Foldback.Core.LiveServer
import Foldback.Core.Loading
import Foldback.Core.Reader
import Foldback.Core.ReaderStack
import Foldback.Core.Recording
import Foldback.Core.Retention
import Foldback.Core.RingBuffer
import Foldback.Core.RoundTrip
import Foldback.Core.Schema
import Foldback.Core.SchemaDrift
import Foldback.Core.Session
import Foldback.Core.SessionStep
import Foldback.Core.SinkFaults
import Foldback.Core.TornFrames
import Foldback.Core.WordSize
import Foldback.Core.WrittenStream
import Foldback.Derive.FoldbackHash
import Foldback.Godot.LeafBytes
import Foldback.Godot.Paths
import Foldback.Godot.Reflection
import Foldback.Godot.Session
import Foldback.Godot.Walk
import Foldback.Lib.Agreement
import Foldback.Lib.ChainHash
import Foldback.Lib.ChunkStream
import Foldback.Lib.Chunked
import Foldback.Lib.Double
import Foldback.Lib.FirstEvent
import Foldback.Lib.Grouping
import Foldback.Lib.GuardedWalk
import Foldback.Lib.InsertionMap
import Foldback.Lib.KeyOrder
import Foldback.Lib.Machine
import Foldback.Lib.Overlap
import Foldback.Lib.Plurality
import Foldback.Lib.PrefixCode
import Foldback.Lib.Radix
import Foldback.Lib.Runs
import Foldback.Lib.WeakOrder
import Foldback.Sys.Abi
import Foldback.Sys.Clients
import Foldback.Sys.Pending
import Foldback.Sys.Process
import Foldback.Sys.Threads
import Foldback.Ui.Broadcast
import Foldback.Ui.Connections
import Foldback.Ui.Drilldown
import Foldback.Ui.EndedCleanly
import Foldback.Ui.LiveOffline
import Foldback.Ui.LoadersAgree
import Foldback.Ui.Page
import Foldback.Ui.Panels
import Foldback.Ui.Session
import Foldback.Ui.Stream
import Foldback.Ui.Told
import Foldback.Ui.Viewer
import Foldback.Unity.EnumerationOrder
import Foldback.Unity.LeafBytes
import Foldback.Unity.Reflection
import Foldback.Unity.Session
import Foldback.Unity.Text
import Foldback.Unity.Walk
import Foldback.Unreal.EntryOrder
import Foldback.Unreal.Faithful
import Foldback.Unreal.Layout
import Foldback.Unreal.Reflection
import Foldback.Unreal.Session
import Foldback.Unreal.Walk
