import AgentSideCar.Audit.Cuts
import AgentSideCar.Audit.HashValue
import AgentSideCar.Audit.Torn
import AgentSideCar.Chat.Broker
import AgentSideCar.Chat.CursorRoot
import AgentSideCar.Chat.Follower
import AgentSideCar.Daemon.Archive
import AgentSideCar.Daemon.ArchiveFile
import AgentSideCar.Daemon.Bus
import AgentSideCar.Daemon.Log
import AgentSideCar.Daemon.LogRecord
import AgentSideCar.Daemon.Ownership
import AgentSideCar.Daemon.Preview
import AgentSideCar.Daemon.Recovery
import AgentSideCar.Daemon.Registry
import AgentSideCar.Daemon.Scan
import AgentSideCar.Daemon.StateEngine
import AgentSideCar.Daemon.Subscribe
import AgentSideCar.Daemon.TailStatus
import AgentSideCar.Http.Files
import AgentSideCar.Http.Head
import AgentSideCar.Http.Reader
import AgentSideCar.Http.Runtime
import AgentSideCar.Http.Server
import AgentSideCar.Library.Base64
import AgentSideCar.Library.Borrow
import AgentSideCar.Library.Cursor
import AgentSideCar.Library.Dict
import AgentSideCar.Library.Digits
import AgentSideCar.Library.Dumps
import AgentSideCar.Library.Gather
import AgentSideCar.Library.Holder
import AgentSideCar.Library.Inbound
import AgentSideCar.Library.Json
import AgentSideCar.Library.LineStarts
import AgentSideCar.Library.Lines
import AgentSideCar.Library.Loads
import AgentSideCar.Library.Markers
import AgentSideCar.Library.Merge
import AgentSideCar.Library.Number
import AgentSideCar.Library.Outbox
import AgentSideCar.Library.Page
import AgentSideCar.Library.Paging
import AgentSideCar.Library.Pairs
import AgentSideCar.Library.Pattern
import AgentSideCar.Library.PlainLoads
import AgentSideCar.Library.Prefixes
import AgentSideCar.Library.Probe
import AgentSideCar.Library.Program
import AgentSideCar.Library.Replace
import AgentSideCar.Library.Requests
import AgentSideCar.Library.Rotation
import AgentSideCar.Library.Runs
import AgentSideCar.Library.Serial
import AgentSideCar.Library.Shell
import AgentSideCar.Library.Sieve
import AgentSideCar.Library.Stable
import AgentSideCar.Library.Traced
import AgentSideCar.Library.Utf16
import AgentSideCar.Library.Utf8
import AgentSideCar.Library.Varint
import AgentSideCar.Library.Wire
import AgentSideCar.Library.Words
import AgentSideCar.Plugin.Analysis
import AgentSideCar.Plugin.AnalysisGlue
import AgentSideCar.Plugin.Controller
import AgentSideCar.Plugin.DetailGlue
import AgentSideCar.Plugin.DshInject
import AgentSideCar.Plugin.DshUnload
import AgentSideCar.Plugin.GatewayLog
import AgentSideCar.Plugin.InjectGateway
import AgentSideCar.Plugin.LineBuffer
import AgentSideCar.Plugin.ModalIsolation
import AgentSideCar.Plugin.Reconciler
import AgentSideCar.Plugin.RouteStream
import AgentSideCar.Plugin.SendCli
import AgentSideCar.Plugin.SessionStore
import AgentSideCar.Plugin.StateStream
import AgentSideCar.Plugin.Supervisor
import AgentSideCar.Plugin.TimelineRows
import AgentSideCar.Remote.Aggregate
import AgentSideCar.Remote.Bootstrap
import AgentSideCar.Remote.Cluster
import AgentSideCar.Remote.Execution
import AgentSideCar.Remote.Frames
import AgentSideCar.Remote.Inventory
import AgentSideCar.Remote.LineStream
import AgentSideCar.Remote.Watch
import AgentSideCar.Remote.Zipapp
import AgentSideCar.Replay.BadLines
import AgentSideCar.Replay.Daemon
import AgentSideCar.Replay.Dsh
import AgentSideCar.Replay.DshBaseline
import AgentSideCar.Replay.DshProgress
import AgentSideCar.Replay.DshTailer
import AgentSideCar.Replay.Histories
import AgentSideCar.Replay.Jsonl
import AgentSideCar.Replay.Live
import AgentSideCar.Replay.Normalize
import AgentSideCar.Replay.Parity
import AgentSideCar.Replay.Scan
import AgentSideCar.Replay.Segment
import AgentSideCar.Send.Acp
import AgentSideCar.Send.AcpChecks
import AgentSideCar.Send.AcpDialogue
import AgentSideCar.Send.AcpExchange
import AgentSideCar.Send.AcpPrompt
import AgentSideCar.Send.AcpProtocol
import AgentSideCar.Send.AcpReport
import AgentSideCar.Send.AcpReturns
import AgentSideCar.Send.AcpSettles
import AgentSideCar.Send.AcpSteps
import AgentSideCar.Send.Execute
import AgentSideCar.Send.LiveOwner
import AgentSideCar.Send.LiveOwnerBlocks
import AgentSideCar.Send.LiveOwnerRows
import AgentSideCar.Send.Receipts
import AgentSideCar.Send.Render
import AgentSideCar.Send.Retries
import AgentSideCar.Send.Sends
import AgentSideCar.Send.WriteLine
import AgentSideCar.Tail.Checkpoint
import AgentSideCar.Tail.Follower
import AgentSideCar.Tail.Pool
import AgentSideCar.Tail.PoolKeys
import AgentSideCar.Tail.Refreshes
import AgentSideCar.Tail.TailerPool
import AgentSideCar.Tail.Watch
import AgentSideCar.Text.JsonLimits
import AgentSideCar.Text.Points
import AgentSideCar.Text.Redact
import AgentSideCar.Text.Sanitize
import AgentSideCar.Text.Semantic
import AgentSideCar.Text.Title
import AgentSideCar.Text.Wrappers
import AgentSideCar.Timeline.Arrival
import AgentSideCar.Timeline.Client
import AgentSideCar.Timeline.Convergence
import AgentSideCar.Timeline.Copies
import AgentSideCar.Timeline.Fusion
import AgentSideCar.Timeline.Keys
import AgentSideCar.Timeline.Merged
import AgentSideCar.Timeline.Token
