import Parler.Lib.Table
import Parler.Lib.Paths
import Parler.Lib.Prog
import Parler.Lib.Discipline
import Parler.Lib.Stops
import Parler.Lib.Lock
import Parler.Lib.Holders
import Parler.Lib.Repeats
import Parler.Lib.Runs
import Parler.Lib.Dialogue
import Parler.Lib.Board
import Parler.Lib.Fifo
import Parler.Lib.Newest
import Parler.Lib.Ranking
import Parler.Lib.Slices
import Parler.Lib.Tail
import Parler.Lib.Delimiters
import Parler.Lib.Windows
import Parler.Lib.Wildcards
import Parler.Lib.Simulation
import Parler.Lib.Json
import Parler.Lib.JsonOrder
import Parler.Protocol.Types
import Parler.Protocol.Canonical
import Parler.Protocol.Codec
import Parler.Protocol.Signature
import Parler.Protocol.Statuses
import Parler.Protocol.Frames
import Parler.Protocol.Subjects
import Parler.Protocol.Filters
import Parler.Auth.Provision
import Parler.Hub.Tables
import Parler.Hub.Rooms
import Parler.Hub.Messages
import Parler.Hub.Memory
import Parler.Hub.Directory
import Parler.Hub.Calls
import Parler.Hub.Server
import Parler.Hub.Specs
import Parler.Hub.Rules
import Parler.Hub.Footprint
import Parler.Hub.Members
import Parler.Hub.Backlog
import Parler.Hub.Cursors
import Parler.Hub.Demo
import Parler.Hub.Leases
import Parler.Hub.ReadIsolation
import Parler.Hub.Integrity
import Parler.Hub.CrashSafety
import Parler.Hub.Erasure
import Parler.Hub.Invites
import Parler.Hub.PartialJoins
import Parler.Hub.Namespaces
import Parler.Hub.DirectMessages
import Parler.Hub.Approval
import Parler.Hub.Queue
import Parler.Hub.Provenance
import Parler.Hub.Blobs
import Parler.Hub.BlobFiles
import Parler.Hub.BlobRetention
import Parler.Hub.Metering
import Parler.Hub.Tokens
import Parler.Hub.Handshake
import Parler.Hub.Connection
import Parler.Hub.BlobSite
import Parler.Hub.BlobDownloads
import Parler.Hub.Sends
import Parler.Hub.Idempotence
import Parler.Hub.WakeUps
import Parler.Hub.StoredParts
import Parler.Hub.Viewer
import Parler.Hub.Retention
import Parler.Hub.Facts
import Parler.Hub.Vectors
import Parler.Hub.Recall
import Parler.Hub.Fusion
import Parler.Hub.Neighbours
import Parler.Hub.DirectorySearch
import Parler.Hub.RateLimits
import Parler.Hub.Sweeping
import Parler.Hub.Quotas
import Parler.Connector.Agent
import Parler.Connector.Session
import Parler.Connector.Acks
import Parler.Connector.Delivery
import Parler.Connector.Authentic
import Parler.Connector.Replay
import Parler.Connector.Process
import Parler.Connector.Handled
import Parler.Connector.Runtime
import Parler.Connector.HeldTraffic
import Parler.Connector.Readers
import Parler.Protocol.Tasks
import Parler.Cli.WakeCuts
import Parler.Cli.Worker
import Parler.Cli.FloodLimits
import Parler.Cli.WorkerRestarts
import Parler.Cli.WorkerLoops
import Parler.Cli.Supervise
import Parler.Cli.SuperviseLoops
import Parler.Cli.Conversation
import Parler.Cli.ConversationRetry
import Parler.Cli.Turns
import Parler.Cli.Texts
import Parler.Cli.Handoffs
import Parler.Cli.Codex
import Parler.Cli.CodexTurns
import Parler.Cli.TurnPages
import Parler.Cli.McpSessions
import Parler.Cli.FileLock
import Parler.Cli.Downloads
import Parler.Cli.ByteCuts
import Parler.Cli.ClaudeHooks
import Parler.Cli.VisibleHosts
import Parler.Cli.HookReplays
import Parler.Cli.ConversationRestarts
import Parler.Cli.OpenCode
import Parler.Cli.OpenCodeTurns
import Parler.Cli.OpenCodeEvents
import Parler.Desktop.SessionViewer
import Parler.Desktop.HubSupervisor
import Parler.Cli.StopHooks
import Parler.Cli.Mcp
import Parler.Cli.PortableKeys
import Parler.Cli.Rendering
import Parler.Cli.Prompts
import Parler.Cli.Transcripts
import Parler.Cli.BacklogWindow
import Parler.Cli.McpDelivery
import Parler.Cli.RegisterTool
import Parler.Cli.NameResolution
import Parler.Cli.ConfigFiles
import Parler.Cli.JoinDigest
import Parler.Cli.WakeHooks
import Parler.Lib.Writers
import Parler.Cli.ConfigRewrites
import Parler.Cli.KeptEnv
import Parler.Lib.Shell
import Parler.Cli.ShellCommands
import Parler.Cli.Lifecycles
import Parler.Lib.FullText
import Parler.Hub.RecallQueries
import Parler.Connector.Sockets
