import Holdfast.Base.Incremental
import Holdfast.Base.Log
import Holdfast.Base.Machine
import Holdfast.Base.Protobuf
import Holdfast.Base.HexText
import Holdfast.Base.Ring
import Holdfast.Base.Slots
import Holdfast.Base.StopAndWait
import Holdfast.Base.Subscriber
import Holdfast.Base.SyncChannel
import Holdfast.Base.Table
import Holdfast.Base.Tally
import Holdfast.Base.Window
import Holdfast.Terminal.Utf8
import Holdfast.Terminal.Encoding
import Holdfast.Terminal.OneShot
import Holdfast.Terminal.Widths
import Holdfast.Terminal.Pen
import Holdfast.Terminal.HyperlinkDump
import Holdfast.Terminal.Parser
import Holdfast.Terminal.Functions
import Holdfast.Terminal.ParserDump
import Holdfast.Terminal.FunctionDump
import Holdfast.Terminal.StyleDump
import Holdfast.Base.Total
import Holdfast.Terminal.Grid
import Holdfast.Terminal.Buffer
import Holdfast.Terminal.Reflow
import Holdfast.Terminal.Screen
import Holdfast.Terminal.Emulator
import Holdfast.Terminal.Offscreen
import Holdfast.Terminal.Modes
import Holdfast.Terminal.ModeRestore
import Holdfast.Terminal.ModeAgreement
import Holdfast.Terminal.History
import Holdfast.Terminal.Pages
import Holdfast.Terminal.Paging
import Holdfast.Terminal.Model
import Holdfast.Terminal.ModePlace
import Holdfast.Terminal.Snapshot
import Holdfast.Terminal.Chunks
import Holdfast.Session.Runtime
import Holdfast.Session.Manager
import Holdfast.Session.Steps
import Holdfast.Session.Tokens
import Holdfast.Session.Idempotency
import Holdfast.Session.Capacity
import Holdfast.Session.Sizes
import Holdfast.Session.Reaper
import Holdfast.Session.Stream
import Holdfast.Session.Ends
import Holdfast.Session.Terminate
import Holdfast.Session.Locks
import Holdfast.Protocol.Framing
import Holdfast.Protocol.Ids
import Holdfast.Protocol.IdText
import Holdfast.Protocol.Messages
import Holdfast.Protocol.Negotiate
import Holdfast.Auth.Grant
import Holdfast.Auth.Ssh
import Holdfast.Upload.Names
import Holdfast.Upload.Writer
import Holdfast.Daemon.Wire
import Holdfast.Daemon.Login
import Holdfast.Daemon.Limiter
import Holdfast.Daemon.Pruning
import Holdfast.Daemon.Attempts
import Holdfast.Daemon.Uploads
import Holdfast.Daemon.Envelope
import Holdfast.Daemon.Conn
import Holdfast.Daemon.Dispatch
import Holdfast.Daemon.Permits
import Holdfast.Daemon.Roles
import Holdfast.Daemon.Isolation
import Holdfast.Daemon.Gate
import Holdfast.Daemon.Actors
import Holdfast.Daemon.UploadChannel
import Holdfast.Daemon.Accounting
import Holdfast.Daemon.Forward
import Holdfast.Daemon.Forwarder
import Holdfast.Daemon.Channel
import Holdfast.Daemon.FrontDoor
import Holdfast.Daemon.Writers
import Holdfast.Base.BigEndian
import Holdfast.Daemon.BridgeHeader
import Holdfast.Daemon.StaticPath
import Holdfast.Daemon.Observability
import Holdfast.Base.GetOpt
import Holdfast.Session.Launch
import Holdfast.Base.Runs
import Holdfast.Base.Split
import Holdfast.Base.Json
import Holdfast.Client.Pairing
import Holdfast.Client.Readers
import Holdfast.Client.Recovery
import Holdfast.Client.Store
import Holdfast.Client.StateFile
import Holdfast.Client.NewerFile
import Holdfast.Client.Journal
import Holdfast.Client.Remembers
import Holdfast.Client.Unhex
import Holdfast.Client.Relay
import Holdfast.Client.Tunnel
import Holdfast.Client.UploadFile
import Holdfast.Web.Attach
import Holdfast.Web.FrameParser
import Holdfast.Web.Channels
import Holdfast.Web.Requests
import Holdfast.Web.WritePump
import Holdfast.Desktop.Tab
import Holdfast.Desktop.Attachments
import Holdfast.Desktop.Input
import Holdfast.Desktop.InputSends
import Holdfast.Desktop.OutputBridge
import Holdfast.Desktop.Presentation
import Holdfast.Desktop.BidiIsolates
import Holdfast.Desktop.Closing
import Holdfast.Gui.Scrollback
import Holdfast.Agent.Authorize
import Holdfast.Agent.Streams
import Holdfast.Daemon.Exits
import Holdfast.Gateway.Registry
import Holdfast.Daemon.HistoryReply
import Holdfast.Daemon.AttachReply
import Holdfast.Daemon.WsMessage
import Holdfast.Daemon.FrameSizes
import Holdfast.Daemon.Backends
