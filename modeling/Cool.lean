import Cool.Foundation.Run
import Cool.Foundation.Scan
import Cool.Foundation.Slots
import Cool.Foundation.OrderedSet
import Cool.Foundation.OrderedMap
import Cool.Foundation.Octets
import Cool.Foundation.Ones
import Cool.Foundation.Digits
import Cool.Foundation.Blocks
import Cool.Foundation.Lines
import Cool.Foundation.History
import Cool.Foundation.Trace
import Cool.Foundation.Results
import Cool.Foundation.Triple
import Cool.ByteArray.Basic
import Cool.ByteArray.Chain
import Cool.ByteArray.Refinement
import Cool.ByteArray.Capacity
import Cool.ByteArray.Views
import Cool.ByteArray.Scatter
import Cool.ByteArray.File
import Cool.ByteArray.Typed
import Cool.ByteArray.RoundTrip
import Cool.ByteArray.Vint
import Cool.ByteArray.Varint
import Cool.ByteArray.Direct
import Cool.ByteArray.Atomic
import Cool.ByteArray.Strings
import Cool.ByteArray.Values
import Cool.Stream.FixSize
import Cool.Stream.Wire
import Cool.Timer.Manager
import Cool.Timer.Order
import Cool.Timer.Calls
import Cool.Timer.Expiry
import Cool.Timer.History
import Cool.Timer.Threads
import Cool.Timer.Front
import Cool.Timer.Deadlines
import Cool.IOManager.Basic
import Cool.IOManager.Registry
import Cool.IOManager.Pending
import Cool.IOManager.Wakeup
import Cool.IOManager.Contexts
import Cool.IOManager.Idle
import Cool.Scheduler.Basic
import Cool.Scheduler.Queue
import Cool.Scheduler.Machine
import Cool.Scheduler.Exclusion
import Cool.Scheduler.Stopping
import Cool.Scheduler.Affinity
import Cool.Scheduler.Single
import Cool.Scheduler.Caller
import Cool.Scheduler.Turns
import Cool.Thread.Lifecycle
import Cool.Thread.Locks
import Cool.Hook.System
import Cool.Hook.Calls
import Cool.Hook.Contexts
import Cool.Hook.Nonblock
import Cool.Hook.Timeout
import Cool.Hook.Sleep
import Cool.FdManager.Basic
import Cool.FdManager.Race
import Cool.FdManager.Total
import Cool.Socket.Basic
import Cool.Socket.Lifecycle
import Cool.Socket.Timeouts
import Cool.Config.Var
import Cool.Config.Registry
import Cool.Config.FromString
import Cool.Config.Yaml
import Cool.Config.Containers
import Cool.Address.Network
import Cool.Address.Broadcast
import Cool.Address.Object
import Cool.Address.Unix
import Cool.Address.Order
import Cool.Address.Interfaces
import Cool.Address.Insert
import Cool.Address.Parse
import Cool.Address.Lookup
import Cool.TcpServer.Bind
import Cool.TcpServer.Accept
import Cool.TcpServer.Shutdown
import Cool.Log.Logger
import Cool.Log.Define
import Cool.Log.Delivery
import Cool.Log.Cast
import Cool.Log.Pattern
import Cool.Log.Escape
import Cool.Http.Table
import Cool.Http.Numbers
import Cool.Http.Message
import Cool.Http.Parser
import Cool.Http.Tokens
import Cool.Http.Session
import Cool.Http.Chunks
import Cool.Http.Framing
import Cool.Http.BodyLimit
import Cool.Http.Slices
import Cool.Http.Relaxed
import Cool.Http.Dump
import Cool.Http.Connection
import Cool.Http.Headers
import Cool.Http.Accessors
import Cool.Http.HeaderLines
import Cool.Http.Grammar
import Cool.Http.RequestTrip
import Cool.Http.Methods
import Cool.Http.ClientTable
import Cool.Http.ClientParser
import Cool.Http.ClientPieces
import Cool.Http.ClientGrammar
import Cool.Http.ResponseTrip
import Cool.Http.Servlet
import Cool.Http.Exchange
