import AsyncRustbus.Utils
import AsyncRustbus.Wire
import AsyncRustbus.Path
import AsyncRustbus.Path.Run
import AsyncRustbus.Message.Basic
import AsyncRustbus.Message.Signature
import AsyncRustbus.Message.Marshal
import AsyncRustbus.Message.Unmarshal
import AsyncRustbus.Message.RoundTrip
import AsyncRustbus.Message.Reference
import AsyncRustbus.Message.Total
import AsyncRustbus.Lib.AssocMap
import AsyncRustbus.Routing.Hierarchy
import AsyncRustbus.Routing.Insert
import AsyncRustbus.Routing.Match
import AsyncRustbus.Conn.Recv
import AsyncRustbus.Conn.Decode
import AsyncRustbus.Conn.Chunking
import AsyncRustbus.Conn.FdChunking
import AsyncRustbus.Conn.RoundTrip
import AsyncRustbus.Conn.Violation
import AsyncRustbus.Conn.Sender
import AsyncRustbus.Conn.SendRun
import AsyncRustbus.Conn.Lifetime
import AsyncRustbus.Conn.Offered
import AsyncRustbus.Conn.Boundary
import AsyncRustbus.Conn.Ledger
import AsyncRustbus.Conn.Link
import AsyncRustbus.Conn.FdLink
import AsyncRustbus.Conn.Descriptors
import AsyncRustbus.Conn.Tokens
import AsyncRustbus.Lib.BinarySearch
import AsyncRustbus.Lib.Tiebreak
import AsyncRustbus.Lib.Arrivals
import AsyncRustbus.Signals.MatchRule
import AsyncRustbus.Signals.Specificity
import AsyncRustbus.Signals.Registry
import AsyncRustbus.Signals.Atomic
import AsyncRustbus.Signals.Daemon
import AsyncRustbus.Conn.Accepted
import AsyncRustbus.Routing.Send
import AsyncRustbus.Routing.Nearest
import AsyncRustbus.Rpc.Dispatch
import AsyncRustbus.Rpc.AutoReply
import AsyncRustbus.Rpc.Reply
import AsyncRustbus.Rpc.Correlation
import AsyncRustbus.Rpc.Stale
import AsyncRustbus.Rpc.Receivers
import AsyncRustbus.Rpc.Order
import AsyncRustbus.Rpc.Account
import AsyncRustbus.Message.Nesting
import AsyncRustbus.Message.Body
import AsyncRustbus.Message.Push
import AsyncRustbus.Message.Rollback
import AsyncRustbus.Message.BodyParser
import AsyncRustbus.Conn.Handshake
import AsyncRustbus.Conn.ExternalAuth
import AsyncRustbus.Lib.Program
import AsyncRustbus.Lib.Mirror
import AsyncRustbus.Lib.Handles
import AsyncRustbus.Lib.ControlMessages
import AsyncRustbus.Lib.Threads
import AsyncRustbus.Lib.TagScan
import AsyncRustbus.Message.Builder
import AsyncRustbus.Routing.EmptyMap
import AsyncRustbus.Routing.Discovery
import AsyncRustbus.Conn.Ancillary
import AsyncRustbus.Conn.Completion
import AsyncRustbus.Conn.ControlData
import AsyncRustbus.Conn.Auth
import AsyncRustbus.Conn.AuthServer
import AsyncRustbus.Signals.MatchString
import AsyncRustbus.Routing.Trim
import AsyncRustbus.Conn.Credit
import AsyncRustbus.Conn.Assertions
