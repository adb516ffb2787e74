import Smux.Lib.Runs
import Smux.Lib.Notify
import Smux.Lib.LittleEndian
import Smux.Lib.Incremental
import Smux.Lib.Channel
import Smux.Lib.Rank
import Smux.Lib.Settling
import Smux.Lib.Refinement
import Smux.Lib.Pipe
import Smux.Lib.Pacing
import Smux.Error
import Smux.Command
import Smux.Config
import Smux.Frame
import Smux.Codec
import Smux.Codec.RoundTrip
import Smux.Codec.Arrival
import Smux.Codec.Grammar
import Smux.SessionState
import Smux.Stream
import Smux.Handle
import Smux.Handle.Laws
import Smux.Alone
import Smux.Alone.Reading
import Smux.Alone.Closing
import Smux.Session
import Smux.Session.Laws
import Smux.Session.Lane
import Smux.Session.FailedOpen
import Smux.Session.Frames
import Smux.Session.Working
import Smux.Session.StreamIds
import Smux.Session.Tokens
import Smux.Session.Charging
import Smux.Session.Streams
import Smux.Session.CloseFlags
import Smux.Session.LiveIds
import Smux.Session.Received
import Smux.Session.Sent
import Smux.Session.Opening
import Smux.Session.Ledger
import Smux.Session.Interference
import Smux.Session.AcceptQueue
import Smux.Session.Announced
import Smux.Session.Conversation
import Smux.Session.Senders
import Smux.Session.Closed
import Smux.Tasks
import Smux.Tasks.KeepAlive
import Smux.Tasks.Flushing
import Smux.Tasks.Owners
import Smux.Tasks.Shutdown
import Smux.Tasks.Silence
import Smux.Tasks.Heartbeat
import Smux.Tasks.AcceptCalls
import Smux.Tasks.Framed
import Smux.Link
import Smux.Link.Fifo
import Smux.Link.Order
import Smux.Link.Accepting
import Smux.Link.Integrity
import Smux.Link.Progress
import Smux.Link.Pipes
