import DapProxy.Framing.Transducer
import DapProxy.Framing.Decoder
import DapProxy.Framing.Stream
import DapProxy.Framing.Blocks
import DapProxy.Framing.Bursts
import DapProxy.Framing.Ends
import DapProxy.Framing.Parse
import DapProxy.Target.Tcp
import DapProxy.Target.Boundaries
import DapProxy.Target.Segmentation
import DapProxy.Memory.Checked
import DapProxy.Memory.Loops
import DapProxy.Target.Dap
import DapProxy.Target.Answer
import DapProxy.Target.Simulation
import DapProxy.Target.Agreement
import DapProxy.Target.Serve
import DapProxy.Target.Counters
import DapProxy.Target.Recorded
import DapProxy.Target.Batches
import DapProxy.Target.BlockPath
import DapProxy.Target.CutOff
import DapProxy.Target.Retry
import DapProxy.Target.Waiting
import DapProxy.Target.Io
import DapProxy.Target.Swd
import DapProxy.Target.Exchange
import DapProxy.Target.Scope
import DapProxy.Target.Discipline
import DapProxy.Target.BitBang
import DapProxy.Target.Resync
import DapProxy.Target.PowerUp
import DapProxy.Target.OnWire
import DapProxy.Target.HostReset
import DapProxy.Target.Sequence
import DapProxy.Target.LineIdle
import DapProxy.Target.Control
import DapProxy.Target.PostedRead
import DapProxy.Target.Isolation
import DapProxy.Target.Delivery
import DapProxy.Host.Link
import DapProxy.Host.Closure
import DapProxy.Host.Peer
import DapProxy.Host.Accounting
import DapProxy.Host.Deadline
import DapProxy.Host.Reader
import DapProxy.Host.Pairing
import DapProxy.Memory.Words
import DapProxy.Host.Bridge
import DapProxy.Host.Descriptors
import DapProxy.Host.Usbip
import DapProxy.Host.Urb
import DapProxy.Host.Outcome
import DapProxy.Text.Utf8
import DapProxy.Host.Handshake
import DapProxy.Concurrent.Threads
import DapProxy.Concurrent.Totals
import DapProxy.Host.Rtt
import DapProxy.Host.Average
import DapProxy.Host.Logs
import DapProxy.Host.Publishing
import DapProxy.Host.Dashboard
import DapProxy.Host.Console
import DapProxy.Host.Status
import DapProxy.Host.Args
import DapProxy.Host.Handover
import DapProxy.Host.Replies
import DapProxy.System.Truncation
import DapProxy.System.Line
import DapProxy.System.Lockstep
import DapProxy.System.Answering
import DapProxy.System.Reconnect
import DapProxy.System.Recovery
import DapProxy.System.Proxy
import DapProxy.System.EndToEnd
import DapProxy.System.World
import DapProxy.System.Trace
import DapProxy.System.AtMostOnce
