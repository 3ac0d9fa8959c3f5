import CppFastDevelop.Lib.Exec
import CppFastDevelop.Lib.Words
import CppFastDevelop.Lib.RingBuffer
import CppFastDevelop.CircularQueue.Def
import CppFastDevelop.CircularQueue.Operation
import CppFastDevelop.CircularQueue.Layout
import CppFastDevelop.CircularQueue.WriteSpec
import CppFastDevelop.CircularQueue.ReadSpec
import CppFastDevelop.CircularQueue.Queue
import CppFastDevelop.CircularQueue.QueueSpec
import CppFastDevelop.Lib.BoundedFifo
import CppFastDevelop.Lib.Machine
import CppFastDevelop.CircularQueue.Refinement
import CppFastDevelop.Lib.Monitor
import CppFastDevelop.CircularQueue.Threads
import CppFastDevelop.CircularQueue.Wakeup
import CppFastDevelop.CircularQueue.Stop
import CppFastDevelop.CircularQueue.Admission
import CppFastDevelop.CircularQueue.ReadGuards
import CppFastDevelop.CircularQueue.Status
import CppFastDevelop.CircularQueue.FailedCalls
import CppFastDevelop.CircularQueue.TimedWait
import CppFastDevelop.CircularQueue.TimeOut
import CppFastDevelop.Lib.Flags
import CppFastDevelop.NetServer.Epoll
import CppFastDevelop.NetServer.EpollReference
import CppFastDevelop.Lib.Chain
import CppFastDevelop.NetServer.Network
import CppFastDevelop.NetServer.Buffer
import CppFastDevelop.NetServer.EventHandler
import CppFastDevelop.NetServer.HandlerSpec
import CppFastDevelop.NetServer.System
import CppFastDevelop.NetServer.Sessions
import CppFastDevelop.NetServer.Record
import CppFastDevelop.NetServer.View
import CppFastDevelop.NetServer.Reading
import CppFastDevelop.NetServer.Writing
import CppFastDevelop.NetServer.Interest
import CppFastDevelop.NetServer.Callbacks
import CppFastDevelop.NetServer.NotFound
import CppFastDevelop.NetServer.Exchange
import CppFastDevelop.NetServer.Served
import CppFastDevelop.NetServer.Streams
import CppFastDevelop.NetServer.EventLoop
import CppFastDevelop.NetServer.Attached
import CppFastDevelop.NetServer.Delivery
import CppFastDevelop.Lib.LockedSignal
import CppFastDevelop.ConcurrencyQueue.Def
import CppFastDevelop.ConcurrencyQueue.Wakeups
import CppFastDevelop.ConcurrencyQueue.Find
import CppFastDevelop.ConcurrencyQueue.StopRequests
import CppFastDevelop.ConcurrencyQueue.Handout
import CppFastDevelop.ConcurrencySet.Def
import CppFastDevelop.ConcurrencySet.Poppers
import CppFastDevelop.NetServer.Ownership
import CppFastDevelop.NetServer.Listener
import CppFastDevelop.NetServer.Counting
import CppFastDevelop.NetServer.Listening
import CppFastDevelop.Lib.ControlMessage
import CppFastDevelop.Network.SendFds
import CppFastDevelop.Network.SegmentSync
import CppFastDevelop.Network.Budget
import CppFastDevelop.Network.AcceptAsync
import CppFastDevelop.Lib.CString
import CppFastDevelop.Lib.Decimal
import CppFastDevelop.Log.LogCache
import CppFastDevelop.Log.Flushed
import CppFastDevelop.Lib.Patch
import CppFastDevelop.Log.Layout
import CppFastDevelop.Log.Bounds
import CppFastDevelop.Log.Recycled
import CppFastDevelop.NetServer.Settling
import CppFastDevelop.NetServer.Outgoing
import CppFastDevelop.Foundation.BinarySearch
import CppFastDevelop.Foundation.PathName
import CppFastDevelop.Foundation.PidFileWriter
import CppFastDevelop.ConcurrencyMap.RawMap
import CppFastDevelop.Lib.Transfers
import CppFastDevelop.Network.Transfers
import CppFastDevelop.Lib.Grouped
import CppFastDevelop.NetServer.Batch
import CppFastDevelop.Foundation.BinarySearchReads
import CppFastDevelop.Log.PidtidCache
import CppFastDevelop.Lib.Framing
import CppFastDevelop.NetServer.TestServer
import CppFastDevelop.NetServer.Conversation
import CppFastDevelop.NetServer.Echo
import CppFastDevelop.NetServer.Survival
import CppFastDevelop.NetServer.ServerLoop
import CppFastDevelop.NetServer.TestClient
import CppFastDevelop.NetServer.Dialogue
import CppFastDevelop.Lib.Atomic
import CppFastDevelop.CircularQueue.Linearizable
import CppFastDevelop.ConcurrencyQueue.Linearizable
import CppFastDevelop.ConcurrencySet.Linearizable
import CppFastDevelop.Lib.Client
import CppFastDevelop.CircularQueue.TestQueue
import CppFastDevelop.Lib.SharedSignal
import CppFastDevelop.CircularQueue.Consumers
import CppFastDevelop.Lib.Columns
import CppFastDevelop.Log.LogNonCache
import CppFastDevelop.Log.LogLine
import CppFastDevelop.Log.LogFile
import CppFastDevelop.Lib.ReadersWriter
import CppFastDevelop.ConcurrencyMap.Linearizable
import CppFastDevelop.Foundation.ExePath
import CppFastDevelop.Lib.Balance
import CppFastDevelop.ConcurrencySet.RawSet
