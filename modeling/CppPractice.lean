import CppPractice.Lib.Program
import CppPractice.Redis.Bytes
import CppPractice.Redis.Socket
import CppPractice.Redis.Reader
import CppPractice.Redis.Decode
import CppPractice.Redis.Framing
import CppPractice.Redis.RoundTrip
import CppPractice.Redis.Command
import CppPractice.Redis.Operations
import CppPractice.Redis.Lockstep
import CppPractice.Lib.Machine
import CppPractice.Redis.Pool
import CppPractice.Epoll.Event
import CppPractice.Epoll.ProcessEvents
import CppPractice.Epoll.Refinement
import CppPractice.Epoll.Incarnation
import CppPractice.Epoll.InterestSet
import CppPractice.Epoll.Notify
import CppPractice.Lib.Trace
import CppPractice.Epoll.Descriptors
import CppPractice.Lib.Segment
import CppPractice.Ngx.Buf
import CppPractice.Ngx.BufPointers
import CppPractice.Ngx.NgxChain
import CppPractice.Ngx.NgxList
import CppPractice.Ngx.ListWalk
import CppPractice.Ngx.NgxArray
import CppPractice.Ngx.Headers
import CppPractice.Ngx.Response
import CppPractice.Ngx.Footer
import CppPractice.Ngx.FooterResponse
import CppPractice.Ngx.Subrequest
import CppPractice.Ngx.ParentPost
import CppPractice.Ngx.ZeroSize
import CppPractice.Lib.Ring
import CppPractice.Ngx.NgxQueue
import CppPractice.Ngx.Variable
import CppPractice.Ngx.LoadBalance
import CppPractice.Ngx.PeerChoice
import CppPractice.Redis.Numbers
import CppPractice.Redis.ReaderSteps
import CppPractice.Redis.Sending
import CppPractice.Redis.LineLimit
import CppPractice.Redis.Containers
import CppPractice.Redis.Arguments
import CppPractice.Redis.Info
import CppPractice.Ngx.Rbtree
import CppPractice.Ngx.Timer
import CppPractice.Ngx.NgxEvent
import CppPractice.Redis.Split
import CppPractice.Ngx.NgxClock
import CppPractice.Lib.Holders
import CppPractice.Ioteck.SmartPtr
import CppPractice.Lib.CharHeap
import CppPractice.Ioteck.IotekString
import CppPractice.Lib.Rotation
import CppPractice.Ngx.Fairness
import CppPractice.Lib.Malloc
import CppPractice.Ngx.Palloc
import CppPractice.Ngx.PoolUse
import CppPractice.Ngx.QueueSort
import CppPractice.Ngx.RbtreeOrder
import CppPractice.Ngx.TimerOrder
import CppPractice.Ngx.NgxRbtree
import CppPractice.Lib.TailQueue
import CppPractice.Ngx.ThreadPool
import CppPractice.Ngx.ThreadPoolProgress
import CppPractice.Lib.Calendar
import CppPractice.Lib.ByteParser
import CppPractice.Ngx.NgxDatetime
import CppPractice.Ngx.NgxString
