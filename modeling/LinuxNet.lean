import LinuxNet.Lib.StepSystem
import LinuxNet.Lib.CInt
import LinuxNet.Lib.CString
import LinuxNet.Lib.Decimal
import LinuxNet.Lib.Pairing
import LinuxNet.Lib.Resumption
import LinuxNet.Lib.BoundedLog
import LinuxNet.WebServer.Conn
import LinuxNet.WebServer.Reader
import LinuxNet.WebServer.Writer
import LinuxNet.WebServer.Response
import LinuxNet.WebServer.Transfer
import LinuxNet.WebServer.LineScan
import LinuxNet.WebServer.LineParsers
import LinuxNet.WebServer.Turns
import LinuxNet.WebServer.Resume
import LinuxNet.WebServer.LineSteps
import LinuxNet.WebServer.Grammar
import LinuxNet.WebServer.HeadGrammar
import LinuxNet.WebServer.BodyScan
import LinuxNet.WebServer.Segmentation
import LinuxNet.WebServer.BadLineEnds
import LinuxNet.WebServer.TargetSpots
import LinuxNet.WebServer.TargetKept
import LinuxNet.WebServer.Handlers
import LinuxNet.WebServer.EventLoop
import LinuxNet.WebServer.Ownership
import LinuxNet.WebServer.WriteBuffer
import LinuxNet.WebServer.Mapping
import LinuxNet.WebServer.Backlog
import LinuxNet.WebServer.DescriptorReuse
import LinuxNet.WebServer.BufferSafety
import LinuxNet.WebServer.Leftovers
import LinuxNet.WebServer.TraceFree
import LinuxNet.WebServer.SlotReuse
import LinuxNet.WebServer.Replies
import LinuxNet.WebServer.KeepAlive
import LinuxNet.WebServer.WorkQueue
import LinuxNet.WebServer.QueueBound
import LinuxNet.WebServer.PoolLifetime
import LinuxNet.Lib.Ring
import LinuxNet.Lib.LexicalPath
import LinuxNet.ThreadPool.Moves
import LinuxNet.ThreadPool.Fifo
import LinuxNet.ThreadPool.Accepted
import LinuxNet.ThreadPool.Census
import LinuxNet.ThreadPool.Counters
import LinuxNet.ThreadPool.Creation
import LinuxNet.ThreadPool.WakeUp
import LinuxNet.ThreadPool.Shutdown
import LinuxNet.ThreadPool.Joining
import LinuxNet.HttpServer.Percent
import LinuxNet.HttpServer.SendBody
import LinuxNet.HttpServer.LineReader
import LinuxNet.HttpServer.DoRead
import LinuxNet.HttpServer.Fragments
import LinuxNet.HttpServer.Confinement
import LinuxNet.HttpServer.LinkRoundTrip
import LinuxNet.Lib.CountedScan
import LinuxNet.Multiplex.PollServer
import LinuxNet.Multiplex.SelectServers
import LinuxNet.Wrap.Readline
import LinuxNet.Wrap.Readn
import LinuxNet.Lib.Registry
import LinuxNet.Lib.LowestFree
import LinuxNet.Reactor.MyEvent
import LinuxNet.Reactor.Echo
import LinuxNet.Reactor.EventTable
import LinuxNet.Reactor.TableInvariant
import LinuxNet.Reactor.Descriptors
import LinuxNet.WebServer.Indices
import LinuxNet.WebServer.Accounting
import LinuxNet.WebServer.Capacity
import LinuxNet.WebServer.RealFile
import LinuxNet.Lib.DrainLoop
import LinuxNet.MulProcess.Zombies
import LinuxNet.Lib.Accesses
import LinuxNet.Lib.Buffer
import LinuxNet.Lib.Scanset
import LinuxNet.HttpServer.InPlace
import LinuxNet.HttpServer.Chunks
import LinuxNet.HttpServer.Conversions
import LinuxNet.HttpServer.ListingBounds
import LinuxNet.HttpServer.FileLoop
import LinuxNet.HttpServer.ReadCallback
import LinuxNet.HttpServer.Disconnect
import LinuxNet.Wrap.ExactTransfer
import LinuxNet.Wrap.LineSplitter
import LinuxNet.Lib.Resumption
import LinuxNet.Lib.Simulation
import LinuxNet.Lib.EchoService
import LinuxNet.Lib.Sockets
import LinuxNet.Lib.EventBatch
import LinuxNet.Lib.HttpMessage
import LinuxNet.Lib.EdgeTriggered
import LinuxNet.Multiplex.EpollServer
import LinuxNet.MultiThread.ThreadServer
import LinuxNet.MulProcess.Family
import LinuxNet.MulProcess.Children
import LinuxNet.MulProcess.Processes
import LinuxNet.HttpServer.Responses
import LinuxNet.WebServer.ReplyStream
import LinuxNet.AdvancedEpoll.PipeReader
import LinuxNet.AdvancedEpoll.EdgeReaders
import LinuxNet.Lib.EchoRounds
import LinuxNet.Multiplex.SelectService
import LinuxNet.Multiplex.PollService
import LinuxNet.Udp.StopAndWait
import LinuxNet.HttpServer.EpollRun
import LinuxNet.TcpSocket.Dialogue
