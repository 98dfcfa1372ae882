import OctCommu.Communcation.DetachedReceive
import OctCommu.Communcation.ErrorReports
import OctCommu.Communcation.ReceiveChunks
import OctCommu.Communcation.ServerListen
import OctCommu.Communcation.TCPCallbacks
import OctCommu.Communcation.TCPImp
import OctCommu.Communcation.TCPInert
import OctCommu.Communcation.TCPReceive
import OctCommu.Communcation.TCPSend
import OctCommu.Communcation.TCPShutdown
import OctCommu.Communcation.TCPSteps
import OctCommu.Communcation.UDPFailedInit
import OctCommu.Communcation.UDPImp
import OctCommu.Communcation.UDPInitSound
import OctCommu.Communcation.UDPLater
import OctCommu.Communcation.UDPLink
import OctCommu.Communcation.UDPLives
import OctCommu.Communcation.UDPPeerAddress
import OctCommu.Communcation.UDPReinit
import OctCommu.Communcation.UDPReplies
import OctCommu.Communcation.UDPSteps
import OctCommu.Lib.BlockStream
import OctCommu.Lib.Calendar
import OctCommu.Lib.Decimal
import OctCommu.Lib.DropOldest
import OctCommu.Lib.Fifo
import OctCommu.Lib.Flags
import OctCommu.Lib.Framing
import OctCommu.Lib.Loops
import OctCommu.Lib.Memory
import OctCommu.Lib.Monitor
import OctCommu.Lib.Multimap
import OctCommu.Lib.Runs
import OctCommu.Lib.StdString
import OctCommu.Lib.Threads
import OctCommu.Network.BufferLikeString
import OctCommu.Network.BufferRaw
import OctCommu.Network.BufferSendMMsg
import OctCommu.Network.BufferSendMsg
import OctCommu.Network.ConnectionIsolation
import OctCommu.Network.DatagramLoss
import OctCommu.Network.DottedQuad
import OctCommu.Network.FlushSteps
import OctCommu.Network.Inet6
import OctCommu.Network.LikeStringRefinement
import OctCommu.Network.LikeStringThrows
import OctCommu.Network.MMsgBatches
import OctCommu.Network.ManagerTimer
import OctCommu.Network.MsgBatches
import OctCommu.Network.RefusedSend
import OctCommu.Network.SendResults
import OctCommu.Network.SockUtil
import OctCommu.Network.SocketConnect
import OctCommu.Network.SocketErr
import OctCommu.Network.SocketSend
import OctCommu.Network.TcpClient
import OctCommu.Network.TcpClientTimers
import OctCommu.Network.TcpServer
import OctCommu.Network.TcpSessions
import OctCommu.Network.UdpServer
import OctCommu.Network.WireOrder
import OctCommu.Network.WriteWakeup
import OctCommu.Poller.DelayTask
import OctCommu.Poller.EventPoller
import OctCommu.Poller.FdEvents
import OctCommu.Poller.FlushDelayTask
import OctCommu.Poller.MinDelay
import OctCommu.Poller.Timer
import OctCommu.SerialPort.FlushAllData
import OctCommu.SerialPort.LineSettings
import OctCommu.SerialPort.LineSpeed
import OctCommu.SerialPort.PortLifecycle
import OctCommu.SerialPort.PushData2Client
import OctCommu.SerialPort.ReadEvent
import OctCommu.SerialPort.ReceivePath
import OctCommu.SerialPort.SPBuffer
import OctCommu.SerialPort.SPBufferCapacity
import OctCommu.SerialPort.SPBufferHistories
import OctCommu.SerialPort.SPUtil
import OctCommu.SerialPort.SPWinLifecycle
import OctCommu.SerialPort.SPWinReader
import OctCommu.SerialPort.SendAcceptance
import OctCommu.SerialPort.SendConservation
import OctCommu.SerialPort.SendListening
import OctCommu.SerialPort.SendPath
import OctCommu.SerialPort.SentBytes
import OctCommu.SerialPort.SetterFields
import OctCommu.Thread.Semaphore
import OctCommu.Thread.TaskExecutor
import OctCommu.Thread.TaskQueue
import OctCommu.Thread.ThreadPool
import OctCommu.Thread.ThreadPoolLifecycle
import OctCommu.Util.Base64
import OctCommu.Util.BlockingQueue
import OctCommu.Util.File
import OctCommu.Util.FileChannel
import OctCommu.Util.FixedBuffer
import OctCommu.Util.FixedBufferObjects
import OctCommu.Util.LocalTime
import OctCommu.Util.Logger
import OctCommu.Util.MD5
import OctCommu.Util.Mini
import OctCommu.Util.NoticeCenter
import OctCommu.Util.ResourcePool
import OctCommu.Util.RingBuffer
import OctCommu.Util.RingDelivery
import OctCommu.Util.RingDispatcher
import OctCommu.Util.RingReaders
import OctCommu.Util.SHA1
import OctCommu.Util.SSLBox
import OctCommu.Util.SqlPool
import OctCommu.Util.StreamBuffer
import OctCommu.Util.StreamBufferStorage
import OctCommu.Util.StreamDrain
import OctCommu.Util.StreamFraming
import OctCommu.Util.StreamInit
import OctCommu.Util.ThreadPlus
