import KnxdFcgi.Probing
import KnxdFcgi.CachePosition
import KnxdFcgi.CacheJournal
import KnxdFcgi.GroupCache
import KnxdFcgi.SharedGroupCache
import KnxdFcgi.CacheArithmetic
import KnxdFcgi.CacheTable
import KnxdFcgi.CacheStale
import KnxdFcgi.CacheRefinement
import KnxdFcgi.Framing
import KnxdFcgi.KnxdProtocol
import KnxdFcgi.Machine
import KnxdFcgi.Simulation
import KnxdFcgi.KnxdRead
import KnxdFcgi.KnxdSession
import KnxdFcgi.ReadHandler
import KnxdFcgi.ReadDelivery
import KnxdFcgi.ReadWaiting
import KnxdFcgi.ReadIndex
import KnxdFcgi.ReadValues
import KnxdFcgi.ClientView
import KnxdFcgi.RobustMutex
import KnxdFcgi.SharedMutex
import KnxdFcgi.CacheWakeup
import KnxdFcgi.CacheCrash
import KnxdFcgi.AtomicCache
import KnxdFcgi.ReadProcess
import KnxdFcgi.KnxdClient
import KnxdFcgi.KnxdSending
import KnxdFcgi.CacheReader
import KnxdFcgi.ClientState
import KnxdFcgi.Supervisor
import KnxdFcgi.ChildReplacement
import KnxdFcgi.Shutdown
import KnxdFcgi.ShutdownEnd
import KnxdFcgi.PoolCapacity
import KnxdFcgi.CacheDrain
import KnxdFcgi.ReaderStream
import KnxdFcgi.ReaderProgress
import KnxdFcgi.ReaderBackoff
import KnxdFcgi.Text
import KnxdFcgi.EnvInt
import KnxdFcgi.SessionStore
import KnxdFcgi.RequestReader
import KnxdFcgi.Routing
import KnxdFcgi.Worker
import KnxdFcgi.WorkerSessions
import KnxdFcgi.QueryString
import KnxdFcgi.QueryRoundTrip
import KnxdFcgi.KnxAddress
import KnxdFcgi.Json
import KnxdFcgi.JsonBuilder
import KnxdFcgi.JsonRoundTrip
import KnxdFcgi.LoginHandler
import KnxdFcgi.WriteHandler
import KnxdFcgi.WriteTelegrams
import KnxdFcgi.ReadReply
import KnxdFcgi.ReadKeys
import KnxdFcgi.ReadTimeout
import KnxdFcgi.WriteReadback
import KnxdFcgi.WorkerPackets
import KnxdFcgi.WorkerReads
import KnxdFcgi.WritePath
import KnxdFcgi.ReaderRecovery
import KnxdFcgi.HeaderFields
import KnxdFcgi.FcgiAnswers
import KnxdFcgi.WritePacing
import KnxdFcgi.KnxdConnector
