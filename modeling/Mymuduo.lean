import Mymuduo.Runs
import Mymuduo.Words
import Mymuduo.SignedWords
import Mymuduo.Bytes
import Mymuduo.Lines
import Mymuduo.Chunks
import Mymuduo.Vectors
import Mymuduo.Segments
import Mymuduo.LengthPrefix
import Mymuduo.RegexPattern
import Mymuduo.FileTree
import Mymuduo.Json
import Mymuduo.OrderedMap
import Mymuduo.Rings
import Mymuduo.Deltas
import Mymuduo.LexRanges
import Mymuduo.Leases
import Mymuduo.Credits
import Mymuduo.TcpConnection
import Mymuduo.TcpOutput
import Mymuduo.ScatterSend
import Mymuduo.CrossThreadSend
import Mymuduo.Buffer
import Mymuduo.EPollPoller
import Mymuduo.EventLoop
import Mymuduo.TimerQueue
import Mymuduo.TimerWatch
import Mymuduo.TimerWheel
import Mymuduo.TimerAccuracy
import Mymuduo.TimerCancel
import Mymuduo.LoopTimers
import Mymuduo.TimerStalls
import Mymuduo.TimerIds
import Mymuduo.TcpLifecycle
import Mymuduo.Connector
import Mymuduo.TcpClient
import Mymuduo.HttpRequest
import Mymuduo.HttpCore
import Mymuduo.HttpContentLength
import Mymuduo.HttpParsers
import Mymuduo.HttpResponse
import Mymuduo.HttpServer
import Mymuduo.HttpPipeline
import Mymuduo.HttpRouting
import Mymuduo.HttpUrls
import Mymuduo.HttpCookies
import Mymuduo.Multipart
import Mymuduo.MultipartSegments
import Mymuduo.HttpRoutes
import Mymuduo.HttpCompression
import Mymuduo.StaticFiles
import Mymuduo.HttpsServer
import Mymuduo.HttpFiles
import Mymuduo.HttpIdle
import Mymuduo.HttpFraming
import Mymuduo.HttpClient
import Mymuduo.HttpClientPairing
import Mymuduo.HttpDelivery
import Mymuduo.HttpPrecedence
import Mymuduo.WebSocketFrame
import Mymuduo.WebSocketEncoders
import Mymuduo.WebSocketServer
import Mymuduo.WebSocketLoop
import Mymuduo.WebSocketHandshake
import Mymuduo.WebSocketCuts
import Mymuduo.WebSocketClient
import Mymuduo.WebSocketInterop
import Mymuduo.WebSocketDelivery
import Mymuduo.WebSocketCallbacks
import Mymuduo.WebSocketSession
import Mymuduo.WebSocketEvents
import Mymuduo.WebSocketLifecycle
import Mymuduo.WebSocketLimit
import Mymuduo.WebSocketGrammar
import Mymuduo.RpcServer
import Mymuduo.RpcServerPb
import Mymuduo.RpcClientPb
import Mymuduo.RpcSockets
import Mymuduo.RpcAnswers
import Mymuduo.ReactorRpcClient
import Mymuduo.ServiceMeta
import Mymuduo.ServiceCatalog
import Mymuduo.ServiceDirectory
import Mymuduo.InstanceExpiry
import Mymuduo.LoadBalancer
import Mymuduo.WeightedRoundRobin
import Mymuduo.ConsistentHashing
import Mymuduo.LeastConnections
import Mymuduo.RegistryClient
import Mymuduo.RegistryServer
import Mymuduo.RegistryDiscovery
import Mymuduo.KafkaConsumer
import Mymuduo.EtcdClient
import Mymuduo.EtcdWatch
import Mymuduo.EtcdRange
import Mymuduo.Base64Encoders
import Mymuduo.ConnectionPools
import Mymuduo.IdleEviction
import Mymuduo.MySQLReplicas
import Mymuduo.ObjectPool
import Mymuduo.ThreadPool
import Mymuduo.ThreadPoolOrder
import Mymuduo.Redlock
import Mymuduo.AsyncLogger
import Mymuduo.Snowflake
import Mymuduo.CircuitBreaker
import Mymuduo.RateLimiter
