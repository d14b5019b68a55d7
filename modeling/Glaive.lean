import Glaive.Lib.SizeLine
import Glaive.Session.ReaderProofs
import Glaive.Lib.ChunkCuts
import Glaive.Service.Framing
import Glaive.Service.Relay
import Glaive.Session.ResponseReading
import Glaive.Session.InterimHeads
import Glaive.Session.ResponseWriting
import Glaive.Service.Response
import Glaive.Service.Duplex
import Glaive.Service.DuplexSteps
import Glaive.Service.RequestChannel
import Glaive.Service.ResponseChannel
import Glaive.Service.ResponseFraming
import Glaive.Service.ChannelDeadlock
import Glaive.Service.EarlyResponse
import Glaive.Session.RoundTrip
import Glaive.Lib.LooseChunks
import Glaive.Session.ReaderSoundness
import Glaive.Lib.Containers
import Glaive.Pool.Node
import Glaive.Pool.Pool
import Glaive.Pool.IdleList
import Glaive.Pool.StaleEntries
import Glaive.Pool.Streams
import Glaive.Pool.Locking
import Glaive.Pool.Conservation
import Glaive.Proxy.Request
import Glaive.Proxy.Guards
import Glaive.Proxy.RequestFilter
import Glaive.Session.Interruptions
import Glaive.Session.ReaderBounds
import Glaive.Session.EndOfInput
import Glaive.Service.DroppedReads
import Glaive.Service.RequestSent
import Glaive.Session.ResponseTaken
import Glaive.Service.ReturnedStream
import Glaive.Proxy.Path
import Glaive.Proxy.Clusters
import Glaive.Proxy.HeaderFilters
import Glaive.Proxy.RateLimits
import Glaive.Cache.Storage
import Glaive.Cache.Provenance
import Glaive.Service.Opening
import Glaive.Session.HeadsEnd
import Glaive.Session.RequestMode
import Glaive.Service.LoopFlags
import Glaive.Session.ConnectionTokens
import Glaive.Session.ContentLengthWriting
import Glaive.Session.PlainLeft
import Glaive.Session.PlainReading
import Glaive.Session.BodyWriting
import Glaive.Session.BufferReuse
import Glaive.Session.HeadsWritten
import Glaive.Session.ResponseText
import Glaive.Session.BatchedWriting
import Glaive.Cache.Seeking
import Glaive.Proxy.Retries
import Glaive.Proxy.Hooks
import Glaive.Session.RetryBuffer
import Glaive.Stream.WriteVec
import Glaive.Redis.SlidingWindow
import Glaive.Redis.TokenBucket
import Glaive.Redis.LeakyBucket
import Glaive.Redis.FixedWindow
import Glaive.Cache.PurgeRace
import Glaive.Pool.Draining
import Glaive.Pool.Entries
import Glaive.Lib.Windows
import Glaive.Redis.Semaphore
import Glaive.Redis.WindowBound
import Glaive.Service.ResponseLeft
import Glaive.Service.ResponseSent
import Glaive.Service.Upload
import Glaive.Service.Download
import Glaive.Service.Reuse
