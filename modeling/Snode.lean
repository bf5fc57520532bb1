import Snode.Streams.Requests
import Snode.Streams.Calls
import Snode.Streams.IssueOrder
import Snode.Streams.ReadToEnd
import Snode.Streams.ReadToDelim
import Snode.Streams.ReadLine
import Snode.Streams.ReadInto
import Snode.Streams.WriteFrom
import Snode.Http.LargeEmission
import Snode.Http.ChunkedResponse
import Snode.Http.BodyReception
import Snode.Http.ChunkContainment
import Snode.Http.ChunkRoundTrip
import Snode.Http.Answering
import Snode.Http.Routing
import Snode.Http.Replies
import Snode.Http.Framing
import Snode.Http.Persistence
import Snode.Http.Segmentation
import Snode.Http.KeepAlive
import Snode.Pool.StopReturns
import Snode.Http.MessageBody
import Snode.Streams.CountedReads
import Snode.Streams.Acquire
import Snode.Streams.SourceSeeks
import Snode.Http.ContentType
import Snode.Http.RejectedReply
import Snode.Http.RequestLine
import Snode.Http.HeaderBlock
import Snode.Http.HeaderRoundTrip
import Snode.Http.HeaderRuns
import Snode.Streams.ContainerReads
import Snode.Streams.ContainerCommit
import Snode.Streams.BlockReads
import Snode.Http.ExtractBody
import Snode.Streams.SourcePeeks
import Snode.Http.HeaderOrder
import Snode.Pool.ListenerFactory
import Snode.Http.TaskFrame
import Snode.Pool.Registered
import Snode.Lib.OrderedMap
import Snode.Core.RegFactory
import Snode.Core.Config
import Snode.Pool.Waiting
import Snode.Core.SnodeCore
import Snode.Core.Server
import Snode.Core.Startup
import Snode.Core.Placement
import Snode.Core.ServerRuns
import Snode.Core.Projection
import Snode.Core.ServerSafety
import Snode.Core.Accepting
import Snode.Core.Liveness
import Snode.Core.Stopping
import Snode.Core.ConfigReader
import Snode.Core.HandlerTable
import Snode.Core.HandlerAllocator
import Snode.Http.UnderWay
import Snode.Http.Unhandled
