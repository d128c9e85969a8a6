import HttpC.Library.Search
import HttpC.Library.Loop
import HttpC.Library.Overwrite
import HttpC.Library.Encodings
import HttpC.Library.Transition
import HttpC.Library.Refinement
import HttpC.Library.SerialService
import HttpC.Library.Frames
import HttpC.CommonLib
import HttpC.Headers
import HttpC.HeaderBuilding
import HttpC.HeaderPasses
import HttpC.Messages
import HttpC.MessageHead
import HttpC.RequestParser
import HttpC.RequestFraming
import HttpC.RequestReading
import HttpC.RequestSequence
import HttpC.Serializing
import HttpC.Reserializing
import HttpC.Multipart
import HttpC.MultipartSearch
import HttpC.MultipartParts
import HttpC.MultipartOrder
import HttpC.Disposition
import HttpC.Query
import HttpC.QueryDecoding
import HttpC.ProxyUrl
import HttpC.ProxySafety
import HttpC.ProxyBypass
import HttpC.ProxyEnvironment
import HttpC.Server.System
import HttpC.Server.Ledger
import HttpC.Server.Tickets
import HttpC.Server.Streams
import HttpC.Server.Inbox
import HttpC.Server.Pipelining
import HttpC.Server.Dispatch
import HttpC.Server.Lifecycle
import HttpC.Server.Parking
import HttpC.Server.Sending
import HttpC.Server.Setup
import HttpC.Server.Answers
import HttpC.Server.Routing
import HttpC.Server.Patience
import HttpC.Server.Service
import HttpC.Server.SendBuffer
import HttpC.Server.Sweeping
import HttpC.Server.Admission
import HttpC.Server.Connections
import HttpC.Server.Progress
import HttpC.Server.WellFormed
import HttpC.Server.Persistence
import HttpC.Connection.Stream
import HttpC.Connection.ChunkedBody
import HttpC.Connection.Dechunker
import HttpC.Connection.Dechunking
import HttpC.Connection.HeadReader
import HttpC.Connection.RequestReceiver
import HttpC.Connection.Truncation
import HttpC.Connection.Remainder
import HttpC.Connection.ResponseReader
import HttpC.Connection.ChunkStream
import HttpC.Connection.ResponseDechunking
import HttpC.Connection.ResponseReceiver
import HttpC.Connection.ResponseSequence
import HttpC.Connection.SentMessages
import HttpC.Connection.Malformed
import HttpC.Connection.ReaderSteps
import HttpC.Connection.Streaming
import HttpC.Connection.Capacity
import HttpC.Exchange.Requests
import HttpC.Exchange.Forms
import HttpC.Exchange.Client
import HttpC.Exchange.Network
import HttpC.Exchange.Delivery
