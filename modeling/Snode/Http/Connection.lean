import Snode.Http.ChunkedEncoding
import Snode.Http.Message

/-!
# The state of an HTTP connection

`http_connection` with the asynchronous operations it has under way: reads and
writes on its socket, and the tasks scheduled on its worker.  Handlers are
functions on this state; they start operations by adding to these lists, and
the events of the environment take from them.

Memory that a stream buffer hands out before it is written (`prepare`) is
whatever the library has there, so every function that prepares memory takes it
as an argument.
-/

namespace Snode.Http

open Streams

/-- The value of an integer expression stored in a `size_t`. -/
def sizeT (value : Int) : ℕ :=
  (value % 2 ^ 64).toNat

theorem sizeT_of_lt {value : ℕ} (small : value < 2 ^ 64) : sizeT value = value := by
  simp only [sizeT]
  omega

def chunkSize : ℕ := 4 * 1024

/-- When a composed read on the socket is complete. -/
inductive ReadCondition where
  /-- `async_read_until` with `crlf_nonascii_searcher`, to be resumed at a position. -/
  | untilHead (position : ℕ)
  /-- `async_read_until` with `CRLF`. -/
  | untilCrlf
  /-- `async_read` with `transfer_at_least`, for the bytes still to be transferred. -/
  | atLeast (size : ℕ)
  deriving DecidableEq

inductive ReadHandler where
  | handleHttpLine
  | handleChunkedHeader
  | handleChunkedBody (toWrite : Int)
  | handleBody
  deriving DecidableEq

/-- A read under way on the socket, into `request_buf_`. -/
structure SocketRead where
  condition : ReadCondition
  handler : ReadHandler
  deriving DecidableEq

/-- The handlers of `async_write`, which always writes `response_buf_`. -/
inductive WriteHandler where
  | handleHeadersWritten (response : HttpResponse)
  | handleWriteChunkedResponse (response : HttpResponse)
  | handleWriteLargeResponse (response : HttpResponse)
  | handleResponseWritten (response : HttpResponse)
  deriving DecidableEq

/-- A request as it is dispatched. -/
structure Dispatched where
  method : Bytes
  url : Bytes
  headers : HttpHeaders
  deriving DecidableEq

/-- What a connection did that can be told from outside, oldest first. -/
structure Log where
  /-- Bytes written to the socket. -/
  sent : Bytes
  /-- Requests given to `dispatch_request_to_listener`. -/
  dispatched : List Dispatched
  /-- Status codes of replies to requests that were rejected as malformed. -/
  rejected : ℕ
  /-- Arguments of `http_msg_base::complete`. -/
  completed : List ℕ
  /-- Handlers a request was passed to. -/
  handled : List ℕ
  /-- What `handle_chunked_header` found in `request_buf_`, and the length it took from it. -/
  chunkHeaders : List (Bytes × Int)
  /-- Responses given to `async_process_response`. -/
  processed : List HttpResponse
  /-- Arguments of `response_send_complete`. -/
  sendCompleted : List ErrorCode
  /-- Bytes of `request_buf_` that `start_request_response` cleared. -/
  discarded : Bytes
  deriving DecidableEq

def Log.empty : Log := ⟨[], [], 0, [], [], [], [], [], []⟩

/-- `http_connection`. -/
structure HttpConnection where
  requestBuf : Bytes
  /-- The readable part of `response_buf_`. -/
  responseBuf : Bytes
  /-- The writable part of `response_buf_` behind it. -/
  putArea : Bytes
  request : HttpRequestImpl
  responses : HttpResponse → HttpResponseImpl
  nextResponse : HttpResponse
  read : ℕ
  write : ℕ
  readSize : ℕ
  writeSize : ℕ
  close : Bool
  chunked : Bool
  reading : List SocketRead
  writing : List WriteHandler
  tasks : List Task
  socketOpen : Bool
  /-- An exception left a handler, or an assert failed. -/
  failed : Bool
  log : Log

namespace HttpConnection

/-- `async_task::connect`. -/
def connect (conn : HttpConnection) (tasks : List Task) : HttpConnection :=
  { conn with tasks := conn.tasks ++ tasks }

/-- `async_write(*socket_, response_buf_, handler)`. -/
def asyncWrite (conn : HttpConnection) (handler : WriteHandler) : HttpConnection :=
  { conn with writing := conn.writing ++ [handler] }

/-- Starts a read on the socket into `request_buf_`. -/
def asyncRead (conn : HttpConnection) (condition : ReadCondition) (handler : ReadHandler) :
    HttpConnection :=
  { conn with reading := conn.reading ++ [⟨condition, handler⟩] }

/-- `response_buf_.prepare`, for the memory the library has there. -/
def prepare (conn : HttpConnection) (memory : Bytes) : HttpConnection :=
  { conn with putArea := memory }

/-- `response_buf_.commit`: never more than was there to be written. -/
def commit (conn : HttpConnection) (count : ℕ) : HttpConnection :=
  { conn with
    responseBuf := conn.responseBuf ++ conn.putArea.take count
    putArea := conn.putArea.drop count }

/-- `response_buf_.consume`. -/
def consumeResponse (conn : HttpConnection) (count : ℕ) : HttpConnection :=
  { conn with responseBuf := conn.responseBuf.drop count }

/-- `request_buf_.consume`. -/
def consumeRequest (conn : HttpConnection) (count : ℕ) : HttpConnection :=
  { conn with requestBuf := conn.requestBuf.drop count }

/-- The state shared by the handles on one response. -/
def updateResponse (conn : HttpConnection) (response : HttpResponse)
    (change : HttpResponseImpl → HttpResponseImpl) : HttpConnection :=
  { conn with
    responses := fun other =>
      if other = response then change (conn.responses other) else conn.responses other }

/-! ### Ending a request -/

def startRequestResponse (conn : HttpConnection) : HttpConnection :=
  asyncRead
    { conn with
      readSize := 0
      read := 0
      requestBuf := []
      log := { conn.log with discarded := conn.log.discarded ++ conn.requestBuf } }
    (.untilHead 0) .handleHttpLine

/-- `finish_request_response`: the connection is closed and dropped. -/
def finishRequestResponse (conn : HttpConnection) : HttpConnection :=
  { conn with close := true, socketOpen := false }

def responseSendComplete (conn : HttpConnection) (err : ErrorCode) : HttpConnection :=
  let (request, tasks) := conn.request.responseSendComplete err
  connect
    { conn with
      request := request
      log := { conn.log with sendCompleted := conn.log.sendCompleted ++ [err] } } tasks

def cancelSendingResponseWithError (conn : HttpConnection) (err : ErrorCode) :
    HttpConnection :=
  (conn.responseSendComplete err).finishRequestResponse

def handleResponseWritten (conn : HttpConnection) (ec : ErrorCode) : HttpConnection :=
  if ec ≠ .success then
    conn.cancelSendingResponseWithError ec
  else
    let conn := conn.responseSendComplete ec
    if !conn.close then conn.startRequestResponse else conn.finishRequestResponse

/-! ### Sending the body of a response -/

/-- Where in the prepared memory the destination of a `getn` lies. -/
def readOffset : BufReadHandler → ℕ
  | .handleChunkedResponseBuffRead _ => ChunkedEncoding.additionalEncodingSpace
  | .handleLargeResponseBuffRead _ => 0

/-- The completion of a `getn` on the body of a response: the characters are in the prepared
memory, and the handler is scheduled. -/
def bufReadCompleted (conn : HttpConnection) (completed : Completed UInt8 BufReadHandler) :
    HttpConnection :=
  let handler := completed.request.completionOp
  connect
    { conn with
      putArea := ChunkedEncoding.store conn.putArea (readOffset handler) completed.copied }
    [.bufRead handler completed.result]

/-- Runs an operation on the body of a response. -/
def bodyOp (conn : HttpConnection) (response : HttpResponse) (op : Op UInt8 BufReadHandler) :
    HttpConnection :=
  let body := (conn.responses response).body
  ((op.exec body.buffer).completed).foldl bufReadCompleted
    (conn.updateResponse response fun impl => { impl with body := body.exec op })

/-- `getn` on the body of a response; a buffer closed for reading schedules the handler with
nothing read. -/
def getnBody (conn : HttpConnection) (response : HttpResponse) (count : ℕ)
    (handler : BufReadHandler) : HttpConnection :=
  let (_, _, refused) :=
    AsyncStreambuf.getn (conn.responses response).body.buffer count handler
  (conn.bodyOp response (.getn count handler)).connect
    (refused.map fun completion => .bufRead completion.1 completion.2)

def handleWriteChunkedResponse (conn : HttpConnection) (response : HttpResponse)
    (ec : ErrorCode) (memory : Bytes) : HttpConnection :=
  if ec ≠ .success then
    conn.handleResponseWritten ec
  else if (conn.responses response).body.buffer.isEof then
    conn.cancelSendingResponseWithError .ioError
  else
    (conn.prepare memory).getnBody response chunkSize (.handleChunkedResponseBuffRead response)

def handleChunkedResponseBuffRead (conn : HttpConnection) (count : ℕ) (response : HttpResponse) :
    HttpConnection :=
  if count = 0 then
    conn.cancelSendingResponseWithError .ioError
  else
    match ChunkedEncoding.addChunkedDelimiters conn.putArea
        (chunkSize + ChunkedEncoding.additionalEncodingSpace) count with
    | .error _ => { conn with failed := true }
    | .ok (offset, data) =>
        ((({ conn with putArea := data }).commit
          (count + ChunkedEncoding.additionalEncodingSpace)).consumeResponse offset).asyncWrite
          (if count = 0 then .handleResponseWritten response
            else .handleWriteChunkedResponse response)

def handleWriteLargeResponse (conn : HttpConnection) (response : HttpResponse)
    (ec : ErrorCode) (memory : Bytes) : HttpConnection :=
  if ec ≠ .success ∨ conn.write = conn.writeSize then
    conn.handleResponseWritten ec
  else if (conn.responses response).body.buffer.isEof then
    conn.cancelSendingResponseWithError .ioError
  else
    let readBytes := min chunkSize (sizeT (conn.writeSize - conn.write))
    (conn.prepare memory).getnBody response readBytes (.handleLargeResponseBuffRead response)

def handleLargeResponseBuffRead (conn : HttpConnection) (count : ℕ) (response : HttpResponse) :
    HttpConnection :=
  if count = 0 then
    conn.cancelSendingResponseWithError .ioError
  else
    ((({ conn with write := sizeT (conn.write + count) }).commit count).asyncWrite
      (.handleWriteLargeResponse response))

def handleHeadersWritten (conn : HttpConnection) (response : HttpResponse) (ec : ErrorCode)
    (memory : Bytes) : HttpConnection :=
  if ec ≠ .success then
    conn.cancelSendingResponseWithError .ioError
  else if conn.chunked then
    conn.handleWriteChunkedResponse response ec memory
  else
    conn.handleWriteLargeResponse response ec memory

/-- The size a `getn` handler is called with: a character handed to it is converted. -/
def completionSize : Completion UInt8 → ℕ
  | .size count => count
  | .ch value => sizeT value.val

def runBufRead (conn : HttpConnection) (handler : BufReadHandler)
    (result : Completion UInt8) : HttpConnection :=
  match handler with
  | .handleChunkedResponseBuffRead response =>
      conn.handleChunkedResponseBuffRead (completionSize result) response
  | .handleLargeResponseBuffRead response =>
      conn.handleLargeResponseBuffRead (completionSize result) response

def runWriteHandler (conn : HttpConnection) (handler : WriteHandler) (ec : ErrorCode)
    (memory : Bytes) : HttpConnection :=
  match handler with
  | .handleHeadersWritten response => conn.handleHeadersWritten response ec memory
  | .handleWriteChunkedResponse response =>
      conn.handleWriteChunkedResponse response ec memory
  | .handleWriteLargeResponse response => conn.handleWriteLargeResponse response ec memory
  | .handleResponseWritten _ => conn.handleResponseWritten ec

/-- `async_write` completes: all of `response_buf_` has been sent and consumed, and its
handler runs. -/
def writeDone (conn : HttpConnection) (memory : Bytes) : HttpConnection :=
  match conn.writing with
  | [] => conn
  | handler :: rest =>
      runWriteHandler
        { conn with
          responseBuf := []
          writing := rest
          log := { conn.log with sent := conn.log.sent ++ conn.responseBuf } }
        handler .success memory

end HttpConnection

end Snode.Http
