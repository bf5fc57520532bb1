import Snode.Http.Headers
import Snode.Streams.BufferRuns

/-!
# HTTP messages

`http_msg_base`, `http_request_impl` and `http_response_impl` with the
completion handlers they queue.  An `http_response` is a handle on shared
state, so a response is named by a number and its state is looked up.  A queued
operation carries the handler it was constructed from.
-/

namespace Snode.Http

open Streams

/-- `http_response`: a handle on a shared `http_response_impl`. -/
abbrev HttpResponse := ℕ

/-- `boost::system::error_code`, as far as the code tells its values apart. -/
inductive ErrorCode where
  | success
  | eof
  | operationAborted
  | ioError
  | other
  deriving DecidableEq

/-- The handlers a connection gives to `getn` on the body of a response. -/
inductive BufReadHandler where
  | handleChunkedResponseBuffRead (response : HttpResponse)
  | handleLargeResponseBuffRead (response : HttpResponse)
  deriving DecidableEq

/-- `http_response_impl`.  The body is a stream over a producer/consumer buffer. -/
structure HttpResponseImpl where
  statusCode : ℕ
  reasonPhrase : Bytes
  headers : HttpHeaders
  hasInstream : Bool
  body : Session UInt8 BufReadHandler

namespace StatusCodes

def badRequest : ℕ := 400
def notFound : ℕ := 404
def internalError : ℕ := 500

/-- The standard phrases of `http_constants.dat`. -/
def idPhraseMap : List (ℕ × Bytes) :=
  [(100, ascii "Continue"),
    (101, ascii "Switching Protocols"),
    (200, ascii "OK"),
    (201, ascii "Created"),
    (202, ascii "Accepted"),
    (203, ascii "Non-Authoritative Information"),
    (204, ascii "No Content"),
    (205, ascii "Reset Content"),
    (206, ascii "Partial Content"),
    (300, ascii "Multiple Choices"),
    (301, ascii "Moved Permanently"),
    (302, ascii "Found"),
    (303, ascii "See Other"),
    (304, ascii "Not Modified"),
    (305, ascii "Use Proxy"),
    (307, ascii "Temporary Redirect"),
    (400, ascii "Bad Request"),
    (401, ascii "Unauthorized"),
    (402, ascii "Payment Required"),
    (403, ascii "Forbidden"),
    (404, ascii "Not Found"),
    (405, ascii "Method Not Allowed"),
    (406, ascii "Not Acceptable"),
    (407, ascii "Proxy Authentication Required"),
    (408, ascii "Request Time-out"),
    (409, ascii "Conflict"),
    (410, ascii "Gone"),
    (411, ascii "Length Required"),
    (412, ascii "Precondition Failed"),
    (413, ascii "Request Entity Too Large"),
    (414, ascii "Request Uri Too Large"),
    (415, ascii "Unsupported Media Type"),
    (416, ascii "Requested range not satisfiable"),
    (417, ascii "Expectation Failed"),
    (500, ascii "Internal Error"),
    (501, ascii "Not Implemented"),
    (502, ascii "Bad Gateway"),
    (503, ascii "Service Unavailable"),
    (504, ascii "Gateway Time-out"),
    (505, ascii "HTTP Version not supported")]

end StatusCodes

namespace HttpResponseImpl

/-- A response with the given status code, no headers and no body. -/
def new (statusCode : ℕ) : HttpResponseImpl where
  statusCode := statusCode
  reasonPhrase := []
  headers := []
  hasInstream := false
  body := Session.new 0

/-- The reason phrase `reply_impl` puts in when the user did not set one. -/
def defaultReasonPhrase (response : HttpResponseImpl) : HttpResponseImpl :=
  if response.reasonPhrase.isEmpty then
    match StatusCodes.idPhraseMap.find? fun entry => entry.1 == response.statusCode with
    | some entry => { response with reasonPhrase := entry.2 }
    | none => response
  else
    response

end HttpResponseImpl

/-- What `get_response` may be given: the connection's own handler or a user's. -/
inductive ResponseHandler where
  | handleResponse (badRequest : Bool)
  | user (handler : ℕ)
  deriving DecidableEq

/-- What `content_ready` may be given. -/
inductive DataHandler where
  | handleRequestDataReady (response : HttpResponse)
  | user (handler : ℕ)
  deriving DecidableEq

/-- The handlers a connection gives to `putn` on the body of a request. -/
inductive BufWriteHandler where
  | handleBodyBuffWrite
  | handleChunkedBodyBuffWrite
  deriving DecidableEq

/-- What `async_task::connect` schedules on the worker of a connection. -/
inductive Task where
  /-- `response_ready` with a reference to `response_`. -/
  | responseReady (handler : ResponseHandler)
  | dataReady (handler : DataHandler) (size : ℕ)
  | responseComplete (handler : ℕ) (err : ErrorCode)
  /-- The completion of a `getn`. -/
  | bufRead (handler : BufReadHandler) (result : Completion UInt8)
  /-- The write of a `putn` with its copy of the data, and then its handler. -/
  | putn (source : Bytes) (handler : BufWriteHandler)
  /-- The handler of a `putn` refused because the buffer is closed for writing. -/
  | bufWrite (handler : BufWriteHandler) (count : ℕ)
  deriving DecidableEq

/-- `http_request_impl` with its base class.  `stream` is the message buffer that both
`instream_` and `outstream_` refer to. -/
structure HttpRequestImpl where
  url : Bytes
  method : Bytes
  headers : HttpHeaders
  dataAvailable : ℕ
  dataReadyHandlers : List DataHandler
  responseReady : Bool
  initiatedResponse : Bool
  response : HttpResponse
  responseHandlers : List ResponseHandler
  responseCompleteHandlers : List ℕ
  stream : Session UInt8 ℕ

namespace HttpRequestImpl

/-- A fresh request; `response` is the default response it is constructed with. -/
def new (response : HttpResponse) : HttpRequestImpl where
  url := []
  method := ascii "GET"
  headers := []
  dataAvailable := 0
  dataReadyHandlers := []
  responseReady := false
  initiatedResponse := false
  response := response
  responseHandlers := []
  responseCompleteHandlers := []
  stream := Session.new 512

def asyncGetResponse (request : HttpRequestImpl) (handler : ResponseHandler) :
    HttpRequestImpl × List Task :=
  if !request.responseReady then
    ({ request with responseHandlers := request.responseHandlers ++ [handler] }, [])
  else
    (request, [.responseReady handler])

def asyncGetDataAvailable (request : HttpRequestImpl) (handler : DataHandler) :
    HttpRequestImpl × List Task :=
  if request.dataAvailable = 0 then
    ({ request with dataReadyHandlers := request.dataReadyHandlers ++ [handler] }, [])
  else
    (request, [.dataReady handler request.dataAvailable])

/-- `http_msg_base::complete`: the size is noted and the body stream closed for writing. -/
def complete (request : HttpRequestImpl) (bodySize : ℕ) : HttpRequestImpl :=
  { request with
    dataAvailable := bodySize
    stream := request.stream.exec (.close false true) }

/-- `reply_impl`, but for the reason phrase it puts into the response: it throws if a response
was initiated before. -/
def replyImpl (request : HttpRequestImpl) (response : HttpResponse) :
    Except String (HttpRequestImpl × List Task) :=
  if request.initiatedResponse then
    .error "Error: trying to send multiple responses to an HTTP request"
  else
    .ok ({ request with
        initiatedResponse := true
        response := response
        responseReady := true
        responseHandlers := [] },
      request.responseHandlers.map .responseReady)

/-- `reply_if_not_already`, with the response made for the status. -/
def replyIfNotAlready (request : HttpRequestImpl) (response : HttpResponse) :
    HttpRequestImpl × List Task :=
  match request.replyImpl response with
  | .ok result => result
  | .error _ => (request, [])

/-- `reply`: the completion handler is queued before `reply_impl` is called, and stays
queued when that throws.  The flag tells whether it did. -/
def reply (request : HttpRequestImpl) (response : HttpResponse) (handler : ℕ) :
    Bool × HttpRequestImpl × List Task :=
  let request :=
    { request with responseCompleteHandlers := request.responseCompleteHandlers ++ [handler] }
  match request.replyImpl response with
  | .ok (request, tasks) => (false, request, tasks)
  | .error _ => (true, request, [])

def responseSendComplete (request : HttpRequestImpl) (err : ErrorCode) :
    HttpRequestImpl × List Task :=
  ({ request with responseCompleteHandlers := [] },
    request.responseCompleteHandlers.map (.responseComplete · err))

end HttpRequestImpl

end Snode.Http
