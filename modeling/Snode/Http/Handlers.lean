import Snode.Http.Connection
import Snode.Uri

/-!
# The handlers of an HTTP connection

From the head of a request to the head of its response: the request line and
the headers, the reception of a body, the dispatch to a registered handler, and
the decision when and how to send the response.
-/

namespace Snode.Http

open Streams

/-- `crlf_nonascii_searcher_t::State`. -/
inductive SearchState where
  | none
  | cr
  | crlf
  | crlfcr
  deriving DecidableEq

/-- `crlf_nonascii_searcher_t` on the bytes from `cur` on, with the position and the verdict it
returns. -/
def crlfNonasciiSearcher : SearchState → ℕ → ℕ → Bytes → ℕ × Bool
  | _, excluded, _, [] => (excluded, false)
  | state, excluded, cur, c :: rest =>
      if c = cr then
        if state = .crlf then
          crlfNonasciiSearcher .crlfcr excluded (cur + 1) rest
        else
          crlfNonasciiSearcher .cr cur (cur + 1) rest
      else if c = lf then
        if state = .cr then
          crlfNonasciiSearcher .crlf excluded (cur + 1) rest
        else if state = .crlfcr then
          (cur + 1, true)
        else
          crlfNonasciiSearcher .none (cur + 1) (cur + 1) rest
      else if charVal c ≤ 31 ∧ 0 ≤ charVal c then
        (cur + 1, true)
      else if charVal c ≤ -1 ∧ -128 ≤ charVal c then
        (cur + 1, true)
      else
        crlfNonasciiSearcher .none (cur + 1) (cur + 1) rest

/-- The rows of `valid_chars`, sixteen characters each. -/
def validChars : List (List ℕ) :=
  [[0, 0, 0, 0, 0, 0, 0, 0, 0, 0, 0, 0, 0, 0, 0, 0],
    [0, 0, 0, 0, 0, 0, 0, 0, 0, 0, 0, 0, 0, 0, 0, 0],
    [0, 1, 0, 1, 1, 1, 1, 1, 0, 0, 1, 1, 0, 1, 1, 0],
    [1, 1, 1, 1, 1, 1, 1, 1, 1, 1, 0, 0, 0, 0, 0, 0],
    [0, 1, 1, 1, 1, 1, 1, 1, 1, 1, 1, 1, 1, 1, 1, 1],
    [1, 1, 1, 1, 1, 1, 1, 1, 1, 1, 1, 0, 0, 0, 0, 0],
    [0, 1, 1, 1, 1, 1, 1, 1, 1, 1, 1, 1, 1, 1, 1, 1],
    [1, 1, 1, 1, 1, 1, 1, 1, 1, 1, 1, 0, 1, 0, 1, 0]]

def validMethodChar (ch : UInt8) : Bool :=
  validChars.flatten[ch.toNat]? == some 1

def validateMethod (method : Bytes) : Bool :=
  method.all validMethodChar

namespace Methods

/-- The methods `handle_http_line` spells in upper case. -/
def normalised : List Bytes :=
  [ascii "GET", ascii "POST", ascii "PUT", ascii "DELETE", ascii "HEAD", ascii "TRACE",
    ascii "CONNECT", ascii "OPTIONS"]

end Methods

def normaliseMethod (httpVerb : Bytes) : Bytes :=
  (Methods.normalised.find? (iequals httpVerb ·)).getD httpVerb

/-- `sizeof(" HTTP/1.1\r") - 1`. -/
def versionPortionSize : ℕ := 10

/-- `std::string::substr`. -/
def substr (str : Bytes) (position count : ℕ) : Bytes :=
  (str.drop position).take count

/-- A decimal number as `operator<<` prints it. -/
def printNumber (number : ℕ) : Bytes :=
  if number = 0 then [48]
  else ((Nat.digits 10 number).map fun digit => UInt8.ofNat (48 + digit)).reverse

namespace HttpConnection

/-! ### Sending the head of a response -/

def asyncProcessResponse (conn : HttpConnection) (response : HttpResponse) : HttpConnection :=
  let impl := conn.responses response
  let (hasTransferEncoding, transferEncoding) :=
    impl.headers.matchString HeaderNames.transferEncoding []
  let (hasContentLength, writeSize) := impl.headers.matchSize HeaderNames.contentLength 0
  let chunkedByStream := !hasContentLength && impl.hasInstream
  let headers :=
    if chunkedByStream then impl.headers.set HeaderNames.transferEncoding (ascii "chunked")
    else impl.headers
  let headers :=
    if !impl.hasInstream then headers.add HeaderNames.contentLength (printNumber 0) else headers
  let conn := conn.updateResponse response fun impl => { impl with headers := headers }
  asyncWrite
    { conn with
      responseBuf :=
        ascii "HTTP/1.1 " ++ printNumber impl.statusCode ++ ascii " " ++ impl.reasonPhrase ++ crlf ++
          headers.flatMap (fun header => header.1 ++ ascii ": " ++ header.2 ++ crlf) ++ crlf
      putArea := []
      chunked :=
        hasTransferEncoding && transferEncoding == ascii "chunked" || chunkedByStream
      write := 0
      writeSize := writeSize
      close :=
        conn.close || headers.any fun header =>
          iequals header.1 (ascii "connection") && iequals header.2 (ascii "close")
      log := { conn.log with processed := conn.log.processed ++ [response] } }
    (.handleHeadersWritten response)

def handleRequestDataReady (conn : HttpConnection) (count : ℕ) (response : HttpResponse) :
    HttpConnection :=
  if count ≠ 0 then conn.asyncProcessResponse response else conn

/-- `content_ready`. -/
def contentReady (conn : HttpConnection) (handler : DataHandler) : HttpConnection :=
  let (request, tasks) := conn.request.asyncGetDataAvailable handler
  connect { conn with request := request } tasks

def handleResponse (conn : HttpConnection) (response : HttpResponse) (badRequest : Bool) :
    HttpConnection :=
  if badRequest then
    conn.asyncProcessResponse response
  else if conn.request.dataAvailable ≠ 0 then
    conn.asyncProcessResponse response
  else
    conn.contentReady (.handleRequestDataReady response)

/-- `get_response`. -/
def getResponse (conn : HttpConnection) (handler : ResponseHandler) : HttpConnection :=
  let (request, tasks) := conn.request.asyncGetResponse handler
  connect { conn with request := request } tasks

def doResponse (conn : HttpConnection) (badRequest : Bool) : HttpConnection :=
  conn.getResponse (.handleResponse badRequest)

/-- A new response on the heap. -/
def makeResponse (conn : HttpConnection) (impl : HttpResponseImpl) :
    HttpResponse × HttpConnection :=
  (conn.nextResponse,
    { conn.updateResponse conn.nextResponse fun _ => impl with
      nextResponse := conn.nextResponse + 1 })

def replyIfNotAlready (conn : HttpConnection) (status : ℕ) : HttpConnection :=
  if conn.request.initiatedResponse then
    conn
  else
    let (response, conn) := conn.makeResponse (HttpResponseImpl.new status).defaultReasonPhrase
    let (request, tasks) := conn.request.replyIfNotAlready response
    connect { conn with request := request } tasks

/-- `reply` of a handler with a response of its own; `impl` is what the handler put into it.
A second reply throws, and leaves only its completion handler queued. -/
def reply (conn : HttpConnection) (impl : HttpResponseImpl) (handler : ℕ) : HttpConnection :=
  let threw := conn.request.initiatedResponse
  let (response, conn) :=
    conn.makeResponse (if threw then impl else impl.defaultReasonPhrase)
  let (_, request, tasks) := conn.request.reply response handler
  connect { conn with request := request } tasks

/-- What every check of the head does when it fails. -/
def rejectBadRequest (conn : HttpConnection) : HttpConnection :=
  let conn := conn.replyIfNotAlready StatusCodes.badRequest
  doResponse
    { conn with
      close := true
      log := { conn.log with rejected := conn.log.rejected + 1 } } true

/-! ### The body of a request -/

/-- `request_.get_impl()->complete`. -/
def complete (conn : HttpConnection) (bodySize : ℕ) : HttpConnection :=
  { conn with
    request := conn.request.complete bodySize
    log := { conn.log with completed := conn.log.completed ++ [bodySize] } }

def asyncReadUntilBuffersize (conn : HttpConnection) (size : ℕ) (handler : ReadHandler) :
    HttpConnection :=
  let bufsize := conn.requestBuf.length
  if size ≤ bufsize then
    conn.asyncRead (.atLeast 0) handler
  else
    conn.asyncRead (.atLeast (size - bufsize)) handler

/-- `putn` on the message buffer with the first `count` bytes of `request_buf_`.  There is no
vector of more bytes than that: the exception leaves the handler. -/
def putn (conn : HttpConnection) (count : ℕ) (handler : BufWriteHandler) : HttpConnection :=
  if count = 0 then
    conn
  else if !conn.request.stream.buffer.canWrite then
    conn.connect [.bufWrite handler 0]
  else if conn.requestBuf.length < count then
    { conn with failed := true }
  else
    conn.connect [.putn (conn.requestBuf.take count) handler]

def handleBody (conn : HttpConnection) (ec : ErrorCode) : HttpConnection :=
  if ec ≠ .success then
    conn.complete 0
  else if conn.read < conn.readSize then
    conn.putn (min conn.requestBuf.length (sizeT (conn.readSize - conn.read)))
      .handleBodyBuffWrite
  else
    conn.complete conn.read

def handleBodyBuffWrite (conn : HttpConnection) (count : ℕ) : HttpConnection :=
  if count ≠ 0 then
    let conn := { conn with read := sizeT (conn.read + count) }
    (conn.consumeRequest count).asyncReadUntilBuffersize
      (min chunkSize (sizeT (conn.readSize - conn.read))) .handleBody
  else
    conn.complete 0

/-- The value of an `int` expression, wrapped where it overflows. -/
def int32 (value : Int) : Int :=
  Int.bmod value (2 ^ 32)

/-- `value` is what the uninitialised `len` holds before the extraction. -/
def handleChunkedHeader (conn : HttpConnection) (ec : ErrorCode) (value : Int) :
    HttpConnection :=
  if ec ≠ .success then
    conn.complete 0
  else
    let (len, is) := (Istream.new conn.requestBuf).getHexInt value
    let conn :=
      { conn with
        requestBuf := is.rest.drop crlf.length
        read := sizeT (conn.read + len)
        log := { conn.log with
          chunkHeaders := conn.log.chunkHeaders ++ [(conn.requestBuf, len)] } }
    if len = 0 then
      conn.complete conn.read
    else
      conn.asyncReadUntilBuffersize (sizeT (int32 (len + 2))) (.handleChunkedBody len)

def handleChunkedBody (conn : HttpConnection) (ec : ErrorCode) (toWrite : Int) :
    HttpConnection :=
  if ec ≠ .success then
    conn.complete 0
  else
    conn.putn (sizeT toWrite) .handleChunkedBodyBuffWrite

def handleChunkedBodyBuffWrite (conn : HttpConnection) (count : ℕ) : HttpConnection :=
  if count ≠ 0 then
    (conn.consumeRequest (2 + count)).asyncRead .untilCrlf .handleChunkedHeader
  else
    conn.complete 0

/-! ### Dispatch -/

/-- `"/" + path_segments[0] + ... + "/"` for the first `count` segments. -/
def prefixPath (pathSegments : List Bytes) (count : ℕ) : Bytes :=
  (pathSegments.take count).flatMap (ascii "/" ++ ·) ++ ascii "/"

/-- The loop that locates the handler, from `i` down. -/
def locateHandler (getReqHandler : Bytes → Option ℕ) (pathSegments : List Bytes) :
    ℕ → Option ℕ → Option ℕ
  | 0, _ => getReqHandler (prefixPath pathSegments 0)
  | i + 1, _ =>
      locateHandler getReqHandler pathSegments i
        (getReqHandler (prefixPath pathSegments (i + 1)))

/-- `dispatch_request_to_listener`, up to the call of `handle_request`: what the handler does
with the request comes as events of its own. -/
def dispatchRequestToListener (getReqHandler : Bytes → Option ℕ) (conn : HttpConnection) :
    HttpConnection :=
  let request := conn.request
  let dispatched : Dispatched := ⟨request.method, request.url, request.headers⟩
  let conn :=
    { conn with log := { conn.log with dispatched := conn.log.dispatched ++ [dispatched] } }
  let pathSegments := Uri.splitPath request.url
  match locateHandler getReqHandler pathSegments pathSegments.length none with
  | none => (conn.replyIfNotAlready StatusCodes.notFound).doResponse false
  | some handler =>
      let conn := conn.doResponse false
      { conn with log := { conn.log with handled := conn.log.handled ++ [handler] } }

/-! ### The head of a request -/

/-- One header line added to the map; `none` when it is no header. -/
def addHeaderLine (headers : HttpHeaders) (header : Bytes) : Option HttpHeaders :=
  let colon := header.idxOf 58
  if colon < header.length ∧ colon ≠ 0 then
    let name := trimWhitespace (header.take colon)
    let value := trimWhitespace (header.drop (colon + 1))
    some (headers.modify name fun currentValue =>
      if currentValue.isEmpty || iequals name HeaderNames.contentLength then value
      else currentValue ++ ascii ", " ++ value)
  else
    none

/-- The loop over the header lines, at most `fuel` of them: whether all were headers, with the
map and what is left in the buffer. -/
def headerLoop : ℕ → Istream → Bytes → HttpHeaders → Bool × HttpHeaders × Bytes
  | 0, stream, _, headers => (true, headers, stream.rest)
  | fuel + 1, stream, header, headers =>
      let (header, stream) := stream.getline header
      if stream.fail || header == [cr] then
        (true, headers, stream.rest)
      else
        match addHeaderLine headers header with
        | some headers => headerLoop fuel stream header headers
        | none => (false, headers, stream.rest)

/-- How `handle_headers` goes on after the last header line.  The streams on the body are taken
to be made; of a buffer that no `shared_ptr` owns, as it is here, `create_istream` throws. -/
def headersRead (getReqHandler : Bytes → Option ℕ) (conn : HttpConnection) : HttpConnection :=
  let headers := conn.request.headers
  let (hasConnection, name) := headers.matchString HeaderNames.connection []
  let (hasTransferEncoding, transferEncoding) :=
    headers.matchString HeaderNames.transferEncoding name
  let conn :=
    { conn with
      close := hasConnection && iequals name (ascii "close")
      chunked := hasTransferEncoding && ifindFirst (ascii "chunked") transferEncoding
      request := { conn.request with stream := Session.new 512 } }
  if conn.chunked then
    dispatchRequestToListener getReqHandler (conn.asyncRead .untilCrlf .handleChunkedHeader)
  else
    let (hasContentLength, readSize) :=
      headers.matchSize HeaderNames.contentLength conn.readSize
    let conn := { conn with readSize := if hasContentLength then readSize else 0 }
    dispatchRequestToListener getReqHandler <|
      if conn.readSize = 0 then
        conn.complete 0
      else
        { conn with read := 0 }.asyncReadUntilBuffersize (min chunkSize conn.readSize)
          .handleBody

def handleHeaders (getReqHandler : Bytes → Option ℕ) (conn : HttpConnection) :
    HttpConnection :=
  let (accepted, headers, rest) :=
    headerLoop (conn.requestBuf.length + 1) (.new conn.requestBuf) [] conn.request.headers
  let conn :=
    { conn with requestBuf := rest, request := { conn.request with headers := headers } }
  if accepted then conn.headersRead getReqHandler else conn.rejectBadRequest

def handleHttpLine (getReqHandler : Bytes → Option ℕ) (conn : HttpConnection)
    (ec : ErrorCode) : HttpConnection :=
  if ec ≠ .success then
    if ec = .eof ∨ ec = .operationAborted then conn.finishRequestResponse
    else conn.rejectBadRequest
  else
    let (httpVerb, stream) := (Istream.new conn.requestBuf).getString []
    let httpVerb := normaliseMethod httpVerb
    if !validateMethod httpVerb then
      { conn with requestBuf := stream.rest }.rejectBadRequest
    else
      let (httpPathAndVersion, stream) := stream.getline []
      let conn :=
        { conn with
          requestBuf := stream.rest
          request := { conn.request with method := httpVerb } }
      let size := httpPathAndVersion.length
      if size < versionPortionSize + 2 then
        conn.rejectBadRequest
      else
        let httpVersion :=
          substr httpPathAndVersion (size - versionPortionSize + 1) (versionPortionSize - 2)
        handleHeaders getReqHandler
          { conn with
            request := { conn.request with
              url := substr httpPathAndVersion 1 (size - versionPortionSize - 1) }
            close := conn.close || httpVersion == ascii "HTTP/1.0" }

/-! ### The tasks of the worker -/

def runBufWrite (conn : HttpConnection) (handler : BufWriteHandler) (count : ℕ) :
    HttpConnection :=
  match handler with
  | .handleBodyBuffWrite => conn.handleBodyBuffWrite count
  | .handleChunkedBodyBuffWrite => conn.handleChunkedBodyBuffWrite count

def runTask (conn : HttpConnection) : Task → HttpConnection
  | .responseReady (.handleResponse badRequest) =>
      conn.handleResponse conn.request.response badRequest
  | .responseReady (.user _) => conn
  | .dataReady (.handleRequestDataReady response) size =>
      conn.handleRequestDataReady size response
  | .dataReady (.user _) _ => conn
  | .responseComplete _ _ => conn
  | .bufRead handler result => conn.runBufRead handler result
  | .putn source handler =>
      let stream := conn.request.stream
      let (count, _) := stream.buffer.write source
      runBufWrite
        { conn with request := { conn.request with stream := stream.exec (.write source) } }
        handler count
  | .bufWrite handler count => conn.runBufWrite handler count

end HttpConnection

end Snode.Http
