import Snode.Http.Reception

/-!
# Requests and responses on a connection

An abstract model of a connection that forgets the bytes: which requests were
dispatched, who waits for a response or for the end of a body, and which
responses were given to `async_process_response`.  It is a small machine whose
actions are the calls between the connection and its request, and every event
of a connection is a sequence of these actions.
-/

namespace Snode.Http

open Streams

/-- The tasks that lead to a response being sent. -/
def Task.answers : Task → Bool
  | .responseReady (.handleResponse _) | .dataReady (.handleRequestDataReady _) _ => true
  | .responseReady (.user _) | .dataReady (.user _) _ | .responseComplete _ _ | .bufRead _ _
  | .putn _ _ | .bufWrite _ _ => false

/-- Reads of the head of a request. -/
def SocketRead.readsHead (read : SocketRead) : Bool :=
  read.handler == .handleHttpLine

/-- Whether the application, or the connection in its place, replies. -/
def Event.replies : Event → Bool
  | .reply _ _ | .handlerThrew => true
  | _ => false

structure Exchange where
  dispatched : List Dispatched
  handled : List ℕ
  rejected : ℕ
  discarded : Bytes
  completed : List ℕ
  processed : List HttpResponse
  /-- How many reads of a head are under way. -/
  heads : ℕ
  nextResponse : HttpResponse
  dataAvailable : ℕ
  dataReadyHandlers : List DataHandler
  responseReady : Bool
  initiatedResponse : Bool
  response : HttpResponse
  responseHandlers : List ResponseHandler
  tasks : List Task
  deriving DecidableEq

namespace Exchange

/-- The calls an event consists of. -/
inductive Action where
  /-- A read of a head is done. -/
  | takeHead
  | reject
  | dispatch (dispatched : Dispatched)
  | handle (handler : ℕ)
  | complete (bodySize : ℕ)
  | reply
  | replyIfNotAlready
  | doResponse (badRequest : Bool)
  | runTask
  /-- `start_request_response`, with what it clears. -/
  | restart (requestBuf : Bytes)

def reply (exchange : Exchange) : Exchange :=
  if exchange.initiatedResponse then
    { exchange with nextResponse := exchange.nextResponse + 1 }
  else
    { exchange with
      nextResponse := exchange.nextResponse + 1
      initiatedResponse := true
      response := exchange.nextResponse
      responseReady := true
      responseHandlers := []
      tasks := exchange.tasks ++
        (exchange.responseHandlers.map Task.responseReady).filter Task.answers }

def doResponse (exchange : Exchange) (badRequest : Bool) : Exchange :=
  if !exchange.responseReady then
    { exchange with
      responseHandlers := exchange.responseHandlers ++ [.handleResponse badRequest] }
  else
    { exchange with
      tasks := exchange.tasks ++ [.responseReady (.handleResponse badRequest)] }

def process (exchange : Exchange) (response : HttpResponse) : Exchange :=
  { exchange with processed := exchange.processed ++ [response] }

def handleResponse (exchange : Exchange) (badRequest : Bool) : Exchange :=
  if badRequest ∨ exchange.dataAvailable ≠ 0 then
    exchange.process exchange.response
  else
    { exchange with
      dataReadyHandlers :=
        exchange.dataReadyHandlers ++ [.handleRequestDataReady exchange.response] }

def run (exchange : Exchange) : Task → Exchange
  | .responseReady (.handleResponse badRequest) => exchange.handleResponse badRequest
  | .dataReady (.handleRequestDataReady response) size =>
      if size ≠ 0 then exchange.process response else exchange
  | _ => exchange

def runTask (exchange : Exchange) : Exchange :=
  match exchange.tasks with
  | [] => exchange
  | task :: rest => run { exchange with tasks := rest } task

def exec (exchange : Exchange) : Action → Exchange
  | .takeHead => { exchange with heads := exchange.heads - 1 }
  | .reject => { exchange with rejected := exchange.rejected + 1 }
  | .dispatch dispatched =>
      { exchange with dispatched := exchange.dispatched ++ [dispatched] }
  | .handle handler => { exchange with handled := exchange.handled ++ [handler] }
  | .complete bodySize =>
      { exchange with
        dataAvailable := bodySize
        completed := exchange.completed ++ [bodySize] }
  | .reply => exchange.reply
  | .replyIfNotAlready => if exchange.initiatedResponse then exchange else exchange.reply
  | .doResponse badRequest => exchange.doResponse badRequest
  | .runTask => exchange.runTask
  | .restart requestBuf =>
      { exchange with
        heads := exchange.heads + 1
        discarded := exchange.discarded ++ requestBuf }

/-- The state after some actions. -/
def execAll (exchange : Exchange) (actions : List Action) : Exchange :=
  actions.foldl exec exchange

@[simp]
theorem execAll_nil (exchange : Exchange) : exchange.execAll [] = exchange := rfl

@[simp]
theorem execAll_cons (exchange : Exchange) (action : Action) (actions : List Action) :
    exchange.execAll (action :: actions) = (exchange.exec action).execAll actions := rfl

theorem execAll_append (exchange : Exchange) (first second : List Action) :
    exchange.execAll (first ++ second) = (exchange.execAll first).execAll second :=
  List.foldl_append

/-- The rule of invariants for sequences of actions. -/
theorem execAll_invariant {property : Exchange → Prop} {allowed : Action → Prop}
    (preserved : ∀ exchange action, property exchange → allowed action →
      property (exchange.exec action))
    {exchange : Exchange} {actions : List Action} (initially : property exchange)
    (all : ∀ action ∈ actions, allowed action) : property (exchange.execAll actions) := by
  induction actions generalizing exchange with
  | nil => exact initially
  | cons action actions ih =>
      exact ih (preserved _ _ initially (all action List.mem_cons_self))
        fun other present => all other (List.mem_cons_of_mem _ present)

end Exchange

namespace HttpConnection

def exchange (conn : HttpConnection) : Exchange where
  dispatched := conn.log.dispatched
  handled := conn.log.handled
  rejected := conn.log.rejected
  discarded := conn.log.discarded
  completed := conn.log.completed
  processed := conn.log.processed
  heads := conn.reading.countP SocketRead.readsHead
  nextResponse := conn.nextResponse
  dataAvailable := conn.request.dataAvailable
  dataReadyHandlers := conn.request.dataReadyHandlers
  responseReady := conn.request.responseReady
  initiatedResponse := conn.request.initiatedResponse
  response := conn.request.response
  responseHandlers := conn.request.responseHandlers
  tasks := conn.tasks.filter Task.answers

/-! ### Calls that are actions -/

theorem exchange_connect (conn : HttpConnection) (tasks : List Task) :
    (conn.connect tasks).exchange =
      { conn.exchange with tasks := conn.exchange.tasks ++ tasks.filter Task.answers } := by
  simp [exchange, connect]

@[simp]
theorem exchange_complete (conn : HttpConnection) (bodySize : ℕ) :
    (conn.complete bodySize).exchange = conn.exchange.exec (.complete bodySize) := rfl

@[simp]
theorem exchange_doResponse (conn : HttpConnection) (badRequest : Bool) :
    (conn.doResponse badRequest).exchange = conn.exchange.exec (.doResponse badRequest) := by
  by_cases ready : (!conn.request.responseReady) = true
  · have abstractReady : (!conn.exchange.responseReady) = true := ready
    simp only [doResponse, getResponse, HttpRequestImpl.asyncGetResponse, if_pos ready,
      exchange_connect, Exchange.exec, Exchange.doResponse, if_pos abstractReady]
    simp [exchange]
  · have abstractReady : ¬(!conn.exchange.responseReady) = true := ready
    simp only [doResponse, getResponse, HttpRequestImpl.asyncGetResponse, if_neg ready,
      exchange_connect, Exchange.exec, Exchange.doResponse, if_neg abstractReady]
    simp [exchange, Task.answers]

@[simp]
theorem exchange_replyIfNotAlready (conn : HttpConnection) (status : ℕ) :
    (conn.replyIfNotAlready status).exchange = conn.exchange.exec .replyIfNotAlready := by
  by_cases initiated : conn.request.initiatedResponse = true
  · have abstractInitiated : conn.exchange.initiatedResponse = true := initiated
    simp only [replyIfNotAlready, if_pos initiated, Exchange.exec, if_pos abstractInitiated]
  · have abstractInitiated : ¬conn.exchange.initiatedResponse = true := initiated
    simp only [replyIfNotAlready, if_neg initiated, makeResponse, updateResponse,
      HttpRequestImpl.replyIfNotAlready, HttpRequestImpl.replyImpl, exchange_connect,
      Exchange.exec, if_neg abstractInitiated, Exchange.reply]
    rfl

@[simp]
theorem exchange_reply (conn : HttpConnection) (impl : HttpResponseImpl) (handler : ℕ) :
    (conn.reply impl handler).exchange = conn.exchange.exec .reply := by
  by_cases initiated : conn.request.initiatedResponse = true
  · have abstractInitiated : conn.exchange.initiatedResponse = true := initiated
    simp only [reply, makeResponse, updateResponse, HttpRequestImpl.reply,
      HttpRequestImpl.replyImpl, if_pos initiated, exchange_connect, Exchange.exec,
      Exchange.reply, if_pos abstractInitiated]
    simp [exchange]
  · have abstractInitiated : ¬conn.exchange.initiatedResponse = true := initiated
    simp only [reply, makeResponse, updateResponse, HttpRequestImpl.reply,
      HttpRequestImpl.replyImpl, if_neg initiated, exchange_connect, Exchange.exec,
      Exchange.reply, if_neg abstractInitiated]
    rfl

theorem exchange_startRequestResponse (conn : HttpConnection) :
    conn.startRequestResponse.exchange = conn.exchange.exec (.restart conn.requestBuf) := by
  simp [startRequestResponse, asyncRead, exchange, Exchange.exec, SocketRead.readsHead]

@[simp]
theorem exchange_asyncProcessResponse (conn : HttpConnection) (response : HttpResponse) :
    (conn.asyncProcessResponse response).exchange = conn.exchange.process response := rfl

theorem exchange_handleResponse (conn : HttpConnection) (badRequest : Bool) :
    (conn.handleResponse conn.request.response badRequest).exchange =
      conn.exchange.handleResponse badRequest := by
  by_cases bad : badRequest = true
  · simp only [handleResponse, Exchange.handleResponse, bad, true_or, if_true]
    rfl
  · by_cases available : conn.request.dataAvailable = 0
    · have abstractAvailable : ¬(badRequest = true ∨ conn.exchange.dataAvailable ≠ 0) := by
        simp [bad, exchange, available]
      simp only [handleResponse, if_neg bad, available, ne_eq, not_true_eq_false, if_false,
        contentReady, HttpRequestImpl.asyncGetDataAvailable, if_true, exchange_connect,
        Exchange.handleResponse, if_neg abstractAvailable]
      simp [exchange, available]
    · have abstractAvailable : badRequest = true ∨ conn.exchange.dataAvailable ≠ 0 :=
        .inr available
      simp only [handleResponse, if_neg bad, ne_eq, available, not_false_eq_true, if_true,
        Exchange.handleResponse, if_pos abstractAvailable]
      rfl

/-! ### Calls that are none -/

@[simp]
theorem exchange_finishRequestResponse (conn : HttpConnection) :
    conn.finishRequestResponse.exchange = conn.exchange := rfl

@[simp]
theorem exchange_responseSendComplete (conn : HttpConnection) (err : ErrorCode) :
    (conn.responseSendComplete err).exchange = conn.exchange := by
  have others : (conn.request.responseCompleteHandlers.map
      (Task.responseComplete · err)).filter Task.answers = [] := by
    simp [List.filter_eq_nil_iff, Task.answers]
  simp only [responseSendComplete, HttpRequestImpl.responseSendComplete, exchange_connect,
    others, List.append_nil]
  rfl

@[simp]
theorem exchange_cancelSendingResponseWithError (conn : HttpConnection) (err : ErrorCode) :
    (conn.cancelSendingResponseWithError err).exchange = conn.exchange := by
  simp [cancelSendingResponseWithError]

@[simp]
theorem exchange_bodyOp (conn : HttpConnection) (response : HttpResponse)
    (op : Op UInt8 BufReadHandler) : (conn.bodyOp response op).exchange = conn.exchange := by
  have one (conn : HttpConnection) (completed : Completed UInt8 BufReadHandler) :
      (conn.bufReadCompleted completed).exchange = conn.exchange := by
    simp [bufReadCompleted, exchange, connect, Task.answers]
  have all (completions : List (Completed UInt8 BufReadHandler)) (conn : HttpConnection) :
      (completions.foldl bufReadCompleted conn).exchange = conn.exchange := by
    induction completions generalizing conn with
    | nil => rfl
    | cons completed rest ih => rw [List.foldl_cons, ih, one]
  rw [bodyOp, all]
  rfl

@[simp]
theorem exchange_getnBody (conn : HttpConnection) (response : HttpResponse) (count : ℕ)
    (handler : BufReadHandler) :
    (conn.getnBody response count handler).exchange = conn.exchange := by
  have others (refused : List (BufReadHandler × Completion UInt8)) :
      (refused.map fun completion => Task.bufRead completion.1 completion.2).filter
        Task.answers = [] := by
    simp only [List.filter_eq_nil_iff, List.mem_map]
    rintro _ ⟨completion, -, rfl⟩
    simp [Task.answers]
  simp only [getnBody, exchange_connect, exchange_bodyOp, others, List.append_nil]

@[simp]
theorem exchange_prepare (conn : HttpConnection) (memory : Bytes) :
    (conn.prepare memory).exchange = conn.exchange := rfl

@[simp]
theorem exchange_consumeRequest (conn : HttpConnection) (count : ℕ) :
    (conn.consumeRequest count).exchange = conn.exchange := rfl

theorem exchange_asyncRead (conn : HttpConnection) (condition : ReadCondition)
    {handler : ReadHandler} (other : handler ≠ .handleHttpLine) :
    (conn.asyncRead condition handler).exchange = conn.exchange := by
  simp [asyncRead, exchange, SocketRead.readsHead, other]

theorem exchange_asyncReadUntilBuffersize (conn : HttpConnection) (size : ℕ)
    {handler : ReadHandler} (other : handler ≠ .handleHttpLine) :
    (conn.asyncReadUntilBuffersize size handler).exchange = conn.exchange := by
  simp only [asyncReadUntilBuffersize]
  split <;> exact exchange_asyncRead _ _ other

@[simp]
theorem exchange_putn (conn : HttpConnection) (count : ℕ) (handler : BufWriteHandler) :
    (conn.putn count handler).exchange = conn.exchange := by
  simp only [putn]
  split
  · rfl
  · split
    · simp [exchange_connect, Task.answers]
    · split
      · rfl
      · simp [exchange_connect, Task.answers]

@[simp]
theorem exchange_runBufRead (conn : HttpConnection) (handler : BufReadHandler)
    (result : Completion UInt8) :
    (conn.runBufRead handler result).exchange = conn.exchange := by
  cases handler with
  | handleChunkedResponseBuffRead response =>
      simp only [runBufRead, handleChunkedResponseBuffRead]
      split
      · simp
      · split <;> rfl
  | handleLargeResponseBuffRead response =>
      simp only [runBufRead, handleLargeResponseBuffRead]
      split
      · simp
      · rfl

/-! ### The end of a response -/

/-- The write whose end is the end of a response. -/
def endsResponse (conn : HttpConnection) : WriteHandler → Bool
  | .handleHeadersWritten _ => !conn.chunked && conn.write == conn.writeSize
  | .handleWriteChunkedResponse _ => false
  | .handleWriteLargeResponse _ => conn.write == conn.writeSize
  | .handleResponseWritten _ => true

/-- An event after which the connection reads the head of another request. -/
def restarts (conn : HttpConnection) : Event → Bool
  | .writeDone _ => conn.writing.head?.any conn.endsResponse && !conn.close
  | _ => false

theorem exchange_handleResponseWritten (conn : HttpConnection) (ec : ErrorCode) :
    (conn.handleResponseWritten ec).exchange = conn.exchange ∨
      conn.close = false ∧ ec = .success ∧
        (conn.handleResponseWritten ec).exchange =
          conn.exchange.exec (.restart conn.requestBuf) := by
  by_cases error : ec ≠ .success
  · simp only [handleResponseWritten, if_pos error]
    exact .inl (exchange_cancelSendingResponseWithError _ _)
  · by_cases close : (!conn.close) = true
    · refine .inr ⟨by simpa using close, not_not.mp error, ?_⟩
      have keepAlive : (!(conn.responseSendComplete ec).close) = true := close
      simp only [handleResponseWritten, if_neg error, if_pos keepAlive,
        exchange_startRequestResponse, exchange_responseSendComplete]
      rfl
    · have closing : ¬(!(conn.responseSendComplete ec).close) = true := close
      simp only [handleResponseWritten, if_neg error, if_neg closing]
      exact .inl (exchange_responseSendComplete _ _)

theorem exchange_handleWriteChunkedResponse (conn : HttpConnection) (response : HttpResponse)
    (ec : ErrorCode) (memory : Bytes) :
    (conn.handleWriteChunkedResponse response ec memory).exchange = conn.exchange := by
  by_cases error : ec ≠ .success
  · simp only [handleWriteChunkedResponse, handleResponseWritten, if_pos error,
      exchange_cancelSendingResponseWithError]
  · simp only [handleWriteChunkedResponse, if_neg error]
    split <;> simp

theorem exchange_handleWriteLargeResponse (conn : HttpConnection) (response : HttpResponse)
    (ec : ErrorCode) (memory : Bytes) :
    (conn.handleWriteLargeResponse response ec memory).exchange = conn.exchange ∨
      conn.write = conn.writeSize ∧ conn.close = false ∧ ec = .success ∧
        (conn.handleWriteLargeResponse response ec memory).exchange =
          conn.exchange.exec (.restart conn.requestBuf) := by
  by_cases last : ec ≠ .success ∨ conn.write = conn.writeSize
  · simp only [handleWriteLargeResponse, if_pos last]
    rcases conn.exchange_handleResponseWritten ec with same | ⟨close, success, restarted⟩
    · exact .inl same
    · exact .inr ⟨last.resolve_left (not_not.mpr success), close, success, restarted⟩
  · simp only [handleWriteLargeResponse, if_neg last]
    left
    split <;> simp

theorem exchange_runWriteHandler (conn : HttpConnection) (handler : WriteHandler)
    (ec : ErrorCode) (memory : Bytes) :
    (conn.runWriteHandler handler ec memory).exchange = conn.exchange ∨
      conn.endsResponse handler = true ∧ conn.close = false ∧ ec = .success ∧
        (conn.runWriteHandler handler ec memory).exchange =
          conn.exchange.exec (.restart conn.requestBuf) := by
  cases handler with
  | handleHeadersWritten response =>
      by_cases error : ec ≠ .success
      · simp only [runWriteHandler, handleHeadersWritten, if_pos error]
        exact .inl (exchange_cancelSendingResponseWithError _ _)
      · by_cases chunked : conn.chunked = true
        · simp only [runWriteHandler, handleHeadersWritten, if_neg error, if_pos chunked]
          exact .inl (exchange_handleWriteChunkedResponse _ _ _ _)
        · simp only [runWriteHandler, handleHeadersWritten, if_neg error, if_neg chunked]
          rcases conn.exchange_handleWriteLargeResponse response ec memory with
            same | ⟨last, restarted⟩
          · exact .inl same
          · exact .inr ⟨by simp [endsResponse, chunked, last], restarted⟩
  | handleWriteChunkedResponse response =>
      exact .inl (exchange_handleWriteChunkedResponse _ _ _ _)
  | handleWriteLargeResponse response =>
      rcases conn.exchange_handleWriteLargeResponse response ec memory with
        same | ⟨last, restarted⟩
      · exact .inl same
      · exact .inr ⟨by simp [endsResponse, last], restarted⟩
  | handleResponseWritten response =>
      rcases conn.exchange_handleResponseWritten ec with same | restarted
      · exact .inl same
      · exact .inr ⟨rfl, restarted⟩

/-! ### The body of a request -/

/-- What the reception of a body leaves alone. -/
def sending (conn : HttpConnection) :
    List WriteHandler × (HttpResponse → HttpResponseImpl) × List Task :=
  (conn.writing, conn.responses, conn.tasks.filter fun task => !task.receives)

/-- What the reception of a body can do to an exchange. -/
def Completing (before after : Exchange) : Prop :=
  after = before ∨ ∃ bodySize, after = before.exec (.complete bodySize)

/-- What the reception of a body does to a connection. -/
structure Receiving (before after : HttpConnection) : Prop where
  exchange : Completing before.exchange after.exchange
  sending : after.sending = before.sending

theorem receiving_complete (conn : HttpConnection) (bodySize : ℕ) :
    Receiving conn (conn.complete bodySize) :=
  ⟨.inr ⟨bodySize, rfl⟩, rfl⟩

theorem receiving_asyncRead (conn : HttpConnection) (condition : ReadCondition)
    {handler : ReadHandler} (other : handler ≠ .handleHttpLine) :
    Receiving conn (conn.asyncRead condition handler) :=
  ⟨.inl (exchange_asyncRead _ _ other), rfl⟩

theorem receiving_asyncReadUntilBuffersize (conn : HttpConnection) (size : ℕ)
    {handler : ReadHandler} (other : handler ≠ .handleHttpLine) :
    Receiving conn (conn.asyncReadUntilBuffersize size handler) := by
  simp only [asyncReadUntilBuffersize]
  split <;> exact receiving_asyncRead _ _ other

theorem receiving_putn (conn : HttpConnection) (count : ℕ) (handler : BufWriteHandler) :
    Receiving conn (conn.putn count handler) := by
  refine ⟨.inl (exchange_putn _ _ _), ?_⟩
  simp only [putn]
  split
  · rfl
  · split
    · simp [sending, connect, Task.receives]
    · split
      · rfl
      · simp [sending, connect, Task.receives]

theorem receiving_handleBody (conn : HttpConnection) (ec : ErrorCode) :
    Receiving conn (conn.handleBody ec) := by
  simp only [handleBody]
  split
  · exact receiving_complete _ _
  · split
    · exact receiving_putn _ _ _
    · exact receiving_complete _ _

theorem receiving_handleChunkedHeader (conn : HttpConnection) (ec : ErrorCode) (value : Int) :
    Receiving conn (conn.handleChunkedHeader ec value) := by
  have body (toWrite : Int) : ReadHandler.handleChunkedBody toWrite ≠ .handleHttpLine := by simp
  simp only [handleChunkedHeader]
  split
  · exact receiving_complete _ _
  · split
    · exact ⟨.inr ⟨_, rfl⟩, rfl⟩
    · exact ⟨.inl (exchange_asyncReadUntilBuffersize _ _ (body _)),
        (receiving_asyncReadUntilBuffersize _ _ (body _)).sending⟩

theorem receiving_handleChunkedBody (conn : HttpConnection) (ec : ErrorCode) (toWrite : Int) :
    Receiving conn (conn.handleChunkedBody ec toWrite) := by
  simp only [handleChunkedBody]
  split
  · exact receiving_complete _ _
  · exact receiving_putn _ _ _

theorem receiving_runBufWrite (conn : HttpConnection) (handler : BufWriteHandler) (count : ℕ) :
    Receiving conn (conn.runBufWrite handler count) := by
  have body : ReadHandler.handleBody ≠ .handleHttpLine := by simp
  have chunkedHeader : ReadHandler.handleChunkedHeader ≠ .handleHttpLine := by simp
  cases handler with
  | handleBodyBuffWrite =>
      simp only [runBufWrite, handleBodyBuffWrite]
      split
      · exact ⟨.inl (exchange_asyncReadUntilBuffersize _ _ body),
          (receiving_asyncReadUntilBuffersize _ _ body).sending⟩
      · exact receiving_complete _ _
  | handleChunkedBodyBuffWrite =>
      simp only [runBufWrite, handleChunkedBodyBuffWrite]
      split
      · exact ⟨.inl (exchange_asyncRead _ _ chunkedHeader), rfl⟩
      · exact receiving_complete _ _

theorem receiving_readDone (getReqHandler : Bytes → Option ℕ) {conn : HttpConnection}
    {read : SocketRead} {rest : List SocketRead} (reading : conn.reading = read :: rest)
    (other : ¬read.readsHead = true) (ec : ErrorCode) (value : Int) :
    Receiving conn (readDone getReqHandler conn ec value) := by
  have popped : { conn with reading := rest }.exchange = conn.exchange := by
    simp [exchange, reading, other]
  suffices receiving : Receiving { conn with reading := rest }
      (readDone getReqHandler conn ec value) from
    ⟨popped ▸ receiving.exchange, receiving.sending⟩
  simp only [readDone, reading]
  cases handler : read.handler with
  | handleHttpLine => simp [SocketRead.readsHead, handler] at other
  | handleChunkedHeader => exact receiving_handleChunkedHeader _ _ _
  | handleChunkedBody toWrite => exact receiving_handleChunkedBody _ _ _
  | handleBody => exact receiving_handleBody _ _

/-! ### The head of a request -/

/-- The request of a connection as it would be dispatched now. -/
def dispatchable (conn : HttpConnection) : Dispatched :=
  ⟨conn.request.method, conn.request.url, conn.request.headers⟩

/-- The dispatch of a request. -/
def dispatchActions (getReqHandler : Bytes → Option ℕ) (dispatched : Dispatched) :
    List Exchange.Action :=
  let pathSegments := Uri.splitPath dispatched.url
  .dispatch dispatched ::
    match locateHandler getReqHandler pathSegments pathSegments.length none with
    | none => [.replyIfNotAlready, .doResponse false]
    | some handler => [.doResponse false, .handle handler]

def rejectActions : List Exchange.Action :=
  [.replyIfNotAlready, .reject, .doResponse true]

@[simp]
theorem exchange_dispatchRequestToListener (getReqHandler : Bytes → Option ℕ)
    (conn : HttpConnection) :
    (dispatchRequestToListener getReqHandler conn).exchange =
      conn.exchange.execAll (dispatchActions getReqHandler conn.dispatchable) := by
  let located (url : Bytes) : Option ℕ :=
    locateHandler getReqHandler (Uri.splitPath url) (Uri.splitPath url).length none
  rcases found : located conn.request.url with _ | handler
  · have foundDispatchable : located conn.dispatchable.url = none := found
    simp only [located] at found foundDispatchable
    simp only [dispatchRequestToListener, dispatchActions, found, foundDispatchable,
      exchange_doResponse, exchange_replyIfNotAlready]
    rfl
  · have foundDispatchable : located conn.dispatchable.url = some handler := found
    have handled (conn : HttpConnection) :
        { conn with
          log := { conn.log with handled := conn.log.handled ++ [handler] } }.exchange =
          conn.exchange.exec (.handle handler) := rfl
    simp only [located] at found foundDispatchable
    simp only [dispatchRequestToListener, dispatchActions, found, foundDispatchable]
    rw [handled, exchange_doResponse]
    rfl

@[simp]
theorem exchange_rejectBadRequest (conn : HttpConnection) :
    conn.rejectBadRequest.exchange = conn.exchange.execAll rejectActions := by
  simp only [rejectBadRequest, exchange_doResponse, rejectActions, Exchange.execAll_cons,
    Exchange.execAll_nil]
  rw [← exchange_replyIfNotAlready]
  rfl

/-- A connection whose head was read up to `parsed`: what is pending is what was before, and a
request without a body was completed. -/
structure HeadParsed (conn parsed : HttpConnection) (completes : List Exchange.Action) :
    Prop where
  tasks : parsed.tasks = conn.tasks
  writing : parsed.writing = conn.writing
  responses : parsed.responses = conn.responses
  exchange : parsed.exchange = conn.exchange.execAll completes
  completes : completes = [] ∨ completes = [.complete 0]

theorem headersRead_cases (getReqHandler : Bytes → Option ℕ) (conn : HttpConnection) :
    ∃ parsed completes, HeadParsed conn parsed completes ∧
      parsed.dispatchable = conn.dispatchable ∧
      headersRead getReqHandler conn = dispatchRequestToListener getReqHandler parsed := by
  have chunkedHeader : ReadHandler.handleChunkedHeader ≠ .handleHttpLine := by simp
  have body : ReadHandler.handleBody ≠ .handleHttpLine := by simp
  simp only [headersRead]
  split
  · refine ⟨_, [], ?_, ?_, rfl⟩
    · exact ⟨rfl, rfl, rfl, exchange_asyncRead _ _ chunkedHeader, .inl rfl⟩
    · rfl
  · generalize (if (conn.request.headers.matchSize HeaderNames.contentLength conn.readSize).1 = true
      then (conn.request.headers.matchSize HeaderNames.contentLength conn.readSize).2 else 0) = size
    by_cases empty : size = 0
    · rw [if_pos empty]
      refine ⟨_, [.complete 0], ?_, ?_, rfl⟩
      · exact ⟨rfl, rfl, rfl, exchange_complete _ _, .inr rfl⟩
      · rfl
    · rw [if_neg empty]
      refine ⟨_, [], ?_, ?_, rfl⟩
      · refine ⟨?_, ?_, ?_, exchange_asyncReadUntilBuffersize _ _ body, .inl rfl⟩
        all_goals
          simp only [asyncReadUntilBuffersize]
          split <;> rfl
      · simp only [asyncReadUntilBuffersize]
        split <;> rfl

/-- A head is given up, refused or dispatched. -/
theorem handleHttpLine_cases (getReqHandler : Bytes → Option ℕ) (conn : HttpConnection)
    (ec : ErrorCode) :
    handleHttpLine getReqHandler conn ec = conn.finishRequestResponse ∨
      ∃ parsed completes, HeadParsed conn parsed completes ∧
        (handleHttpLine getReqHandler conn ec = parsed.rejectBadRequest ∨
          handleHttpLine getReqHandler conn ec =
            dispatchRequestToListener getReqHandler parsed) := by
  have unparsed {parsed : HttpConnection} (tasks : parsed.tasks = conn.tasks)
      (writing : parsed.writing = conn.writing) (responses : parsed.responses = conn.responses)
      (exchange : parsed.exchange = conn.exchange) : HeadParsed conn parsed [] :=
    ⟨tasks, writing, responses, exchange, .inl rfl⟩
  simp only [handleHttpLine]
  split
  · split
    · exact .inl rfl
    · exact .inr ⟨conn, [], unparsed rfl rfl rfl rfl, .inl rfl⟩
  · right
    split
    · refine ⟨_, [], ?_, .inl rfl⟩
      exact unparsed rfl rfl rfl rfl
    · split
      · refine ⟨_, [], ?_, .inl rfl⟩
        exact unparsed rfl rfl rfl rfl
      · simp only [handleHeaders]
        split
        · rcases headersRead_cases getReqHandler _ with ⟨parsed, completes, is, -, dispatched⟩
          refine ⟨parsed, completes, ?_, .inr dispatched⟩
          exact ⟨is.tasks, is.writing, is.responses, is.exchange, is.completes⟩
        · refine ⟨_, [], ?_, .inl rfl⟩
          exact unparsed rfl rfl rfl rfl

/-! ### Tasks -/

theorem exchange_runTask_answers {conn : HttpConnection} {task : Task} {rest : List Task}
    (tasks : conn.tasks = task :: rest) (answers : task.answers = true) :
    (runTask { conn with tasks := rest } task).exchange = conn.exchange.exec .runTask := by
  have abstractTasks : conn.exchange.tasks = task :: rest.filter Task.answers := by
    simp [exchange, tasks, answers]
  simp only [Exchange.exec, Exchange.runTask, abstractTasks]
  cases task with
  | responseReady handler =>
      cases handler with
      | handleResponse badRequest => exact exchange_handleResponse { conn with tasks := rest } _
      | user handler => simp [Task.answers] at answers
  | dataReady handler size =>
      cases handler with
      | handleRequestDataReady response =>
          simp only [runTask, handleRequestDataReady, Exchange.run]
          split <;> rfl
      | user handler => simp [Task.answers] at answers
  | responseComplete | bufRead | putn | bufWrite => simp [Task.answers] at answers

theorem receiving_runTask {conn : HttpConnection} {task : Task} {rest : List Task}
    (tasks : conn.tasks = task :: rest) (receives : task.receives = true) :
    Receiving conn (runTask { conn with tasks := rest } task) := by
  have popped : { conn with tasks := rest }.exchange = conn.exchange ∧
      { conn with tasks := rest }.sending = conn.sending := by
    have other : task.answers = false := by
      cases task <;> simp_all [Task.receives, Task.answers]
    simp [exchange, sending, tasks, receives, other]
  suffices receiving : Receiving { conn with tasks := rest }
      (runTask { conn with tasks := rest } task) from
    ⟨popped.1 ▸ receiving.exchange, popped.2 ▸ receiving.sending⟩
  cases task with
  | responseReady | dataReady | responseComplete | bufRead => simp [Task.receives] at receives
  | putn source handler =>
      simp only [runTask]
      have written := receiving_runBufWrite
        { conn with
          tasks := rest
          request := { conn.request with
            stream := conn.request.stream.exec (.write source) } }
        handler (conn.request.stream.buffer.write source).1
      exact ⟨written.exchange, written.sending⟩
  | bufWrite handler count => exact receiving_runBufWrite _ _ _

theorem exchange_runTask_other {conn : HttpConnection} {task : Task} {rest : List Task}
    (tasks : conn.tasks = task :: rest) (answers : ¬task.answers = true)
    (receives : ¬task.receives = true) :
    (runTask { conn with tasks := rest } task).exchange = conn.exchange := by
  have popped : { conn with tasks := rest }.exchange = conn.exchange := by
    simp [exchange, tasks, answers]
  rw [← popped]
  cases task with
  | responseReady handler =>
      cases handler with
      | handleResponse badRequest => simp [Task.answers] at answers
      | user handler => rfl
  | dataReady handler size =>
      cases handler with
      | handleRequestDataReady response => simp [Task.answers] at answers
      | user handler => rfl
  | responseComplete handler err => rfl
  | bufRead handler result => exact exchange_runBufRead _ _ _
  | putn | bufWrite => simp [Task.receives] at receives

/-! ### Events -/

/-- What an event is to the exchange of requests and responses. -/
theorem exchange_exec (getReqHandler : Bytes → Option ℕ) {conn : HttpConnection} {event : Event}
    (legal : conn.Legal event) :
    event.readsSocket = true ∧ (∃ read rest ec, conn.reading = read :: rest ∧
      read.readsHead = true ∧ exec getReqHandler conn event =
        handleHttpLine getReqHandler { conn with reading := rest } ec) ∨
    Completing conn.exchange (exec getReqHandler conn event).exchange ∨
    event.replies = true ∧ ((exec getReqHandler conn event).exchange = conn.exchange.exec .reply ∨
      (exec getReqHandler conn event).exchange = conn.exchange.exec .replyIfNotAlready) ∨
    event = .runTask ∧ (exec getReqHandler conn event).exchange = conn.exchange.exec .runTask ∨
    conn.restarts event = true ∧
      (exec getReqHandler conn event).exchange =
        conn.exchange.exec (.restart conn.requestBuf) := by
  have done (ec : ErrorCode) (value : Int) :
      (∃ read rest result, conn.reading = read :: rest ∧ read.readsHead = true ∧
        readDone getReqHandler conn ec value =
          handleHttpLine getReqHandler { conn with reading := rest } result) ∨
      Completing conn.exchange (readDone getReqHandler conn ec value).exchange := by
    rcases reading : conn.reading with _ | ⟨oldest, rest⟩
    · simp only [readDone, reading]
      exact .inr (.inl rfl)
    · by_cases head : oldest.readsHead = true
      · refine .inl ⟨oldest, rest, ec, rfl, head, ?_⟩
        have handler : oldest.handler = .handleHttpLine := by
          simpa [SocketRead.readsHead] using head
        simp only [readDone, reading, handler, runReadHandler]
      · exact .inr (receiving_readDone getReqHandler reading head ec value).exchange
  cases event with
  | receive piece =>
      refine .inr (.inl (.inl ?_))
      rcases reading : conn.reading with _ | ⟨oldest, rest⟩
      · simp [exec, receive, reading]
      · simp [exec, receive, reading, exchange, SocketRead.readsHead, List.countP_cons]
  | readDone value => exact (done .success value).imp (⟨rfl, ·⟩) .inl
  | readError ec => exact (done ec 0).imp (⟨rfl, ·⟩) .inl
  | writeDone memory =>
      rcases legal with ⟨-, handler, rest, writing, -⟩
      simp only [exec, writeDone, writing]
      rcases exchange_runWriteHandler _ handler .success memory with
        same | ⟨last, keepAlive, -, restarted⟩
      · exact .inr (.inl (.inl same))
      · refine .inr (.inr (.inr (.inr ⟨?_, restarted⟩)))
        have ends : conn.endsResponse handler = true := by
          cases handler <;> exact last
        simpa [restarts, writing, ends] using keepAlive
  | writeError ec =>
      rcases writing : conn.writing with _ | ⟨handler, rest⟩
      · exact (legal.1 writing).elim
      · simp only [exec, writeError, writing]
        rcases exchange_runWriteHandler _ handler ec [] with same | ⟨-, -, success, -⟩
        · exact .inr (.inl (.inl same))
        · exact (legal.2 success).elim
  | runTask =>
      rcases tasks : conn.tasks with _ | ⟨task, rest⟩
      · exact (legal tasks).elim
      · simp only [exec, runNextTask, tasks]
        by_cases answers : task.answers = true
        · exact .inr (.inr (.inr (.inl ⟨trivial, exchange_runTask_answers tasks answers⟩)))
        · by_cases receives : task.receives = true
          · exact .inr (.inl (receiving_runTask tasks receives).exchange)
          · exact .inr (.inl (.inl (exchange_runTask_other tasks answers receives)))
  | reply impl handler => exact .inr (.inr (.inl ⟨rfl, .inl (exchange_reply _ _ _)⟩))
  | handlerThrew =>
      exact .inr (.inr (.inl ⟨rfl, .inr (exchange_replyIfNotAlready _ _)⟩))
  | requestOp op => exact .inr (.inl (.inl rfl))
  | responseOp response op => exact .inr (.inl (.inl (exchange_bodyOp _ _ _)))

/-- Every event is a sequence of actions. -/
theorem exchange_actions (getReqHandler : Bytes → Option ℕ) {conn : HttpConnection}
    {event : Event} (legal : conn.Legal event) :
    ∃ actions, (exec getReqHandler conn event).exchange = conn.exchange.execAll actions := by
  rcases exchange_exec getReqHandler legal with
    ⟨-, read, rest, ec, reading, head, read⟩ | (same | ⟨bodySize, completed⟩) |
    ⟨-, replied | replied⟩ | ⟨-, ran⟩ | ⟨-, restarted⟩
  · have popped : { conn with reading := rest }.exchange = conn.exchange.exec .takeHead := by
      simp [exchange, Exchange.exec, reading, head]
    rw [read]
    rcases handleHttpLine_cases getReqHandler { conn with reading := rest } ec with
      finished | ⟨parsed, completes, is, rejected | dispatched⟩
    · refine ⟨[.takeHead], ?_⟩
      rw [finished, exchange_finishRequestResponse, popped]
      rfl
    · refine ⟨.takeHead :: (completes ++ rejectActions), ?_⟩
      rw [rejected, exchange_rejectBadRequest, is.exchange, popped, Exchange.execAll_cons,
        Exchange.execAll_append]
    · refine ⟨.takeHead ::
        (completes ++ dispatchActions getReqHandler parsed.dispatchable), ?_⟩
      rw [dispatched, exchange_dispatchRequestToListener, is.exchange, popped,
        Exchange.execAll_cons, Exchange.execAll_append]
  · exact ⟨[], same⟩
  · exact ⟨[.complete bodySize], completed⟩
  · exact ⟨[.reply], replied⟩
  · exact ⟨[.replyIfNotAlready], replied⟩
  · exact ⟨[.runTask], ran⟩
  · exact ⟨[.restart conn.requestBuf], restarted⟩

end HttpConnection

end Snode.Http
