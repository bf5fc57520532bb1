import Snode.Http.Events

/-!
# Connections and the queue of their worker

What a connection schedules goes behind what is scheduled already, and nothing that it
does depends on what waits there, nor on whether its socket is still open.  So its tasks may
be kept with those of other connections in the one queue of a worker, and a connection that
closed its socket never has an open one again.
-/

namespace Snode.Http

open Streams

namespace HttpConnection

/-- The connection when some tasks were scheduled before its own, and its socket was perhaps
closed. -/
def framed (conn : HttpConnection) (waiting : List Task) (stillOpen : Bool) : HttpConnection :=
  { conn with
    tasks := waiting ++ conn.tasks
    socketOpen := conn.socketOpen && stillOpen }

/-- The connection when some tasks were scheduled before its own. -/
def behind (conn : HttpConnection) (waiting : List Task) : HttpConnection :=
  { conn with tasks := waiting ++ conn.tasks }

theorem framed_true (conn : HttpConnection) (waiting : List Task) :
    conn.framed waiting true = conn.behind waiting := by
  rw [framed, Bool.and_true, behind]

/-- The connection without its tasks, which are in a queue elsewhere. -/
def posted (conn : HttpConnection) : HttpConnection :=
  { conn with tasks := [] }

section Frame

variable (conn : HttpConnection) (waiting : List Task) (stillOpen : Bool)

theorem ite_framed {condition : Prop} [Decidable condition] (other : HttpConnection) :
    (if condition then conn.framed waiting stillOpen else other.framed waiting stillOpen) =
      (if condition then conn else other).framed waiting stillOpen :=
  (apply_ite (framed · waiting stillOpen) _ _ _).symm

/-! ### Ending a request -/

@[simp]
theorem connect_framed (tasks : List Task) :
    (conn.framed waiting stillOpen).connect tasks =
      (conn.connect tasks).framed waiting stillOpen := by
  simp [connect, framed]

@[simp]
theorem asyncWrite_framed (handler : WriteHandler) :
    (conn.framed waiting stillOpen).asyncWrite handler =
      (conn.asyncWrite handler).framed waiting stillOpen :=
  rfl

@[simp]
theorem asyncRead_framed (condition : ReadCondition) (handler : ReadHandler) :
    (conn.framed waiting stillOpen).asyncRead condition handler =
      (conn.asyncRead condition handler).framed waiting stillOpen :=
  rfl

@[simp]
theorem startRequestResponse_framed :
    (conn.framed waiting stillOpen).startRequestResponse =
      conn.startRequestResponse.framed waiting stillOpen :=
  rfl

@[simp]
theorem finishRequestResponse_framed :
    (conn.framed waiting stillOpen).finishRequestResponse =
      conn.finishRequestResponse.framed waiting stillOpen :=
  rfl

@[simp]
theorem responseSendComplete_framed (err : ErrorCode) :
    (conn.framed waiting stillOpen).responseSendComplete err =
      (conn.responseSendComplete err).framed waiting stillOpen := by
  simp [responseSendComplete, connect, framed]

@[simp]
theorem cancelSendingResponseWithError_framed (err : ErrorCode) :
    (conn.framed waiting stillOpen).cancelSendingResponseWithError err =
      (conn.cancelSendingResponseWithError err).framed waiting stillOpen := by
  simp [cancelSendingResponseWithError]

@[simp]
theorem handleResponseWritten_framed (ec : ErrorCode) :
    (conn.framed waiting stillOpen).handleResponseWritten ec =
      (conn.handleResponseWritten ec).framed waiting stillOpen := by
  simp only [handleResponseWritten, responseSendComplete_framed,
    cancelSendingResponseWithError_framed, startRequestResponse_framed,
    finishRequestResponse_framed, ite_framed]
  rfl

/-! ### Sending the body of a response -/

@[simp]
theorem bufReadCompleted_framed (completed : Completed UInt8 BufReadHandler) :
    (conn.framed waiting stillOpen).bufReadCompleted completed =
      (conn.bufReadCompleted completed).framed waiting stillOpen :=
  connect_framed { conn with
    putArea := ChunkedEncoding.store conn.putArea (readOffset completed.request.completionOp)
      completed.copied } waiting stillOpen _

theorem foldl_bufReadCompleted_framed (completed : List (Completed UInt8 BufReadHandler)) :
    completed.foldl bufReadCompleted (conn.framed waiting stillOpen) =
      (completed.foldl bufReadCompleted conn).framed waiting stillOpen := by
  induction completed generalizing conn with
  | nil => rfl
  | cons first others ih => rw [List.foldl_cons, bufReadCompleted_framed, ih, List.foldl_cons]

@[simp]
theorem bodyOp_framed (response : HttpResponse) (op : Op UInt8 BufReadHandler) :
    (conn.framed waiting stillOpen).bodyOp response op =
      (conn.bodyOp response op).framed waiting stillOpen := by
  rw [bodyOp, bodyOp, ← foldl_bufReadCompleted_framed]
  rfl

@[simp]
theorem getnBody_framed (response : HttpResponse) (count : ℕ) (handler : BufReadHandler) :
    (conn.framed waiting stillOpen).getnBody response count handler =
      (conn.getnBody response count handler).framed waiting stillOpen := by
  simp only [getnBody, bodyOp_framed, connect_framed]
  rfl

@[simp]
theorem prepare_framed (memory : Bytes) :
    (conn.framed waiting stillOpen).prepare memory =
      (conn.prepare memory).framed waiting stillOpen :=
  rfl

@[simp]
theorem handleWriteChunkedResponse_framed (response : HttpResponse) (ec : ErrorCode)
    (memory : Bytes) :
    (conn.framed waiting stillOpen).handleWriteChunkedResponse response ec memory =
      (conn.handleWriteChunkedResponse response ec memory).framed waiting stillOpen := by
  simp only [handleWriteChunkedResponse, handleResponseWritten_framed,
    cancelSendingResponseWithError_framed, prepare_framed, getnBody_framed, ite_framed]
  rfl

@[simp]
theorem handleWriteLargeResponse_framed (response : HttpResponse) (ec : ErrorCode)
    (memory : Bytes) :
    (conn.framed waiting stillOpen).handleWriteLargeResponse response ec memory =
      (conn.handleWriteLargeResponse response ec memory).framed waiting stillOpen := by
  simp only [handleWriteLargeResponse, handleResponseWritten_framed,
    cancelSendingResponseWithError_framed, prepare_framed, getnBody_framed, ite_framed]
  rfl

@[simp]
theorem handleHeadersWritten_framed (response : HttpResponse) (ec : ErrorCode)
    (memory : Bytes) :
    (conn.framed waiting stillOpen).handleHeadersWritten response ec memory =
      (conn.handleHeadersWritten response ec memory).framed waiting stillOpen := by
  simp only [handleHeadersWritten, cancelSendingResponseWithError_framed,
    handleWriteChunkedResponse_framed, handleWriteLargeResponse_framed, ite_framed]
  rfl

@[simp]
theorem handleChunkedResponseBuffRead_framed (count : ℕ) (response : HttpResponse) :
    (conn.framed waiting stillOpen).handleChunkedResponseBuffRead count response =
      (conn.handleChunkedResponseBuffRead count response).framed waiting stillOpen := by
  simp only [handleChunkedResponseBuffRead, cancelSendingResponseWithError_framed]
  split
  · rfl
  · have same : (conn.framed waiting stillOpen).putArea = conn.putArea := rfl
    rw [same]
    split <;> rfl

@[simp]
theorem handleLargeResponseBuffRead_framed (count : ℕ) (response : HttpResponse) :
    (conn.framed waiting stillOpen).handleLargeResponseBuffRead count response =
      (conn.handleLargeResponseBuffRead count response).framed waiting stillOpen := by
  rw [handleLargeResponseBuffRead, handleLargeResponseBuffRead,
    cancelSendingResponseWithError_framed, ← ite_framed]
  rfl

@[simp]
theorem runBufRead_framed (handler : BufReadHandler) (result : Completion UInt8) :
    (conn.framed waiting stillOpen).runBufRead handler result =
      (conn.runBufRead handler result).framed waiting stillOpen := by
  cases handler with
  | handleChunkedResponseBuffRead response => exact handleChunkedResponseBuffRead_framed ..
  | handleLargeResponseBuffRead response => exact handleLargeResponseBuffRead_framed ..

@[simp]
theorem runWriteHandler_framed (handler : WriteHandler) (ec : ErrorCode) (memory : Bytes) :
    runWriteHandler (conn.framed waiting stillOpen) handler ec memory =
      (runWriteHandler conn handler ec memory).framed waiting stillOpen := by
  cases handler with
  | handleHeadersWritten response => exact handleHeadersWritten_framed ..
  | handleWriteChunkedResponse response => exact handleWriteChunkedResponse_framed ..
  | handleWriteLargeResponse response => exact handleWriteLargeResponse_framed ..
  | handleResponseWritten response => exact handleResponseWritten_framed ..

/-! ### Sending the head of a response -/

@[simp]
theorem asyncProcessResponse_framed (response : HttpResponse) :
    (conn.framed waiting stillOpen).asyncProcessResponse response =
      (conn.asyncProcessResponse response).framed waiting stillOpen :=
  rfl

@[simp]
theorem handleRequestDataReady_framed (count : ℕ) (response : HttpResponse) :
    (conn.framed waiting stillOpen).handleRequestDataReady count response =
      (conn.handleRequestDataReady count response).framed waiting stillOpen := by
  rw [handleRequestDataReady, handleRequestDataReady, asyncProcessResponse_framed, ite_framed]

@[simp]
theorem contentReady_framed (handler : DataHandler) :
    (conn.framed waiting stillOpen).contentReady handler =
      (conn.contentReady handler).framed waiting stillOpen := by
  simp [contentReady, connect, framed]

@[simp]
theorem handleResponse_framed (response : HttpResponse) (badRequest : Bool) :
    (conn.framed waiting stillOpen).handleResponse response badRequest =
      (conn.handleResponse response badRequest).framed waiting stillOpen := by
  simp only [handleResponse, asyncProcessResponse_framed, contentReady_framed, ite_framed]
  rfl

@[simp]
theorem doResponse_framed (badRequest : Bool) :
    (conn.framed waiting stillOpen).doResponse badRequest =
      (conn.doResponse badRequest).framed waiting stillOpen := by
  simp [doResponse, getResponse, connect, framed]

@[simp]
theorem replyIfNotAlready_framed (status : ℕ) :
    (conn.framed waiting stillOpen).replyIfNotAlready status =
      (conn.replyIfNotAlready status).framed waiting stillOpen := by
  rw [replyIfNotAlready, replyIfNotAlready, ← ite_framed]
  congr 1
  let made := (conn.makeResponse (HttpResponseImpl.new status).defaultReasonPhrase).2
  let request := (conn.request.replyIfNotAlready conn.nextResponse).1
  exact connect_framed { made with request := request } waiting stillOpen _

@[simp]
theorem reply_framed (impl : HttpResponseImpl) (handler : ℕ) :
    (conn.framed waiting stillOpen).reply impl handler =
      (conn.reply impl handler).framed waiting stillOpen := by
  let response := if conn.request.initiatedResponse then impl else impl.defaultReasonPhrase
  let request := (conn.request.reply conn.nextResponse handler).2.1
  let made := { (conn.makeResponse response).2 with request := request }
  exact connect_framed made waiting stillOpen _

@[simp]
theorem rejectBadRequest_framed :
    (conn.framed waiting stillOpen).rejectBadRequest =
      conn.rejectBadRequest.framed waiting stillOpen := by
  simp only [rejectBadRequest, replyIfNotAlready_framed]
  rw [← doResponse_framed]
  rfl

/-! ### The body of a request -/

@[simp]
theorem complete_framed (bodySize : ℕ) :
    (conn.framed waiting stillOpen).complete bodySize =
      (conn.complete bodySize).framed waiting stillOpen :=
  rfl

@[simp]
theorem asyncReadUntilBuffersize_framed (size : ℕ) (handler : ReadHandler) :
    (conn.framed waiting stillOpen).asyncReadUntilBuffersize size handler =
      (conn.asyncReadUntilBuffersize size handler).framed waiting stillOpen := by
  simp only [asyncReadUntilBuffersize, asyncRead_framed, ite_framed]
  rfl

@[simp]
theorem putn_framed (count : ℕ) (handler : BufWriteHandler) :
    (conn.framed waiting stillOpen).putn count handler =
      (conn.putn count handler).framed waiting stillOpen := by
  simp only [putn, connect_framed, ← ite_framed]
  rfl

@[simp]
theorem handleBody_framed (ec : ErrorCode) :
    (conn.framed waiting stillOpen).handleBody ec =
      (conn.handleBody ec).framed waiting stillOpen := by
  simp only [handleBody, complete_framed, putn_framed, ite_framed]
  rfl

@[simp]
theorem handleBodyBuffWrite_framed (count : ℕ) :
    (conn.framed waiting stillOpen).handleBodyBuffWrite count =
      (conn.handleBodyBuffWrite count).framed waiting stillOpen := by
  simp only [handleBodyBuffWrite, ← ite_framed, ← asyncReadUntilBuffersize_framed]
  rfl

@[simp]
theorem handleChunkedHeader_framed (ec : ErrorCode) (value : Int) :
    (conn.framed waiting stillOpen).handleChunkedHeader ec value =
      (conn.handleChunkedHeader ec value).framed waiting stillOpen := by
  simp only [handleChunkedHeader, ← ite_framed, ← asyncReadUntilBuffersize_framed]
  rfl

@[simp]
theorem handleChunkedBody_framed (ec : ErrorCode) (toWrite : Int) :
    (conn.framed waiting stillOpen).handleChunkedBody ec toWrite =
      (conn.handleChunkedBody ec toWrite).framed waiting stillOpen := by
  simp only [handleChunkedBody, complete_framed, putn_framed, ite_framed]

@[simp]
theorem handleChunkedBodyBuffWrite_framed (count : ℕ) :
    (conn.framed waiting stillOpen).handleChunkedBodyBuffWrite count =
      (conn.handleChunkedBodyBuffWrite count).framed waiting stillOpen := by
  simp only [handleChunkedBodyBuffWrite, ← ite_framed]
  rfl

@[simp]
theorem runBufWrite_framed (handler : BufWriteHandler) (count : ℕ) :
    (conn.framed waiting stillOpen).runBufWrite handler count =
      (conn.runBufWrite handler count).framed waiting stillOpen := by
  cases handler with
  | handleBodyBuffWrite => exact handleBodyBuffWrite_framed ..
  | handleChunkedBodyBuffWrite => exact handleChunkedBodyBuffWrite_framed ..

/-! ### The head of a request -/

variable (getReqHandler : Bytes → Option ℕ)

@[simp]
theorem dispatchRequestToListener_framed :
    dispatchRequestToListener getReqHandler (conn.framed waiting stillOpen) =
      (dispatchRequestToListener getReqHandler conn).framed waiting stillOpen := by
  have same : (conn.framed waiting stillOpen).request = conn.request := rfl
  simp only [dispatchRequestToListener, same]
  split
  · rw [← doResponse_framed, ← replyIfNotAlready_framed]
    rfl
  · next handler _ =>
      let dispatched : Dispatched := ⟨conn.request.method, conn.request.url, conn.request.headers⟩
      let log := { conn.log with dispatched := conn.log.dispatched ++ [dispatched] }
      have response := doResponse_framed { conn with log := log } waiting stillOpen false
      exact congrArg (fun conn : HttpConnection =>
        { conn with log := { conn.log with handled := conn.log.handled ++ [handler] } }) response

@[simp]
theorem headersRead_framed :
    (conn.framed waiting stillOpen).headersRead getReqHandler =
      (conn.headersRead getReqHandler).framed waiting stillOpen := by
  have same : (conn.framed waiting stillOpen).request = conn.request := rfl
  have size : (conn.framed waiting stillOpen).readSize = conn.readSize := rfl
  simp only [headersRead, same, size, ← ite_framed, ← dispatchRequestToListener_framed,
    ← asyncReadUntilBuffersize_framed]
  rfl

@[simp]
theorem handleHeaders_framed :
    handleHeaders getReqHandler (conn.framed waiting stillOpen) =
      (handleHeaders getReqHandler conn).framed waiting stillOpen := by
  simp only [handleHeaders, ← ite_framed, ← headersRead_framed, ← rejectBadRequest_framed]
  rfl

@[simp]
theorem handleHttpLine_framed (ec : ErrorCode) :
    handleHttpLine getReqHandler (conn.framed waiting stillOpen) ec =
      (handleHttpLine getReqHandler conn ec).framed waiting stillOpen := by
  simp only [handleHttpLine, ← ite_framed, ← handleHeaders_framed, ← rejectBadRequest_framed]
  rfl

/-! ### Events -/

@[simp]
theorem runReadHandler_framed (handler : ReadHandler) (ec : ErrorCode) (value : Int) :
    runReadHandler getReqHandler (conn.framed waiting stillOpen) handler ec value =
      (runReadHandler getReqHandler conn handler ec value).framed waiting stillOpen := by
  cases handler with
  | handleHttpLine => exact handleHttpLine_framed ..
  | handleChunkedHeader => exact handleChunkedHeader_framed ..
  | handleChunkedBody toWrite => exact handleChunkedBody_framed ..
  | handleBody => exact handleBody_framed ..

theorem readDone_framed (ec : ErrorCode) (value : Int) :
    readDone getReqHandler (conn.framed waiting stillOpen) ec value =
      (readDone getReqHandler conn ec value).framed waiting stillOpen := by
  have same : (conn.framed waiting stillOpen).reading = conn.reading := rfl
  simp only [readDone, same]
  split
  · rfl
  · next rest _ =>
      rw [← runReadHandler_framed]
      rfl

theorem writeDone_framed (memory : Bytes) :
    (conn.framed waiting stillOpen).writeDone memory =
      (conn.writeDone memory).framed waiting stillOpen := by
  have same : (conn.framed waiting stillOpen).writing = conn.writing := rfl
  simp only [writeDone, same]
  split
  · rfl
  · rw [← runWriteHandler_framed]
    rfl

theorem writeError_framed (ec : ErrorCode) :
    (conn.framed waiting stillOpen).writeError ec =
      (conn.writeError ec).framed waiting stillOpen := by
  have same : (conn.framed waiting stillOpen).writing = conn.writing := rfl
  simp only [writeError, same]
  split
  · rfl
  · rw [← runWriteHandler_framed]
    rfl

theorem runTask_framed (task : Task) :
    (conn.framed waiting stillOpen).runTask task =
      (conn.runTask task).framed waiting stillOpen := by
  have same : (conn.framed waiting stillOpen).request = conn.request := rfl
  cases task with
  | responseReady handler =>
      cases handler with
      | handleResponse badRequest => exact handleResponse_framed ..
      | user handler => rfl
  | dataReady handler size =>
      cases handler with
      | handleRequestDataReady response => exact handleRequestDataReady_framed ..
      | user handler => rfl
  | responseComplete handler err => rfl
  | bufRead handler result => exact runBufRead_framed ..
  | putn source handler =>
      simp only [runTask, same]
      rw [← runBufWrite_framed]
      rfl
  | bufWrite handler count => exact runBufWrite_framed ..

/-- What a connection does does not depend on the tasks that wait. -/
theorem exec_framed {event : Event} (isOther : event ≠ .runTask) :
    exec getReqHandler (conn.framed waiting stillOpen) event =
      (exec getReqHandler conn event).framed waiting stillOpen := by
  cases event with
  | receive piece =>
      have same : (conn.framed waiting stillOpen).reading = conn.reading := rfl
      simp only [exec, receive, same]
      split <;> rfl
  | readDone value => exact readDone_framed ..
  | readError ec => exact readDone_framed ..
  | writeDone memory => exact writeDone_framed ..
  | writeError ec => exact writeError_framed ..
  | runTask => exact absurd rfl isOther
  | reply impl handler => exact reply_framed ..
  | handlerThrew => exact replyIfNotAlready_framed ..
  | requestOp op => rfl
  | responseOp response op => exact bodyOp_framed ..

end Frame

section Posting

variable {getReqHandler : Bytes → Option ℕ} (conn : HttpConnection)

theorem legal_behind (waiting : List Task) {event : Event} (isOther : event ≠ .runTask) :
    (conn.behind waiting).Legal event ↔ conn.Legal event := by
  cases event with
  | runTask => exact absurd rfl isOther
  | _ => exact Iff.rfl

/-- An event other than the run of a task, when the tasks of the connection wait in a queue
elsewhere: what it schedules goes to the end of that queue. -/
theorem step_posted (waiting : List Task) {event : Event} (isOther : event ≠ .runTask)
    (legal : conn.posted.Legal event) :
    (system getReqHandler).step (conn.posted.behind waiting) event
      ((exec getReqHandler conn.posted event).posted.behind
        (waiting ++ (exec getReqHandler conn.posted event).tasks)) := by
  refine ⟨(legal_behind _ _ isOther).mpr legal, ?_⟩
  have done := exec_framed conn.posted waiting true getReqHandler isOther
  rw [framed_true, framed_true] at done
  rw [done, behind, behind, posted, List.append_nil]

/-- The run of the task at the head of that queue. -/
theorem step_runTask (task : Task) (waiting : List Task) :
    (system getReqHandler).step (conn.posted.behind (task :: waiting)) .runTask
      ((conn.posted.runTask task).posted.behind
        (waiting ++ (conn.posted.runTask task).tasks)) := by
  refine ⟨List.cons_ne_nil _ _, ?_⟩
  change _ = (conn.posted.behind waiting).runTask task
  have done := runTask_framed conn.posted waiting true task
  rw [framed_true, framed_true] at done
  rw [done, behind, behind, posted, List.append_nil]

end Posting

/-! ### Closed sockets -/

section Closing

variable {conn : HttpConnection}

theorem framed_of_closed (closed : conn.socketOpen = false) : conn.framed [] false = conn := by
  rw [framed, Bool.and_false, ← closed, List.nil_append]

theorem socketOpen_framed (conn : HttpConnection) (waiting : List Task) :
    (conn.framed waiting false).socketOpen = false :=
  Bool.and_false _

/-- A connection that closed its socket never has an open one again. -/
theorem exec_closed (closed : conn.socketOpen = false) (getReqHandler : Bytes → Option ℕ)
    {event : Event} (isOther : event ≠ .runTask) :
    (exec getReqHandler conn event).socketOpen = false := by
  rw [← framed_of_closed closed, exec_framed _ _ _ _ isOther, socketOpen_framed]

theorem runTask_closed (closed : conn.socketOpen = false) (task : Task) :
    (conn.runTask task).socketOpen = false := by
  rw [← framed_of_closed closed, runTask_framed, socketOpen_framed]

end Closing

end HttpConnection

end Snode.Http
