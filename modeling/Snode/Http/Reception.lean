import Snode.Http.Events

/-!
# The receiving half of a connection

The part of a connection that the loops receiving a request body work on.  The
dispatch of the request, the application's reply and the response leave it
alone, but for the end of the response, with which the connection starts over.
-/

namespace Snode.Http

open Streams

/-- The tasks of the loops that receive a body. -/
def Task.receives : Task → Bool
  | .putn _ _ | .bufWrite _ _ => true
  | .responseReady _ | .dataReady _ _ | .responseComplete _ _ | .bufRead _ _ => false

/-- What the reception of a body reads and writes. -/
structure Reception where
  requestBuf : Bytes
  read : ℕ
  readSize : ℕ
  reading : List SocketRead
  stream : Session UInt8 ℕ
  completed : List ℕ
  chunkHeaders : List (Bytes × Int)
  tasks : List Task

/-- What `start_request_response` does to it. -/
def Reception.restart (state : Reception) : Reception :=
  { state with
    requestBuf := []
    read := 0
    readSize := 0
    reading := state.reading ++ [⟨.untilHead 0, .handleHttpLine⟩] }

namespace HttpConnection

def reception (conn : HttpConnection) : Reception where
  requestBuf := conn.requestBuf
  read := conn.read
  readSize := conn.readSize
  reading := conn.reading
  stream := conn.request.stream
  completed := conn.log.completed
  chunkHeaders := conn.log.chunkHeaders
  tasks := conn.tasks.filter Task.receives

@[simp]
theorem reception_connect (conn : HttpConnection) {tasks : List Task}
    (others : tasks.filter Task.receives = []) :
    (conn.connect tasks).reception = conn.reception := by
  simp [reception, connect, others]

@[simp]
theorem reception_updateResponse (conn : HttpConnection) (response : HttpResponse)
    (change : HttpResponseImpl → HttpResponseImpl) :
    (conn.updateResponse response change).reception = conn.reception := rfl

@[simp]
theorem reception_asyncProcessResponse (conn : HttpConnection) (response : HttpResponse) :
    (conn.asyncProcessResponse response).reception = conn.reception := rfl

@[simp]
theorem reception_handleRequestDataReady (conn : HttpConnection) (count : ℕ)
    (response : HttpResponse) :
    (conn.handleRequestDataReady count response).reception = conn.reception := by
  simp only [handleRequestDataReady]
  split <;> rfl

@[simp]
theorem reception_handleResponse (conn : HttpConnection) (response : HttpResponse)
    (badRequest : Bool) :
    (conn.handleResponse response badRequest).reception = conn.reception := by
  simp only [handleResponse, contentReady, HttpRequestImpl.asyncGetDataAvailable]
  split
  · rfl
  · split
    · rfl
    · split
      · simp [reception, connect]
      · simp [reception, connect, Task.receives]

@[simp]
theorem reception_doResponse (conn : HttpConnection) (badRequest : Bool) :
    (conn.doResponse badRequest).reception = conn.reception := by
  simp only [doResponse, getResponse, HttpRequestImpl.asyncGetResponse]
  split
  · simp [reception, connect]
  · simp [reception, connect, Task.receives]

theorem filter_responseReady (handlers : List ResponseHandler) :
    (handlers.map Task.responseReady).filter Task.receives = [] := by
  simp [List.filter_eq_nil_iff, Task.receives]

@[simp]
theorem reception_replyIfNotAlready (conn : HttpConnection) (status : ℕ) :
    (conn.replyIfNotAlready status).reception = conn.reception := by
  by_cases initiated : conn.request.initiatedResponse = true
  · simp only [replyIfNotAlready, if_pos initiated]
  · simp only [replyIfNotAlready, if_neg initiated, makeResponse, updateResponse,
      HttpRequestImpl.replyIfNotAlready, HttpRequestImpl.replyImpl, reception_connect,
      filter_responseReady]
    rfl

@[simp]
theorem reception_reply (conn : HttpConnection) (impl : HttpResponseImpl) (handler : ℕ) :
    (conn.reply impl handler).reception = conn.reception := by
  by_cases initiated : conn.request.initiatedResponse = true
  · simp [reply, makeResponse, updateResponse, HttpRequestImpl.reply, HttpRequestImpl.replyImpl,
      initiated, reception, connect]
  · simp only [reply, makeResponse, updateResponse, HttpRequestImpl.reply,
      HttpRequestImpl.replyImpl, if_neg initiated, reception_connect, filter_responseReady]
    rfl

theorem reception_logHandled (conn : HttpConnection) (handled : List ℕ) :
    { conn with log := { conn.log with handled := handled } }.reception = conn.reception := rfl

@[simp]
theorem reception_dispatchRequestToListener (getReqHandler : Bytes → Option ℕ)
    (conn : HttpConnection) :
    (dispatchRequestToListener getReqHandler conn).reception = conn.reception := by
  simp only [dispatchRequestToListener]
  split
  · rw [reception_doResponse, reception_replyIfNotAlready]
    rfl
  · exact (reception_logHandled _ _).trans (reception_doResponse _ _)

@[simp]
theorem reception_responseSendComplete (conn : HttpConnection) (err : ErrorCode) :
    (conn.responseSendComplete err).reception = conn.reception := by
  have others : (conn.request.responseCompleteHandlers.map
      (Task.responseComplete · err)).filter Task.receives = [] := by
    simp [List.filter_eq_nil_iff, Task.receives]
  simp [responseSendComplete, HttpRequestImpl.responseSendComplete, reception, connect, others]

@[simp]
theorem reception_finishRequestResponse (conn : HttpConnection) :
    conn.finishRequestResponse.reception = conn.reception := rfl

@[simp]
theorem reception_startRequestResponse (conn : HttpConnection) :
    conn.startRequestResponse.reception = conn.reception.restart := rfl

@[simp]
theorem reception_cancelSendingResponseWithError (conn : HttpConnection) (err : ErrorCode) :
    (conn.cancelSendingResponseWithError err).reception = conn.reception :=
  conn.reception_responseSendComplete err

@[simp]
theorem reception_bodyOp (conn : HttpConnection) (response : HttpResponse)
    (op : Op UInt8 BufReadHandler) :
    (conn.bodyOp response op).reception = conn.reception := by
  have one (conn : HttpConnection) (completed : Completed UInt8 BufReadHandler) :
      (conn.bufReadCompleted completed).reception = conn.reception := by
    simp [bufReadCompleted, reception, connect, Task.receives]
  have all (completions : List (Completed UInt8 BufReadHandler)) (conn : HttpConnection) :
      (completions.foldl bufReadCompleted conn).reception = conn.reception := by
    induction completions generalizing conn with
    | nil => rfl
    | cons completed rest ih => rw [List.foldl_cons, ih, one]
  rw [bodyOp, all]
  rfl

@[simp]
theorem reception_getnBody (conn : HttpConnection) (response : HttpResponse) (count : ℕ)
    (handler : BufReadHandler) :
    (conn.getnBody response count handler).reception = conn.reception := by
  have others (refused : List (BufReadHandler × Completion UInt8)) :
      (refused.map fun completion => Task.bufRead completion.1 completion.2).filter
        Task.receives = [] := by
    simp only [List.filter_eq_nil_iff, List.mem_map]
    rintro _ ⟨completion, -, rfl⟩
    simp [Task.receives]
  rw [getnBody, reception_connect _ (others _), reception_bodyOp]

@[simp]
theorem reception_runBufRead (conn : HttpConnection) (handler : BufReadHandler)
    (result : Completion UInt8) :
    (conn.runBufRead handler result).reception = conn.reception := by
  cases handler with
  | handleChunkedResponseBuffRead response =>
      simp only [runBufRead, handleChunkedResponseBuffRead]
      split
      · simp
      · split <;> rfl
  | handleLargeResponseBuffRead response =>
      simp only [runBufRead, handleLargeResponseBuffRead]
      split
      · simp
      · rfl

/-- A task of another kind is all that changes. -/
theorem reception_runTask (conn : HttpConnection) {task : Task} (other : task.receives = false) :
    (conn.runTask task).reception = conn.reception := by
  cases task with
  | responseReady handler => cases handler <;> simp [runTask]
  | dataReady handler size => cases handler <;> simp [runTask]
  | responseComplete handler err => rfl
  | bufRead handler result => simp [runTask]
  | putn source handler => simp [Task.receives] at other
  | bufWrite handler count => simp [Task.receives] at other

/-! ### What the handlers of the loops have in common -/

theorem reception_complete (conn : HttpConnection) (bodySize : ℕ) :
    (conn.complete bodySize).reception =
      { conn.reception with
        completed := conn.reception.completed ++ [bodySize]
        stream := conn.reception.stream.exec (.close false true) } := rfl

theorem reception_asyncReadUntilBuffersize (conn : HttpConnection) (size : ℕ)
    (handler : ReadHandler) :
    (conn.asyncReadUntilBuffersize size handler).reception =
      { conn.reception with
        reading := conn.reading ++ [⟨.atLeast (size - conn.requestBuf.length), handler⟩] } := by
  by_cases buffered : size ≤ conn.requestBuf.length
  · have none : size - conn.requestBuf.length = 0 := by omega
    simp only [asyncReadUntilBuffersize, if_pos buffered, none]
    rfl
  · simp only [asyncReadUntilBuffersize, if_neg buffered]
    rfl

theorem reception_putn (conn : HttpConnection) {count : ℕ} (handler : BufWriteHandler)
    (positive : count ≠ 0) (buffered : count ≤ conn.requestBuf.length)
    (canWrite : conn.request.stream.buffer.canWrite = true) :
    (conn.putn count handler).reception =
      { conn.reception with
        tasks := conn.reception.tasks ++ [.putn (conn.requestBuf.take count) handler] } := by
  have fits : ¬conn.requestBuf.length < count := by omega
  simp [putn, positive, canWrite, fits, reception, connect, Task.receives]

end HttpConnection

/-! ### Histories -/

/-- The bytes received in a run. -/
def received (labels : List Event) : Bytes :=
  labels.flatMap Event.received

@[simp]
theorem received_nil : received [] = [] := rfl

@[simp]
theorem received_snoc (labels : List Event) (event : Event) :
    received (labels ++ [event]) = received labels ++ event.received := by
  simp [received]

theorem countP_snoc (labels : List Event) (event : Event) :
    (labels ++ [event]).countP Event.readsSocket =
      labels.countP Event.readsSocket + event.readsSocket.toNat := by
  cases reads : event.readsSocket <;> simp [List.countP_append, reads]

theorem mem_of_mem_snoc {event last : Event} {labels : List Event}
    (present : event ∈ labels ++ [last]) (other : event ≠ last) : event ∈ labels := by
  rcases List.mem_append.mp present with earlier | new
  · exact earlier
  · exact (other (List.mem_singleton.mp new)).elim

end Snode.Http
