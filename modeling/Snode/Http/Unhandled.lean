import Snode.Http.UnderWay

/-!
# A service without handlers

`get_req_handler` of the service returns `NULL` for every path, so a connection answers every
request itself.  The task that would send the answer to a well-formed request is ahead of all
that receives its body, finds no data, and waits for a signal that never comes.
-/

namespace Snode.Http

open Streams

/-- `http_service::get_req_handler`. -/
def HttpService.getReqHandler : Bytes → Option ℕ :=
  fun _ => none

/-- A response but for its body. -/
structure ResponseHead where
  statusCode : ℕ
  reasonPhrase : Bytes
  headers : HttpHeaders
  hasInstream : Bool
  deriving DecidableEq

def HttpResponseImpl.head (impl : HttpResponseImpl) : ResponseHead :=
  ⟨impl.statusCode, impl.reasonPhrase, impl.headers, impl.hasInstream⟩

/-- The response to a malformed request, and how it is sent. -/
def badRequestHead : ResponseHead :=
  ⟨StatusCodes.badRequest, ascii "Bad Request", [], false⟩

def badRequestMessage : Bytes :=
  ascii "HTTP/1.1 400 Bad Request" ++ crlf ++ ascii "Content-Length: 0" ++ crlf ++ crlf

/-- What of a connection its answers are made of. -/
structure Outbound where
  handled : List ℕ
  dispatched : List Dispatched
  initiated : Bool
  ready : Bool
  heads : HttpResponse → ResponseHead
  responseBuf : Bytes
  chunked : Bool
  close : Bool
  sent : Bytes

namespace HttpConnection

def outbound (conn : HttpConnection) : Outbound where
  handled := conn.log.handled
  dispatched := conn.log.dispatched
  initiated := conn.request.initiatedResponse
  ready := conn.request.responseReady
  heads := fun response => (conn.responses response).head
  responseBuf := conn.responseBuf
  chunked := conn.chunked
  close := conn.close
  sent := conn.log.sent

/-! ### Receiving the body of a request -/

theorem outbound_asyncReadUntilBuffersize (conn : HttpConnection) (size : ℕ)
    (handler : ReadHandler) :
    (conn.asyncReadUntilBuffersize size handler).outbound = conn.outbound := by
  simp only [asyncReadUntilBuffersize]
  split <;> rfl

theorem outbound_putn (conn : HttpConnection) (count : ℕ) (handler : BufWriteHandler) :
    (conn.putn count handler).outbound = conn.outbound := by
  simp only [putn]
  split
  · rfl
  · split
    · rfl
    · split <;> rfl

theorem outbound_runBufWrite (conn : HttpConnection) (handler : BufWriteHandler) (count : ℕ) :
    (conn.runBufWrite handler count).outbound = conn.outbound := by
  cases handler with
  | handleBodyBuffWrite =>
      simp only [runBufWrite, handleBodyBuffWrite]
      split
      · exact outbound_asyncReadUntilBuffersize _ _ _
      · rfl
  | handleChunkedBodyBuffWrite =>
      simp only [runBufWrite, handleChunkedBodyBuffWrite]
      split <;> rfl

theorem outbound_runReadHandler (getReqHandler : Bytes → Option ℕ) (conn : HttpConnection)
    {handler : ReadHandler} (other : handler ≠ .handleHttpLine) (ec : ErrorCode) (value : Int) :
    (runReadHandler getReqHandler conn handler ec value).outbound = conn.outbound := by
  cases handler with
  | handleHttpLine => exact absurd rfl other
  | handleChunkedHeader =>
      simp only [runReadHandler, handleChunkedHeader]
      split
      · rfl
      · split
        · rfl
        · exact outbound_asyncReadUntilBuffersize _ _ _
  | handleChunkedBody toWrite =>
      simp only [runReadHandler, handleChunkedBody]
      split
      · rfl
      · exact outbound_putn _ _ _
  | handleBody =>
      simp only [runReadHandler, handleBody]
      split
      · rfl
      · split
        · exact outbound_putn _ _ _
        · rfl

theorem outbound_runTask (conn : HttpConnection) {task : Task} (other : task.carries = false) :
    (conn.runTask task).outbound = conn.outbound := by
  cases task with
  | responseReady handler =>
      cases handler with
      | handleResponse badRequest => simp [Task.carries, Task.answers] at other
      | user handler => rfl
  | dataReady handler size =>
      cases handler with
      | handleRequestDataReady response => simp [Task.carries, Task.answers] at other
      | user handler => rfl
  | responseComplete handler err => rfl
  | bufRead handler result => simp [Task.carries, Task.sends] at other
  | putn source handler =>
      simp only [runTask]
      exact outbound_runBufWrite _ _ _
  | bufWrite handler count => exact outbound_runBufWrite _ _ _

/-! ### Before the answer -/

/-- Nothing of the body of the request has been received. -/
structure BodyUnread (conn : HttpConnection) : Prop where
  available : conn.request.dataAvailable = 0
  one : conn.reading.length ≤ 1
  counted : ∀ read ∈ conn.reading,
    (∃ toWrite, read.handler = .handleChunkedBody toWrite) ∨ conn.read = 0

variable {conn next : HttpConnection}

/-- Nothing that carries an exchange on is scheduled. -/
def Queues (conn next : HttpConnection) : Prop :=
  ∃ more, next.tasks = conn.tasks ++ more ∧ ∀ task ∈ more, task.carries = false

theorem queues_of_same (tasks : next.tasks = conn.tasks) : Queues conn next :=
  ⟨[], by rw [tasks, List.append_nil], List.forall_mem_nil _⟩

theorem queues_putn (conn : HttpConnection) (count : ℕ) (handler : BufWriteHandler) :
    Queues conn (conn.putn count handler) := by
  simp only [putn]
  split
  · exact queues_of_same rfl
  · split
    · exact ⟨[.bufWrite handler 0], rfl, by simp [Task.carries, Task.answers, Task.sends]⟩
    · split
      · exact queues_of_same rfl
      · exact ⟨[.putn _ handler], rfl, by simp [Task.carries, Task.answers, Task.sends]⟩

theorem putn_kept (conn : HttpConnection) (count : ℕ) (handler : BufWriteHandler) :
    (conn.putn count handler).request = conn.request ∧
      (conn.putn count handler).reading = conn.reading := by
  simp only [putn]
  split
  · exact ⟨rfl, rfl⟩
  · split
    · exact ⟨rfl, rfl⟩
    · split <;> exact ⟨rfl, rfl⟩

theorem bodyUnread_of_nil (available : conn.request.dataAvailable = 0)
    (reading : conn.reading = []) : conn.BodyUnread where
  available := available
  one := by
    rw [reading]
    exact Nat.zero_le _
  counted := by
    rw [reading]
    exact List.forall_mem_nil _

theorem bodyUnread_putn (available : conn.request.dataAvailable = 0) (reading : conn.reading = [])
    (count : ℕ) (handler : BufWriteHandler) :
    (conn.putn count handler).BodyUnread ∧ Queues conn (conn.putn count handler) := by
  rcases conn.putn_kept count handler with ⟨request, still⟩
  refine ⟨bodyUnread_of_nil ?_ (still.trans reading), conn.queues_putn count handler⟩
  rw [request]
  exact available

theorem asyncReadUntilBuffersize_eq (conn : HttpConnection) (size : ℕ) (handler : ReadHandler) :
    ∃ remaining, conn.asyncReadUntilBuffersize size handler =
      conn.asyncRead (.atLeast remaining) handler := by
  simp only [asyncReadUntilBuffersize]
  split
  · exact ⟨_, rfl⟩
  · exact ⟨_, rfl⟩

/-- As long as the task that waits for the body is ahead of those that receive it, nothing of the
body is received. -/
theorem bodyUnread_runReadHandler (getReqHandler : Bytes → Option ℕ)
    (available : conn.request.dataAvailable = 0) (reading : conn.reading = [])
    {handler : ReadHandler} (other : handler ≠ .handleHttpLine)
    (counted : (∃ toWrite, handler = .handleChunkedBody toWrite) ∨ conn.read = 0)
    (ec : ErrorCode) (value : Int) :
    (runReadHandler getReqHandler conn handler ec value).BodyUnread ∧
      Queues conn (runReadHandler getReqHandler conn handler ec value) := by
  cases handler with
  | handleHttpLine => exact absurd rfl other
  | handleChunkedHeader =>
      have none : conn.read = 0 := by simpa using counted
      simp only [runReadHandler, handleChunkedHeader]
      split
      · exact ⟨bodyUnread_of_nil rfl reading, queues_of_same rfl⟩
      · split
        · next last =>
            refine ⟨bodyUnread_of_nil ?_ reading, queues_of_same rfl⟩
            simp only [complete, HttpRequestImpl.complete, none, last]
            rfl
        · next more =>
            rcases asyncReadUntilBuffersize_eq _ _ _ with ⟨remaining, is⟩
            rw [is]
            refine ⟨⟨available, ?_, ?_⟩, queues_of_same rfl⟩
            · simp [asyncRead, reading]
            · simp [asyncRead, reading]
  | handleChunkedBody toWrite =>
      simp only [runReadHandler, handleChunkedBody]
      split
      · exact ⟨bodyUnread_of_nil rfl reading, queues_of_same rfl⟩
      · exact bodyUnread_putn available reading _ _
  | handleBody =>
      have none : conn.read = 0 := by simpa using counted
      simp only [runReadHandler, handleBody]
      split
      · exact ⟨bodyUnread_of_nil rfl reading, queues_of_same rfl⟩
      · split
        · exact bodyUnread_putn available reading _ _
        · exact ⟨bodyUnread_of_nil none reading, queues_of_same rfl⟩

theorem BodyUnread.receive (unread : conn.BodyUnread) (piece : Bytes) :
    (conn.receive piece).BodyUnread := by
  rcases reading : conn.reading with _ | ⟨read, rest⟩
  · simp only [HttpConnection.receive, reading]
    exact unread
  · have one := unread.one
    have counted := unread.counted
    rw [reading] at one counted
    simp only [HttpConnection.receive, reading]
    refine ⟨unread.available, one, ?_⟩
    intro other present
    rcases List.mem_cons.mp present with rfl | present
    · exact counted read List.mem_cons_self
    · exact counted other (List.mem_cons_of_mem _ present)

/-! ### The invariant -/

/-- Nothing was received but perhaps a part of the first head. -/
structure AwaitsHead (conn : HttpConnection) : Prop where
  initiated : conn.outbound.initiated = false
  ready : conn.outbound.ready = false
  responseHandlers : conn.custody.responseHandlers = []
  dispatched : conn.outbound.dispatched = []
  sent : conn.outbound.sent = []
  tasks : conn.tasks = []
  writing : conn.custody.writing = []
  reading : ∀ read ∈ conn.reading, read.handler = .handleHttpLine
  unread : conn.BodyUnread

/-- The first request was dispatched, and found no handler. -/
structure FindsNone (conn : HttpConnection) : Prop where
  dispatched : conn.outbound.dispatched.length = 1
  sent : conn.outbound.sent = []
  tasks : ∃ rest, conn.tasks = .responseReady (.handleResponse false) :: rest ∧
    ∀ task ∈ rest, task.carries = false
  unread : conn.BodyUnread

/-- What becomes of the first request. -/
inductive Outcome (custody : Custody) (outbound : Outbound) : Prop
  /-- Its answer waits for a body, for good. -/
  | stranded (dispatched : outbound.dispatched.length = 1) (sent : outbound.sent = [])
      (waits : custody.dataReadyHandlers ≠ [])
  | rejected (dispatched : outbound.dispatched = []) (sent : outbound.sent = [])
      (close : outbound.close = true) (head : outbound.heads custody.response = badRequestHead)
      (tasks : custody.tasks = [.responseReady (.handleResponse true)])
  | answered (dispatched : outbound.dispatched = []) (sent : outbound.sent = [])
      (close : outbound.close = true)
      (writing : custody.writing = [.handleHeadersWritten custody.response])
      (responseBuf : outbound.responseBuf = badRequestMessage)
      (chunked : outbound.chunked = false) (size : custody.write = custody.writeSize)
  | closed (dispatched : outbound.dispatched = []) (socketOpen : custody.socketOpen = false)
      (sent : outbound.sent = [] ∨ outbound.sent = badRequestMessage)

/-- A connection of a service without handlers. -/
structure Unhandled (conn : HttpConnection) : Prop where
  inCustody : conn.InCustody
  handled : conn.outbound.handled = []
  bodies : conn.BodiesIdle
  phase : conn.AwaitsHead ∨ conn.FindsNone ∨ Outcome conn.custody conn.outbound

theorem unhandled_new : new.Unhandled where
  inCustody := inCustody_new
  handled := rfl
  bodies := fun _ => rfl
  phase := by
    refine .inl ⟨rfl, rfl, rfl, rfl, rfl, rfl, rfl, ?_, rfl, Nat.le_refl _, fun _ _ => .inr rfl⟩
    intro read present
    rw [List.mem_singleton.mp present]

theorem BodiesIdle.of_custody (bodies : conn.BodiesIdle) (custody : next.custody = conn.custody) :
    next.BodiesIdle := by
  have same : next.custody.requests = conn.custody.requests := by rw [custody]
  exact fun response => (congrFun same response).trans (bodies response)

/-- Everything but the reception of a body stays the same. -/
theorem Unhandled.of_same (unhandled : conn.Unhandled) (inCustody : next.InCustody)
    (custody : next.custody = conn.custody) (outbound : next.outbound = conn.outbound)
    (awaits : conn.AwaitsHead → next.tasks = [] ∧
      (∀ read ∈ next.reading, read.handler = .handleHttpLine) ∧ next.BodyUnread)
    (finds : conn.FindsNone → Queues conn next ∧ next.BodyUnread) : next.Unhandled := by
  refine ⟨inCustody, outbound ▸ unhandled.handled, unhandled.bodies.of_custody custody, ?_⟩
  rcases unhandled.phase with waits | none | outcome
  · rcases awaits waits with ⟨tasks, reading, unread⟩
    refine .inl ⟨?_, ?_, ?_, ?_, ?_, tasks, ?_, reading, unread⟩
    · exact outbound ▸ waits.initiated
    · exact outbound ▸ waits.ready
    · exact custody ▸ waits.responseHandlers
    · exact outbound ▸ waits.dispatched
    · exact outbound ▸ waits.sent
    · exact custody ▸ waits.writing
  · rcases finds none with ⟨⟨more, tasks, quiet⟩, unread⟩
    rcases none.tasks with ⟨rest, first, others⟩
    refine .inr (.inl ⟨?_, ?_, ⟨rest ++ more, ?_, ?_⟩, unread⟩)
    · exact outbound ▸ none.dispatched
    · exact outbound ▸ none.sent
    · rw [tasks, first, List.cons_append]
    · intro task present
      rcases List.mem_append.mp present with before | new
      · exact others task before
      · exact quiet task new
  · rw [custody, outbound]
    exact .inr (.inr outcome)

/-! ### The first head -/

theorem locateHandler_getReqHandler (pathSegments : List Bytes) (count : ℕ)
    (found : Option ℕ) :
    locateHandler HttpService.getReqHandler pathSegments count found = none := by
  induction count generalizing found with
  | zero => rfl
  | succ count ih => exact ih _

/-- A connection whose request was given its first response, which is to be sent. -/
def responding (conn : HttpConnection) (status : ℕ) (badRequest : Bool) : HttpConnection :=
  { conn with
    request :=
      { conn.request with
        initiatedResponse := true
        response := conn.nextResponse
        responseReady := true
        responseHandlers := [] }
    responses := fun response =>
      if response = conn.nextResponse then (HttpResponseImpl.new status).defaultReasonPhrase
      else conn.responses response
    nextResponse := conn.nextResponse + 1
    tasks := conn.tasks ++ [.responseReady (.handleResponse badRequest)] }

/-- The first request has not been responded to. -/
structure Fresh (conn : HttpConnection) : Prop where
  initiated : conn.request.initiatedResponse = false
  responseHandlers : conn.request.responseHandlers = []

theorem Fresh.rejectBadRequest_eq (fresh : conn.Fresh) :
    conn.rejectBadRequest =
      responding
        { conn with
          close := true
          log := { conn.log with rejected := conn.log.rejected + 1 } }
        StatusCodes.badRequest true := by
  have first : ¬conn.request.initiatedResponse = true := Bool.eq_false_iff.mp fresh.initiated
  simp only [rejectBadRequest, replyIfNotAlready, if_neg first, makeResponse, updateResponse,
    HttpRequestImpl.replyIfNotAlready, HttpRequestImpl.replyImpl, connect, fresh.responseHandlers,
    List.map_nil, List.append_nil, doResponse, getResponse, HttpRequestImpl.asyncGetResponse,
    Bool.not_true, Bool.false_eq_true, if_false, responding]

theorem Fresh.dispatchRequestToListener_eq (fresh : conn.Fresh) :
    dispatchRequestToListener HttpService.getReqHandler conn =
      responding
        { conn with
          log := { conn.log with dispatched := conn.log.dispatched ++ [conn.dispatchable] } }
        StatusCodes.notFound false := by
  have first : ¬conn.request.initiatedResponse = true := Bool.eq_false_iff.mp fresh.initiated
  simp only [dispatchRequestToListener, locateHandler_getReqHandler, replyIfNotAlready,
    if_neg first, makeResponse, updateResponse, HttpRequestImpl.replyIfNotAlready,
    HttpRequestImpl.replyImpl, connect, fresh.responseHandlers, List.map_nil, List.append_nil,
    doResponse, getResponse, HttpRequestImpl.asyncGetResponse, Bool.not_true, Bool.false_eq_true,
    if_false, responding]
  rfl

/-- The first head has been read. -/
structure HeadRead (conn : HttpConnection) : Prop where
  fresh : conn.Fresh
  tasks : conn.tasks = []
  dispatched : conn.log.dispatched = []
  sent : conn.log.sent = []
  handled : conn.log.handled = []
  bodies : conn.BodiesIdle
  unread : conn.BodyUnread

theorem responding_bodies (bodies : conn.BodiesIdle) (status : ℕ) (badRequest : Bool) :
    (conn.responding status badRequest).BodiesIdle := by
  intro response
  simp only [responding]
  split
  · rw [body_defaultReasonPhrase]
    rfl
  · exact bodies response

theorem HeadRead.rejects (isRead : conn.HeadRead) (inCustody : conn.rejectBadRequest.InCustody) :
    conn.rejectBadRequest.Unhandled := by
  have head : (HttpResponseImpl.new StatusCodes.badRequest).defaultReasonPhrase.head =
      badRequestHead := by decide
  rw [isRead.fresh.rejectBadRequest_eq] at inCustody ⊢
  refine ⟨inCustody, isRead.handled, ?_, .inr (.inr ?_)⟩
  · exact responding_bodies isRead.bodies StatusCodes.badRequest true
  refine .rejected isRead.dispatched isRead.sent rfl ?_ ?_
  · simp only [outbound, custody, responding, if_true]
    exact head
  · simp only [custody, responding, isRead.tasks]
    rfl

theorem HeadRead.finds (isRead : conn.HeadRead)
    (inCustody : (dispatchRequestToListener HttpService.getReqHandler conn).InCustody) :
    (dispatchRequestToListener HttpService.getReqHandler conn).Unhandled := by
  rw [isRead.fresh.dispatchRequestToListener_eq] at inCustody ⊢
  refine ⟨inCustody, isRead.handled, ?_, .inr (.inl ?_)⟩
  · exact responding_bodies isRead.bodies StatusCodes.notFound false
  refine ⟨?_, isRead.sent, ⟨[], ?_, List.forall_mem_nil _⟩, ?_⟩
  · change (conn.log.dispatched ++ [conn.dispatchable]).length = 1
    rw [isRead.dispatched]
    rfl
  · simp only [responding, isRead.tasks, List.nil_append]
  · exact ⟨isRead.unread.available, isRead.unread.one, isRead.unread.counted⟩

theorem HeadRead.readsBody (isRead : conn.HeadRead) (reading : conn.reading = [])
    (none : conn.read = 0) (size : ℕ) :
    (conn.asyncReadUntilBuffersize size .handleBody).HeadRead := by
  rcases conn.asyncReadUntilBuffersize_eq size .handleBody with ⟨remaining, is⟩
  rw [is]
  refine ⟨⟨isRead.fresh.initiated, isRead.fresh.responseHandlers⟩, isRead.tasks,
    isRead.dispatched, isRead.sent, isRead.handled, isRead.bodies, isRead.unread.available, ?_, ?_⟩
  · simp [asyncRead, reading]
  · exact fun _ _ => .inr none

/-- The headers make the connection read a body, if there is one. -/
theorem HeadRead.headersRead (isRead : conn.HeadRead) (reading : conn.reading = [])
    (none : conn.read = 0)
    (inCustody : (headersRead HttpService.getReqHandler conn).InCustody) :
    (HttpConnection.headersRead HttpService.getReqHandler conn).Unhandled := by
  simp only [HttpConnection.headersRead] at inCustody ⊢
  split
  · next chunked =>
      rw [if_pos chunked] at inCustody
      refine HeadRead.finds ⟨⟨isRead.fresh.initiated, isRead.fresh.responseHandlers⟩,
        isRead.tasks, isRead.dispatched, isRead.sent, isRead.handled, isRead.bodies,
        isRead.unread.available, ?_, ?_⟩ inCustody
      · simp [asyncRead, reading]
      · exact fun _ _ => .inr none
  · next plain =>
      rw [if_neg plain] at inCustody
      generalize (if (conn.request.headers.matchSize HeaderNames.contentLength conn.readSize).1 =
          true then (conn.request.headers.matchSize HeaderNames.contentLength conn.readSize).2
        else 0) = size at inCustody ⊢
      by_cases empty : size = 0
      · rw [if_pos empty] at inCustody ⊢
        exact HeadRead.finds ⟨⟨isRead.fresh.initiated, isRead.fresh.responseHandlers⟩,
          isRead.tasks, isRead.dispatched, isRead.sent, isRead.handled, isRead.bodies,
          bodyUnread_of_nil rfl reading⟩ inCustody
      · rw [if_neg empty] at inCustody ⊢
        refine HeadRead.finds ?_ inCustody
        apply HeadRead.readsBody
        · exact ⟨⟨isRead.fresh.initiated, isRead.fresh.responseHandlers⟩, isRead.tasks,
            isRead.dispatched, isRead.sent, isRead.handled, isRead.bodies,
            bodyUnread_of_nil isRead.unread.available reading⟩
        · exact reading
        · rfl

theorem HeadRead.handleHttpLine (isRead : conn.HeadRead) (reading : conn.reading = [])
    (none : conn.read = 0) {ec : ErrorCode}
    (inCustody : (handleHttpLine HttpService.getReqHandler conn ec).InCustody) :
    (HttpConnection.handleHttpLine HttpService.getReqHandler conn ec).Unhandled := by
  have parsed (requestBuf method url : Bytes) (headers : HttpHeaders) (close : Bool) :
      HeadRead
        { conn with
          requestBuf := requestBuf
          close := close
          request :=
            { conn.request with
              method := method
              url := url
              headers := headers } } :=
    ⟨⟨isRead.fresh.initiated, isRead.fresh.responseHandlers⟩, isRead.tasks, isRead.dispatched,
      isRead.sent, isRead.handled, isRead.bodies,
      bodyUnread_of_nil isRead.unread.available reading⟩
  simp only [HttpConnection.handleHttpLine] at inCustody ⊢
  split
  · next fails =>
      rw [if_pos fails] at inCustody
      split
      · next ended =>
          rw [if_pos ended] at inCustody
          exact ⟨inCustody, isRead.handled, isRead.bodies,
            .inr (.inr (.closed isRead.dispatched rfl (.inl isRead.sent)))⟩
      · next broken =>
          rw [if_neg broken] at inCustody
          exact isRead.rejects inCustody
  · next succeeds =>
      rw [if_neg succeeds] at inCustody
      split
      · next invalid =>
          rw [if_pos invalid] at inCustody
          exact HeadRead.rejects (parsed _ _ _ _ _) inCustody
      · next valid =>
          rw [if_neg valid] at inCustody
          split
          · next short =>
              rw [if_pos short] at inCustody
              exact HeadRead.rejects (parsed _ _ _ _ _) inCustody
          · next long =>
              rw [if_neg long] at inCustody
              simp only [handleHeaders] at inCustody ⊢
              split
              · next accepted =>
                  rw [if_pos accepted] at inCustody
                  exact HeadRead.headersRead (parsed _ _ _ _ _) reading none inCustody
              · next refused =>
                  rw [if_neg refused] at inCustody
                  exact HeadRead.rejects (parsed _ _ _ _ _) inCustody

/-- Only the first head is ever read. -/
theorem Unhandled.awaitsHead (unhandled : conn.Unhandled) (heads : conn.custody.heads ≠ 0) :
    conn.AwaitsHead := by
  have total := unhandled.inCustody.underWay
  have atMost := unhandled.inCustody.underWay_le
  simp only [Custody.underWay] at total atMost
  rcases unhandled.phase with waits | none | outcome
  · exact waits
  · rcases none.tasks with ⟨rest, first, -⟩
    have one : conn.custody.tasks = .responseReady (.handleResponse false) ::
        rest.filter Task.carries := by
      simp [custody, first, Task.carries, Task.answers]
    rw [one, List.length_cons] at atMost
    omega
  · cases outcome with
    | stranded _ _ waits =>
        have one := List.length_pos_of_ne_nil waits
        omega
    | rejected _ _ _ _ tasks =>
        rw [tasks, List.length_singleton] at atMost
        omega
    | answered _ _ _ writing =>
        rw [writing, List.length_singleton] at atMost
        omega
    | closed _ socketOpen =>
        have closed : ¬conn.socketOpen = true := Bool.eq_false_iff.mp socketOpen
        rw [if_neg closed] at total
        omega

theorem Unhandled.readDone (unhandled : conn.Unhandled) {ec : ErrorCode} {value : Int}
    (inCustody : (HttpConnection.readDone HttpService.getReqHandler conn ec value).InCustody) :
    (HttpConnection.readDone HttpService.getReqHandler conn ec value).Unhandled := by
  rcases reading : conn.reading with _ | ⟨read, rest⟩
  · simp only [HttpConnection.readDone, reading]
    exact unhandled
  · simp only [HttpConnection.readDone, reading] at inCustody ⊢
    let popped : HttpConnection := { conn with reading := rest }
    have alone (unread : conn.BodyUnread) : rest = [] ∧
        ((∃ toWrite, read.handler = .handleChunkedBody toWrite) ∨ conn.read = 0) := by
      have one := unread.one
      have counted := unread.counted
      rw [reading] at one counted
      refine ⟨List.length_eq_zero_iff.mp ?_, counted read List.mem_cons_self⟩
      rw [List.length_cons] at one
      omega
    by_cases head : read.handler = .handleHttpLine
    · have heads : conn.custody.heads ≠ 0 := by
        simp [custody, reading, SocketRead.readsHead, head]
      have waits := unhandled.awaitsHead heads
      rcases alone waits.unread with ⟨rfl, counted⟩
      have none : popped.read = 0 := by simpa [head] using counted
      have isRead : popped.HeadRead :=
        ⟨⟨waits.initiated, waits.responseHandlers⟩, waits.tasks, waits.dispatched, waits.sent,
          unhandled.handled, unhandled.bodies, bodyUnread_of_nil waits.unread.available rfl⟩
      rw [head] at inCustody ⊢
      exact isRead.handleHttpLine rfl none inCustody
    · have other : ¬read.readsHead = true := by simpa [SocketRead.readsHead] using head
      apply unhandled.of_same inCustody
      · rw [custody_runReadHandler _ _ head]
        simp [custody, reading, other]
      · rw [outbound_runReadHandler _ _ head]
        rfl
      · intro waits
        exact absurd (waits.reading read (reading ▸ List.mem_cons_self)) head
      · intro none
        rcases alone none.unread with ⟨rfl, counted⟩
        have available : popped.request.dataAvailable = 0 := none.unread.available
        have received := bodyUnread_runReadHandler HttpService.getReqHandler available rfl head
          counted ec value
        exact ⟨received.2, received.1⟩

/-! ### The answer to a malformed request -/

/-- Whatever is written is that answer, and the last thing to be written. -/
theorem Unhandled.written (unhandled : conn.Unhandled) {handler : WriteHandler}
    {rest : List WriteHandler} (writing : conn.writing = handler :: rest) :
    handler = .handleHeadersWritten conn.custody.response ∧ rest = [] ∧
      conn.log.dispatched = [] ∧ conn.log.sent = [] ∧ conn.close = true ∧
      conn.responseBuf = badRequestMessage ∧ conn.chunked = false ∧
      conn.write = conn.writeSize := by
  have written : conn.custody.writing = handler :: rest := writing
  have atMost := unhandled.inCustody.underWay_le
  have total := unhandled.inCustody.underWay
  simp only [Custody.underWay, written, List.length_cons] at atMost total
  rcases unhandled.phase with waits | none | outcome
  · rw [waits.writing] at written
    cases written
  · rcases none.tasks with ⟨others, first, -⟩
    have one : conn.custody.tasks = .responseReady (.handleResponse false) ::
        others.filter Task.carries := by
      simp [custody, first, Task.carries, Task.answers]
    rw [one, List.length_cons] at atMost
    omega
  · cases outcome with
    | stranded _ _ waits =>
        have one := List.length_pos_of_ne_nil waits
        omega
    | rejected _ _ _ _ tasks =>
        rw [tasks, List.length_singleton] at atMost
        omega
    | answered dispatched sent close one responseBuf chunked size =>
        rw [one] at written
        rcases List.cons.inj written with ⟨rfl, rfl⟩
        exact ⟨rfl, rfl, dispatched, sent, close, responseBuf, chunked, size⟩
    | closed _ socketOpen =>
        have closed : ¬conn.socketOpen = true := Bool.eq_false_iff.mp socketOpen
        rw [if_neg closed] at total
        omega

theorem Unhandled.writeDone (unhandled : conn.Unhandled) {memory : Bytes}
    {handler : WriteHandler} {rest : List WriteHandler} (writing : conn.writing = handler :: rest)
    (inCustody : (conn.writeDone memory).InCustody) : (conn.writeDone memory).Unhandled := by
  rcases unhandled.written writing with
    ⟨rfl, rfl, dispatched, sent, close, responseBuf, chunked, size⟩
  let written : HttpConnection :=
    { conn with
      responseBuf := []
      writing := []
      log := { conn.log with sent := conn.log.sent ++ conn.responseBuf } }
  have completes : conn.writeDone memory =
      (written.responseSendComplete .success).finishRequestResponse := by
    simp only [HttpConnection.writeDone, writing, runWriteHandler, handleHeadersWritten, ne_eq,
      not_true_eq_false, if_false, chunked, Bool.false_eq_true, handleWriteLargeResponse, size,
      or_true, if_true, handleResponseWritten, written]
    rw [if_neg]
    simp [responseSendComplete, connect, close]
  rw [completes] at inCustody ⊢
  refine ⟨inCustody, unhandled.handled, unhandled.bodies, .inr (.inr ?_)⟩
  refine .closed dispatched rfl (.inr ?_)
  change conn.log.sent ++ conn.responseBuf = badRequestMessage
  rw [sent, responseBuf, List.nil_append]

theorem Unhandled.writeError (unhandled : conn.Unhandled) {ec : ErrorCode}
    (fails : ec ≠ .success) {handler : WriteHandler} {rest : List WriteHandler}
    (writing : conn.writing = handler :: rest)
    (inCustody : (conn.writeError ec).InCustody) : (conn.writeError ec).Unhandled := by
  rcases unhandled.written writing with ⟨rfl, rfl, dispatched, sent, -⟩
  have cancels : conn.writeError ec =
      cancelSendingResponseWithError { conn with writing := [] } .ioError := by
    simp only [HttpConnection.writeError, writing, runWriteHandler, handleHeadersWritten,
      if_pos fails]
  rw [cancels] at inCustody ⊢
  exact ⟨inCustody, unhandled.handled, unhandled.bodies,
    .inr (.inr (.closed dispatched rfl (.inl sent)))⟩

theorem asyncProcessResponse_kept (conn : HttpConnection) (response : HttpResponse) :
    let next := conn.asyncProcessResponse response
    next.custody.response = conn.custody.response ∧
      next.custody.writing = conn.custody.writing ++ [.handleHeadersWritten response] ∧
      next.custody.write = 0 ∧
      next.outbound.handled = conn.outbound.handled ∧
      next.outbound.dispatched = conn.outbound.dispatched ∧
      next.outbound.sent = conn.outbound.sent := by
  simp [custody, outbound, asyncProcessResponse, asyncWrite, updateResponse]

theorem asyncProcessResponse_badRequest {response : HttpResponse}
    (head : (conn.responses response).head = badRequestHead) :
    let next := conn.asyncProcessResponse response
    next.responseBuf = badRequestMessage ∧ next.chunked = false ∧ next.writeSize = 0 ∧
      (conn.close = true → next.close = true) := by
  have statusCode : (conn.responses response).statusCode = StatusCodes.badRequest :=
    congrArg ResponseHead.statusCode head
  have reasonPhrase : (conn.responses response).reasonPhrase = ascii "Bad Request" :=
    congrArg ResponseHead.reasonPhrase head
  have headers : (conn.responses response).headers = [] := congrArg ResponseHead.headers head
  have hasInstream : (conn.responses response).hasInstream = false :=
    congrArg ResponseHead.hasInstream head
  have noEncoding : HttpHeaders.matchString [] HeaderNames.transferEncoding [] = (false, []) := rfl
  have noLength : HttpHeaders.matchSize [] HeaderNames.contentLength 0 = (false, 0) := rfl
  have added : HttpHeaders.add [] HeaderNames.contentLength (printNumber 0) =
      [(HeaderNames.contentLength, ascii "0")] := by decide
  have message : ascii "HTTP/1.1 " ++ printNumber StatusCodes.badRequest ++ ascii " " ++
      ascii "Bad Request" ++ crlf ++
      (HeaderNames.contentLength ++ ascii ": " ++ ascii "0" ++ crlf) ++ crlf =
        badRequestMessage := by decide
  simp only [asyncProcessResponse, asyncWrite, updateResponse, statusCode, reasonPhrase, headers,
    hasInstream, noEncoding, noLength, added, Bool.false_and, Bool.and_false, Bool.or_false,
    Bool.false_eq_true, if_false, Bool.not_false, if_true, List.flatMap_cons, List.flatMap_nil,
    List.append_nil, message]
  refine ⟨trivial, trivial, trivial, fun close => ?_⟩
  rw [close, Bool.true_or]

/-! ### Tasks -/

theorem Unhandled.process (unhandled : conn.Unhandled) {rest : List Task}
    (tasks : conn.tasks = .responseReady (.handleResponse true) :: rest)
    (dispatched : conn.outbound.dispatched = []) (sent : conn.outbound.sent = [])
    (close : conn.outbound.close = true)
    (head : conn.outbound.heads conn.custody.response = badRequestHead)
    (inCustody : (asyncProcessResponse { conn with tasks := rest }
      conn.request.response).InCustody) :
    (asyncProcessResponse { conn with tasks := rest } conn.request.response).Unhandled := by
  let popped : HttpConnection := { conn with tasks := rest }
  have isHead : (popped.responses conn.request.response).head = badRequestHead := head
  rcases popped.asyncProcessResponse_kept conn.request.response with
    ⟨response, writing, write, handled, stillDispatched, stillSent⟩
  rcases asyncProcessResponse_badRequest isHead with ⟨responseBuf, chunked, writeSize, closes⟩
  have carries : Task.carries (.responseReady (.handleResponse true)) = true := rfl
  have idle : conn.custody.writing = [] := by
    have atMost := unhandled.inCustody.underWay_le
    have all : conn.custody.tasks =
        .responseReady (.handleResponse true) :: rest.filter Task.carries := by
      simp [custody, tasks, carries]
    simp only [Custody.underWay, all, List.length_cons] at atMost
    apply List.length_eq_zero_iff.mp
    omega
  refine ⟨inCustody, handled.trans unhandled.handled, ?_, .inr (.inr ?_)⟩
  · intro other
    have body : ((popped.asyncProcessResponse conn.request.response).responses other).body =
        (conn.responses other).body := by
      simp only [asyncProcessResponse, asyncWrite, updateResponse]
      split <;> rfl
    change ((popped.asyncProcessResponse _).responses other).body.buffer.requests = []
    rw [body]
    exact unhandled.bodies other
  · refine .answered (stillDispatched.trans dispatched) (stillSent.trans sent) (closes close) ?_
      responseBuf chunked (write.trans writeSize.symm)
    rw [response, writing]
    change conn.custody.writing ++ _ = _
    rw [idle]
    rfl

/-- The answer to a well-formed request finds no data, and waits. -/
theorem FindsNone.strand (none : conn.FindsNone) (rest : List Task) :
    let next := HttpConnection.runTask { conn with tasks := rest }
      (.responseReady (.handleResponse false))
    next.outbound = conn.outbound ∧ next.responses = conn.responses ∧
      next.custody.dataReadyHandlers ≠ [] := by
  have available : conn.request.dataAvailable = 0 := none.unread.available
  have waits : HttpConnection.runTask { conn with tasks := rest }
      (.responseReady (.handleResponse false)) =
      { conn with
        tasks := rest
        request :=
          { conn.request with
            dataReadyHandlers := conn.request.dataReadyHandlers ++
              [.handleRequestDataReady conn.request.response] } } := by
    simp only [HttpConnection.runTask, handleResponse, Bool.false_eq_true, if_false, available,
      ne_eq, not_true_eq_false, contentReady, HttpRequestImpl.asyncGetDataAvailable, if_true,
      connect, List.append_nil]
  rw [waits]
  exact ⟨rfl, rfl, List.append_ne_nil_of_right_ne_nil _ (List.cons_ne_nil _ _)⟩

/-- A task that carries nothing changes nothing of what is sent or posted. -/
theorem Unhandled.runTask_free (unhandled : conn.Unhandled) {task : Task} {rest : List Task}
    (tasks : conn.tasks = task :: rest) (carries : task.carries = false)
    (inCustody : (HttpConnection.runTask { conn with tasks := rest } task).InCustody) :
    (HttpConnection.runTask { conn with tasks := rest } task).Unhandled := by
  apply unhandled.of_same inCustody
  · rw [custody_runTask _ carries]
    simp [custody, tasks, carries]
  · rw [outbound_runTask _ carries]
    rfl
  · intro waits
    rw [waits.tasks] at tasks
    cases tasks
  · intro none
    rcases none.tasks with ⟨others, first, -⟩
    rw [first] at tasks
    rcases List.cons.inj tasks with ⟨rfl, -⟩
    cases carries

theorem Unhandled.runTask (unhandled : conn.Unhandled) {task : Task} {rest : List Task}
    (tasks : conn.tasks = task :: rest)
    (inCustody : (HttpConnection.runTask { conn with tasks := rest } task).InCustody) :
    (HttpConnection.runTask { conn with tasks := rest } task).Unhandled := by
  cases carries : task.carries with
  | false => exact unhandled.runTask_free tasks carries inCustody
  | true =>
      have all : conn.custody.tasks = task :: rest.filter Task.carries := by
        simp [custody, tasks, carries]
      have atMost := unhandled.inCustody.underWay_le
      have total := unhandled.inCustody.underWay
      simp only [Custody.underWay, all, List.length_cons] at atMost total
      rcases unhandled.phase with waits | none | outcome
      · rw [waits.tasks] at tasks
        cases tasks
      · rcases none.tasks with ⟨others, first, -⟩
        rw [first] at tasks
        rcases List.cons.inj tasks with ⟨rfl, rfl⟩
        rcases none.strand others with ⟨outbound, responses, waits⟩
        refine ⟨inCustody, ?_, ?_, .inr (.inr (.stranded ?_ ?_ waits))⟩
        · rw [outbound]
          exact unhandled.handled
        · intro response
          rw [responses]
          exact unhandled.bodies response
        · rw [outbound]
          exact none.dispatched
        · rw [outbound]
          exact none.sent
      · cases outcome with
        | stranded _ _ waits =>
            have one := List.length_pos_of_ne_nil waits
            omega
        | rejected dispatched sent close head only =>
            rw [all] at only
            rcases List.cons.inj only with ⟨rfl, -⟩
            exact unhandled.process tasks dispatched sent close head inCustody
        | answered _ _ _ writing =>
            rw [writing, List.length_singleton] at atMost
            omega
        | closed _ socketOpen =>
            have closed : ¬conn.socketOpen = true := Bool.eq_false_iff.mp socketOpen
            rw [if_neg closed] at total
            omega

/-! ### Runs -/

theorem Unhandled.responseOp (unhandled : conn.Unhandled) {response : HttpResponse}
    {op : Op UInt8 BufReadHandler} (produces : op.Produces)
    (inCustody : (conn.bodyOp response op).InCustody) : (conn.bodyOp response op).Unhandled := by
  have same := unhandled.bodies.bodyOp_eq response produces
  have bodies := unhandled.bodies.bodyOp response produces
  have requests : (conn.bodyOp response op).custody.requests = conn.custody.requests := by
    funext other
    exact (bodies other).trans (unhandled.bodies other).symm
  have heads : (conn.bodyOp response op).outbound.heads = conn.outbound.heads := by
    funext other
    rw [same]
    simp only [outbound, updateResponse]
    split
    · next here =>
        rw [here]
        rfl
    · rfl
  have custody : (conn.bodyOp response op).custody =
      { conn.custody with requests := (conn.bodyOp response op).custody.requests } := by
    rw [same]
    rfl
  have outbound : (conn.bodyOp response op).outbound =
      { conn.outbound with heads := (conn.bodyOp response op).outbound.heads } := by
    rw [same]
    rfl
  rw [requests] at custody
  rw [heads] at outbound
  apply unhandled.of_same inCustody custody outbound
  · intro waits
    rw [same]
    exact ⟨waits.tasks, waits.reading, waits.unread.available, waits.unread.one,
      waits.unread.counted⟩
  · intro none
    rw [same]
    exact ⟨queues_of_same rfl, none.unread.available, none.unread.one, none.unread.counted⟩

theorem Unhandled.exec (unhandled : conn.Unhandled) {event : Event} (legal : conn.Legal event) :
    (HttpConnection.exec HttpService.getReqHandler conn event).Unhandled := by
  have inCustody := unhandled.inCustody.exec HttpService.getReqHandler legal
  cases event with
  | receive piece =>
      have unread (before : conn.BodyUnread) := before.receive piece
      rcases reading : conn.reading with _ | ⟨read, rest⟩
      · simp only [HttpConnection.exec, receive, reading]
        exact unhandled
      · simp only [HttpConnection.exec, receive, reading] at inCustody unread ⊢
        apply unhandled.of_same inCustody
        · simp [reading, custody, SocketRead.readsHead, List.countP_cons]
        · rfl
        · intro waits
          refine ⟨waits.tasks, ?_, unread waits.unread⟩
          have heads := waits.reading
          rw [reading] at heads
          intro other present
          rcases List.mem_cons.mp present with rfl | present
          · exact heads read List.mem_cons_self
          · exact heads other (List.mem_cons_of_mem _ present)
        · exact fun none => ⟨queues_of_same rfl, unread none.unread⟩
  | readDone value => exact unhandled.readDone inCustody
  | readError ec => exact unhandled.readDone inCustody
  | writeDone memory =>
      rcases legal with ⟨-, handler, rest, writing, -⟩
      exact unhandled.writeDone writing inCustody
  | writeError ec =>
      rcases writing : conn.writing with _ | ⟨handler, rest⟩
      · exact absurd writing legal.1
      · exact unhandled.writeError legal.2 writing inCustody
  | runTask =>
      rcases tasks : conn.tasks with _ | ⟨task, rest⟩
      · exact absurd tasks legal
      · simp only [HttpConnection.exec, runNextTask, tasks] at inCustody ⊢
        exact unhandled.runTask tasks inCustody
  | reply impl handler => exact absurd unhandled.handled legal.1
  | handlerThrew => exact absurd unhandled.handled legal
  | requestOp op =>
      apply unhandled.of_same inCustody rfl rfl
      · exact fun waits => ⟨waits.tasks, waits.reading, waits.unread.available,
          waits.unread.one, waits.unread.counted⟩
      · exact fun none => ⟨queues_of_same rfl, none.unread.available, none.unread.one,
          none.unread.counted⟩
  | responseOp response op => exact unhandled.responseOp legal.1 inCustody

theorem unhandled_of_reachable
    (reachable : (system HttpService.getReqHandler).Reachable new conn) : conn.Unhandled :=
  reachable.invariant Unhandled unhandled_new fun _ _ _ unhandled step =>
    step.2 ▸ unhandled.exec step.1

/-- What a connection can have done without handlers. -/
structure Unanswered (conn : HttpConnection) : Prop where
  handled : conn.log.handled = []
  outcome : conn.log.dispatched.length = 1 ∧ conn.log.sent = [] ∧ conn.socketOpen = true ∨
    conn.log.dispatched = [] ∧
      (conn.log.sent = [] ∨ conn.log.sent = badRequestMessage ∧ conn.socketOpen = false)

theorem Unhandled.unanswered (unhandled : conn.Unhandled) : conn.Unanswered := by
  refine ⟨unhandled.handled, ?_⟩
  have total := unhandled.inCustody.underWay
  simp only [Custody.underWay] at total
  have isOpen (busy : conn.custody.tasks.length + conn.custody.dataReadyHandlers.length ≠ 0) :
      conn.socketOpen = true := by
    by_contra closed
    rw [if_neg closed] at total
    omega
  rcases unhandled.phase with waits | none | outcome
  · exact .inr ⟨waits.dispatched, .inl waits.sent⟩
  · rcases none.tasks with ⟨rest, first, -⟩
    have one : conn.custody.tasks = .responseReady (.handleResponse false) ::
        rest.filter Task.carries := by
      simp [custody, first, Task.carries, Task.answers]
    refine .inl ⟨none.dispatched, none.sent, isOpen ?_⟩
    rw [one, List.length_cons]
    omega
  · cases outcome with
    | stranded dispatched sent waits =>
        have one := List.length_pos_of_ne_nil waits
        refine .inl ⟨dispatched, sent, isOpen ?_⟩
        omega
    | rejected dispatched sent => exact .inr ⟨dispatched, .inl sent⟩
    | answered dispatched sent => exact .inr ⟨dispatched, .inl sent⟩
    | closed dispatched socketOpen sent =>
        exact .inr ⟨dispatched, sent.imp_right fun sent => ⟨sent, socketOpen⟩⟩

end HttpConnection

end Snode.Http
