import Snode.Http.Answering
import Snode.Http.ChunkLines
import Snode.Http.Custody
import Snode.Http.HeaderMap
import Snode.Http.Persistence

/-!
# One thing under way

The reception of the body of a request aside, whose reads and tasks are not counted here, a
connection has exactly one thing under way as long as its socket is open, and none when it is
closed.
-/

namespace Snode.Http

open Streams

theorem Istream.getSize_lt (stream : Istream) {value : ℕ} (small : value < 2 ^ 64) :
    (stream.getSize value).1 < 2 ^ 64 := by
  simp only [Istream.getSize]
  split
  · exact small
  · split
    · simp
    · split
      · simp
      · split
        · exact Nat.mod_lt _ (by simp)
        · simp only
          omega

theorem HttpHeaders.matchSize_snd_lt (headers : HttpHeaders) (name : Bytes) {value : ℕ}
    (small : value < 2 ^ 64) : (headers.matchSize name value).2 < 2 ^ 64 := by
  rw [HttpHeaders.matchSize]
  split
  · split
    · exact small
    · exact Istream.getSize_lt _ small
  · exact small

namespace HttpConnection

def custody (conn : HttpConnection) : Custody where
  heads := conn.reading.countP SocketRead.readsHead
  responseHandlers := conn.request.responseHandlers
  dataReadyHandlers := conn.request.dataReadyHandlers
  response := conn.request.response
  nextResponse := conn.nextResponse
  tasks := conn.tasks.filter Task.carries
  writing := conn.writing
  requests := fun response => (conn.responses response).body.buffer.requests
  write := conn.write
  writeSize := conn.writeSize
  socketOpen := conn.socketOpen

open Custody

/-! ### Receiving the body of a request -/

theorem custody_connect (conn : HttpConnection) (tasks : List Task) :
    (conn.connect tasks).custody =
      { conn.custody with tasks := conn.custody.tasks ++ tasks.filter Task.carries } := by
  simp [custody, connect]

theorem custody_asyncRead (conn : HttpConnection) (condition : ReadCondition)
    {handler : ReadHandler} (other : handler ≠ .handleHttpLine) :
    (conn.asyncRead condition handler).custody = conn.custody := by
  simp [asyncRead, custody, SocketRead.readsHead, other]

theorem custody_asyncReadUntilBuffersize (conn : HttpConnection) (size : ℕ)
    {handler : ReadHandler} (other : handler ≠ .handleHttpLine) :
    (conn.asyncReadUntilBuffersize size handler).custody = conn.custody := by
  simp only [asyncReadUntilBuffersize]
  split <;> exact custody_asyncRead _ _ other

@[simp]
theorem custody_putn (conn : HttpConnection) (count : ℕ) (handler : BufWriteHandler) :
    (conn.putn count handler).custody = conn.custody := by
  simp only [putn]
  split
  · rfl
  · split
    · simp [custody_connect, Task.carries, Task.answers, Task.sends]
    · split
      · rfl
      · simp [custody_connect, Task.carries, Task.answers, Task.sends]

theorem custody_runBufWrite (conn : HttpConnection) (handler : BufWriteHandler) (count : ℕ) :
    (conn.runBufWrite handler count).custody = conn.custody := by
  have body : ReadHandler.handleBody ≠ .handleHttpLine := by simp
  have chunkedHeader : ReadHandler.handleChunkedHeader ≠ .handleHttpLine := by simp
  cases handler with
  | handleBodyBuffWrite =>
      simp only [runBufWrite, handleBodyBuffWrite]
      split
      · exact custody_asyncReadUntilBuffersize _ _ body
      · rfl
  | handleChunkedBodyBuffWrite =>
      simp only [runBufWrite, handleChunkedBodyBuffWrite]
      split
      · exact custody_asyncRead _ _ chunkedHeader
      · rfl

theorem custody_runReadHandler (getReqHandler : Bytes → Option ℕ) (conn : HttpConnection)
    {handler : ReadHandler} (other : handler ≠ .handleHttpLine) (ec : ErrorCode) (value : Int) :
    (runReadHandler getReqHandler conn handler ec value).custody = conn.custody := by
  cases handler with
  | handleHttpLine => exact absurd rfl other
  | handleChunkedHeader =>
      simp only [runReadHandler, handleChunkedHeader]
      split
      · rfl
      · split
        · rfl
        · exact custody_asyncReadUntilBuffersize _ _ (by simp)
  | handleChunkedBody toWrite =>
      simp only [runReadHandler, handleChunkedBody]
      split
      · rfl
      · exact custody_putn _ _ _
  | handleBody =>
      simp only [runReadHandler, handleBody]
      split
      · rfl
      · split
        · exact custody_putn _ _ _
        · rfl

/-! ### Responding -/

variable (conn : HttpConnection)

theorem adds_startRequestResponse : Adds 1 conn.custody conn.startRequestResponse.custody := by
  have added := adds_head conn.custody
  have same : conn.startRequestResponse.custody =
      { conn.custody with heads := conn.custody.heads + 1 } := by
    simp [startRequestResponse, asyncRead, custody, SocketRead.readsHead]
  rwa [same]

theorem closes_finishRequestResponse : Closes conn.custody conn.finishRequestResponse.custody where
  known known := ⟨known.response, known.tasks, known.writing, known.requests, known.fresh,
    known.write, known.writeSize⟩
  underWay _ := rfl
  socketOpen := rfl

theorem custody_responseSendComplete (err : ErrorCode) :
    (conn.responseSendComplete err).custody = conn.custody := by
  have others : (conn.request.responseCompleteHandlers.map
      (Task.responseComplete · err)).filter Task.carries = [] := by
    simp [List.filter_eq_nil_iff, Task.carries, Task.answers, Task.sends]
  simp only [responseSendComplete, HttpRequestImpl.responseSendComplete, custody_connect, others,
    List.append_nil]
  rfl

theorem goesOn_cancelSendingResponseWithError (err : ErrorCode) :
    GoesOn conn.custody (conn.cancelSendingResponseWithError err).custody := by
  right
  rw [← conn.custody_responseSendComplete err]
  exact closes_finishRequestResponse _

theorem goesOn_handleResponseWritten (ec : ErrorCode) :
    GoesOn conn.custody (conn.handleResponseWritten ec).custody := by
  rw [handleResponseWritten]
  split
  · exact goesOn_cancelSendingResponseWithError conn ec
  · simp only
    rw [← conn.custody_responseSendComplete ec]
    split
    · exact .inl (adds_startRequestResponse _)
    · exact .inr (closes_finishRequestResponse _)

theorem adds_doResponse (badRequest : Bool) :
    Adds 1 conn.custody (conn.doResponse badRequest).custody := by
  by_cases ready : (!conn.request.responseReady) = true
  · have same : (conn.doResponse badRequest).custody =
        { conn.custody with
          responseHandlers := conn.custody.responseHandlers ++ [.handleResponse badRequest] } := by
      simp only [doResponse, getResponse, HttpRequestImpl.asyncGetResponse, if_pos ready,
        custody_connect, List.filter_nil, List.append_nil]
      rfl
    rw [same]
    exact adds_responseHandler _ badRequest
  · have same : (conn.doResponse badRequest).custody =
        { conn.custody with
          tasks := conn.custody.tasks ++ [.responseReady (.handleResponse badRequest)] } := by
      simp only [doResponse, getResponse, HttpRequestImpl.asyncGetResponse, if_neg ready,
        custody_connect]
      rfl
    rw [same]
    refine @adds_tasks conn.custody [.responseReady (.handleResponse badRequest)] ?_
    intro _ task present
    rw [List.mem_singleton.mp present]
    trivial

/-- A response is made with a body that nobody reads yet. -/
theorem requests_makeResponse {impl : HttpResponseImpl} (idle : impl.body.buffer.requests = [])
    (other : HttpResponse) :
    (if other = conn.nextResponse then impl else conn.responses other).body.buffer.requests =
      if other = conn.nextResponse then [] else (conn.responses other).body.buffer.requests := by
  split
  · exact idle
  · rfl

theorem adds_replyIfNotAlready (status : ℕ) :
    Adds 0 conn.custody (conn.replyIfNotAlready status).custody := by
  by_cases initiated : conn.request.initiatedResponse = true
  · rw [replyIfNotAlready, if_pos initiated]
    exact .refl _
  · have idle : (HttpResponseImpl.new status).defaultReasonPhrase.body.buffer.requests = [] := by
      rw [body_defaultReasonPhrase]
      rfl
    have same : (conn.replyIfNotAlready status).custody = conn.custody.respond false := by
      simp only [replyIfNotAlready, if_neg initiated, makeResponse, updateResponse,
        HttpRequestImpl.replyIfNotAlready, HttpRequestImpl.replyImpl, custody_connect]
      simp only [custody, conn.requests_makeResponse idle]
      rfl
    rw [same]
    exact adds_respond _ false

theorem adds_reply {impl : HttpResponseImpl} (idle : impl.body.buffer.requests = [])
    (handler : ℕ) : Adds 0 conn.custody (conn.reply impl handler).custody := by
  by_cases initiated : conn.request.initiatedResponse = true
  · have same : (conn.reply impl handler).custody = conn.custody.respond true := by
      simp only [reply, makeResponse, updateResponse, HttpRequestImpl.reply,
        HttpRequestImpl.replyImpl, if_pos initiated, custody_connect, List.filter_nil,
        List.append_nil]
      simp only [custody, conn.requests_makeResponse idle]
      rfl
    rw [same]
    exact adds_respond _ true
  · have idleStill : impl.defaultReasonPhrase.body.buffer.requests = [] := by
      rw [body_defaultReasonPhrase]
      exact idle
    have same : (conn.reply impl handler).custody = conn.custody.respond false := by
      simp only [reply, makeResponse, updateResponse, HttpRequestImpl.reply,
        HttpRequestImpl.replyImpl, if_neg initiated, custody_connect]
      simp only [custody, conn.requests_makeResponse idleStill]
      rfl
    rw [same]
    exact adds_respond _ false

theorem adds_rejectBadRequest : Adds 1 conn.custody conn.rejectBadRequest.custody := by
  have replied := conn.adds_replyIfNotAlready StatusCodes.badRequest
  have added := adds_doResponse
    { conn.replyIfNotAlready StatusCodes.badRequest with
      close := true
      log := { (conn.replyIfNotAlready StatusCodes.badRequest).log with
        rejected := (conn.replyIfNotAlready StatusCodes.badRequest).log.rejected + 1 } } true
  exact Adds.trans replied added

/-! ### The head of a request -/

theorem adds_dispatchRequestToListener (getReqHandler : Bytes → Option ℕ) :
    Adds 1 conn.custody (dispatchRequestToListener getReqHandler conn).custody := by
  let logged : HttpConnection :=
    { conn with
      log := { conn.log with dispatched := conn.log.dispatched ++ [conn.dispatchable] } }
  have replied : Adds 0 conn.custody (logged.replyIfNotAlready StatusCodes.notFound).custody :=
    logged.adds_replyIfNotAlready StatusCodes.notFound
  simp only [dispatchRequestToListener]
  split
  · exact replied.trans (adds_doResponse _ false)
  · exact logged.adds_doResponse false

theorem adds_headersRead (getReqHandler : Bytes → Option ℕ) :
    Adds 1 conn.custody (headersRead getReqHandler conn).custody := by
  have dispatched {parsed : HttpConnection} (same : parsed.custody = conn.custody) :
      Adds 1 conn.custody (dispatchRequestToListener getReqHandler parsed).custody :=
    same ▸ parsed.adds_dispatchRequestToListener getReqHandler
  simp only [headersRead]
  split
  · apply dispatched
    rw [custody_asyncRead _ _ (by simp)]
    rfl
  · generalize (if (conn.request.headers.matchSize HeaderNames.contentLength conn.readSize).1 = true
      then (conn.request.headers.matchSize HeaderNames.contentLength conn.readSize).2 else 0) = size
    apply dispatched
    by_cases empty : size = 0
    · rw [if_pos empty]
      rfl
    · rw [if_neg empty, custody_asyncReadUntilBuffersize _ _ (by simp)]
      rfl

theorem goesOn_handleHttpLine (getReqHandler : Bytes → Option ℕ) (ec : ErrorCode) :
    GoesOn conn.custody (handleHttpLine getReqHandler conn ec).custody := by
  have rejected {parsed : HttpConnection} (same : parsed.custody = conn.custody) :
      GoesOn conn.custody parsed.rejectBadRequest.custody :=
    .inl (same ▸ parsed.adds_rejectBadRequest)
  have accepted {parsed : HttpConnection} (same : parsed.custody = conn.custody) :
      GoesOn conn.custody (headersRead getReqHandler parsed).custody :=
    .inl (same ▸ parsed.adds_headersRead getReqHandler)
  simp only [handleHttpLine]
  split
  · split
    · exact .inr (closes_finishRequestResponse _)
    · exact rejected rfl
  · split
    · exact rejected rfl
    · split
      · exact rejected rfl
      · simp only [handleHeaders]
        split
        · exact accepted rfl
        · exact rejected rfl

/-! ### The head of a response -/

theorem adds_asyncProcessResponse {response : HttpResponse}
    (known : conn.custody.Known → response < conn.nextResponse) :
    Adds 1 conn.custody (conn.asyncProcessResponse response).custody := by
  have requests (headers : HttpHeaders) (other : HttpResponse) :
      (if other = response then { conn.responses other with headers := headers }
        else conn.responses other).body.buffer.requests =
          (conn.responses other).body.buffer.requests := by
    split <;> rfl
  have small := HttpHeaders.matchSize_snd_lt (conn.responses response).headers
    HeaderNames.contentLength (Nat.two_pow_pos 64)
  have same : (conn.asyncProcessResponse response).custody =
      { conn.custody with
        writing := conn.custody.writing ++ [.handleHeadersWritten response]
        write := 0
        writeSize :=
          ((conn.responses response).headers.matchSize HeaderNames.contentLength 0).2 } := by
    simp only [asyncProcessResponse, asyncWrite, updateResponse, custody, requests]
  rw [same]
  exact adds_write _ known (fun _ => Nat.two_pow_pos 64) fun _ => small

theorem goesOn_handleResponse (badRequest : Bool) :
    GoesOn conn.custody (conn.handleResponse conn.request.response badRequest).custody := by
  left
  rw [handleResponse]
  split
  · exact adds_asyncProcessResponse conn fun known => known.response
  · split
    · exact adds_asyncProcessResponse conn fun known => known.response
    · next unavailable =>
        have none : conn.request.dataAvailable = 0 := not_not.mp unavailable
        have same : (conn.contentReady (.handleRequestDataReady conn.request.response)).custody =
            { conn.custody with
              dataReadyHandlers := conn.custody.dataReadyHandlers ++
                [.handleRequestDataReady conn.request.response] } := by
          simp only [contentReady, HttpRequestImpl.asyncGetDataAvailable, if_pos none,
            custody_connect, List.filter_nil, List.append_nil]
          rfl
        rw [same]
        exact adds_dataReadyHandler _ _

/-! ### The body of a response -/

theorem length_readBlocks {count : ℕ} (advance : Bool) {totalr : ℕ} (blocks : List (MemBlock UInt8))
    (below : totalr ≤ count) :
    (ProducerConsumerBuffer.readBlocks count advance totalr blocks).1.length ≤ count - totalr := by
  induction blocks generalizing totalr with
  | nil => exact Nat.zero_le _
  | cons block rest ih =>
      have short : (block.readChars (count - totalr) advance).1.length ≤ count - totalr := by
        rw [MemBlock.readChars]
        exact (List.length_take_le _ _).trans (Nat.min_le_left _ _)
      simp only [ProducerConsumerBuffer.readBlocks]
      split
      · exact short
      · have others := @ih (totalr + (block.readChars (count - totalr) advance).1.length) (by omega)
        rw [List.length_append]
        omega

/-- A completed read names its response, and how much of its body was read. -/
theorem carried_completed {response nextResponse : HttpResponse}
    {request : EvRequest BufReadHandler} (asks : Asks response request)
    (inside : response < nextResponse) (buffer : ProducerConsumerBuffer UInt8 BufReadHandler) :
    Carried nextResponse (bufReadTask (buffer.complete request).1) := by
  have named := (ProducerConsumerBuffer.complete_request buffer request).1
  refine ⟨?_, fun limit limited => ?_⟩
  · rw [named, asks.response]
    exact inside
  · rw [named] at limited
    have bulk : 2 ≤ limit := by
      rcases op : request.completionOp with other | other
      · rw [op] at limited
        rcases Option.some.inj limited with rfl
        decide
      · rw [op] at limited
        cases limited
    rw [asks.limit limit limited, complete_bulk buffer bulk]
    exact length_readBlocks true buffer.blocks (Nat.zero_le limit)

theorem custody_bodyOp (response : HttpResponse) (op : Op UInt8 BufReadHandler) :
    let body := (conn.responses response).body
    (conn.bodyOp response op).custody =
      { conn.custody with
        tasks := conn.custody.tasks ++ (op.exec body.buffer).completed.map bufReadTask
        requests := fun other =>
          if other = response then (op.exec body.buffer).next.requests
          else conn.custody.requests other } := by
  intro body
  have all (completions : List (Completed UInt8 BufReadHandler)) (conn : HttpConnection) :
      (completions.foldl bufReadCompleted conn).custody =
        { conn.custody with
          tasks := conn.custody.tasks ++ completions.map bufReadTask } := by
    induction completions generalizing conn with
    | nil => simp
    | cons completed rest ih =>
        rw [List.foldl_cons, ih]
        simp [bufReadCompleted, custody, connect, Task.carries, Task.sends, bufReadTask]
  rw [bodyOp, all]
  have requests (other : HttpResponse) :
      (if other = response then
        { conn.responses other with body := (conn.responses response).body.exec op }
        else conn.responses other).body.buffer.requests =
          if other = response then (op.exec body.buffer).next.requests
          else (conn.responses other).body.buffer.requests := by
    split
    · rfl
    · rfl
  simp only [custody, updateResponse, requests]
  rfl

/-- The application works on the body of a response. -/
theorem adds_bodyOp (response : HttpResponse) {op : Op UInt8 BufReadHandler}
    (produces : op.Produces) : Adds 0 conn.custody (conn.bodyOp response op).custody := by
  have serves := produces.serves (conn.responses response).body.buffer
  have asks (known : conn.custody.Known) (request : EvRequest BufReadHandler)
      (waits : request ∈ (conn.responses response).body.buffer.requests) : Asks response request :=
    known.requests response request waits
  rw [custody_bodyOp]
  apply adds_reads
  · intro known request present
    apply asks known
    rw [serves.inOrder]
    exact List.mem_append_right _ present
  · intro known task present
    rcases List.mem_map.mp present with ⟨completed, served, rfl⟩
    rw [serves.byComplete completed served]
    have waits : completed.request ∈ (conn.responses response).body.buffer.requests := by
      rw [serves.inOrder]
      exact List.mem_append_left _ (List.mem_map_of_mem served)
    apply carried_completed (asks known completed.request waits)
    by_contra outside
    have none : (conn.responses response).body.buffer.requests = [] :=
      known.fresh response (Nat.le_of_not_lt outside)
    exact List.not_mem_nil (none ▸ waits)
  · intro known outside
    have idle := produces.idle (known.fresh response outside)
    exact ⟨idle.2, by rw [idle.1]; rfl, rfl⟩
  · intro _
    have order := congrArg List.length serves.inOrder
    simp only [List.length_append, List.length_map] at order ⊢
    change _ = (conn.responses response).body.buffer.requests.length + 0
    omega

/-- A `getn` posts that it was refused or what it read, or waits behind the other requests. -/
theorem custody_getnBody (response : HttpResponse) (count : ℕ) (handler : BufReadHandler) :
    let body := (conn.responses response).body
    let request : EvRequest BufReadHandler := ⟨count, .advanceOnce, true, handler⟩
    ∃ tasks requests, (conn.getnBody response count handler).custody =
        { conn.custody with
          tasks := conn.custody.tasks ++ tasks
          requests := fun other =>
            if other = response then requests else conn.custody.requests other } ∧
      (count ≠ 0 →
        tasks = [.bufRead handler (.size 0)] ∧ requests = body.buffer.requests ∨
        tasks = [bufReadTask (body.buffer.complete request).1] ∧
          requests = body.buffer.requests ∨
        tasks = [] ∧ requests = body.buffer.requests ++ [request]) := by
  intro body request
  let outcome := (Op.getn count handler).exec body.buffer
  let refused := (AsyncStreambuf.getn body.buffer count handler).2.2
  have carries : (refused.map fun completion => Task.bufRead completion.1 completion.2).filter
      Task.carries = refused.map fun completion => .bufRead completion.1 completion.2 := by
    refine List.filter_eq_self.mpr fun task present => ?_
    rcases List.mem_map.mp present with ⟨completion, -, rfl⟩
    rfl
  refine ⟨outcome.completed.map bufReadTask ++
    refused.map fun completion => .bufRead completion.1 completion.2, outcome.next.requests,
    ?_, fun nonzero => ?_⟩
  · rw [getnBody]
    simp only
    rw [custody_connect, custody_bodyOp, carries, ← List.append_assoc]
  · rcases getn_cases body.buffer nonzero handler with
      ⟨refuses, none, next⟩ | ⟨none, completed, next⟩ | ⟨refuses, none, next⟩
    · left
      simp [outcome, refused, refuses, none, next]
    · right; left
      have kept := ProducerConsumerBuffer.complete_requests body.buffer request
      simp only [outcome, refused, none, completed, next]
      exact ⟨rfl, kept⟩
    · right; right
      simp [outcome, refused, refuses, none, next, request]

/-- A part of the body is asked for. -/
theorem adds_getnBody {response : HttpResponse} {count : ℕ} {handler : BufReadHandler}
    (nonzero : conn.custody.Known → count ≠ 0) (named : handler.response = response)
    (limited : ∀ limit ∈ handler.limit, count = limit)
    (inside : conn.custody.Known → response < conn.nextResponse) :
    Adds 1 conn.custody (conn.getnBody response count handler).custody := by
  rcases custody_getnBody conn response count handler with ⟨tasks, requests, same, outcome⟩
  have asks : Asks response ⟨count, .advanceOnce, true, handler⟩ :=
    ⟨named, fun limit present => by rw [← limited limit present]⟩
  rw [same]
  apply adds_reads
  · intro known other present
    have before := known.requests response other
    rcases outcome (nonzero known) with ⟨-, rfl⟩ | ⟨-, rfl⟩ | ⟨-, rfl⟩
    · exact before present
    · exact before present
    · rcases List.mem_append.mp present with waits | new
      · exact before waits
      · exact List.mem_singleton.mp new ▸ asks
  · intro known task present
    rcases outcome (nonzero known) with ⟨rfl, -⟩ | ⟨rfl, -⟩ | ⟨rfl, -⟩
    · rw [List.mem_singleton.mp present]
      exact ⟨named ▸ inside known, fun limit _ => Nat.zero_le limit⟩
    · rw [List.mem_singleton.mp present]
      exact carried_completed asks (inside known) _
    · cases present
  · intro known outside
    exact absurd (inside known) (Nat.not_lt_of_le outside)
  · intro known
    rcases outcome (nonzero known) with ⟨rfl, rfl⟩ | ⟨rfl, rfl⟩ | ⟨rfl, rfl⟩
    · rfl
    · rfl
    · exact List.length_append

theorem goesOn_handleWriteChunkedResponse {response : HttpResponse}
    (inside : conn.custody.Known → response < conn.nextResponse) (ec : ErrorCode)
    (memory : Bytes) :
    GoesOn conn.custody (conn.handleWriteChunkedResponse response ec memory).custody := by
  rw [handleWriteChunkedResponse]
  split
  · exact goesOn_handleResponseWritten conn ec
  · split
    · exact goesOn_cancelSendingResponseWithError conn _
    · left
      apply adds_getnBody (conn.prepare memory)
      · exact fun _ => by decide
      · rfl
      · rintro limit limited
        exact Option.some.inj limited
      · exact inside

theorem goesOn_handleWriteLargeResponse {response : HttpResponse}
    (inside : conn.custody.Known → response < conn.nextResponse) (ec : ErrorCode)
    (memory : Bytes) :
    GoesOn conn.custody (conn.handleWriteLargeResponse response ec memory).custody := by
  rw [handleWriteLargeResponse]
  split
  · exact goesOn_handleResponseWritten conn ec
  · next more =>
      split
      · exact goesOn_cancelSendingResponseWithError conn _
      · left
        apply adds_getnBody (conn.prepare memory)
        · intro known
          have unwritten : conn.write ≠ conn.writeSize := fun all => more (.inr all)
          have small : conn.write < 2 ^ 64 := known.write
          have smallSize : conn.writeSize < 2 ^ 64 := known.writeSize
          simp only [chunkSize, sizeT]
          omega
        · rfl
        · rintro limit limited
          cases limited
        · exact inside

theorem goesOn_runWriteHandler {handler : WriteHandler}
    (inside : conn.custody.Known → handler.response < conn.nextResponse) (ec : ErrorCode)
    (memory : Bytes) : GoesOn conn.custody (conn.runWriteHandler handler ec memory).custody := by
  cases handler with
  | handleHeadersWritten response =>
      rw [runWriteHandler, handleHeadersWritten]
      split
      · exact goesOn_cancelSendingResponseWithError conn _
      · split
        · exact goesOn_handleWriteChunkedResponse conn inside ec memory
        · exact goesOn_handleWriteLargeResponse conn inside ec memory
  | handleWriteChunkedResponse response =>
      exact goesOn_handleWriteChunkedResponse conn inside ec memory
  | handleWriteLargeResponse response =>
      exact goesOn_handleWriteLargeResponse conn inside ec memory
  | handleResponseWritten response => exact goesOn_handleResponseWritten conn ec

/-- What was read is written. -/
theorem goesOn_runBufRead {handler : BufReadHandler} {result : Completion UInt8}
    (carried : Carried conn.nextResponse (.bufRead handler result)) :
    GoesOn conn.custody (conn.runBufRead handler result).custody := by
  rcases carried with ⟨inside, limited⟩
  cases handler with
  | handleChunkedResponseBuffRead response =>
      rw [runBufRead, handleChunkedResponseBuffRead]
      split
      · exact goesOn_cancelSendingResponseWithError conn _
      · next some =>
          have short : completionSize result ≤ chunkSize := limited chunkSize rfl
          have fits : ¬chunkSize + ChunkedEncoding.additionalEncodingSpace <
              completionSize result + ChunkedEncoding.additionalEncodingSpace := by omega
          simp only [ChunkedEncoding.addChunkedDelimiters, if_neg fits, if_neg some]
          exact .inl (adds_write conn.custody (fun _ => inside) Known.write Known.writeSize)
  | handleLargeResponseBuffRead response =>
      rw [runBufRead, handleLargeResponseBuffRead]
      split
      · exact goesOn_cancelSendingResponseWithError conn _
      · left
        have small : sizeT (conn.write + completionSize result) < 2 ^ 64 := by
          simp only [sizeT]
          omega
        exact adds_write conn.custody (fun _ => inside) (fun _ => small) Known.writeSize

/-! ### Tasks -/

theorem goesOn_runTask {task : Task} (carries : task.carries = true)
    (carried : Carried conn.nextResponse task) :
    GoesOn conn.custody (conn.runTask task).custody := by
  cases task with
  | responseReady handler =>
      cases handler with
      | handleResponse badRequest => exact goesOn_handleResponse conn badRequest
      | user handler => cases carries
  | dataReady handler size => exact carried.elim
  | bufRead handler result => exact goesOn_runBufRead conn carried
  | responseComplete | putn | bufWrite => cases carries

theorem custody_runTask {task : Task} (other : task.carries = false) :
    (conn.runTask task).custody = conn.custody := by
  cases task with
  | responseReady handler =>
      cases handler with
      | handleResponse badRequest => cases other
      | user handler => rfl
  | dataReady handler size =>
      cases handler with
      | handleRequestDataReady response => cases other
      | user handler => rfl
  | responseComplete handler err => rfl
  | bufRead handler result => cases other
  | putn source handler =>
      rw [runTask]
      exact custody_runBufWrite _ _ _
  | bufWrite handler count => exact custody_runBufWrite _ _ _

/-! ### Runs -/

/-- The invariant of a connection. -/
structure InCustody : Prop where
  known : conn.custody.Known
  underWay : conn.custody.underWay = if conn.socketOpen then 1 else 0

variable {conn}

theorem InCustody.underWay_le (inCustody : conn.InCustody) : conn.custody.underWay ≤ 1 := by
  rw [inCustody.underWay]
  split
  · exact Nat.le_refl _
  · exact Nat.zero_le _

theorem InCustody.adds (inCustody : conn.InCustody) {next : HttpConnection}
    (adds : Adds 0 conn.custody next.custody) : next.InCustody where
  known := adds.known inCustody.known
  underWay := by
    have same : next.socketOpen = conn.socketOpen := adds.socketOpen
    rw [adds.underWay inCustody.known, inCustody.underWay, same, Nat.add_zero]

theorem InCustody.of_same (inCustody : conn.InCustody) {next : HttpConnection}
    (same : next.custody = conn.custody) : next.InCustody := by
  apply inCustody.adds
  rw [same]
  exact .refl _

/-- What is under way is taken, and goes on. -/
theorem InCustody.goesOn (inCustody : conn.InCustody) {popped next : HttpConnection}
    (known : popped.custody.Known) (isOpen : popped.socketOpen = conn.socketOpen)
    (one : popped.custody.underWay + 1 = conn.custody.underWay)
    (goesOn : GoesOn popped.custody next.custody) : next.InCustody := by
  have total := inCustody.underWay
  cases wasOpen : conn.socketOpen with
  | false =>
      rw [wasOpen, if_neg Bool.false_ne_true] at total
      omega
  | true =>
      rw [wasOpen, if_pos rfl] at total
      rcases goesOn with adds | closes
      · refine ⟨adds.known known, ?_⟩
        have stillOpen : next.socketOpen = true := adds.socketOpen.trans (isOpen.trans wasOpen)
        rw [adds.underWay known, stillOpen, if_pos rfl]
        omega
      · refine ⟨closes.known known, ?_⟩
        have closed : next.socketOpen = false := closes.socketOpen
        rw [closes.underWay known, closed, if_neg Bool.false_ne_true]
        omega

theorem inCustody_new : new.InCustody where
  known := by
    refine ⟨Nat.one_pos, List.forall_mem_nil _, List.forall_mem_nil _, fun _ => ?_, fun _ _ => rfl,
      Nat.two_pow_pos 64, Nat.two_pow_pos 64⟩
    exact List.forall_mem_nil _
  underWay := rfl

/-- A read is done, whether it is that of a head or not. -/
theorem InCustody.readDone (inCustody : conn.InCustody) (getReqHandler : Bytes → Option ℕ)
    (ec : ErrorCode) (value : Int) :
    (HttpConnection.readDone getReqHandler conn ec value).InCustody := by
  rcases reading : conn.reading with _ | ⟨read, rest⟩
  · rw [HttpConnection.readDone, reading]
    exact inCustody
  · simp only [HttpConnection.readDone, reading]
    by_cases head : read.handler = .handleHttpLine
    · have readsHead : read.readsHead = true := by simp [SocketRead.readsHead, head]
      have heads : conn.custody.heads = rest.countP SocketRead.readsHead + 1 := by
        simp [custody, reading, readsHead]
      have known := inCustody.known
      let popped : HttpConnection := { conn with reading := rest }
      have stillKnown : popped.custody.Known := ⟨known.response, known.tasks, known.writing,
        known.requests, known.fresh, known.write, known.writeSize⟩
      have one : popped.custody.underWay + 1 = conn.custody.underWay := by
        simp only [Custody.underWay, heads]
        simp only [custody, popped]
        omega
      rw [head]
      exact inCustody.goesOn stillKnown rfl one (popped.goesOn_handleHttpLine getReqHandler ec)
    · have other : ¬read.readsHead = true := by simpa [SocketRead.readsHead] using head
      apply inCustody.of_same
      rw [custody_runReadHandler _ _ head]
      simp [custody, reading, other]

/-- A write is done, or fails. -/
theorem InCustody.written (inCustody : conn.InCustody) {handler : WriteHandler}
    {rest : List WriteHandler} (writing : conn.writing = handler :: rest) (responseBuf : Bytes)
    (log : Log) (ec : ErrorCode) (memory : Bytes) :
    (runWriteHandler { conn with
      responseBuf := responseBuf
      writing := rest
      log := log } handler ec memory).InCustody := by
  have known := inCustody.known
  have all : conn.custody.writing = handler :: rest := writing
  have inside := known.writing
  rw [all] at inside
  let popped : HttpConnection :=
    { conn with
      responseBuf := responseBuf
      writing := rest
      log := log }
  have stillKnown : popped.custody.Known := by
    refine ⟨known.response, known.tasks, fun other present => ?_, known.requests, known.fresh,
      known.write, known.writeSize⟩
    exact inside other (List.mem_cons_of_mem _ present)
  have one : popped.custody.underWay + 1 = conn.custody.underWay := by
    simp only [Custody.underWay, all, List.length_cons]
    simp only [custody, popped]
    omega
  exact inCustody.goesOn stillKnown rfl one
    (popped.goesOn_runWriteHandler (fun _ => inside handler List.mem_cons_self) ec memory)

theorem InCustody.runTask (inCustody : conn.InCustody) {task : Task} {rest : List Task}
    (tasks : conn.tasks = task :: rest) :
    (HttpConnection.runTask { conn with tasks := rest } task).InCustody := by
  have known := inCustody.known
  cases carries : task.carries with
  | true =>
      have all : conn.custody.tasks = task :: rest.filter Task.carries := by
        simp [custody, tasks, carries]
      have carried := known.tasks
      rw [all] at carried
      let popped : HttpConnection := { conn with tasks := rest }
      have stillKnown : popped.custody.Known := by
        refine ⟨known.response, fun other present => ?_, known.writing, known.requests,
          known.fresh, known.write, known.writeSize⟩
        exact carried other (List.mem_cons_of_mem _ present)
      have one : popped.custody.underWay + 1 = conn.custody.underWay := by
        simp only [Custody.underWay, all, List.length_cons]
        simp only [custody, popped]
        omega
      exact inCustody.goesOn stillKnown rfl one
        (popped.goesOn_runTask carries (carried task List.mem_cons_self))
  | false =>
      apply inCustody.of_same
      rw [custody_runTask _ carries]
      simp [custody, tasks, carries]

theorem InCustody.exec (inCustody : conn.InCustody) (getReqHandler : Bytes → Option ℕ)
    {event : Event} (legal : conn.Legal event) :
    (HttpConnection.exec getReqHandler conn event).InCustody := by
  cases event with
  | receive piece =>
      apply inCustody.of_same
      rcases reading : conn.reading with _ | ⟨read, rest⟩
      · simp [HttpConnection.exec, receive, reading]
      · simp [HttpConnection.exec, receive, reading, custody, SocketRead.readsHead,
          List.countP_cons]
  | readDone value => exact inCustody.readDone getReqHandler _ _
  | readError ec => exact inCustody.readDone getReqHandler _ _
  | writeDone memory =>
      rcases legal with ⟨-, handler, rest, writing, -⟩
      simp only [HttpConnection.exec, writeDone, writing]
      exact inCustody.written writing _ _ _ _
  | writeError ec =>
      rcases writing : conn.writing with _ | ⟨handler, rest⟩
      · exact absurd writing legal.1
      · simp only [HttpConnection.exec, writeError, writing]
        exact inCustody.written writing _ _ _ _
  | runTask =>
      rcases tasks : conn.tasks with _ | ⟨task, rest⟩
      · exact absurd tasks legal
      · simp only [HttpConnection.exec, runNextTask, tasks]
        exact inCustody.runTask tasks
  | reply impl handler => exact inCustody.adds (adds_reply conn legal.2 handler)
  | handlerThrew => exact inCustody.adds (adds_replyIfNotAlready conn _)
  | requestOp op => exact inCustody.of_same rfl
  | responseOp response op => exact inCustody.adds (adds_bodyOp conn response legal.1)

theorem inCustody_of_reachable {getReqHandler : Bytes → Option ℕ}
    (reachable : (system getReqHandler).Reachable new conn) : conn.InCustody :=
  reachable.invariant InCustody inCustody_new fun _ _ _ inCustody step =>
    step.2 ▸ inCustody.exec getReqHandler step.1

/-- As long as its socket is open exactly one thing carries the exchange of a connection on, and
none when it is closed.  So no two writes ever overlap, and what was to be done for a request is
neither forgotten nor done twice.  What receives the body of a request comes on top. -/
theorem one_under_way {getReqHandler : Bytes → Option ℕ}
    (reachable : (system getReqHandler).Reachable new conn) :
    conn.custody.underWay = (if conn.socketOpen then 1 else 0) ∧ conn.writing.length ≤ 1 := by
  have inCustody := inCustody_of_reachable reachable
  refine ⟨inCustody.underWay, ?_⟩
  have total := inCustody.underWay
  simp only [Custody.underWay] at total
  have writing : conn.custody.writing = conn.writing := rfl
  rw [writing] at total
  split at total <;> omega

theorem one_under_way_old :
    oldReceived.custody.underWay = (if oldReceived.socketOpen then 1 else 0) ∧
      oldReceived.writing.length ≤ 1 :=
  one_under_way oldReceived_reachable

end HttpConnection

end Snode.Http
