import Snode.Http.UnderWay

/-!
# Interruptions

When a response has been written the connection starts over: `read_`, `read_size_`
and `request_buf_` are cleared, and the head of another request is read.  Nobody
asks whether the body of the request has been received by then.  Until the first
reply on a connection nothing is written before that; later on, the response to an
earlier request is sent again as soon as a request is dispatched.
-/

namespace Snode.Http

open Streams

namespace HttpConnection

/-! ### The end of a response -/

theorem reception_handleResponseWritten (conn : HttpConnection) :
    (conn.handleResponseWritten .success).reception =
      if !conn.close then conn.reception.restart else conn.reception := by
  have same : (conn.responseSendComplete .success).close = conn.close := rfl
  simp only [handleResponseWritten, ne_eq, not_true_eq_false, if_false, same]
  split
  · rw [reception_startRequestResponse, reception_responseSendComplete]
  · rw [reception_finishRequestResponse, reception_responseSendComplete]

theorem reception_handleWriteChunkedResponse (conn : HttpConnection) (response : HttpResponse)
    (memory : Bytes) :
    (conn.handleWriteChunkedResponse response .success memory).reception = conn.reception := by
  simp only [handleWriteChunkedResponse, ne_eq, not_true_eq_false, if_false]
  split
  · exact reception_cancelSendingResponseWithError _ _
  · exact reception_getnBody _ _ _ _

theorem reception_handleWriteLargeResponse (conn : HttpConnection) (response : HttpResponse)
    (memory : Bytes) :
    (conn.handleWriteLargeResponse response .success memory).reception =
      if conn.write == conn.writeSize && !conn.close then conn.reception.restart
      else conn.reception := by
  simp only [handleWriteLargeResponse, ne_eq, not_true_eq_false, false_or]
  by_cases all : conn.write = conn.writeSize
  · rw [if_pos all, reception_handleResponseWritten, beq_iff_eq.mpr all, Bool.true_and]
  · rw [if_neg all, beq_eq_false_iff_ne.mpr all, Bool.false_and, if_neg Bool.false_ne_true]
    split
    · exact reception_cancelSendingResponseWithError _ _
    · exact reception_getnBody _ _ _ _

theorem reception_runWriteHandler (conn : HttpConnection) (handler : WriteHandler)
    (memory : Bytes) :
    (conn.runWriteHandler handler .success memory).reception =
      if conn.endsResponse handler && !conn.close then conn.reception.restart
      else conn.reception := by
  cases handler with
  | handleHeadersWritten response =>
      simp only [runWriteHandler, handleHeadersWritten, ne_eq, not_true_eq_false, if_false]
      by_cases chunked : conn.chunked = true
      · simp only [endsResponse, chunked, if_true, Bool.not_true, Bool.false_and,
          Bool.false_eq_true, if_false]
        exact reception_handleWriteChunkedResponse _ _ _
      · rw [if_neg chunked, reception_handleWriteLargeResponse]
        simp only [endsResponse, Bool.eq_false_of_not_eq_true chunked, Bool.not_false,
          Bool.true_and]
  | handleWriteChunkedResponse response => exact reception_handleWriteChunkedResponse _ _ _
  | handleWriteLargeResponse response => exact reception_handleWriteLargeResponse _ _ _
  | handleResponseWritten response => exact reception_handleResponseWritten _

theorem reception_runWriteHandler_error (conn : HttpConnection) (handler : WriteHandler)
    {ec : ErrorCode} (error : ec ≠ .success) (memory : Bytes) :
    (conn.runWriteHandler handler ec memory).reception = conn.reception := by
  cases handler with
  | handleHeadersWritten response =>
      simp only [runWriteHandler, handleHeadersWritten, if_pos error]
      exact reception_cancelSendingResponseWithError _ _
  | handleWriteChunkedResponse response =>
      simp only [runWriteHandler, handleWriteChunkedResponse, handleResponseWritten, if_pos error]
      exact reception_cancelSendingResponseWithError _ _
  | handleWriteLargeResponse response =>
      have ends : ec ≠ .success ∨ conn.write = conn.writeSize := .inl error
      simp only [runWriteHandler, handleWriteLargeResponse, handleResponseWritten, if_pos ends,
        if_pos error]
      exact reception_cancelSendingResponseWithError _ _
  | handleResponseWritten response =>
      simp only [runWriteHandler, handleResponseWritten, if_pos error]
      exact reception_cancelSendingResponseWithError _ _

/-! ### Events -/

/-- What an event is to the reception of a body. -/
inductive ReceptionStep (getReqHandler : Bytes → Option ℕ) (conn : HttpConnection) :
    Event → HttpConnection → Prop where
  | receive {piece : Bytes} {read : SocketRead} {rest : List SocketRead} (nonempty : piece ≠ [])
      (reading : conn.reading = read :: rest)
      (unmet : read.condition.met conn.requestBuf = false) :
      ReceptionStep getReqHandler conn (.receive piece) (conn.receive piece)
  | readDone {value : Int} {read : SocketRead} {rest : List SocketRead}
      (reading : conn.reading = read :: rest) (met : read.condition.met conn.requestBuf = true) :
      ReceptionStep getReqHandler conn (.readDone value)
        (readDone getReqHandler conn .success value)
  | readError {ec : ErrorCode} {read : SocketRead} {rest : List SocketRead}
      (error : ec ≠ .success) (reading : conn.reading = read :: rest) :
      ReceptionStep getReqHandler conn (.readError ec) (readDone getReqHandler conn ec 0)
  | runTask {task : Task} {rest : List Task} (tasks : conn.tasks = task :: rest)
      (ours : task.receives = true) :
      ReceptionStep getReqHandler conn .runTask (runTask { conn with tasks := rest } task)
  | requestOp {op : Op UInt8 ℕ} (legal : op.Legal conn.request.stream.buffer) :
      ReceptionStep getReqHandler conn (.requestOp op) (conn.requestOp op)
  | restart {event : Event} {next : HttpConnection} (restarts : conn.restarts event = true)
      (restarted : next.reception = conn.reception.restart) :
      ReceptionStep getReqHandler conn event next
  | elsewhere {event : Event} {next : HttpConnection} (goesOn : conn.restarts event = false)
      (silent : event.received = []) (noRead : event.readsSocket = false)
      (same : next.reception = conn.reception) : ReceptionStep getReqHandler conn event next

theorem reception_step {getReqHandler : Bytes → Option ℕ} {conn next : HttpConnection}
    {event : Event} (step : (system getReqHandler).step conn event next) :
    ReceptionStep getReqHandler conn event next := by
  have oldest (test : SocketRead → Bool) (holds : conn.reading.head?.any test = true) :
      ∃ read rest, conn.reading = read :: rest ∧ test read = true := by
    cases reading : conn.reading with
    | nil => simp [reading] at holds
    | cons read rest => exact ⟨read, rest, rfl, by simpa [reading] using holds⟩
  rcases step with ⟨legal, rfl⟩
  cases event with
  | receive piece =>
      rcases legal with ⟨-, waiting, nonempty⟩
      rcases oldest _ waiting with ⟨read, rest, reading, unmet⟩
      exact .receive nonempty reading (by simpa using unmet)
  | readDone value =>
      rcases oldest _ legal with ⟨read, rest, reading, met⟩
      exact .readDone reading met
  | readError ec =>
      rcases oldest _ legal.1 with ⟨read, rest, reading, -⟩
      exact .readError legal.2 reading
  | writeDone memory =>
      rcases legal with ⟨-, handler, rest, writing, -⟩
      have written := reception_runWriteHandler
        { conn with
          responseBuf := []
          writing := rest
          log := { conn.log with sent := conn.log.sent ++ conn.responseBuf } } handler memory
      have ends : conn.restarts (.writeDone memory) =
          (conn.endsResponse handler && !conn.close) := by
        simp [restarts, writing]
      have same : (exec getReqHandler conn (.writeDone memory)).reception =
          if conn.restarts (.writeDone memory) then conn.reception.restart
          else conn.reception := by
        simp only [exec, writeDone, writing]
        rw [ends]
        cases handler <;> exact written
      cases restarts : conn.restarts (.writeDone memory) with
      | true => exact .restart restarts (by rw [same, restarts]; rfl)
      | false => exact .elsewhere restarts rfl rfl (by rw [same, restarts]; rfl)
  | writeError ec =>
      refine .elsewhere rfl rfl rfl ?_
      simp only [exec, writeError]
      split
      · rfl
      · exact reception_runWriteHandler_error _ _ legal.2 _
  | runTask =>
      rcases tasks : conn.tasks with _ | ⟨task, rest⟩
      · exact (legal tasks).elim
      · have ran : exec getReqHandler conn .runTask =
            HttpConnection.runTask { conn with tasks := rest } task := by
          simp only [exec, runNextTask, tasks]
        rw [ran]
        by_cases receiving : task.receives = true
        · exact .runTask tasks receiving
        · have other : task.receives = false := by simpa using receiving
          refine .elsewhere rfl rfl rfl ?_
          rw [reception_runTask _ other]
          simp [reception, tasks, other]
  | reply impl handler => exact .elsewhere rfl rfl rfl (reception_reply _ _ _)
  | handlerThrew => exact .elsewhere rfl rfl rfl (reception_replyIfNotAlready _ _)
  | requestOp op => exact .requestOp legal
  | responseOp response op => exact .elsewhere rfl rfl rfl (reception_bodyOp _ _ _)

/-- An event with which a connection starts over does so. -/
theorem reception_of_restarts {getReqHandler : Bytes → Option ℕ} {conn next : HttpConnection}
    {event : Event} (step : (system getReqHandler).step conn event next)
    (restarts : conn.restarts event = true) : next.reception = conn.reception.restart := by
  cases reception_step step with
  | restart _ restarted => exact restarted
  | elsewhere goesOn => rw [restarts] at goesOn; cases goesOn
  | receive | readDone | readError | runTask | requestOp => cases restarts

/-! ### Reads of heads -/

end HttpConnection

namespace Exchange

/-- Only the end of such a read and the end of a response change how many are under way. -/
theorem heads_exec (exchange : Exchange) {action : Action} (notTaken : action ≠ .takeHead)
    (goesOn : ∀ requestBuf, action ≠ .restart requestBuf) :
    (exchange.exec action).heads = exchange.heads := by
  have reply : exchange.reply.heads = exchange.heads := by
    simp only [Exchange.reply]
    split <;> rfl
  cases action with
  | takeHead => exact (notTaken rfl).elim
  | restart requestBuf => exact (goesOn requestBuf rfl).elim
  | reject | dispatch | handle | complete => rfl
  | reply => exact reply
  | replyIfNotAlready =>
      simp only [exec]
      split
      · rfl
      · exact reply
  | doResponse badRequest =>
      simp only [exec, doResponse]
      split <;> rfl
  | runTask =>
      simp only [exec, runTask]
      split
      · rfl
      · simp only [run]
        split
        · simp only [handleResponse]
          split <;> rfl
        · split <;> rfl
        · rfl

theorem heads_execAll {exchange : Exchange} {actions : List Action}
    (others : ∀ action ∈ actions, action ≠ .takeHead ∧
      ∀ requestBuf, action ≠ .restart requestBuf) :
    (exchange.execAll actions).heads = exchange.heads := by
  induction actions generalizing exchange with
  | nil => rfl
  | cons action actions ih =>
      rcases others action List.mem_cons_self with ⟨notTaken, goesOn⟩
      rw [execAll_cons, ih fun other present => others other (List.mem_cons_of_mem _ present)]
      exact exchange.heads_exec notTaken goesOn

end Exchange

namespace HttpConnection

theorem heads_handleHttpLine (getReqHandler : Bytes → Option ℕ) (conn : HttpConnection)
    (ec : ErrorCode) :
    (handleHttpLine getReqHandler conn ec).exchange.heads = conn.exchange.heads := by
  have completed {parsed : HttpConnection} {completes : List Exchange.Action}
      (is : HeadParsed conn parsed completes) : parsed.exchange.heads = conn.exchange.heads := by
    rw [is.exchange]
    rcases is.completes with rfl | rfl <;> rfl
  rcases handleHttpLine_cases getReqHandler conn ec with
    finished | ⟨parsed, completes, is, rejected | dispatched⟩
  · rw [finished, exchange_finishRequestResponse]
  · rw [rejected, exchange_rejectBadRequest, Exchange.heads_execAll (by simp [rejectActions])]
    exact completed is
  · rw [dispatched, exchange_dispatchRequestToListener, Exchange.heads_execAll ?_]
    · exact completed is
    · simp only [dispatchActions]
      split <;> simp

/-- While no head is read, none is until a response ends. -/
theorem heads_step {getReqHandler : Bytes → Option ℕ} {conn next : HttpConnection} {event : Event}
    (step : (system getReqHandler).step conn event next) (goesOn : conn.restarts event = false)
    (none : conn.exchange.heads = 0) : next.exchange.heads = 0 := by
  rcases step with ⟨legal, rfl⟩
  have kept {action : Exchange.Action} (notTaken : action ≠ .takeHead)
      (continues : ∀ requestBuf, action ≠ .restart requestBuf)
      (exec : (exec getReqHandler conn event).exchange = conn.exchange.exec action) :
      (HttpConnection.exec getReqHandler conn event).exchange.heads = 0 := by
    rw [exec, Exchange.heads_exec _ notTaken continues]
    exact none
  rcases exchange_exec getReqHandler legal with
    ⟨-, read, rest, ec, reading, head, -⟩ | (same | ⟨bodySize, completed⟩) |
    ⟨-, replied | replied⟩ | ⟨-, ran⟩ | ⟨restarts, -⟩
  · exact absurd head (List.countP_eq_zero.mp none read (by simp [reading]))
  · rw [same]
    exact none
  · exact kept (by simp) (by simp) completed
  · exact kept (by simp) (by simp) replied
  · exact kept (by simp) (by simp) replied
  · exact kept (by simp) (by simp) ran
  · rw [goesOn] at restarts
    cases restarts

/-! ### Interruptions -/

/-- Whether a body is being received: a read or a task of the loops that receive one is under
way. -/
def receivesBody (conn : HttpConnection) : Bool :=
  conn.reading.any (!·.readsHead) || conn.tasks.any Task.receives

/-- An event with which the connection starts over while a body is being received. -/
def interrupts (conn : HttpConnection) (event : Event) : Bool :=
  conn.restarts event && conn.receivesBody

/-- The steps in which no response ends while a body is being received. -/
def uninterrupted (system : Lts HttpConnection Event) : Lts HttpConnection Event :=
  system.guard fun conn event => conn.interrupts event = false

/-- Nothing is left of the reception of a body. -/
structure Rested (state : Reception) : Prop where
  reading : ∀ read ∈ state.reading, read.readsHead = true
  tasks : state.tasks = []
  read : state.read = 0
  readSize : state.readSize = 0

variable {getReqHandler : Bytes → Option ℕ} {conn next : HttpConnection} {event : Event}

/-- A response that ends while no body is being received leaves nothing of the last one. -/
theorem rested_of_restarts (step : (uninterrupted (system getReqHandler)).step conn event next)
    (restarts : conn.restarts event = true) : Rested next.reception := by
  have quiet : conn.receivesBody = false := by simpa [interrupts, restarts] using step.1
  simp only [receivesBody, Bool.or_eq_false_iff, List.any_eq_false] at quiet
  rw [reception_of_restarts step.2 restarts]
  refine ⟨?_, ?_, rfl, rfl⟩
  · intro read present
    rcases List.mem_append.mp present with before | new
    · simpa using quiet.1 read before
    · rw [List.mem_singleton.mp new]
      rfl
  · simpa [Reception.restart, reception, List.filter_eq_nil_iff] using quiet.2

theorem InCustody.heads_le (inCustody : conn.InCustody) : conn.exchange.heads ≤ 1 := by
  have most := inCustody.underWay_le
  simp only [Custody.underWay, custody] at most
  simp only [exchange]
  omega

/-- The head of a request is read only when nothing is left of the reception of a body. -/
def Orderly (conn : HttpConnection) : Prop :=
  conn.exchange.heads = 0 ∨ Rested conn.reception

theorem Orderly.readDone (one : conn.exchange.heads ≤ 1) {read : SocketRead}
    {rest : List SocketRead} (reading : conn.reading = read :: rest)
    (rested : Rested conn.reception) (ec : ErrorCode) (value : Int) :
    (HttpConnection.readDone getReqHandler conn ec value).exchange.heads = 0 := by
  have head : read.readsHead = true := rested.reading read (by simp [reception, reading])
  have handler : read.handler = .handleHttpLine := by simpa [SocketRead.readsHead] using head
  simp only [HttpConnection.readDone, reading, handler, runReadHandler]
  rw [heads_handleHttpLine]
  simp only [exchange, reading, List.countP_cons, head, if_true] at one ⊢
  omega

theorem Orderly.step (orderly : conn.Orderly) (inCustody : conn.InCustody)
    (step : (uninterrupted (system getReqHandler)).step conn event next) : next.Orderly := by
  cases restarts : conn.restarts event with
  | true => exact .inr (rested_of_restarts step restarts)
  | false =>
      rcases orderly with none | rested
      · exact .inl (heads_step step.2 restarts none)
      · have one := inCustody.heads_le
        cases reception_step step.2 with
        | @receive piece read rest nonempty reading unmet =>
            have heads := rested.reading
            simp only [reception, reading, List.forall_mem_cons] at heads
            right
            simp only [receive, reading]
            refine ⟨?_, rested.tasks, rested.read, rested.readSize⟩
            simpa [reception, SocketRead.readsHead] using heads
        | readDone reading met => exact .inl (Orderly.readDone one reading rested _ _)
        | readError error reading => exact .inl (Orderly.readDone one reading rested _ _)
        | runTask tasks ours =>
            have none := rested.tasks
            simp [reception, tasks, ours] at none
        | requestOp legal => exact .inr ⟨rested.reading, rested.tasks, rested.read, rested.readSize⟩
        | restart again => simp [restarts] at again
        | elsewhere _ _ _ same => exact .inr (same ▸ rested)

theorem uninterrupted_reachable {start : HttpConnection}
    (reachable : (uninterrupted (system getReqHandler)).Reachable start conn) :
    (system getReqHandler).Reachable start conn :=
  reachable.mono fun _ _ _ step => step.2

theorem orderly_of_reachable
    (reachable : (uninterrupted (system getReqHandler)).Reachable .new conn) : conn.Orderly := by
  have both : conn.InCustody ∧ conn.Orderly := by
    refine reachable.invariant (fun conn => conn.InCustody ∧ conn.Orderly) ?_ ?_
    · refine ⟨inCustody_new, .inr ⟨?_, rfl, rfl, rfl⟩⟩
      intro read present
      rw [List.mem_singleton.mp present]
      rfl
    · rintro conn event next ⟨inCustody, orderly⟩ step
      refine ⟨?_, orderly.step inCustody step⟩
      rcases step.2 with ⟨legal, rfl⟩
      exact inCustody.exec getReqHandler legal
  exact both.2

end HttpConnection

end Snode.Http
