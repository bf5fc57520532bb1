import Snode.Http.Interruption

/-!
# The time of a request

A request has its connection from its dispatch until the connection starts over
with the body of the request completed.  Nothing interrupts the first request of
a connection: until its body is completed nothing is written.  On a later one
the response to an earlier request can be, and its end is an interruption.
-/

namespace Snode.Http

open Streams

/-- The application may read from the body of a request at any time, and does not close it. -/
def Event.KeepsBody : Event → Prop
  | .requestOp op => op.Consumes
  | _ => True

instance (event : Event) : Decidable event.KeepsBody :=
  match event with
  | .requestOp op => inferInstanceAs (Decidable op.Consumes)
  | .receive _ | .readDone _ | .readError _ | .writeDone _ | .writeError _ | .runTask | .reply _ _
  | .handlerThrew | .responseOp _ _ => .isTrue trivial

namespace Exchange

/-- The response to the request waits for its reply, its turn or the body of the request. -/
inductive Unsent (exchange : Exchange) : Prop where
  | waiting (handlers : exchange.responseHandlers = [.handleResponse false])
      (tasks : exchange.tasks = []) (incomplete : exchange.dataAvailable = 0)
  | due (handlers : exchange.responseHandlers = [])
      (tasks : exchange.tasks = [.responseReady (.handleResponse false)])
      (incomplete : exchange.dataAvailable = 0)
  | stranded (handlers : exchange.responseHandlers = []) (tasks : exchange.tasks = [])
      (waits : exchange.dataReadyHandlers ≠ [])

variable {exchange : Exchange}

theorem Unsent.reply (unsent : exchange.Unsent) : exchange.reply.Unsent := by
  simp only [Exchange.reply]
  split
  · cases unsent with
    | waiting handlers tasks incomplete => exact .waiting handlers tasks incomplete
    | due handlers tasks incomplete => exact .due handlers tasks incomplete
    | stranded handlers tasks waits => exact .stranded handlers tasks waits
  · cases unsent with
    | waiting handlers tasks incomplete =>
        exact .due rfl (by simp [handlers, tasks, Task.answers]) incomplete
    | due handlers tasks incomplete => exact .due rfl (by simp [handlers, tasks]) incomplete
    | stranded handlers tasks waits => exact .stranded rfl (by simp [handlers, tasks]) waits

theorem Unsent.runTask (unsent : exchange.Unsent) : exchange.runTask.Unsent := by
  cases unsent with
  | waiting handlers tasks incomplete =>
      simpa only [Exchange.runTask, tasks] using Unsent.waiting handlers tasks incomplete
  | due handlers tasks incomplete =>
      have waits : ¬(false = true ∨ exchange.dataAvailable ≠ 0) := by simp [incomplete]
      simp only [Exchange.runTask, tasks, run, handleResponse, if_neg waits]
      exact .stranded handlers rfl (by simp)
  | stranded handlers tasks waits =>
      simpa only [Exchange.runTask, tasks] using Unsent.stranded handlers tasks waits

theorem completed_exec (exchange : Exchange) (action : Action) :
    exchange.completed <+: (exchange.exec action).completed := by
  have reply : exchange.completed <+: exchange.reply.completed := by
    simp only [Exchange.reply]
    split <;> exact List.prefix_refl _
  cases action with
  | takeHead | reject | dispatch | handle | restart => exact List.prefix_refl _
  | complete bodySize => exact List.prefix_append _ _
  | reply => exact reply
  | replyIfNotAlready =>
      simp only [exec]
      split
      · exact List.prefix_refl _
      · exact reply
  | doResponse badRequest =>
      simp only [exec, doResponse]
      split <;> exact List.prefix_refl _
  | runTask =>
      simp only [exec, Exchange.runTask]
      split
      · exact List.prefix_refl _
      · simp only [run]
        split
        · simp only [handleResponse]
          split <;> exact List.prefix_refl _
        · split <;> exact List.prefix_refl _
        · exact List.prefix_refl _

theorem completed_execAll (exchange : Exchange) (actions : List Action) :
    exchange.completed <+: (exchange.execAll actions).completed := by
  induction actions generalizing exchange with
  | nil => exact List.prefix_refl _
  | cons action actions ih => exact (exchange.completed_exec action).trans (ih _)

end Exchange

namespace HttpConnection

/-- Connections with a request under way, when `before` was completed before it. -/
def requestSystem (getReqHandler : Bytes → Option ℕ) (before : List ℕ) :
    Lts HttpConnection Event :=
  (system getReqHandler).guard fun conn event =>
    event.KeepsBody ∧ (conn.restarts event = true → conn.log.completed = before)

/-- A head is taken from the socket, and its request is dispatched. -/
structure TakesRequest (getReqHandler : Bytes → Option ℕ) (reached start : HttpConnection) :
    Prop where
  ready : reached.ready = true
  taken : TakesHead getReqHandler reached start
  dispatched : start.log.dispatched ≠ reached.log.dispatched

variable {getReqHandler : Bytes → Option ℕ} {reached start conn next : HttpConnection}
  {event : Event}

theorem TakesRequest.step (takes : TakesRequest getReqHandler reached start) :
    (system getReqHandler).step reached (.readDone 0) start := by
  rcases takes with ⟨ready, ⟨read, rest, reading, head, taken⟩, -⟩
  have handler : read.handler = .handleHttpLine := by simpa [SocketRead.readsHead] using head
  refine ⟨ready, ?_⟩
  simp only [exec, readDone, reading, handler, runReadHandler]
  exact taken

/-- The headers of the request were read. -/
theorem TakesRequest.eq_headersRead (takes : TakesRequest getReqHandler reached start) :
    ∃ conn, start = headersRead getReqHandler conn ∧ conn.tasks = reached.tasks ∧
      conn.reading = reached.reading.tail ∧ conn.read = reached.read ∧
      conn.readSize = reached.readSize := by
  rcases takes with ⟨-, ⟨read, rest, reading, -, taken⟩, dispatched⟩
  have refused {parsed : HttpConnection} (is : start = parsed.rejectBadRequest)
      (same : parsed.log.dispatched = reached.log.dispatched) : False := by
    have log := congrArg (·.milestones.dispatched) (decision_rejectBadRequest parsed)
    exact dispatched (is ▸ log.trans same)
  simp only [handleHttpLine, ne_eq, not_true_eq_false, if_false] at taken
  split at taken
  · exact (refused taken rfl).elim
  · split at taken
    · exact (refused taken rfl).elim
    · simp only [handleHeaders] at taken
      split at taken
      · refine ⟨_, taken, rfl, ?_, rfl, rfl⟩
        rw [reading, List.tail_cons]
      · exact (refused taken rfl).elim

/-- Such a head is the only thing that is read, and nothing is left of the body before. -/
theorem TakesRequest.rested (takes : TakesRequest getReqHandler reached start)
    (reachable : (uninterrupted (system getReqHandler)).Reachable .new reached) :
    ∃ conn, start = headersRead getReqHandler conn ∧ conn.reading = [] ∧
      conn.reception.tasks = [] ∧ conn.read = 0 ∧ conn.readSize = 0 := by
  rcases takes.eq_headersRead with ⟨conn, is, tasks, reading, read, readSize⟩
  rcases takes.taken with ⟨first, rest, whole, head, -⟩
  have some : reached.exchange.heads = rest.countP SocketRead.readsHead + 1 := by
    simp [exchange, whole, head]
  rcases orderly_of_reachable reachable with none | rested
  · omega
  · have one : reached.exchange.heads ≤ 1 :=
      (inCustody_of_reachable (uninterrupted_reachable reachable)).heads_le
    have others : rest = [] := by
      have all : rest.countP SocketRead.readsHead = rest.length :=
        List.countP_eq_length.mpr fun read present =>
          rested.reading read (by simp [reception, whole, present])
      exact List.length_eq_zero_iff.mp (by omega)
    refine ⟨conn, is, ?_, ?_, read.trans rested.read, readSize.trans rested.readSize⟩
    · rw [reading, whole, List.tail_cons, others]
    · have quiet := rested.tasks
      simp only [reception, tasks] at quiet ⊢
      exact quiet

/-- The dispatch leaves the decision how the body is received alone. -/
theorem chunked_dispatchRequestToListener (getReqHandler : Bytes → Option ℕ)
    (conn : HttpConnection) :
    (dispatchRequestToListener getReqHandler conn).chunked = conn.chunked := by
  simp only [dispatchRequestToListener, replyIfNotAlready]
  split
  · split <;> rfl
  · rfl

/-! ### Before the first response -/

theorem restarts_of_idle (idle : conn.writing = []) (event : Event) :
    conn.restarts event = false := by
  cases event <;> simp [restarts, idle]

/-- As long as the response waits nothing is written, and no other head is read. -/
theorem InCustody.unsent (inCustody : conn.InCustody) (unsent : conn.exchange.Unsent) :
    conn.writing = [] ∧ conn.exchange.heads = 0 := by
  have most := inCustody.underWay_le
  have enough : 0 < ((conn.request.responseHandlers.map Task.responseReady).filter
        Task.carries).length + conn.request.dataReadyHandlers.length +
      (conn.tasks.filter Task.carries).length := by
    cases unsent with
    | waiting handlers =>
        change conn.request.responseHandlers = _ at handlers
        simp [handlers, Task.carries, Task.answers]
    | due _ tasks =>
        change conn.tasks.filter Task.answers = _ at tasks
        have present : Task.responseReady (.handleResponse false) ∈ conn.tasks :=
          (List.mem_filter.mp (tasks ▸ List.mem_singleton_self _)).1
        have carried := List.length_pos_of_mem
          (List.mem_filter.mpr ⟨present, (rfl : Task.carries _ = true)⟩)
        omega
    | stranded _ _ waits =>
        have waiting := List.length_pos_of_ne_nil waits
        change 0 < conn.request.dataReadyHandlers.length at waiting
        omega
  simp only [Custody.underWay, custody] at most
  refine ⟨List.length_eq_zero_iff.mp (by omega), ?_⟩
  simp only [exchange]
  omega

/-- It waits until the body of the request is completed. -/
theorem unsent_step (inCustody : conn.InCustody) (unsent : conn.exchange.Unsent)
    (step : (system getReqHandler).step conn event next) :
    next.exchange.Unsent ∨ next.log.completed ≠ conn.log.completed := by
  rcases inCustody.unsent unsent with ⟨idle, none⟩
  rcases step with ⟨legal, rfl⟩
  rcases exchange_exec getReqHandler legal with
    ⟨-, read, rest, ec, reading, head, -⟩ | (same | ⟨bodySize, completed⟩) |
    ⟨-, replied | replied⟩ | ⟨-, ran⟩ | ⟨restarts, -⟩
  · exact absurd head (List.countP_eq_zero.mp none read (by simp [reading]))
  · exact .inl (same ▸ unsent)
  · right
    have after : (exec getReqHandler conn event).log.completed =
        conn.log.completed ++ [bodySize] := congrArg Exchange.completed completed
    simp [after]
  · exact .inl (replied ▸ unsent.reply)
  · left
    rw [replied]
    simp only [Exchange.exec]
    split
    · exact unsent
    · exact unsent.reply
  · exact .inl (ran ▸ unsent.runTask)
  · rw [restarts_of_idle idle] at restarts
    cases restarts

/-- The first request of a connection, when it has just been dispatched. -/
theorem TakesRequest.unsent (takes : TakesRequest getReqHandler reached start)
    (reachable : (system getReqHandler).Reachable .new reached)
    (first : reached.request.initiatedResponse = false) : start.exchange.Unsent := by
  rcases takes.taken with ⟨read, rest, reading, head, taken⟩
  rcases reachable_cases reachable with awaiting | awaiting | ⟨bound, base, settled, -⟩
  · obtain rfl : rest = [] := awaiting.rest_eq_nil reading
    have popped := (awaiting.readDone_eq reading getReqHandler .success 0).1
    rcases handleHttpLine_cases getReqHandler { reached with reading := [] } .success with
      finished | ⟨parsed, completes, is, rejected | dispatched⟩
    · exact (takes.dispatched (by rw [taken, finished]; rfl)).elim
    · have log := congrArg (·.milestones.dispatched) (decision_rejectBadRequest parsed)
      have same : parsed.log.dispatched = reached.log.dispatched := by
        have after := congrArg Exchange.dispatched is.exchange
        rcases is.completes with rfl | rfl <;> exact after
      exact (takes.dispatched (by rw [taken, rejected]; exact log.trans same)).elim
    · rcases popped.parsed rfl is with ⟨completed, -, exchange⟩
      rw [taken, dispatched, exchange_dispatchRequestToListener, exchange]
      simp only [dispatchActions]
      split
      · exact .due rfl rfl rfl
      · exact .waiting rfl rfl rfl
  · have none : reached.reading.countP SocketRead.readsHead = 0 := awaiting.exchange.heads
    exact absurd head (List.countP_eq_zero.mp none read (by simp [reading]))
  · have initiated : reached.request.initiatedResponse = true := settled.initiated
    rw [first] at initiated
    cases initiated

/-! ### Runs -/

/-- A request of a connection, and a run of the connection from its dispatch on. -/
structure RequestRun (getReqHandler : Bytes → Option ℕ) where
  /-- The connection when the head has arrived. -/
  reached : HttpConnection
  start : HttpConnection
  labels : List Event
  next : HttpConnection
  reachable : (system getReqHandler).Reachable .new reached
  takes : TakesRequest getReqHandler reached start
  run : (requestSystem getReqHandler start.log.completed).Run start labels next

namespace RequestRun

variable {request : RequestRun getReqHandler}

/-- No reply was made on the connection before the request. -/
def First (request : RequestRun getReqHandler) : Prop :=
  request.reached.request.initiatedResponse = false

/-- No response ended while a body was being received, neither before the request nor since. -/
structure Undisturbed (request : RequestRun getReqHandler) : Prop where
  before : (uninterrupted (system getReqHandler)).Reachable .new request.reached
  since : (uninterrupted (requestSystem getReqHandler request.start.log.completed)).Run
    request.start request.labels request.next

theorem uninterrupted_of_goesOn (goesOn : conn.restarts event = false) :
    conn.interrupts event = false := by
  rw [interrupts, goesOn, Bool.false_and]

/-- Nothing is written before the first reply. -/
theorem uninterrupted_or_replied (reachable : (system getReqHandler).Reachable .new conn) :
    (uninterrupted (system getReqHandler)).Reachable .new conn ∨ conn.Replied := by
  refine reachable.invariant
    (fun conn => (uninterrupted (system getReqHandler)).Reachable .new conn ∨ conn.Replied)
    (.inl (.refl _)) ?_
  intro conn event next earlier step
  have goesOn (uninterrupted : (uninterrupted (system getReqHandler)).Reachable .new conn)
      (idle : conn.writing = []) :
      (HttpConnection.uninterrupted (system getReqHandler)).Reachable .new next :=
    uninterrupted.tail ⟨uninterrupted_of_goesOn (restarts_of_idle idle event), step⟩
  have settles (replied : conn.Replied) : next.Replied := by
    rcases step with ⟨legal, rfl⟩
    exact replied.step getReqHandler legal
  rcases earlier with uninterrupted | replied
  · rcases reachable_cases (uninterrupted_reachable uninterrupted) with
      awaiting | awaiting | replied
    · exact .inl (goesOn uninterrupted awaiting.writing)
    · exact .inl (goesOn uninterrupted awaiting.writing)
    · exact .inr (settles replied)
  · exact .inr (settles replied)

/-- The response waits until the body of the request is completed. -/
structure Waits (before : List ℕ) (conn : HttpConnection) : Prop where
  inCustody : conn.InCustody
  completed : before <+: conn.log.completed
  unsent : conn.log.completed = before → conn.exchange.Unsent

theorem Waits.goesOn {before : List ℕ} (waits : Waits before conn)
    (step : (requestSystem getReqHandler before).step conn event next) :
    conn.restarts event = false := by
  by_contra restarts
  have incomplete := step.1.2 (by simpa using restarts)
  exact restarts (restarts_of_idle (waits.inCustody.unsent (waits.unsent incomplete)).1 event)

theorem Waits.step {before : List ℕ} (waits : Waits before conn)
    (step : (requestSystem getReqHandler before).step conn event next) : Waits before next := by
  have grows : conn.log.completed <+: next.log.completed := by
    rcases step.2 with ⟨legal, rfl⟩
    rcases exchange_actions getReqHandler legal with ⟨actions, exchange⟩
    have more := conn.exchange.completed_execAll actions
    rw [← exchange] at more
    exact more
  refine ⟨?_, waits.completed.trans grows, ?_⟩
  · rcases step.2 with ⟨legal, rfl⟩
    exact waits.inCustody.exec getReqHandler legal
  · intro incomplete
    have same : conn.log.completed = before :=
      (waits.completed.eq_of_length_le (incomplete ▸ grows.length_le)).symm
    rcases unsent_step waits.inCustody (waits.unsent same) step.2 with unsent | completed
    · exact unsent
    · exact (completed (incomplete.trans same.symm)).elim

/-- Nothing disturbs the first request of a connection. -/
theorem First.undisturbed (first : request.First) : request.Undisturbed where
  before := by
    rcases uninterrupted_or_replied request.reachable with uninterrupted | ⟨bound, base, settled, -⟩
    · exact uninterrupted
    · have initiated : request.reached.request.initiatedResponse = true := settled.initiated
      rw [first] at initiated
      cases initiated
  since := by
    have inCustody := inCustody_of_reachable (request.reachable.tail request.takes.step)
    refine request.run.transfer (Waits request.start.log.completed) ?_
      (fun _ _ _ waits step => waits.step step)
      (fun _ _ _ waits step => ⟨uninterrupted_of_goesOn (waits.goesOn step), step⟩)
    exact ⟨inCustody, List.prefix_refl _, fun _ => request.takes.unsent request.reachable first⟩

end RequestRun

/-- A step in which a body is being received as long as it is not complete. -/
theorem goesOn_of_receivesBody {before : List ℕ}
    (step : (uninterrupted (requestSystem getReqHandler before)).step conn event next)
    (receives : conn.log.completed = before → conn.receivesBody = true) :
    conn.restarts event = false := by
  by_contra goesOn
  have restarts : conn.restarts event = true := by simpa using goesOn
  have interrupts : conn.interrupts event = true := by
    rw [HttpConnection.interrupts, restarts, receives (step.2.1.2 restarts)]
    rfl
  exact absurd step.1 (by simp [interrupts])

/-- A step in which no response ends. -/
theorem requestSystem_step {before : List ℕ} (keeps : event.KeepsBody)
    (goesOn : conn.restarts event = false) (step : (system getReqHandler).step conn event next) :
    (requestSystem getReqHandler before).step conn event next := by
  refine ⟨⟨keeps, ?_⟩, step⟩
  intro restarts
  rw [goesOn] at restarts
  cases restarts

/-- Each event can happen in the state it finds, while a request is under way. -/
def LegalRequest (getReqHandler : Bytes → Option ℕ) (before : List ℕ) :
    HttpConnection → List Event → Prop
  | _, [] => True
  | conn, event :: events =>
      (event.KeepsBody ∧ (conn.restarts event = true → conn.log.completed = before)) ∧
        conn.Legal event ∧ LegalRequest getReqHandler before (exec getReqHandler conn event) events

instance decidableLegalRequest (getReqHandler : Bytes → Option ℕ) (before : List ℕ)
    (conn : HttpConnection) (events : List Event) :
    Decidable (LegalRequest getReqHandler before conn events) :=
  match events with
  | [] => .isTrue trivial
  | event :: events =>
      have := decidableLegalRequest getReqHandler before (exec getReqHandler conn event) events
      inferInstanceAs (Decidable
        ((event.KeepsBody ∧ (conn.restarts event = true → conn.log.completed = before)) ∧
          conn.Legal event ∧
            LegalRequest getReqHandler before (exec getReqHandler conn event) events))

theorem LegalRequest.run {before : List ℕ} {events : List Event}
    (legal : LegalRequest getReqHandler before conn events) :
    (requestSystem getReqHandler before).Run conn events (conn.run getReqHandler events) := by
  induction events generalizing conn with
  | nil => exact .nil conn
  | cons event events ih => exact .cons ⟨legal.1, legal.2.1, rfl⟩ (ih legal.2.2)

/-! ### A connection that is kept open -/

/-- A request with a body of one byte, the reply to it, and the end of the response. -/
def firstExchange : List Event :=
  [.receive (ascii "POST / HTTP/1.1" ++ crlf ++ ascii "Content-Length: 1" ++ crlf ++ crlf ++
      ascii "A"), .readDone 0, .readDone 0, .runTask, .readDone 0,
    .reply (HttpResponseImpl.new 200) 0, .runTask, .writeDone [], .runTask]

/-- The connection waits for its second request. -/
def keptOpen : HttpConnection :=
  HttpConnection.new.run anyHandler firstExchange

theorem keptOpen_reachable : (system anyHandler).Reachable .new keptOpen := by
  have legal : LegalRun anyHandler HttpConnection.new firstExchange := by decide +kernel
  exact ⟨_, legal.run⟩

theorem keptOpen_receive {piece : Bytes} (nonempty : piece ≠ []) :
    (system anyHandler).Reachable .new (exec anyHandler keptOpen (.receive piece)) := by
  have isOpen : keptOpen.socketOpen = true ∧ keptOpen.waiting = true := by decide +kernel
  have legal : keptOpen.Legal (.receive piece) := ⟨isOpen.1, isOpen.2, nonempty⟩
  exact keptOpen_reachable.tail ⟨legal, rfl⟩

end HttpConnection

end Snode.Http
