import Snode.Http.Exchange

/-!
# The first request of a connection

Until a response is initiated a connection has been reading its first head or
is waiting for the reply to its first request.  After that its request stays
as the reply left it: nothing resets it, and only responses that exist by then
are ever sent.
-/

namespace Snode.Http

open Streams

namespace Exchange

/-- A response was initiated, and only responses below `bound` have been sent since `base` or
are still to be sent. -/
structure Settled (bound : HttpResponse) (base : List HttpResponse) (exchange : Exchange) :
    Prop where
  initiated : exchange.initiatedResponse = true
  ready : exchange.responseReady = true
  response : exchange.response < bound
  handlers : ∀ response,
    .handleRequestDataReady response ∈ exchange.dataReadyHandlers → response < bound
  tasks : ∀ response size,
    .dataReady (.handleRequestDataReady response) size ∈ exchange.tasks → response < bound
  processed : ∃ since, exchange.processed = base ++ since ∧ ∀ response ∈ since, response < bound

namespace Settled

variable {bound : HttpResponse} {base : List HttpResponse} {exchange : Exchange}

theorem process (settled : exchange.Settled bound base) {response : HttpResponse}
    (small : response < bound) : (exchange.process response).Settled bound base := by
  rcases settled.processed with ⟨since, processed, below⟩
  refine ⟨settled.initiated, settled.ready, settled.response, settled.handlers, settled.tasks,
    since ++ [response], by simp [Exchange.process, processed], ?_⟩
  intro other present
  rcases List.mem_append.mp present with earlier | last
  · exact below other earlier
  · exact List.mem_singleton.mp last ▸ small

theorem runTask (settled : exchange.Settled bound base) :
    exchange.runTask.Settled bound base := by
  rcases tasks : exchange.tasks with _ | ⟨task, rest⟩
  · simpa only [Exchange.runTask, tasks] using settled
  · have popped : { exchange with tasks := rest }.Settled bound base :=
      { settled with
        tasks := fun response size present =>
          settled.tasks response size (tasks ▸ List.mem_cons_of_mem _ present) }
    simp only [Exchange.runTask, tasks]
    cases task with
    | responseReady handler =>
        cases handler with
        | handleResponse badRequest =>
            simp only [run, handleResponse]
            split
            · exact popped.process settled.response
            · refine { popped with handlers := fun response present => ?_ }
              rcases List.mem_append.mp present with earlier | last
              · exact settled.handlers response earlier
              · obtain rfl : response = exchange.response := by simpa using last
                exact settled.response
        | user handler => exact popped
    | dataReady handler size =>
        cases handler with
        | handleRequestDataReady response =>
            simp only [run]
            split
            · exact popped.process
                (settled.tasks response size (tasks ▸ List.mem_cons_self))
            · exact popped
        | user handler => exact popped
    | responseComplete | bufRead | putn | bufWrite => exact popped

/-- Nothing a connection does makes its request fresh again. -/
theorem exec (settled : exchange.Settled bound base) (action : Action) :
    (exchange.exec action).Settled bound base := by
  cases action with
  | takeHead | reject | dispatch | handle | complete | restart => exact { settled with }
  | reply =>
      simp only [Exchange.exec, Exchange.reply, if_pos settled.initiated]
      exact { settled with }
  | replyIfNotAlready =>
      simp only [Exchange.exec, if_pos settled.initiated]
      exact settled
  | doResponse badRequest =>
      have ready : ¬(!exchange.responseReady) = true := by simp [settled.ready]
      simp only [Exchange.exec, Exchange.doResponse, if_neg ready]
      refine { settled with tasks := fun response size present => ?_ }
      exact settled.tasks response size (by simpa using present)
  | runTask => exact settled.runTask

theorem execAll (settled : exchange.Settled bound base) (actions : List Action) :
    (exchange.execAll actions).Settled bound base :=
  execAll_invariant (fun _ action settled _ => settled.exec action) settled
    fun _ _ => trivial

end Settled

/-- The responses there are by now are all that a settled exchange will ever send. -/
theorem Settled.rebase {bound : HttpResponse} {base : List HttpResponse} {exchange : Exchange}
    (settled : exchange.Settled bound base) (allocated : bound ≤ exchange.nextResponse) :
    exchange.Settled exchange.nextResponse exchange.processed where
  initiated := settled.initiated
  ready := settled.ready
  response := settled.response.trans_le allocated
  handlers response present := (settled.handlers response present).trans_le allocated
  tasks response size present := (settled.tasks response size present).trans_le allocated
  processed := ⟨[], by simp, by simp⟩

theorem nextResponse_exec (exchange : Exchange) (action : Action) :
    exchange.nextResponse ≤ (exchange.exec action).nextResponse := by
  have reply : exchange.nextResponse ≤ exchange.reply.nextResponse := by
    simp only [Exchange.reply]
    split <;> exact Nat.le_succ _
  cases action with
  | takeHead | reject | dispatch | handle | complete | restart => exact le_rfl
  | reply => exact reply
  | replyIfNotAlready =>
      simp only [exec]
      split
      · exact le_rfl
      · exact reply
  | doResponse badRequest =>
      simp only [exec, doResponse]
      split <;> exact le_rfl
  | runTask =>
      simp only [exec, runTask]
      split
      · exact le_rfl
      · simp only [run]
        split
        · simp only [handleResponse]
          split <;> exact le_rfl
        · split <;> exact le_rfl
        · exact le_rfl

theorem nextResponse_execAll (exchange : Exchange) (actions : List Action) :
    exchange.nextResponse ≤ (exchange.execAll actions).nextResponse := by
  induction actions generalizing exchange with
  | nil => exact le_rfl
  | cons action actions ih => exact (exchange.nextResponse_exec action).trans (ih _)

/-- Nobody has replied, and nothing is under way that a reply would settle. -/
structure Fresh (exchange : Exchange) : Prop where
  initiated : exchange.initiatedResponse = false
  dataReadyHandlers : exchange.dataReadyHandlers = []
  tasks : exchange.tasks = []

/-- The first reply settles an exchange. -/
theorem Fresh.settled {exchange : Exchange} (fresh : exchange.Fresh) :
    exchange.reply.Settled exchange.reply.nextResponse exchange.processed := by
  have notInitiated : ¬exchange.initiatedResponse = true := by simp [fresh.initiated]
  simp only [reply, if_neg notInitiated]
  refine ⟨rfl, rfl, Nat.lt_succ_self _, ?_, ?_, [], by simp, by simp⟩
  · intro response present
    simp [fresh.dataReadyHandlers] at present
  · intro response size present
    simp [fresh.tasks] at present

/-- A first request was dispatched, and nobody has replied to it. -/
structure AwaitingReply (exchange : Exchange) : Prop where
  initiated : exchange.initiatedResponse = false
  ready : exchange.responseReady = false
  heads : exchange.heads = 0
  dispatched : exchange.dispatched.length = 1
  discarded : exchange.discarded = []
  responseHandlers : exchange.responseHandlers = [.handleResponse false]
  dataReadyHandlers : exchange.dataReadyHandlers = []
  processed : exchange.processed = []
  nextResponse : exchange.nextResponse = 1

theorem AwaitingReply.complete {exchange : Exchange} (awaiting : exchange.AwaitingReply)
    (bodySize : ℕ) : (exchange.exec (.complete bodySize)).AwaitingReply :=
  { awaiting with }

end Exchange

namespace HttpConnection

/-- No read waits for the body of a response. -/
def BodiesIdle (conn : HttpConnection) : Prop :=
  ∀ response, (conn.responses response).body.buffer.requests = []

/-- Reading the head of the first request, or done with it for good. -/
structure AwaitingHead (conn : HttpConnection) : Prop where
  exchange : ∃ heads ≤ 1, conn.exchange = { HttpConnection.new.exchange with heads := heads }
  reading : ∀ read ∈ conn.reading, read.readsHead = true
  tasks : conn.tasks = []
  writing : conn.writing = []
  bodies : conn.BodiesIdle

/-- Waiting for the reply to the first request. -/
structure AwaitingReply (conn : HttpConnection) : Prop where
  exchange : conn.exchange.AwaitingReply
  tasks : ∀ task ∈ conn.tasks, task.receives = true
  writing : conn.writing = []
  bodies : conn.BodiesIdle

/-- A response was initiated. -/
def Replied (conn : HttpConnection) : Prop :=
  ∃ bound base, conn.exchange.Settled bound base ∧ bound ≤ conn.nextResponse

theorem Replied.execAll {conn next : HttpConnection} (replied : conn.Replied)
    {actions : List Exchange.Action}
    (exchange : next.exchange = conn.exchange.execAll actions) : next.Replied := by
  rcases replied with ⟨bound, base, settled, allocated⟩
  refine ⟨bound, base, exchange ▸ settled.execAll actions, ?_⟩
  have grows : conn.exchange.nextResponse ≤ next.exchange.nextResponse :=
    exchange ▸ conn.exchange.nextResponse_execAll actions
  exact allocated.trans grows

/-- A reply, by whomever, to a request nobody has replied to. -/
theorem replied_of_fresh {exchange : Exchange} (fresh : exchange.Fresh)
    {actions : List Exchange.Action} {next : HttpConnection}
    (replied : next.exchange = exchange.execAll (.replyIfNotAlready :: actions) ∨
      next.exchange = exchange.execAll (.reply :: actions)) : next.Replied := by
  have notInitiated : ¬exchange.initiatedResponse = true := by simp [fresh.initiated]
  have after : next.exchange = exchange.reply.execAll actions := by
    rcases replied with replied | replied
    · simpa only [Exchange.execAll_cons, Exchange.exec, if_neg notInitiated] using replied
    · simpa only [Exchange.execAll_cons, Exchange.exec] using replied
  refine ⟨_, _, after ▸ fresh.settled.execAll actions, ?_⟩
  have grows : exchange.reply.nextResponse ≤ next.exchange.nextResponse :=
    after ▸ exchange.reply.nextResponse_execAll actions
  exact grows

/-! ### The application's operations -/

theorem BodiesIdle.bodyOp_eq {conn : HttpConnection} (idle : conn.BodiesIdle)
    (response : HttpResponse) {op : Op UInt8 BufReadHandler} (produces : op.Produces) :
    conn.bodyOp response op =
      conn.updateResponse response fun impl =>
        { impl with body := (conn.responses response).body.exec op } := by
  simp only [HttpConnection.bodyOp, (produces.idle (idle response)).1, List.foldl_nil]

theorem BodiesIdle.bodyOp {conn : HttpConnection} (idle : conn.BodiesIdle)
    (response : HttpResponse) {op : Op UInt8 BufReadHandler} (produces : op.Produces) :
    (conn.bodyOp response op).BodiesIdle := by
  intro other
  rw [idle.bodyOp_eq response produces]
  by_cases same : other = response
  · rw [same]
    simp only [updateResponse, if_true]
    exact (produces.idle (idle response)).2
  · simpa [updateResponse, same] using idle other

/-! ### Reading the first head -/

/-- Apart from the reads of heads, everything is as it was at the start. -/
theorem AwaitingHead.eq_new {conn : HttpConnection} (awaiting : conn.AwaitingHead) {β : Type}
    (field : Exchange → β)
    (ignoresHeads : ∀ exchange heads, field { exchange with heads := heads } = field exchange) :
    field conn.exchange = field HttpConnection.new.exchange := by
  rcases awaiting.exchange with ⟨heads, -, exchange⟩
  rw [exchange, ignoresHeads]

theorem AwaitingHead.fresh {conn : HttpConnection} (awaiting : conn.AwaitingHead) :
    conn.exchange.Fresh := by
  rcases awaiting.exchange with ⟨heads, -, exchange⟩
  rw [exchange]
  exact ⟨rfl, rfl, rfl⟩

theorem AwaitingHead.handled {conn : HttpConnection} (awaiting : conn.AwaitingHead) :
    conn.log.handled = [] :=
  awaiting.eq_new Exchange.handled fun _ _ => rfl

theorem AwaitingHead.undispatched {conn : HttpConnection} (awaiting : conn.AwaitingHead) :
    conn.log.dispatched = [] :=
  awaiting.eq_new Exchange.dispatched fun _ _ => rfl

theorem AwaitingHead.rest_eq_nil {conn : HttpConnection} (awaiting : conn.AwaitingHead)
    {read : SocketRead} {rest : List SocketRead} (reading : conn.reading = read :: rest) :
    rest = [] := by
  rcases awaiting.exchange with ⟨heads, small, exchange⟩
  have counted : conn.reading.countP SocketRead.readsHead = conn.reading.length :=
    List.countP_eq_length.mpr awaiting.reading
  have headsEq : conn.reading.countP SocketRead.readsHead = heads :=
    congrArg Exchange.heads exchange
  simp only [reading, List.length_cons] at counted headsEq
  exact List.length_eq_zero_iff.mp (by omega)

/-- The one read that is waited for comes to the line of the request. -/
theorem AwaitingHead.readDone_eq {conn : HttpConnection} (awaiting : conn.AwaitingHead)
    {read : SocketRead} {rest : List SocketRead} (reading : conn.reading = read :: rest)
    (getReqHandler : Bytes → Option ℕ) (ec : ErrorCode) (value : Int) :
    { conn with reading := [] }.AwaitingHead ∧
      readDone getReqHandler conn ec value =
        HttpConnection.handleHttpLine getReqHandler { conn with reading := [] } ec := by
  have handler : read.handler = .handleHttpLine := by
    simpa [SocketRead.readsHead] using awaiting.reading read (by simp [reading])
  obtain rfl : rest = [] := awaiting.rest_eq_nil reading
  refine ⟨⟨?_, by simp, awaiting.tasks, awaiting.writing, awaiting.bodies⟩, ?_⟩
  · rcases awaiting.exchange with ⟨heads, -, exchange⟩
    refine ⟨0, by decide, ?_⟩
    exact congrArg (fun exchange : Exchange => { exchange with heads := 0 }) exchange
  · simp only [readDone, reading, handler, runReadHandler]

/-- The exchange of a connection whose first request was passed to a handler; `completed` tells
whether it was known to have no body. -/
def firstDispatched (completed : List ℕ) (dispatched : Dispatched) (handler : ℕ) : Exchange :=
  { HttpConnection.new.exchange with
    heads := 0
    completed := completed
    dispatched := [dispatched]
    handled := [handler]
    responseHandlers := [.handleResponse false] }

theorem firstDispatched_awaitingReply (completed : List ℕ) (dispatched : Dispatched)
    (handler : ℕ) : (firstDispatched completed dispatched handler).AwaitingReply :=
  ⟨rfl, rfl, rfl, rfl, rfl, rfl, rfl, rfl, rfl⟩

/-- A first request has just been passed to a handler. -/
structure JustDispatched (conn : HttpConnection) (completed : List ℕ) : Prop where
  exchange : ∃ dispatched handler, conn.exchange = firstDispatched completed dispatched handler
  completed : completed = [] ∨ completed = [0]
  tasks : conn.tasks = []
  writing : conn.writing = []
  bodies : conn.BodiesIdle

theorem JustDispatched.awaitingReply {conn : HttpConnection} {completed : List ℕ}
    (just : conn.JustDispatched completed) : conn.AwaitingReply where
  exchange := by
    rcases just.exchange with ⟨dispatched, handler, exchange⟩
    exact exchange ▸ firstDispatched_awaitingReply _ _ _
  tasks := by simp [just.tasks]
  writing := just.writing
  bodies := just.bodies

theorem AwaitingHead.parsed {conn parsed : HttpConnection} {completes : List Exchange.Action}
    (awaiting : conn.AwaitingHead) (idle : conn.exchange.heads = 0)
    (is : HeadParsed conn parsed completes) :
    ∃ completed, (completed = [] ∨ completed = [0]) ∧
      parsed.exchange =
        { HttpConnection.new.exchange with heads := 0, completed := completed } := by
  rcases awaiting.exchange with ⟨heads, -, exchange⟩
  obtain rfl : heads = 0 := by simpa [exchange] using idle
  rw [is.exchange, exchange]
  rcases is.completes with rfl | rfl
  · exact ⟨[], .inl rfl, rfl⟩
  · exact ⟨[0], .inr rfl, rfl⟩

/-- Passing a request to a handler schedules nothing yet. -/
theorem dispatchRequestToListener_handled {getReqHandler : Bytes → Option ℕ}
    {conn : HttpConnection} {handler : ℕ}
    (located : locateHandler getReqHandler (Uri.splitPath conn.request.url)
      (Uri.splitPath conn.request.url).length none = some handler)
    (notReady : conn.request.responseReady = false) :
    (dispatchRequestToListener getReqHandler conn).tasks = conn.tasks ∧
      (dispatchRequestToListener getReqHandler conn).writing = conn.writing ∧
      (dispatchRequestToListener getReqHandler conn).responses = conn.responses := by
  simp [dispatchRequestToListener, located, doResponse, getResponse,
    HttpRequestImpl.asyncGetResponse, notReady, connect]

/-- A first request is passed to a handler, or answered in its place. -/
theorem AwaitingHead.dispatch {conn parsed : HttpConnection} {completes : List Exchange.Action}
    (awaiting : conn.AwaitingHead) (idle : conn.exchange.heads = 0)
    (is : HeadParsed conn parsed completes) (getReqHandler : Bytes → Option ℕ) :
    (∃ completed, (dispatchRequestToListener getReqHandler parsed).JustDispatched completed) ∨
      (dispatchRequestToListener getReqHandler parsed).Replied ∧
        (dispatchRequestToListener getReqHandler parsed).log.handled = [] := by
  rcases awaiting.parsed idle is with ⟨completed, known, exchange⟩
  have after := exchange_dispatchRequestToListener getReqHandler parsed
  rcases located : locateHandler getReqHandler (Uri.splitPath parsed.dispatchable.url)
    (Uri.splitPath parsed.dispatchable.url).length none with _ | handler
  · right
    simp only [dispatchActions, located, exchange] at after
    have freshDispatched : Exchange.Fresh
        ({ HttpConnection.new.exchange with heads := 0, completed := completed }.exec
          (.dispatch parsed.dispatchable)) := ⟨rfl, rfl, rfl⟩
    exact ⟨replied_of_fresh freshDispatched (.inl after), congrArg Exchange.handled after⟩
  · left
    simp only [dispatchActions, located, exchange] at after
    have notReady : parsed.request.responseReady = false :=
      congrArg Exchange.responseReady exchange
    rcases dispatchRequestToListener_handled located notReady with ⟨tasks, writing, responses⟩
    refine ⟨completed, ⟨_, _, after⟩, known, ?_, ?_, fun response => ?_⟩
    · rw [tasks, is.tasks, awaiting.tasks]
    · rw [writing, is.writing, awaiting.writing]
    · rw [responses, is.responses]
      exact awaiting.bodies response

theorem AwaitingHead.handleHttpLine {conn : HttpConnection} (awaiting : conn.AwaitingHead)
    (idle : conn.exchange.heads = 0) (getReqHandler : Bytes → Option ℕ) (ec : ErrorCode) :
    (handleHttpLine getReqHandler conn ec).AwaitingHead ∨
      (∃ completed, (handleHttpLine getReqHandler conn ec).JustDispatched completed) ∨
      (handleHttpLine getReqHandler conn ec).Replied ∧
        (handleHttpLine getReqHandler conn ec).log.handled = [] := by
  rcases handleHttpLine_cases getReqHandler conn ec with
    finished | ⟨parsed, completes, is, rejected | dispatched⟩
  · rw [finished]
    exact .inl ⟨awaiting.exchange, awaiting.reading, awaiting.tasks, awaiting.writing,
      awaiting.bodies⟩
  · rw [rejected]
    rcases awaiting.parsed idle is with ⟨completed, -, exchange⟩
    have after := exchange_rejectBadRequest parsed
    have fresh : parsed.exchange.Fresh := exchange ▸ ⟨rfl, rfl, rfl⟩
    refine .inr (.inr ⟨replied_of_fresh fresh (.inl after), ?_⟩)
    exact congrArg Exchange.handled (exchange ▸ after)
  · rw [dispatched]
    exact .inr (awaiting.dispatch idle is getReqHandler)

theorem AwaitingHead.step (getReqHandler : Bytes → Option ℕ) {conn : HttpConnection}
    {event : Event} (awaiting : conn.AwaitingHead) (legal : conn.Legal event) :
    (exec getReqHandler conn event).AwaitingHead ∨
      (∃ completed, (exec getReqHandler conn event).JustDispatched completed) ∨
      (exec getReqHandler conn event).Replied ∧
        (exec getReqHandler conn event).log.handled = [] := by
  have handled := awaiting.handled
  have done (ec : ErrorCode) (value : Int) :
      (readDone getReqHandler conn ec value).AwaitingHead ∨
        (∃ completed, (readDone getReqHandler conn ec value).JustDispatched completed) ∨
        (readDone getReqHandler conn ec value).Replied ∧
          (readDone getReqHandler conn ec value).log.handled = [] := by
    rcases reading : conn.reading with _ | ⟨read, rest⟩
    · simp only [readDone, reading]
      exact .inl awaiting
    · rcases awaiting.readDone_eq reading getReqHandler ec value with ⟨popped, is⟩
      rw [is]
      exact popped.handleHttpLine rfl getReqHandler ec
  cases event with
  | receive piece =>
      rcases reading : conn.reading with _ | ⟨read, rest⟩
      · simp only [exec, receive, reading]
        exact .inl awaiting
      · simp only [exec, receive, reading]
        have head := awaiting.reading read (by simp [reading])
        obtain rfl : rest = [] := awaiting.rest_eq_nil reading
        refine .inl ⟨?_, ?_, awaiting.tasks, awaiting.writing, awaiting.bodies⟩
        · rcases awaiting.exchange with ⟨heads, small, exchange⟩
          refine ⟨heads, small, exchange ▸ ?_⟩
          simp [HttpConnection.exchange, reading, SocketRead.readsHead]
        · simpa [SocketRead.readsHead] using head
  | readDone value => exact done .success value
  | readError ec => exact done ec 0
  | writeDone memory =>
      rcases legal with ⟨-, handler, rest, writing, -⟩
      simp [awaiting.writing] at writing
  | writeError ec => exact (legal.1 awaiting.writing).elim
  | runTask => exact (legal awaiting.tasks).elim
  | reply impl handler => exact (legal.1 handled).elim
  | handlerThrew => exact (legal handled).elim
  | requestOp op =>
      exact .inl ⟨awaiting.exchange, awaiting.reading, awaiting.tasks, awaiting.writing,
        awaiting.bodies⟩
  | responseOp response op =>
      have same := awaiting.bodies.bodyOp_eq response legal.1
      refine .inl ⟨?_, ?_, ?_, ?_, awaiting.bodies.bodyOp response legal.1⟩
      · simpa only [exec, exchange_bodyOp] using awaiting.exchange
      · rw [exec, same]
        exact awaiting.reading
      · rw [exec, same]
        exact awaiting.tasks
      · rw [exec, same]
        exact awaiting.writing

/-! ### Waiting for the first reply -/

theorem AwaitingReply.receiving {conn next : HttpConnection} (awaiting : conn.AwaitingReply)
    (receiving : Receiving conn next) : next.AwaitingReply := by
  have writing : next.writing = conn.writing := congrArg Prod.fst receiving.sending
  have responses : next.responses = conn.responses :=
    congrArg (fun sending => sending.2.1) receiving.sending
  have tasks : (next.tasks.filter fun task => !task.receives) =
      conn.tasks.filter fun task => !task.receives :=
    congrArg (fun sending => sending.2.2) receiving.sending
  refine ⟨?_, ?_, writing.trans awaiting.writing, fun response => ?_⟩
  · rcases receiving.exchange with same | ⟨bodySize, completed⟩
    · exact same ▸ awaiting.exchange
    · exact completed ▸ awaiting.exchange.complete bodySize
  · have none : (next.tasks.filter fun task => !task.receives) = [] := by
      simpa [tasks, List.filter_eq_nil_iff] using awaiting.tasks
    simpa [List.filter_eq_nil_iff] using none
  · rw [responses]
    exact awaiting.bodies response

theorem AwaitingReply.fresh {conn : HttpConnection} (awaiting : conn.AwaitingReply) :
    conn.exchange.Fresh where
  initiated := awaiting.exchange.initiated
  dataReadyHandlers := awaiting.exchange.dataReadyHandlers
  tasks := by
    have receives := awaiting.tasks
    simp only [HttpConnection.exchange, List.filter_eq_nil_iff]
    intro task present answers
    have receiving := receives task present
    cases task <;> simp [Task.receives, Task.answers] at receiving answers

/-- A read completes nothing but the body while a reply is waited for. -/
theorem AwaitingReply.readDone {conn : HttpConnection} (awaiting : conn.AwaitingReply)
    (getReqHandler : Bytes → Option ℕ) (ec : ErrorCode) (value : Int) :
    Receiving conn (readDone getReqHandler conn ec value) := by
  rcases reading : conn.reading with _ | ⟨read, rest⟩
  · simp only [HttpConnection.readDone, reading]
    exact ⟨.inl rfl, rfl⟩
  · have none : conn.reading.countP SocketRead.readsHead = 0 := awaiting.exchange.heads
    have other := List.countP_eq_zero.mp none read (by simp [reading])
    exact receiving_readDone getReqHandler reading other ec value

theorem AwaitingReply.step (getReqHandler : Bytes → Option ℕ) {conn : HttpConnection}
    {event : Event} (awaiting : conn.AwaitingReply) (legal : conn.Legal event) :
    (exec getReqHandler conn event).AwaitingReply ∨ (exec getReqHandler conn event).Replied := by
  cases event with
  | receive piece =>
      rcases reading : conn.reading with _ | ⟨read, rest⟩
      · simp only [exec, receive, reading]
        exact .inl awaiting
      · refine .inl (awaiting.receiving ⟨.inl ?_, ?_⟩)
        · simp [exec, receive, reading, HttpConnection.exchange, SocketRead.readsHead,
            List.countP_cons]
        · simp [exec, receive, reading, sending]
  | readDone value =>
      exact .inl (awaiting.receiving (awaiting.readDone getReqHandler .success value))
  | readError ec => exact .inl (awaiting.receiving (awaiting.readDone getReqHandler ec 0))
  | writeDone memory =>
      rcases legal with ⟨-, handler, rest, writing, -⟩
      simp [awaiting.writing] at writing
  | writeError ec => exact (legal.1 awaiting.writing).elim
  | runTask =>
      rcases tasks : conn.tasks with _ | ⟨task, rest⟩
      · exact (legal tasks).elim
      · simp only [exec, runNextTask, tasks]
        have receives := awaiting.tasks task (by simp [tasks])
        exact .inl (awaiting.receiving (receiving_runTask tasks receives))
  | reply impl handler =>
      have after : (conn.reply impl handler).exchange = conn.exchange.execAll [.reply] :=
        exchange_reply _ _ _
      exact .inr (replied_of_fresh awaiting.fresh (.inr after))
  | handlerThrew =>
      have after : (conn.replyIfNotAlready StatusCodes.internalError).exchange =
          conn.exchange.execAll [.replyIfNotAlready] := exchange_replyIfNotAlready _ _
      exact .inr (replied_of_fresh awaiting.fresh (.inl after))
  | requestOp op =>
      exact .inl ⟨awaiting.exchange, awaiting.tasks, awaiting.writing, awaiting.bodies⟩
  | responseOp response op =>
      have same := awaiting.bodies.bodyOp_eq response legal.1
      refine .inl ⟨?_, ?_, ?_, awaiting.bodies.bodyOp response legal.1⟩
      · simpa only [exec, exchange_bodyOp] using awaiting.exchange
      · rw [exec, same]
        exact awaiting.tasks
      · rw [exec, same]
        exact awaiting.writing

/-! ### Every connection -/

theorem Replied.step (getReqHandler : Bytes → Option ℕ) {conn : HttpConnection}
    {event : Event} (replied : conn.Replied) (legal : conn.Legal event) :
    (exec getReqHandler conn event).Replied := by
  rcases exchange_actions getReqHandler legal with ⟨actions, exchange⟩
  exact replied.execAll exchange

theorem reachable_cases {getReqHandler : Bytes → Option ℕ} {conn : HttpConnection}
    (reachable : (system getReqHandler).Reachable .new conn) :
    conn.AwaitingHead ∨ conn.AwaitingReply ∨ conn.Replied := by
  refine reachable.invariant (fun conn => conn.AwaitingHead ∨ conn.AwaitingReply ∨ conn.Replied)
    (.inl ?_) ?_
  · refine ⟨⟨1, le_rfl, rfl⟩, ?_, rfl, rfl, fun _ => rfl⟩
    simp [HttpConnection.new, startRequestResponse, asyncRead, SocketRead.readsHead]
  · rintro conn event next phase ⟨legal, rfl⟩
    rcases phase with awaiting | awaiting | replied
    · rcases awaiting.step getReqHandler legal with still | ⟨sizes, just⟩ | ⟨replied, -⟩
      · exact .inl still
      · exact .inr (.inl just.awaitingReply)
      · exact .inr (.inr replied)
    · exact .inr (awaiting.step getReqHandler legal)
    · exact .inr (.inr (replied.step getReqHandler legal))

end HttpConnection

end Snode.Http
