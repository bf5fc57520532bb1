import Mathlib.Data.List.TakeWhile
import Snode.Http.FirstRequest

/-!
# Answering a dispatched request

`do_response(false)` waits for the reply, and `handle_response` for the end of
the body.  What follows is decided by the order of three things: the body is
completed, the handler replies, and the task runs that the reply scheduled.
-/

namespace Snode.Http

open Streams

/-- What happens after a request was dispatched: its body is completed, or the connection goes
on in any way but by a read on its socket. -/
inductive AnsweringEvent where
  | bodyCompleted (bodySize : ℕ)
  | other (event : Event)

namespace AnsweringEvent

def bodySize? : AnsweringEvent → Option ℕ
  | bodyCompleted bodySize => some bodySize
  | other _ => none

def replies : AnsweringEvent → Bool
  | bodyCompleted _ => false
  | other event => event.replies

def runsTask : AnsweringEvent → Bool
  | other .runTask => true
  | _ => false

end AnsweringEvent

/-- What happens before the first task runs. -/
def beforeTask (labels : List AnsweringEvent) : List AnsweringEvent :=
  labels.takeWhile (!·.runsTask)

/-- The body was completed with a size other than `0` before the first task ran, which is
`handle_response`. -/
def CompletedInTime (labels : List AnsweringEvent) : Prop :=
  ∃ bodySize ≠ 0, .bodyCompleted bodySize ∈ beforeTask labels

theorem beforeTask_append {labels : List AnsweringEvent}
    (ran : labels.countP AnsweringEvent.runsTask ≠ 0) (more : List AnsweringEvent) :
    beforeTask (labels ++ more) = beforeTask labels := by
  have stops : (labels.takeWhile (!·.runsTask)).length ≠ labels.length := by
    intro all
    have self := (List.takeWhile_prefix _).eq_of_length all
    refine ran (List.countP_eq_zero.mpr fun label present => ?_)
    simpa using List.takeWhile_eq_self_iff.mp self label present
  simp only [beforeTask, List.takeWhile_append, if_neg stops]

theorem beforeTask_runTask {labels : List AnsweringEvent}
    (none : labels.countP AnsweringEvent.runsTask = 0) :
    beforeTask (labels ++ [.other .runTask]) = labels := by
  have all : ∀ label ∈ labels, (!label.runsTask) = true := fun label present => by
    simpa using List.countP_eq_zero.mp none label present
  simp only [beforeTask, List.takeWhile_append_of_pos all]
  simp [AnsweringEvent.runsTask]

namespace HttpConnection

/-- Connections whose request was dispatched. -/
def answeringSystem (getReqHandler : Bytes → Option ℕ) : Lts HttpConnection AnsweringEvent where
  step conn label next :=
    match label with
    | .bodyCompleted bodySize => next = conn.complete bodySize
    | .other event =>
        event.readsSocket = false ∧ conn.Legal event ∧ next = exec getReqHandler conn event

/-- A connection that reads a head and passes the request to a handler.  A request without a
body is completed in the same step. -/
structure Dispatches (getReqHandler : Bytes → Option ℕ) (conn start : HttpConnection)
    (completed : List ℕ) : Prop where
  reachable : (system getReqHandler).Reachable .new conn
  step : ∃ value, conn.Legal (.readDone value) ∧ start = exec getReqHandler conn (.readDone value)
  handled : start.log.handled ≠ conn.log.handled
  completed : start.log.completed = conn.log.completed ++ completed

/-- What the last completion of a body left as the size of the data available. -/
def available (labels : List AnsweringEvent) : ℕ :=
  (labels.filterMap AnsweringEvent.bodySize?).getLastD 0

/-- Nothing is under way but some tasks. -/
structure Still (conn : HttpConnection) (tasks : List Task) : Prop where
  tasks : conn.tasks = tasks
  writing : conn.writing = []
  bodies : conn.BodiesIdle

theorem Still.complete {conn : HttpConnection} {tasks : List Task} (still : conn.Still tasks)
    (bodySize : ℕ) : (conn.complete bodySize).Still tasks :=
  ⟨still.tasks, still.writing, still.bodies⟩

/-- While nothing is under way the application has the connection to itself. -/
theorem Still.step {getReqHandler : Bytes → Option ℕ} {conn : HttpConnection}
    {tasks : List Task} (still : conn.Still tasks) {event : Event} (legal : conn.Legal event)
    (noRead : event.readsSocket = false) (noReply : event.replies = false)
    (noTask : event ≠ .runTask) :
    (exec getReqHandler conn event).Still tasks ∧
      (exec getReqHandler conn event).exchange = conn.exchange := by
  cases event with
  | receive | readDone | readError => simp [Event.readsSocket] at noRead
  | reply | handlerThrew => simp [Event.replies] at noReply
  | runTask => exact (noTask rfl).elim
  | writeDone memory =>
      rcases legal with ⟨-, handler, rest, writing, -⟩
      simp [still.writing] at writing
  | writeError ec => exact (legal.1 still.writing).elim
  | requestOp op => exact ⟨⟨still.tasks, still.writing, still.bodies⟩, rfl⟩
  | responseOp response op =>
      have same := still.bodies.bodyOp_eq response legal.1
      refine ⟨⟨?_, ?_, still.bodies.bodyOp response legal.1⟩, exchange_bodyOp _ _ _⟩
      · rw [exec, same]
        exact still.tasks
      · rw [exec, same]
        exact still.writing

theorem body_defaultReasonPhrase (impl : HttpResponseImpl) :
    impl.defaultReasonPhrase.body = impl.body := by
  simp only [HttpResponseImpl.defaultReasonPhrase]
  split
  · split <;> rfl
  · rfl

/-- The first reply schedules the handlers that waited for it. -/
theorem Still.reply {getReqHandler : Bytes → Option ℕ} {conn : HttpConnection}
    {tasks : List Task} (still : conn.Still tasks) {event : Event} (legal : conn.Legal event)
    (replies : event.replies = true) (fresh : conn.request.initiatedResponse = false) :
    (exec getReqHandler conn event).Still
        (tasks ++ conn.request.responseHandlers.map .responseReady) ∧
      (exec getReqHandler conn event).exchange = conn.exchange.reply := by
  have notInitiated : ¬conn.request.initiatedResponse = true := by simp [fresh]
  have exchangeFresh : ¬conn.exchange.initiatedResponse = true := notInitiated
  have bodies {impl : HttpResponseImpl} (idle : impl.body.buffer.requests = [])
      (response : HttpResponse) :
      (if response = conn.nextResponse then impl.defaultReasonPhrase
        else conn.responses response).body.buffer.requests = [] := by
    split
    · rwa [body_defaultReasonPhrase]
    · exact still.bodies response
  cases event with
  | reply impl handler =>
      refine ⟨⟨?_, ?_, ?_⟩, exchange_reply _ _ _⟩
      all_goals simp only [exec, HttpConnection.reply, HttpRequestImpl.reply,
        HttpRequestImpl.replyImpl, if_neg notInitiated, makeResponse, updateResponse, connect]
      · rw [still.tasks]
      · exact still.writing
      · exact bodies legal.2
  | handlerThrew =>
      have exchange : (conn.replyIfNotAlready StatusCodes.internalError).exchange =
          conn.exchange.reply := by
        rw [exchange_replyIfNotAlready, Exchange.exec, if_neg exchangeFresh]
      refine ⟨⟨?_, ?_, ?_⟩, exchange⟩
      all_goals simp only [exec, replyIfNotAlready, if_neg notInitiated,
        HttpRequestImpl.replyIfNotAlready, HttpRequestImpl.replyImpl, makeResponse,
        updateResponse, connect]
      · rw [still.tasks]
      · exact still.writing
      · exact bodies rfl
  | receive | readDone | readError | writeDone | writeError | runTask | requestOp | responseOp =>
      simp [Event.replies] at replies

/-- The part of an exchange that decides what is sent. -/
structure Pending (exchange : Exchange) (dataReadyHandlers : List DataHandler)
    (processed : List HttpResponse) : Prop where
  ready : exchange.responseReady = true
  responseHandlers : exchange.responseHandlers = []
  tasks : exchange.tasks = []
  dataReadyHandlers : exchange.dataReadyHandlers = dataReadyHandlers
  processed : exchange.processed = processed

/-- How far the answer has got. -/
inductive Answering (start : HttpConnection) (labels : List AnsweringEvent)
    (conn : HttpConnection) : Prop where
  /-- Neither the handler nor anybody else has replied. -/
  | waiting (still : conn.Still []) (replies : labels.countP AnsweringEvent.replies = 0)
      (tasks : labels.countP AnsweringEvent.runsTask = 0)
      (fresh : conn.exchange.Fresh) (ready : conn.exchange.responseReady = false)
      (handlers : conn.exchange.responseHandlers = [.handleResponse false])
      (size : conn.exchange.dataAvailable = available labels)
      (processed : conn.exchange.processed = start.exchange.processed)
      (next : conn.exchange.nextResponse = start.exchange.nextResponse)
  /-- The handler replied, and `handle_response` is scheduled. -/
  | replied (still : conn.Still [.responseReady (.handleResponse false)])
      (replies : labels.countP AnsweringEvent.replies = 1)
      (tasks : labels.countP AnsweringEvent.runsTask = 0)
      (pending : Pending { conn.exchange with tasks := [] } [] start.exchange.processed)
      (size : conn.exchange.dataAvailable = available labels)
      (response : conn.exchange.response = start.exchange.nextResponse)
  /-- The response was sent. -/
  | answered (replies : labels.countP AnsweringEvent.replies = 1)
      (ran : labels.countP AnsweringEvent.runsTask ≠ 0)
      (inTime : available (beforeTask labels) ≠ 0)
      (pending : Pending conn.exchange []
        (start.exchange.processed ++ [start.exchange.nextResponse]))
  /-- `handle_response` found no data, and waits for a signal that `complete` does not give. -/
  | stranded (replies : labels.countP AnsweringEvent.replies = 1)
      (ran : labels.countP AnsweringEvent.runsTask ≠ 0)
      (late : available (beforeTask labels) = 0)
      (pending : Pending conn.exchange [.handleRequestDataReady start.exchange.nextResponse]
        start.exchange.processed)

theorem available_snoc (labels : List AnsweringEvent) (label : AnsweringEvent) :
    available (labels ++ [label]) = label.bodySize?.getD (available labels) := by
  cases label <;> simp [available, AnsweringEvent.bodySize?]

/-- Once the response is sent or never will be, nothing but another reply changes that. -/
theorem Pending.step {getReqHandler : Bytes → Option ℕ} {conn next : HttpConnection}
    {label : AnsweringEvent} {dataReadyHandlers : List DataHandler}
    {processed : List HttpResponse}
    (pending : Pending conn.exchange dataReadyHandlers processed)
    (step : (answeringSystem getReqHandler).step conn label next)
    (noReply : label.replies = false) : Pending next.exchange dataReadyHandlers processed := by
  cases label with
  | bodyCompleted bodySize =>
      obtain rfl : next = conn.complete bodySize := step
      exact { pending with }
  | other event =>
      rcases step with ⟨noRead, legal, rfl⟩
      rcases exchange_exec getReqHandler legal with
        ⟨reads, -⟩ | (same | ⟨bodySize, completed⟩) | ⟨replies, -⟩ | ⟨-, ran⟩ | ⟨-, restarted⟩
      · simp [noRead] at reads
      · exact same ▸ pending
      · exact completed ▸ { pending with }
      · simp [AnsweringEvent.replies, replies] at noReply
      · have idle : conn.exchange.exec .runTask = conn.exchange := by
          simp only [Exchange.exec, Exchange.runTask, pending.tasks]
        rw [ran, idle]
        exact pending
      · exact restarted ▸ { pending with }

/-- The task a reply schedules, at the data the body has left by then. -/
theorem Pending.handleResponse {exchange : Exchange} {processed : List HttpResponse}
    (pending : Pending { exchange with tasks := [] } [] processed)
    (tasks : exchange.tasks = [.responseReady (.handleResponse false)]) :
    (exchange.dataAvailable ≠ 0 →
      Pending (exchange.exec .runTask) [] (processed ++ [exchange.response])) ∧
    (exchange.dataAvailable = 0 →
      Pending (exchange.exec .runTask) [.handleRequestDataReady exchange.response] processed) := by
  have processedEq : exchange.processed = processed := pending.processed
  have handlersEq : exchange.dataReadyHandlers = [] := pending.dataReadyHandlers
  refine ⟨fun some => ?_, fun none => ?_⟩
  · simp only [Exchange.exec, Exchange.runTask, tasks, Exchange.run, Exchange.handleResponse,
      Bool.false_eq_true, false_or, if_pos some]
    exact { pending with
      processed := by simp [Exchange.process, processedEq] }
  · have empty : ¬exchange.dataAvailable ≠ 0 := not_not.mpr none
    simp only [Exchange.exec, Exchange.runTask, tasks, Exchange.run, Exchange.handleResponse,
      Bool.false_eq_true, false_or, if_neg empty]
    exact { pending with
      dataReadyHandlers := by simp [handlersEq] }

/-- The same for the task as the connection runs it. -/
theorem Still.handleResponse (getReqHandler : Bytes → Option ℕ) {conn : HttpConnection}
    {processed : List HttpResponse}
    (still : conn.Still [.responseReady (.handleResponse false)])
    (pending : Pending { conn.exchange with tasks := [] } [] processed) :
    (conn.exchange.dataAvailable ≠ 0 →
      Pending (exec getReqHandler conn .runTask).exchange []
        (processed ++ [conn.exchange.response])) ∧
    (conn.exchange.dataAvailable = 0 →
      Pending (exec getReqHandler conn .runTask).exchange
        [.handleRequestDataReady conn.exchange.response] processed) := by
  have tasks : conn.exchange.tasks = [.responseReady (.handleResponse false)] := by
    simp [exchange, still.tasks, Task.answers]
  have ran : (exec getReqHandler conn .runTask).exchange = conn.exchange.exec .runTask := by
    simp only [exec, runNextTask, still.tasks]
    exact exchange_runTask_answers still.tasks rfl
  rw [ran]
  exact pending.handleResponse tasks

theorem Answering.step {getReqHandler : Bytes → Option ℕ} {start conn next : HttpConnection}
    {labels : List AnsweringEvent} {label : AnsweringEvent}
    (answering : Answering start labels conn)
    (step : (answeringSystem getReqHandler).step conn label next)
    (once : (labels ++ [label]).countP AnsweringEvent.replies ≤ 1) :
    Answering start (labels ++ [label]) next := by
  have silent (replies : labels.countP AnsweringEvent.replies = 1) : label.replies = false := by
    cases replies' : label.replies <;> simp [replies, replies'] at once ⊢
  have neither {event : Event} (noTask : event ≠ .runTask) :
      (AnsweringEvent.other event).runsTask = false := by
    cases event <;> simp [AnsweringEvent.runsTask] at noTask ⊢
  cases answering with
  | waiting still replies tasks fresh ready handlers size processed nextResponse =>
      cases label with
      | bodyCompleted bodySize =>
          obtain rfl : next = conn.complete bodySize := step
          refine .waiting (still.complete bodySize) ?_ ?_ { fresh with } ready handlers ?_
            processed nextResponse
          · simp [replies, AnsweringEvent.replies]
          · simp [tasks, AnsweringEvent.runsTask]
          · rw [available_snoc]
            rfl
      | other event =>
          rcases step with ⟨noRead, legal, rfl⟩
          have noTask : event ≠ .runTask := by
            rintro rfl
            exact legal still.tasks
          by_cases reply : event.replies = true
          · have handlersEq : conn.request.responseHandlers = [.handleResponse false] := handlers
            have notInitiated : ¬conn.exchange.initiatedResponse = true := by
              simp [fresh.initiated]
            rcases still.reply legal reply fresh.initiated with ⟨after, exchange⟩
            rw [handlersEq] at after
            simp only [Exchange.reply, if_neg notInitiated] at exchange
            refine .replied after ?_ ?_ ?_ ?_ ?_
            · simp [replies, AnsweringEvent.replies, reply]
            · simp [tasks, neither noTask]
            · rw [exchange]
              exact ⟨rfl, rfl, rfl, fresh.dataReadyHandlers, processed⟩
            · rw [exchange, available_snoc]
              exact size
            · rw [exchange]
              exact nextResponse
          · have noReply : event.replies = false := by simpa using reply
            rcases still.step legal noRead noReply noTask with ⟨after, exchange⟩
            refine .waiting after ?_ ?_ ?_ ?_ ?_ ?_ ?_ ?_
            · simp [replies, AnsweringEvent.replies, noReply]
            · simp [tasks, neither noTask]
            · exact exchange ▸ fresh
            · exact exchange ▸ ready
            · exact exchange ▸ handlers
            · rw [exchange, available_snoc]
              exact size
            · exact exchange ▸ processed
            · exact exchange ▸ nextResponse
  | replied still replies tasks pending size response =>
      have noReply := silent replies
      cases label with
      | bodyCompleted bodySize =>
          obtain rfl : next = conn.complete bodySize := step
          refine .replied (still.complete bodySize) ?_ ?_ { pending with } ?_ response
          · simp [replies, AnsweringEvent.replies]
          · simp [tasks, AnsweringEvent.runsTask]
          · rw [available_snoc]
            rfl
      | other event =>
          rcases step with ⟨noRead, legal, rfl⟩
          by_cases task : event = .runTask
          · subst task
            have before := beforeTask_runTask tasks
            rcases still.handleResponse getReqHandler pending with ⟨sent, stuck⟩
            by_cases none : conn.exchange.dataAvailable = 0
            · refine .stranded ?_ ?_ ?_ ?_
              · simp [replies, noReply]
              · simp [AnsweringEvent.runsTask]
              · rwa [before, ← size]
              · rw [← response]
                exact stuck none
            · refine .answered ?_ ?_ ?_ ?_
              · simp [replies, noReply]
              · simp [AnsweringEvent.runsTask]
              · rwa [before, ← size]
              · rw [← response]
                exact sent none
          · rcases still.step legal noRead noReply task with ⟨after, exchange⟩
            refine .replied after ?_ ?_ ?_ ?_ ?_
            · simp [replies, noReply]
            · simp [tasks, neither task]
            · exact exchange ▸ pending
            · rw [exchange, available_snoc]
              exact size
            · exact exchange ▸ response
  | answered replies ran inTime pending =>
      refine .answered ?_ ?_ ?_ (pending.step step (silent replies))
      · simp [replies, silent replies]
      · simp [ran]
      · rwa [beforeTask_append ran]
  | stranded replies ran late pending =>
      refine .stranded ?_ ?_ ?_ (pending.step step (silent replies))
      · simp [replies, silent replies]
      · simp [ran]
      · rwa [beforeTask_append ran]

/-- On a connection that has replied before, the reply to another request is lost. -/
theorem Replied.unanswered {getReqHandler : Bytes → Option ℕ} {start next : HttpConnection}
    {labels : List AnsweringEvent} (replied : start.Replied)
    (run : (answeringSystem getReqHandler).Run start labels next) :
    next.log.processed ≠ start.log.processed ++ [start.nextResponse] := by
  rcases replied with ⟨bound, base, settled, allocated⟩
  have after : next.exchange.Settled start.nextResponse start.log.processed := by
    refine run.invariant
      (fun conn => conn.exchange.Settled start.nextResponse start.log.processed)
      (settled.rebase allocated) ?_
    rintro conn (bodySize | event) next settled step
    · obtain rfl : next = conn.complete bodySize := step
      exact settled.exec (.complete bodySize)
    · rcases step with ⟨-, legal, rfl⟩
      rcases exchange_actions getReqHandler legal with ⟨actions, exchange⟩
      exact exchange ▸ settled.execAll actions
  rcases after.processed with ⟨since, processed, below⟩
  change next.log.processed = _ at processed
  rw [processed]
  intro answered
  have sinceEq : since = [start.nextResponse] := List.append_cancel_left answered
  exact lt_irrefl _ (below start.nextResponse (by simp [sinceEq]))

/-- A request dispatched before any reply is the first of its connection. -/
theorem Dispatches.cases {getReqHandler : Bytes → Option ℕ} {conn start : HttpConnection}
    {completed : List ℕ} (dispatches : Dispatches getReqHandler conn start completed) :
    conn.request.initiatedResponse = false ∧ start.JustDispatched completed ∨
      conn.request.initiatedResponse = true ∧ start.Replied := by
  rcases dispatches.step with ⟨value, legal, rfl⟩
  have handled := dispatches.handled
  have completedEq := dispatches.completed
  rcases reachable_cases dispatches.reachable with awaiting | awaiting | replied
  · have idle := awaiting.handled
    rcases awaiting.step getReqHandler legal with
      still | ⟨sizes, just⟩ | ⟨-, none⟩
    · exact (handled (still.handled.trans idle.symm)).elim
    · have none : conn.log.completed = [] := awaiting.eq_new Exchange.completed fun _ _ => rfl
      have sizesEq : sizes = completed := by
        rcases just.exchange with ⟨dispatched, handler, after⟩
        have logged : (exec getReqHandler conn (.readDone value)).log.completed = sizes :=
          congrArg Exchange.completed after
        rw [logged, none] at completedEq
        exact completedEq
      exact .inl ⟨awaiting.fresh.initiated, sizesEq ▸ just⟩
    · exact (handled (none.trans idle.symm)).elim
  · have same : (exec getReqHandler conn (.readDone value)).log.handled = conn.log.handled := by
      rcases (awaiting.readDone getReqHandler .success value).exchange with
        same | ⟨bodySize, after⟩
      · exact congrArg Exchange.handled same
      · exact congrArg Exchange.handled after
    exact (handled same).elim
  · rcases replied with ⟨bound, base, settled, allocated⟩
    exact .inr ⟨settled.initiated, Replied.step getReqHandler ⟨bound, base, settled, allocated⟩ legal⟩

theorem mem_bodySizes {labels : List AnsweringEvent} {bodySize : ℕ} :
    bodySize ∈ labels.filterMap AnsweringEvent.bodySize? ↔ .bodyCompleted bodySize ∈ labels := by
  simp only [List.mem_filterMap]
  constructor
  · rintro ⟨label, present, size⟩
    cases label with
    | bodyCompleted other =>
        obtain rfl : other = bodySize := by simpa [AnsweringEvent.bodySize?] using size
        exact present
    | other event => simp [AnsweringEvent.bodySize?] at size
  · intro present
    exact ⟨_, present, rfl⟩

/-- Of a body completed at most once the last completion is the only one. -/
theorem available_ne_zero_iff {labels : List AnsweringEvent}
    (once : (labels.filterMap AnsweringEvent.bodySize?).length ≤ 1) :
    available (beforeTask labels) ≠ 0 ↔ CompletedInTime labels := by
  have shorter : ((beforeTask labels).filterMap AnsweringEvent.bodySize?).length ≤ 1 :=
    (((List.takeWhile_prefix _).filterMap _).length_le).trans once
  simp only [CompletedInTime, available, ← mem_bodySizes]
  rcases sizes : (beforeTask labels).filterMap AnsweringEvent.bodySize? with _ | ⟨only, rest⟩
  · simp
  · have restEq : rest = [] := by simpa [sizes] using shorter
    simp [restEq]

/-- A dispatched request is answered, once and with the handler's response, exactly when it is
the first of its connection and its body, which must not be empty, is completed before
`handle_response` runs. -/
theorem answered_iff {getReqHandler : Bytes → Option ℕ} {conn start next : HttpConnection}
    {completed : List ℕ} (dispatches : Dispatches getReqHandler conn start completed)
    {labels : List AnsweringEvent} (run : (answeringSystem getReqHandler).Run start labels next)
    {bodySize : ℕ}
    (completedOnce : completed ++ labels.filterMap AnsweringEvent.bodySize? = [bodySize])
    (repliedOnce : labels.countP AnsweringEvent.replies = 1) (allRun : next.tasks = []) :
    next.log.processed = start.log.processed ++ [start.nextResponse] ↔
      conn.request.initiatedResponse = false ∧ CompletedInTime labels := by
  rcases dispatches.cases with ⟨fresh, just⟩ | ⟨stale, replied⟩
  · have once : (labels.filterMap AnsweringEvent.bodySize?).length ≤ 1 := by
      have length := congrArg List.length completedOnce
      simp only [List.length_append, List.length_singleton] at length
      omega
    simp only [fresh, true_and, ← available_ne_zero_iff once]
    have answering : Answering start labels next := by
      refine run.history (fun labels conn =>
        labels.countP AnsweringEvent.replies ≤ 1 → Answering start labels conn) ?_ ?_ (by omega)
      · intro _
        rcases just.exchange with ⟨dispatched, handler, exchange⟩
        refine .waiting ⟨just.tasks, just.writing, just.bodies⟩ rfl rfl ?_ ?_ ?_ ?_ rfl rfl
        all_goals rw [exchange]
        · exact ⟨rfl, rfl, rfl⟩
        · rfl
        · rfl
        · rfl
      · intro labels conn label next earlier step replies
        exact (earlier (by simp at replies; omega)).step step replies
    cases answering with
    | waiting still replies => omega
    | replied still => simp [still.tasks] at allRun
    | answered replies ran inTime pending => exact iff_of_true pending.processed inTime
    | stranded replies ran late pending =>
        refine iff_of_false ?_ (not_not.mpr late)
        have none : next.log.processed = start.log.processed := pending.processed
        simp [none]
  · refine iff_of_false (replied.unanswered run) ?_
    simp [stale]

/-- A handler for every request. -/
def oneHandler : Bytes → Option ℕ := fun _ => some 0

/-- A connection that has received the head of a request with a body of five bytes. -/
def headReceived : HttpConnection :=
  HttpConnection.new.run oneHandler
    [.receive (ascii "POST / HTTP/1.1" ++ crlf ++ ascii "Content-Length: 5" ++ crlf ++ crlf)]

def fiveDispatched : HttpConnection :=
  exec oneHandler headReceived (.readDone 0)

def replyOk : AnsweringEvent :=
  .other (.reply (HttpResponseImpl.new 200) 0)

theorem dispatches_five : Dispatches oneHandler headReceived fiveDispatched [] := by
  have received : LegalRun oneHandler HttpConnection.new
      [.receive (ascii "POST / HTTP/1.1" ++ crlf ++ ascii "Content-Length: 5" ++ crlf ++ crlf)] :=
    ⟨⟨rfl, rfl, List.cons_ne_nil _ _⟩, trivial⟩
  exact ⟨⟨_, received.run⟩, ⟨0, by change ready _ = true; decide +kernel, rfl⟩,
    by decide +kernel, by decide +kernel⟩

/-- The body completed, then the reply, then `handle_response`. -/
theorem answered_iff_five :
    let next := ((fiveDispatched.complete 5).reply (HttpResponseImpl.new 200) 0).runNextTask
    next.log.processed = fiveDispatched.log.processed ++ [fiveDispatched.nextResponse] ↔
      headReceived.request.initiatedResponse = false ∧
        CompletedInTime [.bodyCompleted 5, replyOk, .other .runTask] := by
  have scheduled :
      ((fiveDispatched.complete 5).reply (HttpResponseImpl.new 200) 0).tasks ≠ [] := by
    decide +kernel
  have run : (answeringSystem oneHandler).Run fiveDispatched
      [.bodyCompleted 5, replyOk, .other .runTask]
      ((fiveDispatched.complete 5).reply (HttpResponseImpl.new 200) 0).runNextTask :=
    .cons rfl (.cons ⟨rfl, ⟨by decide +kernel, rfl⟩, rfl⟩ (.single ⟨rfl, scheduled, rfl⟩))
  exact answered_iff dispatches_five run rfl rfl (by decide +kernel)

/-- The reply and `handle_response` before the body is completed: all has run, and nobody is
left to answer. -/
theorem not_answered_late :
    let next := ((fiveDispatched.reply (HttpResponseImpl.new 200) 0).runNextTask).complete 5
    Dispatches oneHandler headReceived fiveDispatched [] ∧
      (answeringSystem oneHandler).Run fiveDispatched
        [replyOk, .other .runTask, .bodyCompleted 5] next ∧
      next.tasks = [] ∧
      next.log.processed ≠ fiveDispatched.log.processed ++ [fiveDispatched.nextResponse] := by
  have scheduled : (fiveDispatched.reply (HttpResponseImpl.new 200) 0).tasks ≠ [] := by
    decide +kernel
  refine ⟨dispatches_five, ?_, by decide +kernel, by decide +kernel⟩
  exact .cons ⟨rfl, ⟨by decide +kernel, rfl⟩, rfl⟩ (.cons ⟨rfl, scheduled, rfl⟩ (.single rfl))

end HttpConnection

end Snode.Http
