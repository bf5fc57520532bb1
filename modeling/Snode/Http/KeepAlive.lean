import Snode.Http.ClientRequest
import Snode.Http.FirstRequest

/-!
# Several requests on one connection

A connection that is kept open serves one request after another.  What it makes
of a request, and which response it sends for it, must not depend on the requests
before it.
-/

namespace Snode.Http

/-- What the client sends: one request behind the other. -/
def requestStream (requests : List ClientRequest) : Bytes :=
  requests.flatMap ClientRequest.bytes

/-- A connection with the responses that were made while so many requests had been dispatched. -/
structure Ledger where
  conn : HttpConnection
  replies : ℕ → List HttpResponse

namespace Ledger

def new : Ledger where
  conn := .new
  replies _ := []

/-- The responses made in a step reply to the request that was dispatched last. -/
def record (ledger : Ledger) (next : HttpConnection) : Ledger where
  conn := next
  replies count :=
    if count = next.log.dispatched.length then
      ledger.replies count ++
        List.range' ledger.conn.nextResponse (next.nextResponse - ledger.conn.nextResponse)
    else ledger.replies count

/-- An event on the connection. -/
def exec (getReqHandler : Bytes → Option ℕ) (ledger : Ledger) (event : Event) : Ledger :=
  ledger.record (HttpConnection.exec getReqHandler ledger.conn event)

/-- Connections whose socket does not fail. -/
def system (getReqHandler : Bytes → Option ℕ) : Lts Ledger Event where
  step ledger event next :=
    event.socketFails = false ∧ ledger.conn.Legal event ∧ next = ledger.exec getReqHandler event

/-- Requests do not affect each other: each is dispatched as its own bytes say, nothing they sent
is discarded, and the responses sent are the first replies to them in their order. -/
structure Isolated (requests : List ClientRequest) (ledger : Ledger) : Prop where
  dispatched : ledger.conn.log.dispatched <+: requests.map ClientRequest.dispatched
  kept : ledger.conn.log.discarded = []
  answered : ∀ index response, ledger.conn.log.processed[index]? = some response →
    (ledger.replies (index + 1)).head? = some response

end Ledger

namespace HttpConnection

/-- An event in which a head is taken from the socket. -/
def takesHead (conn : HttpConnection) : Event → Bool
  | .readDone _ => conn.reading.head?.any SocketRead.readsHead
  | _ => false

/-- When the connection goes on to the next request nothing of it is there yet, and a head is
taken when it is complete and nobody has replied on `request_` before. -/
structure StartsAfresh (conn : HttpConnection) (event : Event) : Prop where
  emptied : conn.restarts event = true → conn.requestBuf = []
  received : conn.takesHead event = true → emptyLine <:+: conn.requestBuf
  unanswered : conn.takesHead event = true → conn.request.initiatedResponse = false

end HttpConnection

/-- Steps that do not depend on what an earlier request left behind. -/
def Ledger.afresh (getReqHandler : Bytes → Option ℕ) : Lts Ledger Event where
  step ledger event next :=
    (Ledger.system getReqHandler).step ledger event next ∧ ledger.conn.StartsAfresh event

/-! ### The response to the first request -/

namespace Exchange

/-- The first request was replied to with the first response there is, and nothing else has been or
will be sent. -/
structure Answered (dispatched : Dispatched) (exchange : Exchange) : Prop where
  initiated : exchange.initiatedResponse = true
  response : exchange.response = 1
  dispatched : exchange.dispatched = [dispatched]
  discarded : exchange.discarded = []
  progress : exchange.tasks = [.responseReady (.handleResponse false)] ∧ exchange.processed = [] ∨
    exchange.tasks = [] ∧ (exchange.processed = [] ∨ exchange.processed = [1])

variable {dispatched : Dispatched} {exchange : Exchange}

theorem AwaitingReply.answered (awaiting : exchange.AwaitingReply) (noTasks : exchange.tasks = [])
    (known : exchange.dispatched = [dispatched]) : exchange.reply.Answered dispatched := by
  have notInitiated : ¬exchange.initiatedResponse = true := by simp [awaiting.initiated]
  simp only [reply, if_neg notInitiated]
  refine ⟨rfl, awaiting.nextResponse, known, awaiting.discarded, .inl ⟨?_, awaiting.processed⟩⟩
  simp [noTasks, awaiting.responseHandlers, Task.answers]

namespace Answered

theorem complete (answered : exchange.Answered dispatched) (bodySize : ℕ) :
    (exchange.exec (.complete bodySize)).Answered dispatched :=
  { answered with }

theorem reply (answered : exchange.Answered dispatched) : exchange.reply.Answered dispatched := by
  simp only [Exchange.reply, if_pos answered.initiated]
  exact { answered with }

theorem restart (answered : exchange.Answered dispatched) :
    (exchange.exec (.restart [])).Answered dispatched :=
  { answered with
    discarded := by simp [Exchange.exec, answered.discarded] }

theorem runTask (answered : exchange.Answered dispatched) :
    (exchange.exec .runTask).Answered dispatched := by
  rcases answered.progress with ⟨tasks, processed⟩ | ⟨tasks, processed⟩
  · simp only [Exchange.exec, Exchange.runTask, tasks, run, handleResponse]
    split
    · exact { answered with
        progress := .inr ⟨rfl, .inr (by simp [process, processed, answered.response])⟩ }
    · exact { answered with progress := .inr ⟨rfl, .inl processed⟩ }
  · simp only [Exchange.exec, Exchange.runTask, tasks]
    exact answered

end Answered

/-- Nobody has replied to any request, or only the first response there is can be sent. -/
def FirstOnly (exchange : Exchange) : Prop :=
  exchange.Fresh ∧ exchange.responseReady = false ∧ exchange.processed = [] ∧
      exchange.nextResponse = 1 ∨
    exchange.Settled 2 [] ∧ 2 ≤ exchange.nextResponse

theorem FirstOnly.exec (only : exchange.FirstOnly) (action : Action) :
    (exchange.exec action).FirstOnly := by
  rcases only with ⟨fresh, notReady, processed, first⟩ | ⟨settled, allocated⟩
  · have notInitiated : ¬exchange.initiatedResponse = true := by simp [fresh.initiated]
    have replied : exchange.reply.FirstOnly := by
      have second : exchange.reply.nextResponse = 2 := by
        simp [Exchange.reply, notInitiated, first]
      have settled := fresh.settled
      rw [second, processed] at settled
      exact .inr ⟨settled, second.ge⟩
    cases action with
    | takeHead | reject | dispatch | handle | complete | restart =>
        exact .inl ⟨{ fresh with }, notReady, processed, first⟩
    | reply => exact replied
    | replyIfNotAlready =>
        simp only [Exchange.exec, if_neg notInitiated]
        exact replied
    | doResponse badRequest =>
        simp only [Exchange.exec, doResponse, notReady, Bool.not_false, if_true]
        exact .inl ⟨{ fresh with }, rfl, processed, first⟩
    | runTask =>
        simp only [Exchange.exec, Exchange.runTask, fresh.tasks]
        exact .inl ⟨fresh, notReady, processed, first⟩
  · exact .inr ⟨settled.exec action, allocated.trans (exchange.nextResponse_exec action)⟩

end Exchange

namespace HttpConnection

variable {getReqHandler : Bytes → Option ℕ} {conn : HttpConnection} {event : Event}

/-- What an event in which no head is taken is to the exchange. -/
theorem exchange_exec_of_not_takesHead (getReqHandler : Bytes → Option ℕ)
    (legal : conn.Legal event) (works : event.socketFails = false) (other : conn.takesHead event = false) :
    Completing conn.exchange (exec getReqHandler conn event).exchange ∨
      ((exec getReqHandler conn event).exchange = conn.exchange.exec .reply ∨
        (exec getReqHandler conn event).exchange = conn.exchange.exec .replyIfNotAlready) ∨
      (exec getReqHandler conn event).exchange = conn.exchange.exec .runTask ∨
      conn.restarts event = true ∧
        (exec getReqHandler conn event).exchange =
          conn.exchange.exec (.restart conn.requestBuf) := by
  rcases exchange_exec getReqHandler legal with
    ⟨reads, read, rest, ec, reading, head, -⟩ | same | ⟨-, replied⟩ | ⟨-, ran⟩ | restarted
  · left
    cases event with
    | receive piece =>
        left
        simp [exec, receive, reading, exchange, SocketRead.readsHead, List.countP_cons]
    | readDone value => simp [takesHead, reading, head] at other
    | readError ec => simp [Event.socketFails] at works
    | writeDone | writeError | runTask | reply | handlerThrew | requestOp | responseOp =>
        simp [Event.readsSocket] at reads
  · exact .inl same
  · exact .inr (.inl replied)
  · exact .inr (.inr (.inl ran))
  · exact .inr (.inr (.inr restarted))

theorem answered_step {dispatched : Dispatched} (answered : conn.exchange.Answered dispatched)
    (legal : conn.Legal event) (works : event.socketFails = false)
    (afresh : conn.StartsAfresh event) :
    (exec getReqHandler conn event).exchange.Answered dispatched := by
  have other : conn.takesHead event = false := by
    by_contra takes
    have unanswered := afresh.unanswered (by simpa using takes)
    exact Bool.false_ne_true (unanswered.symm.trans answered.initiated)
  rcases exchange_exec_of_not_takesHead getReqHandler legal works other with
    (same | ⟨bodySize, completed⟩) | (replied | replied) | ran | ⟨restarts, restarted⟩
  · exact same ▸ answered
  · exact completed ▸ answered.complete bodySize
  · exact replied ▸ answered.reply
  · rw [replied, Exchange.exec, if_pos answered.initiated]
    exact answered
  · exact ran ▸ answered.runTask
  · rw [afresh.emptied restarts] at restarted
    exact restarted ▸ answered.restart

theorem AwaitingReply.answered_step {dispatched : Dispatched} (awaiting : conn.AwaitingReply)
    (known : conn.log.dispatched = [dispatched]) (legal : conn.Legal event)
    (works : event.socketFails = false) :
    (exec getReqHandler conn event).AwaitingReply ∧
        (exec getReqHandler conn event).log.dispatched = [dispatched] ∨
      (exec getReqHandler conn event).exchange.Answered dispatched ∧
        (exec getReqHandler conn event).nextResponse = 2 := by
  have noTasks : conn.exchange.tasks = [] := awaiting.fresh.tasks
  have still {next : HttpConnection} (is : next = exec getReqHandler conn event)
      (unanswered : next.exchange.initiatedResponse = false)
      (same : next.exchange.dispatched = conn.exchange.dispatched) :
      next.AwaitingReply ∧ next.log.dispatched = [dispatched] := by
    refine ⟨?_, same.trans known⟩
    rcases awaiting.step getReqHandler legal with waits | ⟨bound, base, settled, -⟩
    · exact is ▸ waits
    · rw [← is] at settled
      exact (Bool.false_ne_true (unanswered.symm.trans settled.initiated)).elim
  have replied (is : (exec getReqHandler conn event).exchange = conn.exchange.reply) :
      (exec getReqHandler conn event).exchange.Answered dispatched ∧
        (exec getReqHandler conn event).nextResponse = 2 := by
    have notInitiated : ¬conn.exchange.initiatedResponse = true := by
      simp [awaiting.exchange.initiated]
    refine ⟨is ▸ awaiting.exchange.answered noTasks known, ?_⟩
    have created := congrArg Exchange.nextResponse is
    simp only [Exchange.reply, if_neg notInitiated, awaiting.exchange.nextResponse] at created
    exact created
  have other : conn.takesHead event = false := by
    have none : conn.reading.countP SocketRead.readsHead = 0 := awaiting.exchange.heads
    cases event with
    | readDone value =>
        rcases reading : conn.reading with _ | ⟨read, rest⟩
        · simp [takesHead, reading]
        · simpa [takesHead, reading] using List.countP_eq_zero.mp none read (by simp [reading])
    | receive | readError | writeDone | writeError | runTask | reply | handlerThrew | requestOp
    | responseOp => rfl
  rcases exchange_exec_of_not_takesHead getReqHandler legal works other with
    (same | ⟨bodySize, completed⟩) | (is | is) | ran | ⟨restarts, -⟩
  · exact .inl (still rfl (same ▸ awaiting.exchange.initiated) (same ▸ rfl))
  · exact .inl (still rfl (completed ▸ awaiting.exchange.initiated) (completed ▸ rfl))
  · exact .inr (replied is)
  · have notInitiated : ¬conn.exchange.initiatedResponse = true := by
      simp [awaiting.exchange.initiated]
    rw [Exchange.exec, if_neg notInitiated] at is
    exact .inr (replied is)
  · have same : conn.exchange.exec .runTask = conn.exchange := by
      simp only [Exchange.exec, Exchange.runTask, noTasks]
    rw [same] at ran
    exact .inl (still rfl (ran ▸ awaiting.exchange.initiated) (ran ▸ rfl))
  · cases event with
    | writeDone memory => simp [HttpConnection.restarts, awaiting.writing] at restarts
    | receive | readDone | readError | writeError | runTask | reply | handlerThrew | requestOp
    | responseOp => simp [HttpConnection.restarts] at restarts

/-- The first head is dispatched as it says, and waits for its reply unless nobody handles it. -/
theorem AwaitingHead.taken (awaiting : conn.AwaitingHead) (idle : conn.exchange.heads = 0)
    (accepted : acceptable conn.requestBuf = true) (getReqHandler : Bytes → Option ℕ) :
    let next := HttpConnection.handleHttpLine getReqHandler conn .success
    let dispatched := parsedRequest conn.requestBuf conn.request.headers
    next.AwaitingReply ∧ next.log.dispatched = [dispatched] ∨
      next.exchange.Answered dispatched ∧ next.nextResponse = 2 := by
  intro next dispatched
  have undispatched := awaiting.undispatched
  have milestones : next.log.dispatched = [dispatched] ∧ next.log.rejected = conn.log.rejected := by
    rcases decision_handleHttpLine getReqHandler conn with ⟨bad, -⟩ | ⟨-, is⟩
    · simp [malformed_eq, accepted] at bad
    · have same := (milestones_of_decision is).2
      rw [undispatched] at same
      exact ⟨congrArg Milestones.dispatched same, congrArg Milestones.rejected same⟩
  rcases handleHttpLine_cases getReqHandler conn .success with
    finished | ⟨parsed, completes, is, rejected | isDispatched⟩
  · have same : next.log.dispatched = conn.log.dispatched := congrArg (·.log.dispatched) finished
    simp [milestones.1, undispatched] at same
  · rcases awaiting.parsed idle is with ⟨completed, -, exchange⟩
    have before : conn.log.rejected = 0 := awaiting.eq_new Exchange.rejected fun _ _ => rfl
    have after := exchange_rejectBadRequest parsed
    rw [← rejected, exchange] at after
    have counted : next.log.rejected = 1 := congrArg Exchange.rejected after
    simp [counted, before] at milestones
  · rcases awaiting.dispatch idle is getReqHandler with ⟨completed, just⟩ | ⟨-, unhandled⟩
    · rw [← isDispatched] at just
      exact .inl ⟨just.awaitingReply, milestones.1⟩
    · right
      rcases awaiting.parsed idle is with ⟨completed, -, exchange⟩
      have after := exchange_dispatchRequestToListener getReqHandler parsed
      rw [← isDispatched] at after unhandled
      rw [exchange] at after
      rcases located : locateHandler getReqHandler (Uri.splitPath parsed.dispatchable.url)
        (Uri.splitPath parsed.dispatchable.url).length none with _ | handler
      · simp only [dispatchActions, located] at after
        refine ⟨?_, congrArg Exchange.nextResponse after⟩
        have own : next.exchange.dispatched = [dispatched] := milestones.1
        have initiated := congrArg Exchange.initiatedResponse after
        have response := congrArg Exchange.response after
        have discarded := congrArg Exchange.discarded after
        have tasks := congrArg Exchange.tasks after
        have processed := congrArg Exchange.processed after
        exact ⟨initiated, response, own, discarded, .inl ⟨tasks, processed⟩⟩
      · simp only [dispatchActions, located] at after
        have handled : next.log.handled = [handler] := congrArg Exchange.handled after
        exact (List.cons_ne_nil _ _ (handled.symm.trans unhandled)).elim

/-- Until the first head is taken bytes are added to it, and nothing else happens. -/
theorem AwaitingHead.listens (awaiting : conn.AwaitingHead) (legal : conn.Legal event)
    (works : event.socketFails = false) (other : conn.takesHead event = false)
    (getReqHandler : Bytes → Option ℕ) :
    let next := exec getReqHandler conn event
    next.AwaitingHead ∧ next.requestBuf = conn.requestBuf ++ event.received ∧
      next.request.headers = conn.request.headers ∧ next.nextResponse = conn.nextResponse := by
  intro next
  have undispatched := awaiting.undispatched
  have still (dispatched : next.log.dispatched = conn.log.dispatched)
      (initiated : next.request.initiatedResponse = conn.request.initiatedResponse) :
      next.AwaitingHead := by
    rcases awaiting.step getReqHandler legal with
      listens | ⟨completed, just⟩ | ⟨⟨bound, base, settled, -⟩, -⟩
    · exact listens
    · have one : next.log.dispatched.length = 1 := just.awaitingReply.exchange.dispatched
      simp [dispatched, undispatched] at one
    · have unanswered := initiated.trans awaiting.fresh.initiated
      exact (Bool.false_ne_true (unanswered.symm.trans settled.initiated)).elim
  cases event with
  | receive piece =>
      rcases reading : conn.reading with _ | ⟨read, rest⟩
      · simp [Legal, waiting, reading] at legal
      · refine ⟨still ?_ ?_, ?_⟩
        all_goals simp [next, exec, receive, reading, Event.received]
  | readDone value =>
      rcases reading : conn.reading with _ | ⟨read, rest⟩
      · simp [Legal, ready, reading] at legal
      · have head := awaiting.reading read (by simp [reading])
        simp [takesHead, reading, head] at other
  | readError ec => simp [Event.socketFails] at works
  | writeDone memory =>
      rcases legal with ⟨-, handler, rest, writing, -⟩
      simp [awaiting.writing] at writing
  | writeError ec => exact (legal.1 awaiting.writing).elim
  | runTask => exact (legal awaiting.tasks).elim
  | reply impl handler => exact (legal.1 awaiting.handled).elim
  | handlerThrew => exact (legal awaiting.handled).elim
  | requestOp op =>
      refine ⟨still rfl rfl, ?_⟩
      simp [next, exec, requestOp, Event.received]
  | responseOp response op =>
      have same := awaiting.bodies.bodyOp_eq response legal.1
      refine ⟨still ?_ ?_, ?_⟩
      all_goals simp [next, exec, same, updateResponse, Event.received]

end HttpConnection

/-! ### Runs -/

namespace Ledger

/-- How far a connection that starts afresh gets. -/
inductive Phase (requests : List ClientRequest) (received : Bytes) (ledger : Ledger) : Prop where
  | listening (awaiting : ledger.conn.AwaitingHead) (buffered : ledger.conn.requestBuf = received)
      (headers : ledger.conn.request.headers = []) (replies : ledger.replies 1 = [])
  | waiting (request : ClientRequest) (others : List ClientRequest)
      (is : requests = request :: others) (awaiting : ledger.conn.AwaitingReply)
      (dispatched : ledger.conn.log.dispatched = [request.dispatched])
      (replies : ledger.replies 1 = [])
  | answered (request : ClientRequest) (others : List ClientRequest)
      (is : requests = request :: others)
      (answered : ledger.conn.exchange.Answered request.dispatched)
      (replies : (ledger.replies 1).head? = some 1)

variable {getReqHandler : Bytes → Option ℕ} {requests : List ClientRequest} {received : Bytes}
  {ledger : Ledger} {event : Event}

theorem Phase.isolated (phase : Phase requests received ledger) : Isolated requests ledger := by
  cases phase with
  | listening awaiting =>
      have discarded : ledger.conn.log.discarded = [] :=
        awaiting.eq_new Exchange.discarded fun _ _ => rfl
      have processed : ledger.conn.log.processed = [] :=
        awaiting.eq_new Exchange.processed fun _ _ => rfl
      exact ⟨by simp [awaiting.undispatched], discarded, by simp [processed]⟩
  | waiting request others is awaiting dispatched =>
      have processed : ledger.conn.log.processed = [] := awaiting.exchange.processed
      exact ⟨by simp [dispatched, is], awaiting.exchange.discarded, by simp [processed]⟩
  | answered request others is answered replies =>
      have dispatched : ledger.conn.log.dispatched = [request.dispatched] := answered.dispatched
      refine ⟨by simp [dispatched, is], answered.discarded, ?_⟩
      have processed : ledger.conn.log.processed = [] ∨ ledger.conn.log.processed = [1] := by
        rcases answered.progress with ⟨-, none⟩ | ⟨-, some⟩
        · exact .inl none
        · exact some
      rcases processed with none | one
      · simp [none]
      · intro index response present
        rw [one] at present
        cases index with
        | zero =>
            obtain rfl : 1 = response := by simpa using present
            exact replies
        | succ index => simp at present

/-- Replies that are recorded stay. -/
theorem head?_record (next : HttpConnection) {count : ℕ} {response : HttpResponse}
    (first : (ledger.replies count).head? = some response) :
    ((ledger.record next).replies count).head? = some response := by
  simp only [record]
  split
  · rw [List.head?_append, first]
    rfl
  · exact first

/-- Without new responses there are no new replies. -/
theorem replies_record_of_same {next : HttpConnection}
    (same : next.nextResponse = ledger.conn.nextResponse) (count : ℕ) :
    (ledger.record next).replies count = ledger.replies count := by
  simp [record, same]

/-- The first response is the first reply to the first request. -/
theorem replies_record_first {next : HttpConnection} (none : ledger.replies 1 = [])
    (before : ledger.conn.nextResponse = 1) (after : next.nextResponse = 2) {dispatched : Dispatched}
    (first : next.log.dispatched = [dispatched]) :
    ((ledger.record next).replies 1).head? = some 1 := by
  simp [record, none, before, after, first]

theorem Phase.waiting_step {request : ClientRequest} {others : List ClientRequest}
    (is : requests = request :: others) (awaiting : ledger.conn.AwaitingReply)
    (dispatched : ledger.conn.log.dispatched = [request.dispatched])
    (replies : ledger.replies 1 = []) (legal : ledger.conn.Legal event)
    (works : event.socketFails = false) (more : Bytes) :
    Phase requests more (ledger.exec getReqHandler event) := by
  have before : ledger.conn.nextResponse = 1 := awaiting.exchange.nextResponse
  rcases awaiting.answered_step dispatched legal works with ⟨still, known⟩ | ⟨answered, after⟩
  · refine .waiting request others is still known ?_
    rw [exec, replies_record_of_same (still.exchange.nextResponse.trans before.symm), replies]
  · refine .answered request others is answered ?_
    exact replies_record_first replies before after answered.dispatched

theorem Phase.listening_takesHead (awaiting : ledger.conn.AwaitingHead)
    (buffered : ledger.conn.requestBuf <+: requestStream requests)
    (headers : ledger.conn.request.headers = []) (replies : ledger.replies 1 = [])
    (takes : ledger.conn.takesHead event = true)
    (afresh : ledger.conn.StartsAfresh event) (more : Bytes) :
    Phase requests more (ledger.exec getReqHandler event) := by
  have ended := afresh.received takes
  obtain ⟨request, others, rfl⟩ : ∃ request others, requests = request :: others := by
    cases requests with
    | nil =>
        have nothing := List.prefix_nil.mp buffered
        rw [nothing] at ended
        exact (List.infix_nil.mp ended |> List.cons_ne_nil _ _).elim
    | cons request others => exact ⟨request, others, rfl⟩
  have isStart : ledger.conn.requestBuf <+: request.head ++
      (request.body ++ requestStream others) := by
    simpa [requestStream, ClientRequest.bytes] using buffered
  rcases request.head_le isStart ended with ⟨rest, split⟩
  cases event with
  | readDone value =>
      rcases reading : ledger.conn.reading with _ | ⟨read, reads⟩
      · simp [HttpConnection.takesHead, reading] at takes
      · have before : ledger.conn.nextResponse = 1 :=
          awaiting.eq_new Exchange.nextResponse fun _ _ => rfl
        rcases awaiting.readDone_eq reading getReqHandler .success value with ⟨popped, is⟩
        have own : parsedRequest ledger.conn.requestBuf ledger.conn.request.headers =
            request.dispatched := by
          rw [headers, ← split, request.parsedRequest_head]
        have taken := popped.taken rfl (by simp [← split, request.acceptable_head]) getReqHandler
        rw [← is, own] at taken
        rw [exec, HttpConnection.exec]
        rcases taken with ⟨waiting, dispatched⟩ | ⟨answered, after⟩
        · refine .waiting request others rfl waiting dispatched ?_
          have same := waiting.exchange.nextResponse.trans before.symm
          rw [replies_record_of_same same, replies]
        · refine .answered request others rfl answered ?_
          exact replies_record_first replies before after answered.dispatched
  | receive | readError | writeDone | writeError | runTask | reply | handlerThrew | requestOp
  | responseOp => simp [HttpConnection.takesHead] at takes

theorem Phase.step {next : Ledger} (phase : Phase requests received ledger)
    (sent : received <+: requestStream requests)
    (step : (afresh getReqHandler).step ledger event next) :
    Phase requests (received ++ event.received) next := by
  rcases step with ⟨⟨works, legal, rfl⟩, afresh⟩
  cases phase with
  | listening awaiting buffered headers replies =>
      cases takes : ledger.conn.takesHead event with
      | false =>
          rcases awaiting.listens legal works takes getReqHandler with
            ⟨listens, more, sameHeaders, sameResponses⟩
          refine .listening listens (more.trans (by rw [buffered])) (sameHeaders.trans headers) ?_
          rw [exec, replies_record_of_same sameResponses, replies]
      | true =>
          exact .listening_takesHead awaiting (buffered ▸ sent) headers replies takes afresh _
  | waiting request others is awaiting dispatched replies =>
      exact .waiting_step is awaiting dispatched replies legal works _
  | answered request others is answered replies =>
      exact .answered request others is (HttpConnection.answered_step answered legal works afresh)
        (head?_record _ replies)

/-- A connection that always starts afresh keeps its requests apart, whatever is sent after the
first one. -/
theorem isolated_of_afresh {labels : List Event}
    (run : (afresh getReqHandler).Run .new labels ledger)
    (sent : labels.flatMap Event.received <+: requestStream requests) :
    Isolated requests ledger := by
  have phase := run.history
    (fun labels ledger => labels.flatMap Event.received <+: requestStream requests →
      Phase requests (labels.flatMap Event.received) ledger) ?_ ?_ sent
  · exact phase.isolated
  · intro _
    refine .listening ⟨⟨1, le_rfl, rfl⟩, ?_, rfl, rfl, fun _ => rfl⟩ rfl rfl rfl
    simp [new, HttpConnection.new, HttpConnection.startRequestResponse, HttpConnection.asyncRead,
      SocketRead.readsHead]
  · intro labels before label after phase step sent
    rw [List.flatMap_append, List.flatMap_singleton] at sent ⊢
    have earlier := (List.prefix_append _ _).trans sent
    exact (phase earlier).step earlier step

/-! ### A second response -/

theorem dispatched_of_decides {conn next : HttpConnection}
    (decides : HttpConnection.Decides conn next) : next.log.dispatched = conn.log.dispatched := by
  have same {other : HttpConnection} {decision : Decision} (is : other.decision = decision) :
      other.log.dispatched = decision.milestones.dispatched :=
    congrArg (·.milestones.dispatched) is
  cases decides with
  | nothing unchanged => exact same unchanged
  | processes response is => exact same is
  | cancels is => exact same is
  | completes sent unchanged isOpen reading is =>
      rw [is]
      exact (same (HttpConnection.handleResponseWritten_success sent).1).trans (same unchanged)

/-- Before the first reply no second request is dispatched. -/
theorem length_dispatched_le {conn next : HttpConnection}
    (reachable : (HttpConnection.system getReqHandler).Reachable .new conn)
    (unanswered : conn.request.initiatedResponse = false)
    (step : (HttpConnection.working getReqHandler).step conn event next) :
    next.log.dispatched.length ≤ 1 := by
  rcases HttpConnection.reachable_cases reachable with
    awaiting | awaiting | ⟨bound, base, settled, -⟩
  · have undispatched := awaiting.undispatched
    rcases HttpConnection.decides_step step with taken | decides
    · rcases taken.milestones with rejected | ⟨dispatched, is⟩
      · have same : next.log.dispatched = conn.log.dispatched :=
          congrArg Milestones.dispatched rejected
        simp [same, undispatched]
      · have one : next.log.dispatched = conn.log.dispatched ++ [dispatched] :=
          congrArg Milestones.dispatched is
        simp [one, undispatched]
    · simp [dispatched_of_decides decides, undispatched]
  · have one : conn.log.dispatched.length = 1 := awaiting.exchange.dispatched
    rcases HttpConnection.decides_step step with ⟨read, rest, reading, head, -⟩ | decides
    · have none : conn.reading.countP SocketRead.readsHead = 0 := awaiting.exchange.heads
      exact (List.countP_eq_zero.mp none read (by simp [reading]) head).elim
    · rw [dispatched_of_decides decides, one]
  · exact (Bool.false_ne_true (unanswered.symm.trans settled.initiated)).elim

/-- No response but the first is sent, and no reply to a later request is that one. -/
structure Repeats (getReqHandler : Bytes → Option ℕ) (ledger : Ledger) : Prop where
  reachable : (HttpConnection.system getReqHandler).Reachable .new ledger.conn
  only : ledger.conn.exchange.FirstOnly
  replies : ∀ count, 2 ≤ count → ∀ response ∈ ledger.replies count, 2 ≤ response

theorem Repeats.step {next : Ledger} (repeats : Repeats getReqHandler ledger)
    (step : (system getReqHandler).step ledger event next) : Repeats getReqHandler next := by
  rcases step with ⟨works, legal, rfl⟩
  rcases HttpConnection.exchange_actions getReqHandler legal with ⟨actions, exchange⟩
  constructor
  · exact repeats.reachable.tail ⟨legal, rfl⟩
  · have only : (ledger.conn.exchange.execAll actions).FirstOnly :=
      Exchange.execAll_invariant (fun _ action only _ => only.exec action) repeats.only
        fun _ _ => trivial
    rw [← exchange] at only
    exact only
  · intro count later response present
    simp only [exec, record] at present
    split at present
    · next isLast =>
        rcases List.mem_append.mp present with earlier | made
        · exact repeats.replies count later response earlier
        · have above := (List.mem_range'_1.mp made).1
          rcases repeats.only with ⟨fresh, -⟩ | ⟨-, allocated⟩
          · have few := length_dispatched_le repeats.reachable fresh.initiated
              ⟨works, legal, rfl⟩
            omega
          · exact allocated.trans above
    · exact repeats.replies count later response present

/-- Whatever the requests are, the response sent for a second one is not the reply to it. -/
theorem not_isolated_of_second {labels : List Event}
    (run : (system getReqHandler).Run .new labels ledger)
    (second : 2 ≤ ledger.conn.log.processed.length) : ¬Isolated requests ledger := by
  have repeats : Repeats getReqHandler ledger := by
    refine run.invariant (Repeats getReqHandler) ⟨.refl _, .inl ⟨⟨rfl, rfl, rfl⟩, rfl, rfl, rfl⟩,
      ?_⟩ fun _ _ _ repeats step => repeats.step step
    simp [new]
  intro isolated
  have inRange : 1 < ledger.conn.log.processed.length := second
  have first := isolated.answered 1 _ (List.getElem?_eq_getElem inRange)
  have above := repeats.replies 2 le_rfl _ (List.mem_of_head? first)
  rcases repeats.only with ⟨-, -, processed, -⟩ | ⟨settled, -⟩
  · have none : ledger.conn.log.processed = [] := processed
    simp [none] at second
  · rcases settled.processed with ⟨since, processed, below⟩
    have all : ledger.conn.log.processed = since := processed
    have small := below ledger.conn.log.processed[1] (by simp [← all])
    exact not_lt.mpr above small

/-! ### Two requests -/

/-- A request with a body. -/
def posted : ClientRequest where
  method := ascii "POST"
  target := ascii "/"
  fields := [(ascii "Content-Length", ascii "5")]
  body := ascii "hello"
  methodNonempty := by decide
  methodValid := by decide
  targetNonempty := by decide
  targetVisible := by simp [ascii, isVisible]
  names := by simp [ascii, isVisible]
  values := by simp [ascii, isFieldChar, isVisible]

/-- A request without one. -/
def fetched : ClientRequest where
  method := ascii "GET"
  target := ascii "/"
  fields := [(ascii "Host", ascii "a")]
  body := []
  methodNonempty := by decide
  methodValid := by decide
  targetNonempty := by decide
  targetVisible := by simp [ascii, isVisible]
  names := by simp [ascii, isVisible]
  values := by simp [ascii, isFieldChar, isVisible]

/-- Some bytes are received at once, the request in front is dispatched, its body received, and it
is replied to. -/
def served (bytes : Bytes) : List Event :=
  [.receive bytes, .readDone 0, .readDone 0, .runTask, .readDone 0,
    .reply (HttpResponseImpl.new 200) 0, .runTask, .writeDone []]

theorem isolated_of_afresh_posted :
    Isolated [posted, fetched]
      ((served posted.bytes).foldl (exec HttpConnection.anyHandler) new) := by
  have follows : (afresh HttpConnection.anyHandler).Follows (exec HttpConnection.anyHandler) new
      (served posted.bytes) := by
    refine ⟨⟨⟨rfl, ⟨rfl, ?_, ?_⟩, rfl⟩, ?_⟩, ⟨⟨rfl, ?_, rfl⟩, ?_⟩, ⟨⟨rfl, ?_, rfl⟩, ?_⟩,
      ⟨⟨rfl, ?_, rfl⟩, ?_⟩, ⟨⟨rfl, ?_, rfl⟩, ?_⟩, ⟨⟨rfl, ⟨?_, rfl⟩, rfl⟩, ?_⟩,
      ⟨⟨rfl, ?_, rfl⟩, ?_⟩, ⟨⟨rfl, ⟨?_, .handleHeadersWritten 1, [], ?_, ?_⟩, rfl⟩, ?_⟩, trivial⟩
    all_goals
      first
      | decide +kernel
      | exact ⟨by decide +kernel, by decide +kernel, by decide +kernel⟩
  exact isolated_of_afresh follows.run (by decide +kernel)

/-- When two requests are received at once the second one is discarded. -/
theorem not_isolated_pipelined :
    let bytes := requestStream [posted, fetched]
    let ledger := (served bytes).foldl (exec HttpConnection.anyHandler) new
    (system HttpConnection.anyHandler).Run new (served bytes) ledger ∧
      (served bytes).flatMap Event.received <+: requestStream [posted, fetched] ∧
      ¬Isolated [posted, fetched] ledger := by
  intro bytes ledger
  have follows : (system HttpConnection.anyHandler).Follows (exec HttpConnection.anyHandler) new
      (served bytes) := by
    refine ⟨⟨rfl, ⟨rfl, ?_, ?_⟩, rfl⟩, ⟨rfl, ?_, rfl⟩, ⟨rfl, ?_, rfl⟩, ⟨rfl, ?_, rfl⟩,
      ⟨rfl, ?_, rfl⟩, ⟨rfl, ⟨?_, rfl⟩, rfl⟩, ⟨rfl, ?_, rfl⟩,
      ⟨rfl, ⟨?_, .handleHeadersWritten 1, [], ?_, ?_⟩, rfl⟩, trivial⟩
    all_goals decide +kernel
  refine ⟨follows.run, by decide +kernel, fun isolated => ?_⟩
  have kept := isolated.kept
  revert kept
  decide +kernel

end Ledger

end Snode.Http
