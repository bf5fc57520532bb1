import Snode.Http.Message
import Snode.Lib.Lts

/-!
# Replying to a request

The three entry points of `http_request_impl` by which a response gets to those
who wait for it, called in any order, with the worker that runs what they
schedule.  Of all replies the first takes effect, and everybody who ever asks
for the response is handed that one.
-/

namespace Snode.Http

/-- A request with the tasks it scheduled, and a record of what was done with it. -/
structure Replying where
  request : HttpRequestImpl
  tasks : List Task
  /-- The handlers given to `async_get_response`, oldest first. -/
  registered : List ResponseHandler
  /-- The responses of the replies that took effect. -/
  taken : List HttpResponse
  /-- The handlers that were called, and what `response_` was then. -/
  called : List (ResponseHandler × HttpResponse)

inductive ReplyingEvent where
  | asyncGetResponse (handler : ResponseHandler)
  | reply (response : HttpResponse) (handler : ℕ)
  | replyIfNotAlready (response : HttpResponse)
  | runTask
  deriving DecidableEq

namespace Replying

/-- A request nobody has replied to. -/
def new (response : HttpResponse) : Replying :=
  ⟨HttpRequestImpl.new response, [], [], [], []⟩

/-- The state after a reply, which took effect if it is the one that initiated the response. -/
def replied (state : Replying) (response : HttpResponse) (result : HttpRequestImpl × List Task) :
    Replying :=
  { state with
    request := result.1
    tasks := state.tasks ++ result.2
    taken :=
      if !state.request.initiatedResponse && result.1.initiatedResponse then
        state.taken ++ [response]
      else
        state.taken }

/-- A task calls its handler with a reference to `response_`. -/
def runTask (state : Replying) : Replying :=
  match state.tasks with
  | .responseReady handler :: rest =>
      { state with
        tasks := rest
        called := state.called ++ [(handler, state.request.response)] }
  | _ :: rest => { state with tasks := rest }
  | [] => state

def exec (state : Replying) : ReplyingEvent → Replying
  | .asyncGetResponse handler =>
      let (request, tasks) := state.request.asyncGetResponse handler
      { state with
        request := request
        tasks := state.tasks ++ tasks
        registered := state.registered ++ [handler] }
  | .reply response handler => state.replied response (state.request.reply response handler).2
  | .replyIfNotAlready response =>
      state.replied response (state.request.replyIfNotAlready response)
  | .runTask => state.runTask

def system : Lts Replying ReplyingEvent where
  step state event next := (event = .runTask → state.tasks ≠ []) ∧ next = state.exec event

/-- Nobody has replied, and everybody who asked waits. -/
structure Waiting (state : Replying) : Prop where
  notInitiated : state.request.initiatedResponse = false
  notReady : state.request.responseReady = false
  waiting : state.request.responseHandlers = state.registered
  taken : state.taken = []
  called : state.called = []
  tasks : state.tasks = []

/-- A reply took effect, and everybody who asked is handed its response once. -/
structure Served (response : HttpResponse) (state : Replying) : Prop where
  initiated : state.request.initiatedResponse = true
  ready : state.request.responseReady = true
  waiting : state.request.responseHandlers = []
  current : state.request.response = response
  taken : state.taken = [response]
  called : ∀ call ∈ state.called, call.2 = response
  scheduled : ∃ handlers, state.tasks = handlers.map .responseReady ∧
    state.registered = state.called.map Prod.fst ++ handlers

variable {state : Replying} {response : HttpResponse}

/-- The first reply hands its response to all who waited. -/
theorem Waiting.replied (waiting : Waiting state) (request : HttpRequestImpl)
    (response : HttpResponse)
    (flags : request.initiatedResponse = state.request.initiatedResponse)
    (handlers : request.responseHandlers = state.request.responseHandlers) :
    ∃ result, request.replyImpl response = .ok result ∧
      Served response (state.replied response result) := by
  have open' : request.initiatedResponse = false := flags.trans waiting.notInitiated
  refine ⟨({ request with
      initiatedResponse := true
      response := response
      responseReady := true
      responseHandlers := [] }, request.responseHandlers.map .responseReady), ?_, ?_⟩
  · simp [HttpRequestImpl.replyImpl, open']
  refine ⟨rfl, rfl, rfl, rfl, ?_, ?_, request.responseHandlers, ?_, ?_⟩
  · simp [Replying.replied, waiting.notInitiated, waiting.taken]
  · simp [Replying.replied, waiting.called]
  · simp [Replying.replied, waiting.tasks]
  · simp [Replying.replied, waiting.called, handlers, waiting.waiting]

/-- A later reply changes nothing but the queue of completion handlers. -/
theorem Served.replied (served : Served response state) (request : HttpRequestImpl)
    (same : ∃ handlers, request = { state.request with responseCompleteHandlers := handlers })
    (other : HttpResponse) : Served response (state.replied other (request, [])) := by
  rcases same with ⟨handlers, rfl⟩
  rcases served with ⟨initiated, ready, waiting, isResponse, taken, called, scheduled⟩
  refine ⟨initiated, ready, waiting, isResponse, ?_, called, ?_⟩
  · simp [Replying.replied, initiated, taken]
  · simpa [Replying.replied] using scheduled

theorem Waiting.step (waiting : Waiting state) {event : ReplyingEvent} {next : Replying}
    (step : system.step state event next) :
    Waiting next ∨ ∃ response, Served response next := by
  rcases step with ⟨legal, rfl⟩
  cases event with
  | asyncGetResponse handler =>
      left
      have notReady := waiting.notReady
      simp only [exec, HttpRequestImpl.asyncGetResponse, notReady, Bool.not_false, if_true,
        List.append_nil]
      exact { waiting with
        notReady := rfl
        waiting := congrArg (· ++ [handler]) waiting.waiting }
  | reply response handler =>
      right
      refine ⟨response, ?_⟩
      rcases waiting.replied { state.request with
        responseCompleteHandlers := state.request.responseCompleteHandlers ++ [handler] }
        response rfl rfl with ⟨⟨request, tasks⟩, replied, served⟩
      simpa only [exec, HttpRequestImpl.reply, replied] using served
  | replyIfNotAlready response =>
      right
      refine ⟨response, ?_⟩
      rcases waiting.replied state.request response rfl rfl with ⟨result, replied, served⟩
      simpa only [exec, HttpRequestImpl.replyIfNotAlready, replied] using served
  | runTask => exact (legal rfl waiting.tasks).elim

theorem Served.step (served : Served response state) {event : ReplyingEvent} {next : Replying}
    (step : system.step state event next) : Served response next := by
  rcases step with ⟨legal, rfl⟩
  cases event with
  | asyncGetResponse handler =>
      rcases served with ⟨initiated, ready, waiting, isResponse, taken, called, handlers, tasks,
        registered⟩
      simp only [exec, HttpRequestImpl.asyncGetResponse, ready, Bool.not_true, Bool.false_eq_true,
        if_false]
      refine ⟨initiated, ready, waiting, isResponse, taken, called, handlers ++ [handler], ?_, ?_⟩
      · simp [tasks]
      · simp [registered]
  | reply other handler =>
      have refused := served.replied
        { state.request with
          responseCompleteHandlers := state.request.responseCompleteHandlers ++ [handler] }
        ⟨_, rfl⟩ other
      simpa [exec, HttpRequestImpl.reply, HttpRequestImpl.replyImpl, served.initiated] using refused
  | replyIfNotAlready other =>
      have refused := served.replied state.request
        ⟨state.request.responseCompleteHandlers, rfl⟩ other
      simpa [exec, HttpRequestImpl.replyIfNotAlready, HttpRequestImpl.replyImpl,
        served.initiated] using refused
  | runTask =>
      rcases served with ⟨initiated, ready, waiting, isResponse, taken, called, handlers, tasks,
        registered⟩
      rcases handlers with _ | ⟨oldest, rest⟩
      · exact (legal rfl tasks).elim
      · simp only [exec, runTask, tasks, List.map_cons]
        refine ⟨initiated, ready, waiting, isResponse, taken, ?_, rest, rfl, ?_⟩
        · intro call present
          rcases List.mem_append.mp present with earlier | latest
          · exact called call earlier
          · obtain rfl : call = _ := by simpa using latest
            exact isResponse
        · simp [registered]

theorem reachable_cases {default : HttpResponse} (reachable : system.Reachable (.new default) state) :
    Waiting state ∨ ∃ response, Served response state := by
  refine reachable.invariant (fun state => Waiting state ∨ ∃ response, Served response state)
    (.inl ⟨rfl, rfl, rfl, rfl, rfl, rfl⟩) ?_
  rintro state event next (waiting | ⟨response, served⟩) step
  · exact waiting.step step
  · exact .inr ⟨response, served.step step⟩

/-- The tasks that are to call a handler of the response. -/
def scheduled (state : Replying) : List ResponseHandler :=
  state.tasks.filterMap fun
    | .responseReady handler => some handler
    | _ => none

/-- One reply takes effect at most.  From then on `response_` is its response, and the handlers
that were registered, before or after it, are the ones called and the ones scheduled, one by one
and in that order; those called were called with that response. -/
theorem delivered_once {default : HttpResponse} (reachable : system.Reachable (.new default) state) :
    state.taken.length ≤ 1 ∧
      (∀ response ∈ state.taken, state.request.response = response ∧
        (∀ later, system.Reachable state later → later.taken = [response] ∧
          later.request.response = response) ∧
        state.registered = state.called.map Prod.fst ++ state.scheduled ∧
        ∀ call ∈ state.called, call.2 = response) ∧
      (state.taken = [] → state.called = [] ∧ state.scheduled = []) := by
  rcases reachable_cases reachable with waiting | ⟨first, served⟩
  · simp [waiting.taken, waiting.called, scheduled, waiting.tasks]
  · refine ⟨by simp [served.taken], ?_, by simp [served.taken]⟩
    intro response present
    obtain rfl : response = first := by simpa [served.taken] using present
    rcases served.scheduled with ⟨handlers, tasks, registered⟩
    have all : state.scheduled = handlers := by
      simp [scheduled, tasks, List.filterMap_map]
    refine ⟨served.current, fun later reached => ?_, by rw [all, registered], served.called⟩
    have still : Served response later :=
      reached.invariant (Served response) served fun _ _ _ still step => still.step step
    exact ⟨still.taken, still.current⟩

/-- Two replies, with a handler registered before, between and after them. -/
theorem delivered_once_two :
    let state := ((((((new 0).exec (.asyncGetResponse (.user 1))).exec (.reply 7 0)).exec
      (.asyncGetResponse (.user 2))).exec (.reply 8 1)).exec .runTask).exec
      (.asyncGetResponse (.user 3))
    state.taken.length ≤ 1 ∧
      (∀ response ∈ state.taken, state.request.response = response ∧
        (∀ later, system.Reachable state later → later.taken = [response] ∧
          later.request.response = response) ∧
        state.registered = state.called.map Prod.fst ++ state.scheduled ∧
        ∀ call ∈ state.called, call.2 = response) ∧
      (state.taken = [] → state.called = [] ∧ state.scheduled = []) := by
  have step (state : Replying) (event : ReplyingEvent) (legal : event = .runTask → state.tasks ≠ []) :
      system.step state event (state.exec event) := ⟨legal, rfl⟩
  refine delivered_once (((((((Lts.Reachable.refl (new 0)).tail (step _ _ ?_)).tail
    (step _ _ ?_)).tail (step _ _ ?_)).tail (step _ _ ?_)).tail (step _ _ ?_)).tail (step _ _ ?_))
  all_goals decide +kernel

end Replying

end Snode.Http
