import Snode.Http.Replies

/-!
# Rejected replies

The completion handlers of replies.  `reply` queues its handler before it finds out
that a response was initiated already, so a reply that is rejected leaves its
handler with those of the reply that took effect, and the next
`response_send_complete` calls them all.
-/

namespace Snode.Http

/-- One call of `response_send_complete`. -/
structure CompletionReport where
  /-- The handlers that were called. -/
  called : List ℕ
  /-- The handler of the reply that took effect, unless a call before this one came after it. -/
  effective : List ℕ
  /-- The handlers of the replies rejected since the last call. -/
  refused : List ℕ
deriving DecidableEq

/-- A request with a record of what was done with it. -/
structure Completing where
  request : HttpRequestImpl
  effective : List ℕ
  refused : List ℕ
  /-- The request before and after each reply that was made when a response was initiated. -/
  rejections : List (HttpRequestImpl × HttpRequestImpl)
  reports : List CompletionReport

inductive CompletingEvent where
  | asyncGetResponse (handler : ResponseHandler)
  | asyncGetDataAvailable (handler : DataHandler)
  | reply (response : HttpResponse) (handler : ℕ)
  | replyIfNotAlready (response : HttpResponse)
  | responseSendComplete (err : ErrorCode)
  | complete (bodySize : ℕ)
  /-- What is accessible by reference is written. -/
  | edit (url method : Bytes) (headers : HttpHeaders)

namespace Completing

def new (response : HttpResponse) : Completing :=
  ⟨HttpRequestImpl.new response, [], [], [], []⟩

/-- The completion handlers that some tasks call. -/
def completions (tasks : List Task) : List ℕ :=
  tasks.filterMap fun
    | .responseComplete handler _ => some handler
    | _ => none

def exec (state : Completing) : CompletingEvent → Completing
  | .asyncGetResponse handler => { state with request := (state.request.asyncGetResponse handler).1 }
  | .asyncGetDataAvailable handler =>
      { state with request := (state.request.asyncGetDataAvailable handler).1 }
  | .reply response handler =>
      let request := (state.request.reply response handler).2.1
      if state.request.initiatedResponse then
        { state with
          request := request
          refused := state.refused ++ [handler]
          rejections := state.rejections ++ [(state.request, request)] }
      else
        { state with request := request, effective := state.effective ++ [handler] }
  | .replyIfNotAlready response =>
      { state with request := (state.request.replyIfNotAlready response).1 }
  | .responseSendComplete err =>
      let (request, tasks) := state.request.responseSendComplete err
      { state with
        request := request
        effective := []
        refused := []
        reports := state.reports ++ [⟨completions tasks, state.effective, state.refused⟩] }
  | .complete bodySize => { state with request := state.request.complete bodySize }
  | .edit url method headers =>
      { state with request := { state.request with url := url, method := method, headers := headers } }

def system : Lts Completing CompletingEvent where
  step state event next := next = state.exec event

/-- No rejected reply has left a trace, and every call was of the handler of the reply that
took effect and of no other. -/
structure Traceless (state : Completing) : Prop where
  unchanged : ∀ rejection ∈ state.rejections, rejection.2 = rejection.1
  exact : ∀ report ∈ state.reports, report.called = report.effective

/-- A reply after the first throws, and its handler stays in the queue. -/
theorem reply_rejected {request : HttpRequestImpl} (initiated : request.initiatedResponse = true)
    (response : HttpResponse) (handler : ℕ) :
    request.reply response handler =
      (true,
        { request with responseCompleteHandlers := request.responseCompleteHandlers ++ [handler] },
        []) := by
  simp [HttpRequestImpl.reply, HttpRequestImpl.replyImpl, initiated]

/-- The queue holds the handler of the reply that took effect and those of all rejected ones. -/
structure Invariant (state : Completing) : Prop where
  queue : state.request.responseCompleteHandlers = state.effective ++ state.refused
  initiated : state.refused ≠ [] → state.request.initiatedResponse = true
  rejected : state.refused ≠ [] → state.rejections ≠ []
  changed : ∀ rejection ∈ state.rejections, rejection.2 ≠ rejection.1
  called : ∀ report ∈ state.reports, report.called = report.effective ++ report.refused
  reported : ∀ report ∈ state.reports, report.refused ≠ [] → state.rejections ≠ []

variable {state : Completing}

theorem reply_accepted {request : HttpRequestImpl} (fresh : request.initiatedResponse = false)
    (response : HttpResponse) (handler : ℕ) :
    (request.reply response handler).1 = false ∧
      (request.reply response handler).2.1.responseCompleteHandlers =
        request.responseCompleteHandlers ++ [handler] := by
  simp [HttpRequestImpl.reply, HttpRequestImpl.replyImpl, fresh]

theorem replyIfNotAlready_queue (request : HttpRequestImpl) (response : HttpResponse) :
    (request.replyIfNotAlready response).1.responseCompleteHandlers =
        request.responseCompleteHandlers ∧
      (request.initiatedResponse = true →
        (request.replyIfNotAlready response).1.initiatedResponse = true) := by
  cases initiated : request.initiatedResponse <;>
    simp [HttpRequestImpl.replyIfNotAlready, HttpRequestImpl.replyImpl, initiated]

theorem completions_responseSendComplete (request : HttpRequestImpl) (err : ErrorCode) :
    completions (request.responseSendComplete err).2 = request.responseCompleteHandlers := by
  simp [completions, HttpRequestImpl.responseSendComplete, List.filterMap_map]

namespace Invariant

/-- What keeps the queue and the initiation of a response keeps the invariant. -/
theorem of_request (invariant : Invariant state) {request : HttpRequestImpl}
    (queue : request.responseCompleteHandlers = state.request.responseCompleteHandlers)
    (initiated : state.request.initiatedResponse = true → request.initiatedResponse = true) :
    Invariant { state with request := request } where
  queue := queue.trans invariant.queue
  initiated refused := initiated (invariant.initiated refused)
  rejected := invariant.rejected
  changed := invariant.changed
  called := invariant.called
  reported := invariant.reported

theorem reply (invariant : Invariant state) (response : HttpResponse) (handler : ℕ) :
    Invariant (state.exec (.reply response handler)) := by
  by_cases initiated : state.request.initiatedResponse = true
  · have rejected := reply_rejected initiated response handler
    simp only [exec, if_pos initiated, rejected]
    constructor
    · simp [invariant.queue]
    · intro _
      exact initiated
    · simp
    · intro rejection present
      rcases List.mem_append.mp present with earlier | latest
      · exact invariant.changed rejection earlier
      · obtain rfl := List.mem_singleton.mp latest
        intro same
        have queues := congrArg HttpRequestImpl.responseCompleteHandlers same
        simp at queues
    · exact invariant.called
    · simp
  · have fresh : state.request.initiatedResponse = false := by simpa using initiated
    have noneRefused : state.refused = [] := by
      by_contra refused
      exact initiated (invariant.initiated refused)
    simp only [exec, fresh, Bool.false_eq_true, if_false]
    constructor
    · simp [(reply_accepted fresh response handler).2, invariant.queue, noneRefused]
    · intro refused
      exact (refused noneRefused).elim
    · exact invariant.rejected
    · exact invariant.changed
    · exact invariant.called
    · exact invariant.reported

theorem responseSendComplete (invariant : Invariant state) (err : ErrorCode) :
    Invariant (state.exec (.responseSendComplete err)) := by
  constructor
  · rfl
  · intro refused
    exact (refused rfl).elim
  · intro refused
    exact (refused rfl).elim
  · exact invariant.changed
  · intro report present
    rcases List.mem_append.mp present with earlier | latest
    · exact invariant.called report earlier
    · obtain rfl := List.mem_singleton.mp latest
      exact (completions_responseSendComplete state.request err).trans invariant.queue
  · intro report present
    rcases List.mem_append.mp present with earlier | latest
    · exact invariant.reported report earlier
    · obtain rfl := List.mem_singleton.mp latest
      exact invariant.rejected

theorem step (invariant : Invariant state) (event : CompletingEvent) :
    Invariant (state.exec event) := by
  cases event with
  | asyncGetResponse handler =>
      apply invariant.of_request
      · unfold HttpRequestImpl.asyncGetResponse
        split <;> rfl
      · unfold HttpRequestImpl.asyncGetResponse
        split <;> exact id
  | asyncGetDataAvailable handler =>
      apply invariant.of_request
      · unfold HttpRequestImpl.asyncGetDataAvailable
        split <;> rfl
      · unfold HttpRequestImpl.asyncGetDataAvailable
        split <;> exact id
  | reply response handler => exact invariant.reply response handler
  | replyIfNotAlready response =>
      have kept := replyIfNotAlready_queue state.request response
      exact invariant.of_request kept.1 kept.2
  | responseSendComplete err => exact invariant.responseSendComplete err
  | complete bodySize => exact invariant.of_request rfl id
  | edit url method headers => exact invariant.of_request rfl id

theorem of_reachable {response : HttpResponse} (reachable : system.Reachable (new response) state) :
    Invariant state := by
  refine reachable.invariant Invariant ?_ ?_
  · refine ⟨rfl, ?_, ?_, ?_, ?_, ?_⟩ <;> simp [new]
  · rintro state event next invariant rfl
    exact invariant.step event

/-- Nothing is left behind as long as no reply is rejected, and something always when one is. -/
theorem traceless_iff (invariant : Invariant state) : Traceless state ↔ state.rejections = [] := by
  constructor
  · intro traceless
    by_contra rejected
    rcases List.exists_mem_of_ne_nil _ rejected with ⟨rejection, present⟩
    exact invariant.changed rejection present (traceless.unchanged rejection present)
  · intro none
    constructor
    · simp [none]
    · intro report present
      have noneRefused : report.refused = [] := by
        by_contra refused
        exact invariant.reported report present refused none
      rw [invariant.called report present, noneRefused, List.append_nil]

end Invariant

/-- A rejected reply throws, but always leaves its handler queued.  So a run leaves no trace of
rejected replies exactly when no reply in it is made after a response was initiated, and a
`response_send_complete` calls the handler of the reply that took effect and no other exactly
when no reply was rejected since the call before it. -/
theorem rejected_reply_trace {response : HttpResponse}
    (reachable : system.Reachable (new response) state) :
    (state.request.initiatedResponse = true → ∀ other handler,
        (state.request.reply other handler).1 = true ∧
          (state.request.reply other handler).2.1 ≠ state.request) ∧
      (Traceless state ↔ state.rejections = []) ∧
      ∀ report ∈ state.reports, report.called = report.effective ↔ report.refused = [] := by
  have invariant := Invariant.of_reachable reachable
  refine ⟨?_, invariant.traceless_iff, ?_⟩
  · intro initiated other handler
    rw [reply_rejected initiated]
    refine ⟨rfl, ?_⟩
    intro same
    have queues := congrArg HttpRequestImpl.responseCompleteHandlers same
    simp at queues
  · intro report present
    rw [invariant.called report present]
    exact List.append_right_eq_self

/-- Two replies with handlers, and the end of the one sent. -/
def twoReplies : List CompletingEvent :=
  [.reply 7 1, .reply 8 2, .responseSendComplete .success]

theorem reachable_foldl (response : HttpResponse) (events : List CompletingEvent) :
    system.Reachable (new response) (events.foldl exec (new response)) := by
  apply Lts.Follows.reachable
  generalize new response = state
  induction events generalizing state with
  | nil => trivial
  | cons event events ih => exact ⟨rfl, ih _⟩

theorem rejected_reply_trace_twoReplies :
    let state := twoReplies.foldl exec (new 0)
    (state.request.initiatedResponse = true → ∀ other handler,
        (state.request.reply other handler).1 = true ∧
          (state.request.reply other handler).2.1 ≠ state.request) ∧
      (Traceless state ↔ state.rejections = []) ∧
      ∀ report ∈ state.reports, report.called = report.effective ↔ report.refused = [] :=
  rejected_reply_trace (reachable_foldl 0 twoReplies)

theorem rejected_reply_called :
    (twoReplies.foldl exec (new 0)).reports = [⟨[1, 2], [1], [2]⟩] ∧
      ¬∀ response state, system.Reachable (new response) state → Traceless state := by
  have reports : (twoReplies.foldl exec (new 0)).reports = [⟨[1, 2], [1], [2]⟩] := by
    decide +kernel
  refine ⟨reports, ?_⟩
  intro claimed
  have traceless := claimed 0 _ (reachable_foldl 0 twoReplies)
  have called := traceless.exact ⟨[1, 2], [1], [2]⟩ (by simp [reports])
  simp at called

end Completing

end Snode.Http
