import Snode.Http.Exchange

/-!
# When a connection is kept open

`close_` collects the reasons for closing a connection from the head of a
request to the head of its response, and `handle_response_written` decides by
it.  What an event does to it is told by what the connection did for one
request: dispatch or reject it, process its response, and complete that.
-/

namespace Snode.Http

open Streams

/-- What a connection has done for its requests. -/
structure Milestones where
  dispatched : List Dispatched
  rejected : ℕ
  processed : List HttpResponse
  sendCompleted : List ErrorCode
  deriving DecidableEq

/-- The decision to close, so far. -/
structure Decision where
  close : Bool
  milestones : Milestones

/-- A response asks for the connection to be closed. -/
def closesByResponse (headers : HttpHeaders) : Bool :=
  headers.any fun header =>
    iequals header.1 (ascii "connection") && iequals header.2 (ascii "close")

/-- A request asks for it. -/
def closesByRequest (headers : HttpHeaders) : Bool :=
  let (hasConnection, name) := headers.matchString HeaderNames.connection []
  hasConnection && iequals name (ascii "close")

/-- The rest of the request line, and what is behind that line. -/
def requestLine (head : Bytes) : Bytes × Bytes :=
  let (line, stream) := (Istream.new head).getString [] |>.2.getline []
  (line, stream.rest)

/-- The version a request line carries. -/
def requestVersion (head : Bytes) : Bytes :=
  let line := (requestLine head).1
  substr line (line.length - versionPortionSize + 1) (versionPortionSize - 2)

/-- The loop over the header lines of a head, with what it adds them to. -/
def headerLines (head : Bytes) (others : HttpHeaders) : Bool × HttpHeaders × Bytes :=
  let rest := (requestLine head).2
  HttpConnection.headerLoop (rest.length + 1) (.new rest) [] others

/-- The headers of a head, added to some others. -/
def requestHeaders (head : Bytes) (others : HttpHeaders) : HttpHeaders :=
  (headerLines head others).2.1

/-- The checks of a head that reject it. -/
def malformed (head : Bytes) : Bool :=
  !validateMethod (normaliseMethod ((Istream.new head).getString []).1) ||
    decide ((requestLine head).1.length < versionPortionSize + 2) || !(headerLines head []).1

/-- The request in a head, with its headers added to some others. -/
def parsedRequest (head : Bytes) (others : HttpHeaders) : Dispatched :=
  let line := (requestLine head).1
  ⟨normaliseMethod ((Istream.new head).getString []).1,
    substr line 1 (line.length - versionPortionSize - 1), requestHeaders head others⟩

/-- Whether the socket fails in an event. -/
def Event.socketFails : Event → Bool
  | .readError _ | .writeError _ => true
  | _ => false

namespace HttpConnection

def milestones (conn : HttpConnection) : Milestones where
  dispatched := conn.log.dispatched
  rejected := conn.log.rejected
  processed := conn.log.processed
  sendCompleted := conn.log.sendCompleted

def decision (conn : HttpConnection) : Decision :=
  ⟨conn.close, conn.milestones⟩

/-! ### Calls that decide nothing -/

@[simp]
theorem decision_connect (conn : HttpConnection) (tasks : List Task) :
    (conn.connect tasks).decision = conn.decision := rfl

@[simp]
theorem decision_complete (conn : HttpConnection) (bodySize : ℕ) :
    (conn.complete bodySize).decision = conn.decision := rfl

@[simp]
theorem decision_doResponse (conn : HttpConnection) (badRequest : Bool) :
    (conn.doResponse badRequest).decision = conn.decision := rfl

@[simp]
theorem decision_contentReady (conn : HttpConnection) (handler : DataHandler) :
    (conn.contentReady handler).decision = conn.decision := rfl

@[simp]
theorem decision_replyIfNotAlready (conn : HttpConnection) (status : ℕ) :
    (conn.replyIfNotAlready status).decision = conn.decision := by
  simp only [replyIfNotAlready]
  split <;> rfl

@[simp]
theorem decision_asyncRead (conn : HttpConnection) (condition : ReadCondition)
    (handler : ReadHandler) : (conn.asyncRead condition handler).decision = conn.decision := rfl

@[simp]
theorem decision_asyncReadUntilBuffersize (conn : HttpConnection) (size : ℕ)
    (handler : ReadHandler) :
    (conn.asyncReadUntilBuffersize size handler).decision = conn.decision := by
  simp only [asyncReadUntilBuffersize]
  split <;> rfl

@[simp]
theorem decision_putn (conn : HttpConnection) (count : ℕ) (handler : BufWriteHandler) :
    (conn.putn count handler).decision = conn.decision := by
  simp only [putn]
  split
  · rfl
  · split
    · rfl
    · split <;> rfl

@[simp]
theorem decision_bodyOp (conn : HttpConnection) (response : HttpResponse)
    (op : Op UInt8 BufReadHandler) : (conn.bodyOp response op).decision = conn.decision := by
  have all (completions : List (Completed UInt8 BufReadHandler)) (conn : HttpConnection) :
      (completions.foldl bufReadCompleted conn).decision = conn.decision := by
    induction completions generalizing conn with
    | nil => rfl
    | cons completed rest ih =>
        rw [List.foldl_cons, ih]
        rfl
  rw [bodyOp, all]
  rfl

@[simp]
theorem decision_getnBody (conn : HttpConnection) (response : HttpResponse) (count : ℕ)
    (handler : BufReadHandler) :
    (conn.getnBody response count handler).decision = conn.decision := by
  simp only [getnBody, decision_connect, decision_bodyOp]

theorem decision_runBufWrite (conn : HttpConnection) (handler : BufWriteHandler) (count : ℕ) :
    (conn.runBufWrite handler count).decision = conn.decision := by
  cases handler with
  | handleBodyBuffWrite =>
      simp only [runBufWrite, handleBodyBuffWrite]
      split
      · exact decision_asyncReadUntilBuffersize _ _ _
      · rfl
  | handleChunkedBodyBuffWrite =>
      simp only [runBufWrite, handleChunkedBodyBuffWrite]
      split <;> rfl

theorem decision_runReadHandler (getReqHandler : Bytes → Option ℕ) (conn : HttpConnection)
    {handler : ReadHandler} (other : handler ≠ .handleHttpLine) (ec : ErrorCode) (value : Int) :
    (runReadHandler getReqHandler conn handler ec value).decision = conn.decision := by
  cases handler with
  | handleHttpLine => exact (other rfl).elim
  | handleChunkedHeader =>
      simp only [runReadHandler, handleChunkedHeader]
      split
      · rfl
      · split
        · rfl
        · exact decision_asyncReadUntilBuffersize _ _ _
  | handleChunkedBody toWrite =>
      simp only [runReadHandler, handleChunkedBody]
      split <;> simp
  | handleBody =>
      simp only [runReadHandler, handleBody]
      split
      · rfl
      · split <;> simp

/-! ### The head of a request -/

theorem decision_rejectBadRequest (conn : HttpConnection) :
    conn.rejectBadRequest.decision =
      ⟨true, { conn.milestones with rejected := conn.log.rejected + 1 }⟩ := by
  simp only [rejectBadRequest, decision_doResponse, replyIfNotAlready]
  split <;> rfl

theorem decision_dispatchRequestToListener (getReqHandler : Bytes → Option ℕ)
    (conn : HttpConnection) :
    (dispatchRequestToListener getReqHandler conn).decision =
      { conn.decision with
        milestones.dispatched := conn.decision.milestones.dispatched ++ [conn.dispatchable] } := by
  simp only [dispatchRequestToListener]
  split
  · rw [decision_doResponse, decision_replyIfNotAlready]
    rfl
  · rfl

/-- The decision is left to the headers, whatever was decided before. -/
theorem decision_headersRead (getReqHandler : Bytes → Option ℕ) (conn : HttpConnection) :
    (headersRead getReqHandler conn).decision =
      ⟨closesByRequest conn.request.headers,
        { conn.milestones with dispatched := conn.log.dispatched ++ [conn.dispatchable] }⟩ := by
  simp only [headersRead]
  split
  · exact decision_dispatchRequestToListener _ _
  · generalize (if (conn.request.headers.matchSize HeaderNames.contentLength conn.readSize).1 = true
      then (conn.request.headers.matchSize HeaderNames.contentLength conn.readSize).2 else 0) = size
    by_cases empty : size = 0
    · rw [if_pos empty]
      exact decision_dispatchRequestToListener _ _
    · rw [if_neg empty, decision_dispatchRequestToListener, decision_asyncReadUntilBuffersize]
      simp only [asyncReadUntilBuffersize]
      split <;> rfl

theorem isSome_addHeaderLine (headers others : HttpHeaders) (header : Bytes) :
    (addHeaderLine headers header).isSome = (addHeaderLine others header).isSome := by
  simp only [addHeaderLine]
  split <;> rfl

/-- Whether lines are headers does not depend on the headers there are. -/
theorem headerLoop_accepts (fuel : ℕ) (stream : Istream) (header : Bytes)
    (headers others : HttpHeaders) :
    (headerLoop fuel stream header headers).1 = (headerLoop fuel stream header others).1 := by
  induction fuel generalizing stream header headers others with
  | zero => rfl
  | succ fuel ih =>
      simp only [headerLoop]
      split
      · rfl
      · have same := isSome_addHeaderLine headers others (stream.getline header).1
        rcases added : addHeaderLine headers (stream.getline header).1 with _ | more
        · rw [added] at same
          have refused : addHeaderLine others (stream.getline header).1 = none := by
            simpa using same.symm
          simp only [refused]
        · rw [added] at same
          rcases Option.isSome_iff_exists.mp same.symm with ⟨others, alsoAdded⟩
          simp only [alsoAdded]
          exact ih _ _ _ _

theorem decision_handleHttpLine (getReqHandler : Bytes → Option ℕ) (conn : HttpConnection) :
    malformed conn.requestBuf = true ∧
        (handleHttpLine getReqHandler conn .success).decision =
          ⟨true, { conn.milestones with rejected := conn.log.rejected + 1 }⟩ ∨
      malformed conn.requestBuf = false ∧
        (handleHttpLine getReqHandler conn .success).decision =
          ⟨closesByRequest (requestHeaders conn.requestBuf conn.request.headers),
            { conn.milestones with
              dispatched := conn.log.dispatched ++
                [parsedRequest conn.requestBuf conn.request.headers] }⟩ := by
  have accepts : (headerLines conn.requestBuf []).1 =
      (headerLines conn.requestBuf conn.request.headers).1 := headerLoop_accepts _ _ _ _ _
  simp only [malformed, accepts, handleHttpLine, ne_eq, not_true_eq_false, if_false]
  split
  · next invalid => exact .inl ⟨by simp only [invalid, Bool.true_or], decision_rejectBadRequest _⟩
  · next valid =>
      split
      · next short =>
          have tooShort : (requestLine conn.requestBuf).1.length < versionPortionSize + 2 := short
          exact .inl ⟨by simp only [tooShort, decide_true, Bool.or_true, Bool.true_or],
            decision_rejectBadRequest _⟩
      · next long =>
          have notShort : ¬(requestLine conn.requestBuf).1.length < versionPortionSize + 2 := long
          simp only [Bool.not_eq_true] at valid
          simp only [valid, notShort, decide_false, Bool.false_or, handleHeaders]
          split
          · next accepted =>
              have all : (headerLines conn.requestBuf conn.request.headers).1 = true := accepted
              exact .inr ⟨by rw [all]; rfl, decision_headersRead _ _⟩
          · next refused =>
              have some : (headerLines conn.requestBuf conn.request.headers).1 = false :=
                Bool.eq_false_iff.mpr refused
              exact .inl ⟨by rw [some]; rfl, decision_rejectBadRequest _⟩

/-! ### The response -/

theorem decision_asyncProcessResponse (conn : HttpConnection) (response : HttpResponse) :
    (conn.asyncProcessResponse response).decision =
      ⟨conn.close ||
          closesByResponse ((conn.asyncProcessResponse response).responses response).headers,
        { conn.milestones with processed := conn.log.processed ++ [response] }⟩ := by
  simp [decision, milestones, asyncProcessResponse, asyncWrite, updateResponse, closesByResponse]

/-- What an event that is not the head of a request does to the decision. -/
inductive Decides (conn next : HttpConnection) : Prop where
  | nothing (same : next.decision = conn.decision)
  | processes (response : HttpResponse)
      (is : next.decision =
        ⟨conn.close || closesByResponse (next.responses response).headers,
          { conn.milestones with processed := conn.log.processed ++ [response] }⟩)
  | cancels (is : next.decision =
      ⟨true, { conn.milestones with sendCompleted := conn.log.sendCompleted ++ [.ioError] }⟩)
  | completes (sent : HttpConnection) (same : sent.decision = conn.decision)
      (isOpen : sent.socketOpen = true) (reading : sent.reading = conn.reading)
      (is : next = sent.handleResponseWritten .success)

variable {conn : HttpConnection}

theorem decides_handleWriteChunkedResponse (conn : HttpConnection) (response : HttpResponse)
    (memory : Bytes) :
    Decides conn (conn.handleWriteChunkedResponse response .success memory) := by
  simp only [handleWriteChunkedResponse, ne_eq, not_true_eq_false, if_false]
  split
  · exact .cancels rfl
  · exact .nothing (decision_getnBody _ _ _ _)

theorem decides_handleWriteLargeResponse (isOpen : conn.socketOpen = true)
    (response : HttpResponse) (memory : Bytes) :
    Decides conn (conn.handleWriteLargeResponse response .success memory) := by
  simp only [handleWriteLargeResponse, ne_eq, not_true_eq_false, false_or]
  split
  · exact .completes conn rfl isOpen rfl rfl
  · split
    · exact .cancels rfl
    · exact .nothing (decision_getnBody _ _ _ _)

theorem decides_runWriteHandler (isOpen : conn.socketOpen = true) (handler : WriteHandler)
    (memory : Bytes) : Decides conn (conn.runWriteHandler handler .success memory) := by
  cases handler with
  | handleHeadersWritten response =>
      simp only [runWriteHandler, handleHeadersWritten, ne_eq, not_true_eq_false, if_false]
      split
      · exact decides_handleWriteChunkedResponse _ _ _
      · exact decides_handleWriteLargeResponse isOpen _ _
  | handleWriteChunkedResponse response => exact decides_handleWriteChunkedResponse _ _ _
  | handleWriteLargeResponse response => exact decides_handleWriteLargeResponse isOpen _ _
  | handleResponseWritten response => exact .completes conn rfl isOpen rfl rfl

theorem decides_runBufRead (conn : HttpConnection) (handler : BufReadHandler)
    (result : Completion UInt8) : Decides conn (conn.runBufRead handler result) := by
  cases handler with
  | handleChunkedResponseBuffRead response =>
      simp only [runBufRead, handleChunkedResponseBuffRead]
      split
      · exact .cancels rfl
      · split <;> exact .nothing rfl
  | handleLargeResponseBuffRead response =>
      simp only [runBufRead, handleLargeResponseBuffRead]
      split
      · exact .cancels rfl
      · exact .nothing rfl

theorem decides_runTask (conn : HttpConnection) (task : Task) :
    Decides conn (conn.runTask task) := by
  cases task with
  | responseReady handler =>
      cases handler with
      | handleResponse badRequest =>
          simp only [runTask, handleResponse]
          split
          · exact .processes _ (decision_asyncProcessResponse _ _)
          · split
            · exact .processes _ (decision_asyncProcessResponse _ _)
            · exact .nothing (decision_contentReady _ _)
      | user handler => exact .nothing rfl
  | dataReady handler size =>
      cases handler with
      | handleRequestDataReady response =>
          simp only [runTask, handleRequestDataReady]
          split
          · exact .processes _ (decision_asyncProcessResponse _ _)
          · exact .nothing rfl
      | user handler => exact .nothing rfl
  | responseComplete handler err => exact .nothing rfl
  | bufRead handler result => exact decides_runBufRead _ _ _
  | putn source handler => exact .nothing (decision_runBufWrite _ _ _)
  | bufWrite handler count => exact .nothing (decision_runBufWrite _ _ _)

/-! ### One exchange -/

/-- The head of a request is taken from the socket. -/
def TakesHead (getReqHandler : Bytes → Option ℕ) (conn next : HttpConnection) : Prop :=
  ∃ read rest, conn.reading = read :: rest ∧ read.readsHead = true ∧
    next = handleHttpLine getReqHandler { conn with reading := rest } .success

/-- Steps in which the socket does not fail. -/
def working (getReqHandler : Bytes → Option ℕ) : Lts HttpConnection Event :=
  (system getReqHandler).restrict fun event => event.socketFails = false

/-- Those in which no milestone is reached. -/
def between (getReqHandler : Bytes → Option ℕ) : Lts HttpConnection Event where
  step conn event next :=
    (working getReqHandler).step conn event next ∧ next.milestones = conn.milestones

/-- A request is taken in the first of these states.  Its response is processed between `before`
and `answered`, and completed between `last` and `next`. -/
structure Exchanged (getReqHandler : Bytes → Option ℕ)
    (conn start before answered last next : HttpConnection) (response : HttpResponse) : Prop where
  arrived : conn.ready = true
  taken : TakesHead getReqHandler conn start
  waiting : (between getReqHandler).Reachable start before
  processing : ∃ event, (working getReqHandler).step before event answered
  processed : answered.log.processed = before.log.processed ++ [response]
  sending : (between getReqHandler).Reachable answered last
  completing : ∃ event, (working getReqHandler).step last event next
  completed : next.log.sendCompleted = last.log.sendCompleted ++ [.success]

/-- The reasons to close a connection. -/
def ClosingReason (conn start answered : HttpConnection) (response : HttpResponse) : Prop :=
  requestVersion conn.requestBuf = ascii "HTTP/1.0" ∨
    closesByRequest (requestHeaders conn.requestBuf []) = true ∨
    closesByResponse (answered.responses response).headers = true ∨
    start.log.rejected = conn.log.rejected + 1

/-- A connection is closed for one of the reasons, or reads its next request. -/
structure Persists (conn start answered last next : HttpConnection) (response : HttpResponse) :
    Prop where
  closes : next.socketOpen = false ↔ ClosingReason conn start answered response
  continues : ¬ClosingReason conn start answered response →
    next.reading = last.reading ++ [⟨.untilHead 0, .handleHttpLine⟩]

variable {getReqHandler : Bytes → Option ℕ} {next : HttpConnection} {event : Event}

theorem Decides.of_popped {popped : HttpConnection} (decides : Decides popped next)
    (same : popped.decision = conn.decision) (reading : popped.reading = conn.reading) :
    Decides conn next := by
  obtain ⟨close, milestones⟩ := (Decision.mk.injEq _ _ _ _).mp same
  have log : popped.log.processed = conn.log.processed ∧
      popped.log.sendCompleted = conn.log.sendCompleted := by
    simp only [HttpConnection.milestones, Milestones.mk.injEq] at milestones
    exact ⟨milestones.2.2.1, milestones.2.2.2⟩
  cases decides with
  | nothing unchanged => exact .nothing (unchanged.trans same)
  | processes response is => exact .processes response (by rw [is, close, milestones, log.1])
  | cancels is => exact .cancels (by rw [is, milestones, log.2])
  | completes sent unchanged isOpen stillReading is =>
      exact .completes sent (unchanged.trans same) isOpen (stillReading.trans reading) is

theorem decides_step (step : (working getReqHandler).step conn event next) :
    TakesHead getReqHandler conn next ∨ Decides conn next := by
  rcases step with ⟨works, legal, rfl⟩
  cases event with
  | receive piece =>
      refine .inr (.nothing ?_)
      rcases reading : conn.reading with _ | ⟨read, rest⟩
      · simp [exec, receive, reading]
      · simp [exec, receive, reading, decision, milestones]
  | readDone value =>
      rcases reading : conn.reading with _ | ⟨read, rest⟩
      · exact .inr (.nothing (by simp [exec, readDone, reading]))
      · simp only [exec, readDone, reading]
        by_cases head : read.handler = .handleHttpLine
        · refine .inl ⟨read, rest, reading, by simp [SocketRead.readsHead, head], ?_⟩
          simp only [head, runReadHandler]
        · exact .inr (.nothing (decision_runReadHandler _ _ head _ _))
  | readError ec => simp [Event.socketFails] at works
  | writeDone memory =>
      rcases legal with ⟨isOpen, handler, rest, writing, -⟩
      simp only [exec, writeDone, writing]
      right
      apply Decides.of_popped (decides_runWriteHandler _ handler memory)
      · rfl
      · rfl
      · exact isOpen
  | writeError ec => simp [Event.socketFails] at works
  | runTask =>
      rcases tasks : conn.tasks with _ | ⟨task, rest⟩
      · exact (legal tasks).elim
      · simp only [exec, runNextTask, tasks]
        exact .inr ((decides_runTask _ task).of_popped rfl rfl)
  | reply impl handler => exact .inr (.nothing rfl)
  | handlerThrew => exact .inr (.nothing (decision_replyIfNotAlready _ _))
  | requestOp op => exact .inr (.nothing rfl)
  | responseOp response op => exact .inr (.nothing (decision_bodyOp _ _ _))

theorem handleResponseWritten_success (conn : HttpConnection) :
    (conn.handleResponseWritten .success).decision =
        ⟨conn.close, { conn.milestones with
          sendCompleted := conn.log.sendCompleted ++ [.success] }⟩ ∧
      (conn.handleResponseWritten .success).socketOpen = (conn.socketOpen && !conn.close) ∧
      (conn.close = false → (conn.handleResponseWritten .success).reading =
        conn.reading ++ [⟨.untilHead 0, .handleHttpLine⟩]) := by
  simp only [handleResponseWritten, ne_eq, not_true_eq_false, if_false]
  have same : (conn.responseSendComplete .success).close = conn.close := rfl
  cases close : conn.close with
  | false =>
      rw [close] at same
      rw [same]
      refine ⟨?_, by simp [startRequestResponse, asyncRead, responseSendComplete, connect],
        fun _ => rfl⟩
      simp [decision, milestones, startRequestResponse, asyncRead, responseSendComplete, connect,
        close]
  | true =>
      rw [close] at same
      rw [same]
      exact ⟨rfl, by simp [finishRequestResponse], fun isFalse => by simp at isFalse⟩

theorem milestones_of_decision {close : Bool} {milestones : Milestones}
    (is : next.decision = ⟨close, milestones⟩) :
    next.close = close ∧ next.milestones = milestones := by
  simpa [decision] using is

theorem TakesHead.milestones (taken : TakesHead getReqHandler conn next) :
    next.milestones = { conn.milestones with rejected := conn.log.rejected + 1 } ∨
      ∃ dispatched, next.milestones =
        { conn.milestones with dispatched := conn.log.dispatched ++ [dispatched] } := by
  rcases taken with ⟨read, rest, -, -, rfl⟩
  rcases decision_handleHttpLine getReqHandler { conn with reading := rest } with
    ⟨-, is⟩ | ⟨-, is⟩
  · exact .inl (milestones_of_decision is).2
  · exact .inr ⟨_, (milestones_of_decision is).2⟩

theorem close_of_between (step : (between getReqHandler).step conn event next) :
    next.close = conn.close := by
  rcases step with ⟨step, kept⟩
  rcases decides_step step with taken | decides
  · rcases taken.milestones with rejected | ⟨dispatched, isDispatched⟩
    · rw [kept] at rejected
      simp [milestones] at rejected
    · rw [kept] at isDispatched
      simp [milestones] at isDispatched
  · cases decides with
    | nothing same => exact (milestones_of_decision same).1
    | processes response is =>
        have more := (milestones_of_decision is).2
        rw [kept] at more
        simp [milestones] at more
    | cancels is =>
        have more := (milestones_of_decision is).2
        rw [kept] at more
        simp [milestones] at more
    | completes sent same isOpen reading is =>
        have more := (milestones_of_decision (handleResponseWritten_success sent).1).2
        rw [← is, kept, ← (milestones_of_decision same).2] at more
        simp [milestones] at more

theorem close_of_reachable (reachable : (between getReqHandler).Reachable conn next) :
    next.close = conn.close :=
  reachable.invariant (fun later => later.close = conn.close) rfl
    fun _ _ _ same step => (close_of_between step).trans same

/-- A response that is processed adds its reason to those there are. -/
theorem close_of_processed {response : HttpResponse}
    (step : (working getReqHandler).step conn event next)
    (processed : next.log.processed = conn.log.processed ++ [response]) :
    next.close = (conn.close || closesByResponse (next.responses response).headers) := by
  have unprocessed (other : HttpConnection) (same : other.log.processed = conn.log.processed)
      (is : next.log.processed = other.log.processed) : False := by
    rw [is, same] at processed
    simp at processed
  rcases decides_step step with taken | decides
  · rcases taken.milestones with is | ⟨dispatched, is⟩
    all_goals exact (unprocessed conn rfl (congrArg Milestones.processed is)).elim
  · cases decides with
    | nothing same =>
        have is := (milestones_of_decision same).2
        exact (unprocessed conn rfl (congrArg Milestones.processed is)).elim
    | processes other is =>
        rcases milestones_of_decision is with ⟨close, milestones⟩
        have same : next.log.processed = conn.log.processed ++ [other] :=
          congrArg Milestones.processed milestones
        obtain rfl : other = response := by simpa [processed] using same.symm
        exact close
    | cancels is =>
        have is := (milestones_of_decision is).2
        exact (unprocessed conn rfl (congrArg Milestones.processed is)).elim
    | completes sent same isOpen reading is =>
        have sentMilestones := (milestones_of_decision same).2
        have done := (milestones_of_decision (handleResponseWritten_success sent).1).2
        rw [← is] at done
        exact (unprocessed sent (congrArg Milestones.processed sentMilestones)
          (congrArg Milestones.processed done)).elim

/-- The end of a response goes by the decision there is. -/
theorem closed_of_completed (step : (working getReqHandler).step conn event next)
    (completed : next.log.sendCompleted = conn.log.sendCompleted ++ [.success]) :
    next.socketOpen = !conn.close ∧
      (conn.close = false →
        next.reading = conn.reading ++ [⟨.untilHead 0, .handleHttpLine⟩]) := by
  have incomplete (is : next.log.sendCompleted = conn.log.sendCompleted) : False := by
    rw [is] at completed
    simp at completed
  rcases decides_step step with taken | decides
  · rcases taken.milestones with is | ⟨dispatched, is⟩
    all_goals exact (incomplete (congrArg Milestones.sendCompleted is)).elim
  · cases decides with
    | nothing same =>
        have is := (milestones_of_decision same).2
        exact (incomplete (congrArg Milestones.sendCompleted is)).elim
    | processes other is =>
        have is := (milestones_of_decision is).2
        exact (incomplete (congrArg Milestones.sendCompleted is)).elim
    | cancels is =>
        have failed : next.log.sendCompleted = conn.log.sendCompleted ++ [.ioError] :=
          congrArg Milestones.sendCompleted (milestones_of_decision is).2
        simp [failed] at completed
    | completes sent same isOpen reading is =>
        have close := (milestones_of_decision same).1
        rcases handleResponseWritten_success sent with ⟨-, socketOpen, restarted⟩
        rw [← is] at socketOpen restarted
        refine ⟨by rw [socketOpen, isOpen, Bool.true_and]; exact congrArg not close,
          fun keeps => ?_⟩
        rw [restarted (close.trans keeps), reading]

theorem TakesHead.close (taken : TakesHead getReqHandler conn next) :
    malformed conn.requestBuf = true ∧ next.close = true ∧
        next.log.rejected = conn.log.rejected + 1 ∨
      malformed conn.requestBuf = false ∧
        next.close = closesByRequest (requestHeaders conn.requestBuf conn.request.headers) ∧
        next.log.rejected = conn.log.rejected := by
  rcases taken with ⟨read, rest, -, -, rfl⟩
  rcases decision_handleHttpLine getReqHandler { conn with reading := rest } with
    ⟨bad, is⟩ | ⟨good, is⟩
  · rcases milestones_of_decision is with ⟨close, milestones⟩
    exact .inl ⟨bad, close, congrArg Milestones.rejected milestones⟩
  · rcases milestones_of_decision is with ⟨close, milestones⟩
    exact .inr ⟨good, close, congrArg Milestones.rejected milestones⟩

variable {start before answered last : HttpConnection} {response : HttpResponse}

theorem Exchanged.close
    (exchanged : Exchanged getReqHandler conn start before answered last next response) :
    last.close = (start.close || closesByResponse (answered.responses response).headers) := by
  rcases exchanged.processing with ⟨event, step⟩
  rw [close_of_reachable exchanged.sending, close_of_processed step exchanged.processed,
    close_of_reachable exchanged.waiting]

/-- The version of the request does not count: a connection is kept open or closed for the right
reasons exactly when the request is malformed, the response closes the connection, or the
`Connection` headers received so far say what the version and the request's own header do. -/
theorem persists_iff
    (exchanged : Exchanged getReqHandler conn start before answered last next response) :
    Persists conn start answered last next response ↔
      malformed conn.requestBuf = true ∨
        closesByResponse (answered.responses response).headers = true ∨
        (closesByRequest (requestHeaders conn.requestBuf conn.request.headers) = true ↔
          requestVersion conn.requestBuf = ascii "HTTP/1.0" ∨
            closesByRequest (requestHeaders conn.requestBuf []) = true) := by
  rcases exchanged.completing with ⟨event, completing⟩
  rcases closed_of_completed completing exchanged.completed with ⟨socketOpen, continues⟩
  have persists : Persists conn start answered last next response ↔
      (last.close = true ↔ ClosingReason conn start answered response) := by
    have closes : next.socketOpen = false ↔ last.close = true := by simp [socketOpen]
    constructor
    · intro persists
      rw [← closes]
      exact persists.closes
    · intro decided
      refine ⟨closes.trans decided, fun noReason => continues ?_⟩
      exact Bool.eq_false_iff.mpr (mt decided.mp noReason)
  rw [persists, exchanged.close, Bool.or_eq_true, ClosingReason]
  rcases exchanged.taken.close with ⟨bad, close, rejected⟩ | ⟨good, close, rejected⟩
  · simp [bad, close, rejected]
  · rw [close, rejected]
    simp only [good, Bool.false_eq_true, false_or, Nat.left_eq_add, one_ne_zero, or_false]
    by_cases closes : closesByResponse (answered.responses response).headers = true
    · simp [closes]
    · simp [closes]

/-! ### A request of version 1.0 -/

def anyHandler : Bytes → Option ℕ := fun _ => some 0

/-- The connection has received the head of a request that says nothing about persistence. -/
def oldReceived : HttpConnection :=
  HttpConnection.new.run anyHandler
    [.receive (ascii "POST / HTTP/1.0" ++ crlf ++ ascii "Content-Length: 5" ++ crlf ++ crlf)]

def oldDispatched : HttpConnection :=
  exec anyHandler oldReceived (.readDone 0)

/-- The body is received, and the application replies. -/
def oldReplied : HttpConnection :=
  oldDispatched.run anyHandler
    [.receive (ascii "hello"), .readDone 0, .runTask, .readDone 0,
      .reply (HttpResponseImpl.new 200) 0]

def oldAnswered : HttpConnection :=
  exec anyHandler oldReplied .runTask

def oldCompleted : HttpConnection :=
  exec anyHandler oldAnswered (.writeDone [])

theorem oldReceived_reachable :
    (system anyHandler).Reachable HttpConnection.new oldReceived := by
  have received : LegalRun anyHandler HttpConnection.new
      [.receive (ascii "POST / HTTP/1.0" ++ crlf ++ ascii "Content-Length: 5" ++ crlf ++ crlf)] :=
    ⟨⟨rfl, rfl, List.cons_ne_nil _ _⟩, trivial⟩
  exact ⟨_, received.run⟩

theorem exchanged_old :
    Exchanged anyHandler oldReceived oldDispatched oldReplied oldAnswered oldAnswered oldCompleted
      1 := by
  have quiet {conn : HttpConnection} (event : Event) (works : event.socketFails = false)
      (legal : conn.Legal event)
      (kept : (exec anyHandler conn event).milestones = conn.milestones) :
      (between anyHandler).step conn event (exec anyHandler conn event) :=
    ⟨⟨works, legal, rfl⟩, kept⟩
  refine ⟨by decide +kernel, ?_, ?_, ⟨.runTask, rfl, ?_, rfl⟩, by decide +kernel, .refl _,
    ⟨.writeDone [], rfl, ?_, rfl⟩, by decide +kernel⟩
  · exact ⟨⟨.untilHead 0, .handleHttpLine⟩, [], by decide +kernel, by decide +kernel, rfl⟩
  · refine ⟨_, .cons (quiet (.receive (ascii "hello")) rfl ⟨?_, ?_, by simp [ascii]⟩ ?_)
      (.cons (quiet (.readDone 0) rfl ?_ ?_) (.cons (quiet .runTask rfl ?_ ?_)
        (.cons (quiet (.readDone 0) rfl ?_ ?_)
          (.single (quiet (.reply (HttpResponseImpl.new 200) 0) rfl ⟨?_, rfl⟩ ?_)))))⟩
    · decide +kernel
    · decide +kernel
    · decide +kernel
    · change ready _ = true
      decide +kernel
    · decide +kernel
    · change HttpConnection.tasks _ ≠ []
      decide +kernel
    · decide +kernel
    · change ready _ = true
      decide +kernel
    · decide +kernel
    · decide +kernel
    · decide +kernel
  · change oldReplied.tasks ≠ []
    decide +kernel
  · exact ⟨by decide +kernel, .handleHeadersWritten 1, [], by decide +kernel, by decide +kernel⟩

/-- The condition fails, and so does what depends on it. -/
theorem persists_iff_old :
    Persists oldReceived oldDispatched oldAnswered oldAnswered oldCompleted 1 ↔
      malformed oldReceived.requestBuf = true ∨
        closesByResponse (oldAnswered.responses 1).headers = true ∨
        (closesByRequest (requestHeaders oldReceived.requestBuf oldReceived.request.headers) =
            true ↔
          requestVersion oldReceived.requestBuf = ascii "HTTP/1.0" ∨
            closesByRequest (requestHeaders oldReceived.requestBuf []) = true) :=
  persists_iff exchanged_old

/-- The connection stays open after a request of version 1.0. -/
theorem not_persists_old :
    (system anyHandler).Reachable HttpConnection.new oldReceived ∧
      Exchanged anyHandler oldReceived oldDispatched oldReplied oldAnswered oldAnswered
        oldCompleted 1 ∧
      ¬Persists oldReceived oldDispatched oldAnswered oldAnswered oldCompleted 1 := by
  refine ⟨oldReceived_reachable, exchanged_old, fun persists => ?_⟩
  have version : requestVersion oldReceived.requestBuf = ascii "HTTP/1.0" := by decide +kernel
  have closed : oldCompleted.socketOpen = false := persists.closes.mpr (.inl version)
  revert closed
  decide +kernel

end HttpConnection

end Snode.Http
