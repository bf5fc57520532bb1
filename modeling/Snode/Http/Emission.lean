import Snode.Http.Exchange
import Snode.Streams.EndOfStream

/-!
# The sending half of a connection

The part of a connection that the loops sending a response work on, from the
head written by `async_process_response` to the end of the body.  The
application may go on writing the body meanwhile, and reading that of the
request.
-/

namespace Snode.Http

open Streams

/-- The tasks of the loops that send a body. -/
def Task.sends : Task → Bool
  | .bufRead _ _ => true
  | .responseReady _ | .dataReady _ _ | .responseComplete _ _ | .putn _ _ | .bufWrite _ _ => false

/-- What the sending of a response reads and writes. -/
structure Emission where
  responseBuf : Bytes
  putArea : Bytes
  body : Session UInt8 BufReadHandler
  write : ℕ
  writeSize : ℕ
  chunked : Bool
  writing : List WriteHandler
  tasks : List Task
  sent : Bytes
  sendCompleted : List ErrorCode

namespace HttpConnection

def emission (conn : HttpConnection) (response : HttpResponse) : Emission where
  responseBuf := conn.responseBuf
  putArea := conn.putArea
  body := (conn.responses response).body
  write := conn.write
  writeSize := conn.writeSize
  chunked := conn.chunked
  writing := conn.writing
  tasks := conn.tasks.filter Task.sends
  sent := conn.log.sent
  sendCompleted := conn.log.sendCompleted

/-- The connection as `async_write` hands it to its handler. -/
def written (conn : HttpConnection) : HttpConnection :=
  { conn with
    responseBuf := []
    writing := conn.writing.tail
    log := { conn.log with sent := conn.log.sent ++ conn.responseBuf } }

/-! ### What sending does -/

theorem emission_connect (conn : HttpConnection) (response : HttpResponse) (tasks : List Task) :
    (conn.connect tasks).emission response =
      { conn.emission response with
        tasks := (conn.emission response).tasks ++ tasks.filter Task.sends } := by
  simp [emission, connect]

theorem emission_responseSendComplete (conn : HttpConnection) (response : HttpResponse)
    (err : ErrorCode) :
    (conn.responseSendComplete err).emission response =
      { conn.emission response with
        sendCompleted := (conn.emission response).sendCompleted ++ [err] } := by
  have others : (conn.request.responseCompleteHandlers.map
      (Task.responseComplete · err)).filter Task.sends = [] := by
    simp [List.filter_eq_nil_iff, Task.sends]
  simp only [responseSendComplete, HttpRequestImpl.responseSendComplete, emission_connect, others,
    List.append_nil]
  rfl

theorem emission_cancelSendingResponseWithError (conn : HttpConnection) (response : HttpResponse)
    (err : ErrorCode) :
    (conn.cancelSendingResponseWithError err).emission response =
      { conn.emission response with
        sendCompleted := (conn.emission response).sendCompleted ++ [err] } :=
  conn.emission_responseSendComplete response err

/-- The end of a response, whether the connection is kept or not. -/
theorem emission_handleResponseWritten (conn : HttpConnection) (response : HttpResponse) :
    (conn.handleResponseWritten .success).emission response =
      { conn.emission response with
        sendCompleted := (conn.emission response).sendCompleted ++ [.success] } := by
  simp only [handleResponseWritten, ne_eq, not_true_eq_false, if_false]
  split <;> exact conn.emission_responseSendComplete response .success

/-- The characters of completed reads, stored where they were to go. -/
def storeCompleted (area : Bytes) (completed : Completed UInt8 BufReadHandler) : Bytes :=
  ChunkedEncoding.store area (readOffset completed.request.completionOp) completed.copied

def bufReadTask (completed : Completed UInt8 BufReadHandler) : Task :=
  .bufRead completed.request.completionOp completed.result

theorem emission_bodyOp (conn : HttpConnection) (response : HttpResponse)
    (op : Op UInt8 BufReadHandler) :
    let body := (conn.emission response).body
    let completed := (op.exec body.buffer).completed
    (conn.bodyOp response op).emission response =
      { conn.emission response with
        body := body.exec op
        putArea := completed.foldl storeCompleted (conn.emission response).putArea
        tasks := (conn.emission response).tasks ++ completed.map bufReadTask } := by
  have all (completions : List (Completed UInt8 BufReadHandler)) (conn : HttpConnection) :
      (completions.foldl bufReadCompleted conn).emission response =
        { conn.emission response with
          putArea := completions.foldl storeCompleted conn.putArea
          tasks := (conn.emission response).tasks ++ completions.map bufReadTask } := by
    induction completions generalizing conn with
    | nil => simp [emission]
    | cons completed rest ih =>
        rw [List.foldl_cons, ih]
        simp [bufReadCompleted, emission, connect, List.filter_cons, Task.sends, bufReadTask,
          storeCompleted]
  simp only [bodyOp, all]
  simp [emission, updateResponse]

theorem emission_getnBody (conn : HttpConnection) (response : HttpResponse) (count : ℕ)
    (handler : BufReadHandler) :
    let body := (conn.emission response).body
    let completed := ((Op.getn count handler).exec body.buffer).completed
    let refused := (AsyncStreambuf.getn body.buffer count handler).2.2
    (conn.getnBody response count handler).emission response =
      { conn.emission response with
        body := body.exec (.getn count handler)
        putArea := completed.foldl storeCompleted (conn.emission response).putArea
        tasks := (conn.emission response).tasks ++ completed.map bufReadTask ++
          refused.map fun completion => .bufRead completion.1 completion.2 } := by
  intro body completed refused
  have all (completions : List (BufReadHandler × Completion UInt8)) :
      (completions.map fun completion => Task.bufRead completion.1 completion.2).filter
        Task.sends = completions.map fun completion => .bufRead completion.1 completion.2 := by
    refine List.filter_eq_self.mpr fun task present => ?_
    rcases List.mem_map.mp present with ⟨completion, -, rfl⟩
    rfl
  simp only [getnBody, emission_connect, emission_bodyOp, all]
  rfl

/-! ### What has no part in it -/

theorem emission_runBufWrite (conn : HttpConnection) (response : HttpResponse)
    (handler : BufWriteHandler) (count : ℕ) :
    (conn.runBufWrite handler count).emission response = conn.emission response := by
  cases handler with
  | handleBodyBuffWrite =>
      simp only [runBufWrite, handleBodyBuffWrite, asyncReadUntilBuffersize]
      split
      · split <;> rfl
      · rfl
  | handleChunkedBodyBuffWrite =>
      simp only [runBufWrite, handleChunkedBodyBuffWrite]
      split <;> rfl

theorem emission_runTask (conn : HttpConnection) (response : HttpResponse) {task : Task}
    (answers : task.answers = false) (sends : task.sends = false) :
    (conn.runTask task).emission response = conn.emission response := by
  cases task with
  | responseReady handler =>
      cases handler with
      | handleResponse badRequest => simp [Task.answers] at answers
      | user handler => rfl
  | dataReady handler size =>
      cases handler with
      | handleRequestDataReady response => simp [Task.answers] at answers
      | user handler => rfl
  | responseComplete handler err => rfl
  | bufRead handler result => simp [Task.sends] at sends
  | putn source handler =>
      simp only [runTask]
      exact emission_runBufWrite _ _ _ _
  | bufWrite handler count => exact emission_runBufWrite _ _ _ _

theorem emission_runTask_sends {conn : HttpConnection} {response : HttpResponse} {task : Task}
    {rest sending : List Task} (tasks : conn.tasks = task :: rest) (sends : task.sends = true)
    (only : (conn.emission response).tasks = sending) :
    sending = task :: rest.filter Task.sends := by
  simp [← only, emission, tasks, sends]

theorem filter_tasks_eq_nil {tasks : List Task}
    (all : ∀ task ∈ tasks, task.answers = false ∧ task.sends = false) :
    tasks.filter Task.answers = [] ∧ tasks.filter Task.sends = [] :=
  ⟨List.filter_eq_nil_iff.mpr fun task present => by simp [(all task present).1],
    List.filter_eq_nil_iff.mpr fun task present => by simp [(all task present).2]⟩

/-- The head of a response is made without reading its body. -/
theorem emission_asyncProcessResponse_body (conn : HttpConnection) (response : HttpResponse) :
    ((conn.asyncProcessResponse response).emission response).body =
      (conn.responses response).body := by
  simp [emission, asyncProcessResponse, asyncWrite, updateResponse]

/-! ### Runs -/

/-- The events of a connection while a response is sent without a socket error. -/
def Sends (response : HttpResponse) : Event → Prop
  | .writeDone _ | .runTask | .requestOp _ => True
  | .responseOp other _ => other = response
  | .receive _ | .readDone _ | .readError _ | .writeError _ | .reply _ _ | .handlerThrew => False

/-- Connections sending a response. -/
def sendingSystem (getReqHandler : Bytes → Option ℕ) (response : HttpResponse) :
    Lts HttpConnection Event :=
  (system getReqHandler).restrict (Sends response)

theorem exchange_tasks_sending {getReqHandler : Bytes → Option ℕ} {response : HttpResponse}
    {conn next : HttpConnection} {event : Event} (quiet : conn.exchange.tasks = [])
    (step : (sendingSystem getReqHandler response).step conn event next) :
    next.exchange.tasks = [] := by
  rcases step with ⟨sends, legal, rfl⟩
  rcases exchange_exec getReqHandler legal with
    ⟨reads, -⟩ | (same | ⟨bodySize, completed⟩) | ⟨replies, -⟩ | ⟨-, ran⟩ | ⟨-, restarted⟩
  · cases event <;> simp [Event.readsSocket, Sends] at reads sends
  · exact same ▸ quiet
  · exact completed ▸ quiet
  · cases event <;> simp [Event.replies, Sends] at replies sends
  · simp only [ran, Exchange.exec, Exchange.runTask, quiet]
  · exact restarted ▸ quiet

/-- What a step of a connection can be while it sends a response.  The last case is everything
in which the sending has no part. -/
theorem sending_cases {getReqHandler : Bytes → Option ℕ} {response : HttpResponse}
    {conn next : HttpConnection} {event : Event} (quiet : conn.exchange.tasks = [])
    (step : (sendingSystem getReqHandler response).step conn event next) :
    (∃ memory handler rest, event = .writeDone memory ∧ conn.writing = handler :: rest ∧
      conn.preparedSize handler ≤ memory.length ∧ conn.socketOpen = true ∧
      next = conn.writeDone memory) ∨
    (∃ handler result rest, event = .runTask ∧ conn.tasks = .bufRead handler result :: rest ∧
      next = runBufRead { conn with tasks := rest } handler result) ∨
    (∃ op : Op UInt8 BufReadHandler, event = .responseOp response op ∧ op.Produces ∧
      op.Legal (conn.emission response).body.buffer ∧ next = conn.bodyOp response op) ∨
    ((∀ memory, event ≠ .writeDone memory) ∧
      next.emission response = conn.emission response) := by
  rcases step with ⟨sends, legal, rfl⟩
  cases event with
  | writeDone memory =>
      rcases legal with ⟨socketOpen, handler, rest, writing, prepared⟩
      exact .inl ⟨memory, handler, rest, rfl, writing, prepared, socketOpen, rfl⟩
  | runTask =>
      right
      rcases tasks : conn.tasks with _ | ⟨task, rest⟩
      · exact (legal tasks).elim
      · have answers : task.answers = false := by
          have none : conn.tasks.filter Task.answers = [] := quiet
          have all := List.filter_eq_nil_iff.mp none task (by simp [tasks])
          simpa using all
        by_cases sends : task.sends = true
        · cases task with
          | bufRead handler result =>
              exact .inl ⟨handler, result, rest, rfl, rfl, by simp [exec, runNextTask, tasks,
                runTask]⟩
          | responseReady | dataReady | responseComplete | putn | bufWrite =>
              simp [Task.sends] at sends
        · refine .inr (.inr ⟨by simp, ?_⟩)
          simp only [exec, runNextTask, tasks]
          rw [emission_runTask _ _ answers (by simpa using sends)]
          simp [emission, tasks, sends]
  | requestOp op => exact .inr (.inr (.inr ⟨by simp, rfl⟩))
  | responseOp other op =>
      obtain rfl : other = response := sends
      exact .inr (.inr (.inl ⟨op, rfl, legal.1, legal.2, rfl⟩))
  | receive | readDone | readError | writeError | reply | handlerThrew => exact sends.elim

/-- Memory that was never used. -/
def zeroed : Bytes :=
  List.replicate (chunkSize + ChunkedEncoding.additionalEncodingSpace) 0

theorem preparedSize_le (conn : HttpConnection) (handler : WriteHandler) :
    conn.preparedSize handler ≤ zeroed.length := by
  simp only [zeroed, List.length_replicate, ChunkedEncoding.additionalEncodingSpace]
  cases handler <;> simp only [preparedSize, ChunkedEncoding.additionalEncodingSpace]
  · split <;> omega
  · omega
  · omega
  · omega

end HttpConnection

end Snode.Http
