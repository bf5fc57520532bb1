import Snode.Http.Emission

/-!
# Sending a body of known length

The loop of `handle_write_large_response` and `handle_large_response_buff_read`
over a body whose stream is closed for writing.  It reads a chunk, writes it to
the socket and starts again, until `write_` is `write_size_`; a read of a single
character takes another way through the buffer than the loop expects.
-/

namespace Snode.Http

open Streams

/-- Whether a write on the socket is completed in an event. -/
def Event.writes : Event → Bool
  | .writeDone _ => true
  | _ => false

theorem ChunkedEncoding.store_zero (data chars : Bytes) :
    ChunkedEncoding.store data 0 chars = chars ++ data.drop chars.length := by
  simp [ChunkedEncoding.store]

namespace HttpConnection

/-- The body is all in its stream, which the connection reads alone. -/
structure LargeBody (body : Bytes) (emission : Emission) : Prop where
  invariant : emission.body.buffer.Invariant
  atEnd : AtEnd emission.body.buffer
  readable : emission.body.buffer.canRead = true
  closed : emission.body.buffer.canWrite = false
  idle : emission.body.buffer.requests = []
  writeSize : emission.writeSize = body.length
  unchunked : emission.chunked = false

section

variable (response : HttpResponse) (body : Bytes) (start : Emission) (writes : ℕ)
  (emission : Emission)

/-- The head or a chunk is being written; `start` is what the loop started from. -/
structure LargeWriting : Prop where
  writing : emission.writing = [.handleHeadersWritten response] ∨
    emission.writing = [.handleWriteLargeResponse response]
  tasks : emission.tasks = []
  written : emission.write ≤ body.length
  aligned : emission.write = body.length ∨ emission.write % chunkSize = 0
  sent : emission.sent ++ emission.responseBuf =
    start.sent ++ (start.responseBuf ++ body.take emission.write)
  unread : emission.body.buffer.unread = body.drop emission.write
  completed : emission.sendCompleted = start.sendCompleted
  counted : writes = (emission.write + (chunkSize - 1)) / chunkSize

/-- A chunk has been read, and its completion is scheduled. -/
structure LargeReading (count : ℕ) : Prop where
  writing : emission.writing = []
  tasks : emission.tasks = [.bufRead (.handleLargeResponseBuffRead response) (.size count)]
  more : emission.write < body.length
  aligned : emission.write % chunkSize = 0
  countEq : count = min chunkSize (body.length - emission.write)
  read : emission.putArea.take count = (body.drop emission.write).take count
  emptied : emission.responseBuf = []
  sent : emission.sent = start.sent ++ (start.responseBuf ++ body.take emission.write)
  unread : emission.body.buffer.unread = body.drop (emission.write + count)
  completed : emission.sendCompleted = start.sendCompleted
  counted : writes = (emission.write + (chunkSize - 1)) / chunkSize + 1

/-- The response has been written. -/
structure LargeDone : Prop where
  writing : emission.writing = []
  tasks : emission.tasks = []
  written : emission.write = body.length
  sent : emission.sent = start.sent ++ (start.responseBuf ++ body)
  completed : emission.sendCompleted = start.sendCompleted ++ [.success]
  counted : writes = (body.length + (chunkSize - 1)) / chunkSize + 1

/-- Where the loop is. -/
inductive LargePhase : Prop where
  | writing (writing : LargeWriting response body start writes emission)
  | reading (count : ℕ) (reading : LargeReading response body start writes emission count)
  | done (done : LargeDone body start writes emission)

end

namespace LargeBody

variable {body : Bytes} {emission : Emission}

theorem produces (large : LargeBody body emission)
    {op : Op UInt8 BufReadHandler} (produces : op.Produces)
    (legal : op.Legal emission.body.buffer) :
    (op.exec emission.body.buffer).completed = [] ∧
      LargeBody body { emission with body := emission.body.exec op } ∧
      (op.exec emission.body.buffer).next.unread = emission.body.buffer.unread := by
  rcases produces.closed large.closed with ⟨completed, removed, requests⟩
  have effect := Op.exec_effect large.invariant legal
  refine ⟨completed, ⟨effect.invariant, large.atEnd.exec wideTraits_uint8 large.invariant legal,
    ?_, op.exec_closed large.closed, requests.trans large.idle, large.writeSize,
    large.unchunked⟩, ?_⟩
  · exact (congrArg Prod.fst (produces.readFlags_eq emission.body.buffer)).trans large.readable
  · simpa [removed, op.stored_of_closed large.closed] using effect.moved.symm

theorem getn (large : LargeBody body emission) {count : ℕ}
    (handler : BufReadHandler)
    (requests : ((Op.getn count handler).exec emission.body.buffer).next.requests =
      emission.body.buffer.requests) :
    LargeBody body { emission with body := emission.body.exec (.getn count handler) } := by
  have consumes : (Op.getn count handler : Op UInt8 BufReadHandler).Consumes := trivial
  have sides := consumes.sides_eq emission.body.buffer
  have effect : Effect emission.body.buffer ((Op.getn count handler).exec emission.body.buffer) :=
    Op.exec_effect large.invariant trivial
  exact ⟨effect.invariant, large.atEnd.exec wideTraits_uint8 large.invariant trivial,
    (congrArg Prod.fst sides).trans large.readable, Op.exec_closed _ large.closed,
    requests.trans large.idle, large.writeSize, large.unchunked⟩

theorem not_isEof (large : LargeBody body emission)
    (unread : emission.body.buffer.unread ≠ []) : emission.body.buffer.isEof = false := by
  by_contra met
  exact unread (large.atEnd (by simpa using met)).2

end LargeBody

variable {response : HttpResponse} {body : Bytes}

/-- A write of the head or of a chunk is followed by the loop. -/
theorem writeDone_large {conn : HttpConnection} {handler : WriteHandler}
    (handlers : handler = .handleHeadersWritten response ∨
      handler = .handleWriteLargeResponse response)
    {rest : List WriteHandler} (writing : conn.writing = handler :: rest)
    (unchunked : conn.chunked = false) (memory : Bytes) :
    conn.writeDone memory = conn.written.handleWriteLargeResponse response .success memory := by
  have notChunked : ¬conn.chunked = true := by simp [unchunked]
  rcases handlers with rfl | rfl
  · simp only [writeDone, writing, runWriteHandler, handleHeadersWritten, ne_eq,
      not_true_eq_false, if_false, if_neg notChunked, written, List.tail_cons]
  · simp only [writeDone, writing, runWriteHandler, written, List.tail_cons]

/-- The loop ends at the end of the body. -/
theorem handleWriteLargeResponse_end {conn : HttpConnection}
    (finished : conn.write = conn.writeSize) (memory : Bytes) :
    (conn.handleWriteLargeResponse response .success memory).emission response =
      { conn.emission response with
        sendCompleted := (conn.emission response).sendCompleted ++ [.success] } := by
  have last : ErrorCode.success ≠ .success ∨ conn.write = conn.writeSize := .inr finished
  simp only [handleWriteLargeResponse, if_pos last, emission_handleResponseWritten]

/-- Before it the loop reads a chunk. -/
theorem handleWriteLargeResponse_more {conn : HttpConnection}
    (large : LargeBody body (conn.emission response)) (word : body.length < 2 ^ 64)
    (more : conn.write < body.length)
    (unread : (conn.emission response).body.buffer.unread = body.drop conn.write)
    (memory : Bytes) :
    conn.handleWriteLargeResponse response .success memory =
      (conn.prepare memory).getnBody response (min chunkSize (body.length - conn.write))
        (.handleLargeResponseBuffRead response) := by
  have writeSize : conn.writeSize = body.length := large.writeSize
  have notLast : ¬(ErrorCode.success ≠ .success ∨ conn.write = conn.writeSize) := by
    simp only [ne_eq, not_true_eq_false, false_or]
    omega
  have left : body.drop conn.write ≠ [] := by simpa using more
  have notMet : (conn.responses response).body.buffer.isEof = false :=
    large.not_isEof (unread ▸ left)
  have notEof : ¬(conn.responses response).body.buffer.isEof = true := by simp [notMet]
  have size : sizeT (conn.writeSize - conn.write) = body.length - conn.write := by
    have small : body.length - conn.write < 2 ^ 64 := by omega
    rw [← sizeT_of_lt small, writeSize, Nat.cast_sub more.le]
  simp only [handleWriteLargeResponse, if_neg notLast, if_neg notEof, size]

/-- The chunk is copied to the prepared memory, and its size handed to the loop. -/
theorem getnBody_bulk {conn : HttpConnection} {count : ℕ}
    (large : LargeBody body (conn.emission response)) (bulk : 2 ≤ count) :
    let handler : BufReadHandler := .handleLargeResponseBuffRead response
    let unread := (conn.emission response).body.buffer.unread
    let after := (conn.emission response).body.exec (.getn count handler)
    (conn.getnBody response count handler).emission response =
        { conn.emission response with
          body := after
          putArea := ChunkedEncoding.store conn.putArea 0 (unread.take count)
          tasks := (conn.emission response).tasks ++
            [.bufRead handler (.size (unread.take count).length)] } ∧
      LargeBody body { conn.emission response with body := after } ∧
      after.buffer.unread = unread.drop count := by
  rcases getn_of_closed large.invariant.consistent large.readable large.closed bulk
    (.handleLargeResponseBuffRead response) with
    ⟨refused, completed, served, handlerEq, copied, result, unread, requests⟩
  refine ⟨?_, large.getn _ requests, unread⟩
  simp only [emission_getnBody, refused, served, List.foldl_cons, List.foldl_nil, List.map_cons,
    List.map_nil, List.append_nil, storeCompleted, bufReadTask, handlerEq, copied, result,
    readOffset]
  rfl

/-- The loop takes a chunk from what is left. -/
theorem length_chunk {written : ℕ} (more : written < body.length) :
    ((body.drop written).take (min chunkSize (body.length - written))).length =
      min chunkSize (body.length - written) := by
  simp only [List.length_take, List.length_drop]
  omega

theorem LargeWriting.writeDone_eq {conn : HttpConnection} {start : Emission} {writes : ℕ}
    (large : LargeBody body (conn.emission response))
    (phase : LargeWriting response body start writes (conn.emission response)) (memory : Bytes) :
    conn.writeDone memory = conn.written.handleWriteLargeResponse response .success memory ∧
      conn.written.writing = [] := by
  rcases phase.writing with writing | writing
  · exact ⟨writeDone_large (.inl rfl) writing large.unchunked memory, congrArg List.tail writing⟩
  · exact ⟨writeDone_large (.inr rfl) writing large.unchunked memory, congrArg List.tail writing⟩

/-- While something is left, the completion of a write asks for the next chunk. -/
theorem LargeWriting.asks {conn : HttpConnection} {start : Emission} {writes : ℕ}
    (large : LargeBody body (conn.emission response)) (word : body.length < 2 ^ 64)
    (phase : LargeWriting response body start writes (conn.emission response))
    (more : conn.write < body.length) (memory : Bytes) :
    conn.writeDone memory =
        (conn.written.prepare memory).getnBody response
          (min chunkSize (body.length - conn.written.write))
          (.handleLargeResponseBuffRead response) ∧
      conn.written.writing = [] := by
  rcases phase.writeDone_eq large memory with ⟨begun, empty⟩
  have popped : LargeBody body (conn.written.emission response) := { large with }
  exact ⟨begun.trans (handleWriteLargeResponse_more popped word more phase.unread memory), empty⟩

/-- The last write is completed. -/
theorem LargeWriting.finish {conn : HttpConnection} {start : Emission} {writes : ℕ}
    (large : LargeBody body (conn.emission response))
    (phase : LargeWriting response body start writes (conn.emission response))
    (finished : conn.write = body.length) (memory : Bytes) :
    LargeBody body ((conn.writeDone memory).emission response) ∧
      LargeDone body start (writes + 1) ((conn.writeDone memory).emission response) := by
  rcases phase.writeDone_eq large memory with ⟨begun, empty⟩
  have last : conn.written.write = conn.written.writeSize := finished.trans large.writeSize.symm
  have sent : conn.written.log.sent =
      start.sent ++ (start.responseBuf ++ body.take conn.write) := phase.sent
  rw [begun, handleWriteLargeResponse_end last]
  refine ⟨{ large with }, empty, phase.tasks, finished, ?_, ?_, ?_⟩
  · rw [finished, List.take_length] at sent
    exact sent
  · exact congrArg (· ++ [ErrorCode.success]) phase.completed
  · rw [phase.counted]
    exact congrArg (fun write => (write + (chunkSize - 1)) / chunkSize + 1) finished

/-- A write is completed, and more than one character is left. -/
theorem LargeWriting.next {conn : HttpConnection} {start : Emission} {writes : ℕ}
    (large : LargeBody body (conn.emission response)) (word : body.length < 2 ^ 64)
    (phase : LargeWriting response body start writes (conn.emission response))
    (more : conn.write < body.length) (several : conn.write + 1 ≠ body.length) (memory : Bytes) :
    LargeBody body ((conn.writeDone memory).emission response) ∧
      LargeReading response body start (writes + 1) ((conn.writeDone memory).emission response)
        (min chunkSize (body.length - conn.write)) := by
  rcases phase.asks large word more memory with ⟨begun, empty⟩
  have prepared : LargeBody body ((conn.written.prepare memory).emission response) :=
    { large with }
  have sent : conn.written.log.sent =
      start.sent ++ (start.responseBuf ++ body.take conn.write) := phase.sent
  have aligned : conn.write % chunkSize = 0 :=
    phase.aligned.resolve_left (Nat.ne_of_lt more)
  have bulk : 2 ≤ min chunkSize (body.length - conn.written.write) := by
    change 2 ≤ min chunkSize (body.length - conn.write)
    simp only [chunkSize]
    omega
  have size := length_chunk more
  rw [begun]
  rcases getnBody_bulk prepared bulk with ⟨after, still, unread⟩
  have unreadBefore : ((conn.written.prepare memory).emission response).body.buffer.unread =
      body.drop conn.write := phase.unread
  rw [unreadBefore] at after unread
  rw [after]
  refine ⟨{ still with }, empty, ?_, more, aligned, rfl, ?_, rfl, sent, ?_, phase.completed,
    congrArg (· + 1) phase.counted⟩
  · have none : ((conn.written.prepare memory).emission response).tasks = [] := phase.tasks
    rw [none, List.nil_append]
    exact congrArg (fun size => [Task.bufRead _ (.size size)]) size
  · refine (congrArg (List.take _) (ChunkedEncoding.store_zero _ _)).trans ?_
    exact List.take_left' size
  · exact unread.trans List.drop_drop

/-- The chunk that was read is written. -/
theorem LargeReading.runBufRead {conn : HttpConnection} {start : Emission} {writes count : ℕ}
    (large : LargeBody body (conn.emission response)) (word : body.length < 2 ^ 64)
    (phase : LargeReading response body start writes (conn.emission response) count)
    {handler : BufReadHandler} {result : Completion UInt8} {rest : List Task}
    (tasks : conn.tasks = .bufRead handler result :: rest) :
    LargeBody body ((runBufRead { conn with tasks := rest } handler result).emission response) ∧
      LargeWriting response body start writes
        ((runBufRead { conn with tasks := rest } handler result).emission response) ∧
      (runBufRead { conn with tasks := rest } handler result).write = conn.write + count ∧
      (runBufRead { conn with tasks := rest } handler result).socketOpen = conn.socketOpen := by
  have only := emission_runTask_sends tasks rfl phase.tasks
  obtain ⟨rfl, rfl⟩ : handler = .handleLargeResponseBuffRead response ∧ result = .size count := by
    simpa using (List.cons.inj only).1.symm
  have noOther : rest.filter Task.sends = [] := (List.cons.inj only).2.symm
  have more : conn.write < body.length := phase.more
  have countEq : count = min chunkSize (body.length - conn.write) := phase.countEq
  have positive : ¬count = 0 := by
    simp only [countEq, chunkSize]
    omega
  have wide : sizeT (conn.write + count) = conn.write + count := by
    have small : conn.write + count < 2 ^ 64 := by omega
    rw [← sizeT_of_lt small]
    congr 1
  have after : (HttpConnection.runBufRead { conn with tasks := rest }
      (.handleLargeResponseBuffRead response) (.size count)).emission response =
        { conn.emission response with
          write := conn.write + count
          responseBuf := conn.responseBuf ++ conn.putArea.take count
          putArea := conn.putArea.drop count
          writing := conn.writing ++ [.handleWriteLargeResponse response]
          tasks := [] } := by
    simp only [HttpConnection.runBufRead, completionSize, handleLargeResponseBuffRead,
      if_neg positive, wide]
    simp [emission, commit, asyncWrite, noOther]
  have aligned : conn.write % chunkSize = 0 := phase.aligned
  have counted : writes = (conn.write + (chunkSize - 1)) / chunkSize + 1 := phase.counted
  have writing : conn.writing = [] := phase.writing
  have emptied : conn.responseBuf = [] := phase.emptied
  have read : conn.putArea.take count = (body.drop conn.write).take count := phase.read
  have sent : conn.log.sent = start.sent ++ (start.responseBuf ++ body.take conn.write) :=
    phase.sent
  have sameOpen : (HttpConnection.runBufRead { conn with tasks := rest }
      (.handleLargeResponseBuffRead response) (.size count)).socketOpen = conn.socketOpen := by
    simp [HttpConnection.runBufRead, completionSize, handleLargeResponseBuffRead, positive, commit,
      asyncWrite]
  refine ⟨after ▸ { large with }, ?_, congrArg Emission.write after, sameOpen⟩
  rw [after]
  refine ⟨.inr ?_, rfl, ?_, ?_, ?_, phase.unread, phase.completed, ?_⟩
  · simp only [writing, List.nil_append]
  · simp only
    omega
  · simp only [chunkSize] at aligned countEq ⊢
    omega
  · simp only [emission, emptied, List.nil_append, read, sent]
    rw [List.take_add, List.append_assoc, List.append_assoc]
  · simp only [counted, chunkSize] at aligned countEq ⊢
    omega

/-- What a connection that sends a body of known length is known to be doing. -/
structure LargeSending (response : HttpResponse) (body : Bytes) (start : Emission) (writes : ℕ)
    (conn : HttpConnection) : Prop where
  quiet : conn.exchange.tasks = []
  large : LargeBody body (conn.emission response)
  phase : LargePhase response body start writes (conn.emission response)

/-- Another character to be read alone would be the first of the last chunk. -/
theorem LargeWriting.several {emission start : Emission} {writes : ℕ}
    (phase : LargeWriting response body start writes emission)
    (notSingle : body.length % chunkSize ≠ 1) : emission.write + 1 ≠ body.length := by
  have aligned := phase.aligned
  simp only [chunkSize] at aligned notSingle
  omega

theorem LargeSending.step {getReqHandler : Bytes → Option ℕ} {conn next : HttpConnection}
    {start : Emission} {writes : ℕ} (word : body.length < 2 ^ 64)
    (notSingle : body.length % chunkSize ≠ 1)
    (sending : LargeSending response body start writes conn) {event : Event}
    (step : (sendingSystem getReqHandler response).step conn event next) :
    LargeSending response body start (writes + event.writes.toNat) next := by
  have quiet := exchange_tasks_sending sending.quiet step
  rcases sending_cases sending.quiet step with
    ⟨memory, handler, rest, rfl, writing, -, -, rfl⟩ |
    ⟨handler, result, rest, rfl, tasks, rfl⟩ |
    ⟨op, rfl, produces, legal, rfl⟩ | ⟨noWrite, same⟩
  · rcases sending.phase with phase | ⟨count, phase⟩ | phase
    · by_cases finished : conn.write = body.length
      · rcases phase.finish sending.large finished memory with ⟨large, done⟩
        exact ⟨quiet, large, .done done⟩
      · have more : conn.write < body.length := lt_of_le_of_ne phase.written finished
        rcases phase.next sending.large word more (phase.several notSingle) memory with
          ⟨large, reading⟩
        exact ⟨quiet, large, .reading _ reading⟩
    · have none : conn.writing = [] := phase.writing
      simp [none] at writing
    · have none : conn.writing = [] := phase.writing
      simp [none] at writing
  · rcases sending.phase with phase | ⟨count, phase⟩ | phase
    · exact (List.cons_ne_nil _ _ (emission_runTask_sends tasks rfl phase.tasks).symm).elim
    · rcases phase.runBufRead sending.large word tasks with ⟨large, writing, -⟩
      exact ⟨quiet, large, .writing writing⟩
    · exact (List.cons_ne_nil _ _ (emission_runTask_sends tasks rfl phase.tasks).symm).elim
  · rcases sending.large.produces produces legal with ⟨completed, large, unread⟩
    have after : (conn.bodyOp response op).emission response =
        { conn.emission response with body := (conn.emission response).body.exec op } := by
      simp only [emission_bodyOp, completed, List.foldl_nil, List.map_nil, List.append_nil]
    refine ⟨quiet, after ▸ large, ?_⟩
    rw [after]
    rcases sending.phase with phase | ⟨count, phase⟩ | phase
    · exact .writing { phase with unread := unread.trans phase.unread }
    · exact .reading count { phase with unread := unread.trans phase.unread }
    · exact .done { phase with }
  · have silent : event.writes = false := by
      cases event with
      | writeDone memory => exact (noWrite memory rfl).elim
      | _ => rfl
    rw [silent]
    exact ⟨quiet, same ▸ sending.large, same ▸ sending.phase⟩

/-! ### Runs that get there -/

theorem runTask_other (conn : HttpConnection) {task : Task} (answers : task.answers = false)
    (sends : task.sends = false) :
    (conn.runTask task).tasks = conn.tasks ∧
      (conn.runTask task).socketOpen = conn.socketOpen := by
  have bufWrite (conn : HttpConnection) (handler : BufWriteHandler) (count : ℕ) :
      (conn.runBufWrite handler count).tasks = conn.tasks ∧
        (conn.runBufWrite handler count).socketOpen = conn.socketOpen := by
    cases handler with
    | handleBodyBuffWrite =>
        simp only [runBufWrite, handleBodyBuffWrite, asyncReadUntilBuffersize]
        split
        · split <;> exact ⟨rfl, rfl⟩
        · exact ⟨rfl, rfl⟩
    | handleChunkedBodyBuffWrite =>
        simp only [runBufWrite, handleChunkedBodyBuffWrite]
        split <;> exact ⟨rfl, rfl⟩
  cases task with
  | responseReady handler =>
      cases handler with
      | handleResponse badRequest => simp [Task.answers] at answers
      | user handler => exact ⟨rfl, rfl⟩
  | dataReady handler size =>
      cases handler with
      | handleRequestDataReady response => simp [Task.answers] at answers
      | user handler => exact ⟨rfl, rfl⟩
  | responseComplete handler err => exact ⟨rfl, rfl⟩
  | bufRead handler result => simp [Task.sends] at sends
  | putn source handler =>
      simp only [runTask]
      exact bufWrite _ _ _
  | bufWrite handler count => exact bufWrite _ _ _

/-- The worker gets to the task that sends. -/
theorem exists_run_to_task (getReqHandler : Bytes → Option ℕ) {conn : HttpConnection}
    (quiet : conn.exchange.tasks = []) {task : Task}
    (only : (conn.emission response).tasks = [task]) :
    ∃ labels next rest, (sendingSystem getReqHandler response).Run conn labels next ∧
      next.tasks = task :: rest ∧ next.exchange.tasks = [] ∧
      next.emission response = conn.emission response ∧
      next.socketOpen = conn.socketOpen := by
  induction tasks : conn.tasks generalizing conn with
  | nil => simp [emission, tasks] at only
  | cons oldest rest ih =>
      by_cases sends : oldest.sends = true
      · have same := (List.cons.inj (emission_runTask_sends tasks sends only)).1
        exact ⟨[], conn, rest, .nil conn, same ▸ tasks, quiet, rfl, rfl⟩
      · have answers : oldest.answers = false := by
          have none : conn.tasks.filter Task.answers = [] := quiet
          simpa using List.filter_eq_nil_iff.mp none oldest (by simp [tasks])
        have step : (sendingSystem getReqHandler response).step conn .runTask
            (runTask { conn with tasks := rest } oldest) :=
          ⟨trivial, by simp [Legal, tasks], by simp [exec, runNextTask, tasks]⟩
        have other : oldest.sends = false := by simpa using sends
        rcases runTask_other { conn with tasks := rest } answers other with ⟨left, socketOpen⟩
        have same : (runTask { conn with tasks := rest } oldest).emission response =
            conn.emission response := by
          rw [emission_runTask _ _ answers other]
          simp [emission, tasks, other]
        rcases ih (exchange_tasks_sending quiet step) (same ▸ only) left with
          ⟨labels, next, others, run, nextTasks, nextQuiet, nextSame, nextOpen⟩
        exact ⟨.runTask :: labels, next, others, .cons step run, nextTasks, nextQuiet,
          nextSame.trans same, nextOpen.trans socketOpen⟩

theorem LargeWriting.step (getReqHandler : Bytes → Option ℕ) {conn : HttpConnection}
    {start : Emission} {writes : ℕ}
    (phase : LargeWriting response body start writes (conn.emission response))
    (socketOpen : conn.socketOpen = true) :
    (sendingSystem getReqHandler response).step conn (.writeDone zeroed)
      (conn.writeDone zeroed) := by
  refine ⟨trivial, ⟨socketOpen, ?_⟩, rfl⟩
  rcases phase.writing with writing | writing
  · exact ⟨_, [], writing, preparedSize_le _ _⟩
  · exact ⟨_, [], writing, preparedSize_le _ _⟩

theorem getnBody_socketOpen_write (conn : HttpConnection) (count : ℕ)
    (handler : BufReadHandler) :
    (conn.getnBody response count handler).socketOpen = conn.socketOpen ∧
      (conn.getnBody response count handler).write = conn.write := by
  have all (completions : List (Completed UInt8 BufReadHandler)) (conn : HttpConnection) :
      (completions.foldl bufReadCompleted conn).socketOpen = conn.socketOpen ∧
        (completions.foldl bufReadCompleted conn).write = conn.write := by
    induction completions generalizing conn with
    | nil => exact ⟨rfl, rfl⟩
    | cons completed rest ih => exact ih _
  exact all _ _

theorem LargeWriting.writeDone_kept {conn : HttpConnection} {start : Emission} {writes : ℕ}
    (large : LargeBody body (conn.emission response)) (word : body.length < 2 ^ 64)
    (phase : LargeWriting response body start writes (conn.emission response))
    (more : conn.write < body.length) (memory : Bytes) :
    (conn.writeDone memory).socketOpen = conn.socketOpen ∧
      (conn.writeDone memory).write = conn.write := by
  rw [(phase.asks large word more memory).1]
  exact getnBody_socketOpen_write _ _ _

/-- The loop as it stands between two chunks. -/
structure BetweenChunks (response : HttpResponse) (body : Bytes) (start : Emission)
    (written : ℕ) (conn : HttpConnection) : Prop where
  quiet : conn.exchange.tasks = []
  large : LargeBody body (conn.emission response)
  phase : ∃ writes, LargeWriting response body start writes (conn.emission response)
  written : conn.write = written
  socketOpen : conn.socketOpen = true

/-- A full chunk goes out. -/
theorem BetweenChunks.chunk (getReqHandler : Bytes → Option ℕ) {conn : HttpConnection}
    {start : Emission} {written : ℕ} (between : BetweenChunks response body start written conn)
    (word : body.length < 2 ^ 64) (more : written + chunkSize ≤ body.length) :
    ∃ labels next, (sendingSystem getReqHandler response).Run conn labels next ∧
      BetweenChunks response body start (written + chunkSize) next := by
  rcases between with ⟨quiet, large, ⟨writes, phase⟩, rfl, socketOpen⟩
  have full : min chunkSize (body.length - conn.write) = chunkSize := by
    simp only [chunkSize] at more ⊢
    omega
  have left : conn.write < body.length := by
    simp only [chunkSize] at more
    omega
  have several : conn.write + 1 ≠ body.length := by
    simp only [chunkSize] at more
    omega
  have written := phase.step getReqHandler socketOpen
  rcases phase.next large word left several zeroed with ⟨afterLarge, reading⟩
  rw [full] at reading
  rcases phase.writeDone_kept large word left zeroed with ⟨stillOpen, sameWrite⟩
  rcases exists_run_to_task getReqHandler (exchange_tasks_sending quiet written) reading.tasks with
    ⟨labels, middle, rest, run, tasks, middleQuiet, same, middleOpen⟩
  rw [← same] at afterLarge reading
  rcases reading.runBufRead afterLarge word tasks with ⟨lastLarge, writing, write, lastOpen⟩
  have ran : (sendingSystem getReqHandler response).step middle .runTask
      (runBufRead { middle with tasks := rest } (.handleLargeResponseBuffRead response)
        (.size chunkSize)) :=
    ⟨trivial, by simp [Legal, tasks], by simp [exec, runNextTask, tasks, runTask]⟩
  refine ⟨_, _, .cons written (.snoc run ran), exchange_tasks_sending middleQuiet ran, lastLarge,
    ⟨_, writing⟩, ?_, ?_⟩
  · have middleWrite : middle.write = (conn.writeDone zeroed).write := congrArg Emission.write same
    rw [write, middleWrite, sameWrite]
  · rw [lastOpen, middleOpen, stillOpen, socketOpen]

end HttpConnection

end Snode.Http
