import Snode.Http.ChunkLines
import Snode.Http.Emission

/-!
# Sending a body in chunks

The loop of `handle_write_chunked_response` and
`handle_chunked_response_buff_read`, over a body that is being written
meanwhile.  The characters are read to one place of the prepared memory and the
delimiters put around another, and the end of the body is taken for an error
before a last chunk is emitted.
-/

namespace Snode.Http

open Streams ProducerConsumerBuffer ChunkedEncoding

/-- `Encodes text body`: the text is `(HEX CRLF data CRLF)* 0 CRLF CRLF` and the data of its
chunks make up the body. -/
inductive Encodes : Bytes → Bytes → Prop where
  | last : Encodes ([48] ++ crlf ++ crlf) []
  | chunk {line data text body : Bytes} (size : ChunkSize line data.length) (nonempty : data ≠ [])
      (rest : Encodes text body) :
      Encodes (line ++ crlf ++ (data ++ crlf ++ text)) (data ++ body)

/-- A chunk of the loop. -/
def delimited (payload : Bytes) : Bytes :=
  hexDigits payload.length ++ crlf ++ payload ++ crlf

/-- However many chunks there are, nothing is encoded without a last one. -/
theorem not_encodes_delimited {payloads : List Bytes} (nonempty : ∀ payload ∈ payloads, payload ≠ [])
    (body : Bytes) : ¬Encodes (payloads.flatMap delimited) body := by
  suffices none : ∀ text, Encodes text body → text ≠ payloads.flatMap delimited from
    fun encodes => none _ encodes rfl
  induction payloads generalizing body with
  | nil =>
      intro text encodes same
      rcases encodes with _ | ⟨size, -, -⟩
      · simp at same
      · simp [crlf] at same
  | cons payload rest ih =>
      have positive : payload.length ≠ 0 := by simpa using nonempty payload (by simp)
      have numeral := chunkSize_hexDigits positive
      intro text encodes same
      rw [List.flatMap_cons, delimited] at same
      rcases encodes with _ | @⟨line, data, text, body, size, dataNonempty, encodes⟩
      · have leading := (hexDigits_canonical positive).2
        rcases digits : hexDigits payload.length with _ | ⟨digit, others⟩
        · exact numeral.nonempty digits
        · simp only [digits, List.cons_append, List.nil_append, List.cons.injEq] at same
          simp [digits, same.1] at leading
      · have same' : line ++ cr :: (lf :: (data ++ crlf ++ text)) =
            hexDigits payload.length ++
              cr :: (lf :: (payload ++ crlf ++ rest.flatMap delimited)) := by
          simpa [crlf] using same
        obtain rfl := size.prefix_unique numeral hexDigit?_cr hexDigit?_cr same'
        have lengths := size.value_unique numeral
        have tails := List.append_cancel_left same'
        simp only [List.cons.injEq, true_and, List.append_assoc] at tails
        rcases List.append_inj tails lengths with ⟨-, after⟩
        exact ih (fun other present => nonempty other (by simp [present])) body text encodes
          (List.append_cancel_left after)

theorem ChunkedEncoding.length_store {data chars : Bytes} {index : ℕ}
    (within : index + chars.length ≤ data.length) :
    (store data index chars).length = data.length := by
  simp only [store, List.length_append, List.length_take, List.length_drop]
  omega

/-- The read the loop issues. -/
def chunkRequest (response : HttpResponse) : EvRequest BufReadHandler :=
  ⟨chunkSize, .advanceOnce, true, .handleChunkedResponseBuffRead response⟩

/-- The memory the loop prepares. -/
def chunkRoom : ℕ := chunkSize + additionalEncodingSpace

theorem chunkRead_completed {response : HttpResponse} {completed : Completed UInt8 BufReadHandler}
    (request : completed.request = chunkRequest response)
    (byComplete : completed = (completed.before.complete completed.request).1)
    (consistent : completed.before.Consistent) :
    completed.result = .size completed.copied.length ∧ completed.copied.length ≤ chunkSize := by
  have bulk : 2 ≤ chunkSize := by simp [chunkSize]
  have completedEq := complete_bulk completed.before bulk (.handleChunkedResponseBuffRead response)
  rw [request, chunkRequest, completedEq] at byComplete
  have copied : completed.copied = (completed.before.read chunkSize true).1 :=
    congrArg Completed.copied byComplete
  have result : completed.result = .size (completed.before.read chunkSize true).1.length :=
    congrArg Completed.result byComplete
  refine ⟨copied ▸ result, ?_⟩
  rw [copied, read_chars consistent]
  exact List.length_take_le ..

namespace HttpConnection

section

variable (response : HttpResponse) (start : Emission) (payloads : List Bytes)
  (emission : Emission)

/-- The head or a chunk is being written; `start` is what the loop started from. -/
structure ChunkWriting : Prop where
  writing : emission.writing = [.handleHeadersWritten response] ∨
    emission.writing = [.handleWriteChunkedResponse response]
  tasks : emission.tasks = []
  requests : emission.body.buffer.requests = []
  sent : emission.sent ++ emission.responseBuf =
    start.sent ++ (start.responseBuf ++ payloads.flatMap delimited)
  completed : emission.sendCompleted = start.sendCompleted

/-- A chunk has been asked for, and memory prepared for it. -/
structure ChunkAsked : Prop where
  writing : emission.writing = []
  emptied : emission.responseBuf = []
  room : chunkRoom ≤ emission.putArea.length
  sent : emission.sent = start.sent ++ (start.responseBuf ++ payloads.flatMap delimited)
  completed : emission.sendCompleted = start.sendCompleted

/-- The response has been given up. -/
structure ChunksCancelled : Prop where
  writing : emission.writing = []
  tasks : emission.tasks = []
  requests : emission.body.buffer.requests = []
  sent : emission.sent = start.sent ++ (start.responseBuf ++ payloads.flatMap delimited)
  completed : emission.sendCompleted = start.sendCompleted ++ [.ioError]

/-- Where the loop is. -/
inductive ChunkPhase : Prop where
  | writing (writing : ChunkWriting response start payloads emission)
  | waiting (asked : ChunkAsked start payloads emission) (tasks : emission.tasks = [])
      (requests : emission.body.buffer.requests = [chunkRequest response])
  | reading (count : ℕ) (asked : ChunkAsked start payloads emission)
      (tasks : emission.tasks =
        [.bufRead (.handleChunkedResponseBuffRead response) (.size count)])
      (requests : emission.body.buffer.requests = []) (short : count ≤ chunkSize)
  | cancelled (cancelled : ChunksCancelled start payloads emission)

end

/-- What a connection that sends a body in chunks is known to be doing. -/
structure ChunkSending (response : HttpResponse) (start : Emission) (conn : HttpConnection) :
    Prop where
  quiet : conn.exchange.tasks = []
  chunked : (conn.emission response).chunked = true
  invariant : (conn.emission response).body.buffer.Invariant
  phase : ∃ payloads, (∀ payload ∈ payloads, payload ≠ []) ∧
    ChunkPhase response start payloads (conn.emission response)

variable {response : HttpResponse} {start : Emission} {payloads : List Bytes}
  {conn : HttpConnection}

theorem ChunkAsked.completed_read {emission : Emission} (asked : ChunkAsked start payloads emission)
    {completed : Completed UInt8 BufReadHandler}
    (request : completed.request = chunkRequest response)
    (byComplete : completed = (completed.before.complete completed.request).1)
    (consistent : completed.before.Consistent) :
    bufReadTask completed =
        .bufRead (.handleChunkedResponseBuffRead response) (.size completed.copied.length) ∧
      completed.copied.length ≤ chunkSize ∧
      ChunkAsked start payloads
        { emission with putArea := storeCompleted emission.putArea completed } := by
  rcases chunkRead_completed request byComplete consistent with ⟨result, short⟩
  have room := asked.room
  refine ⟨by rw [bufReadTask, result, request]; rfl, short, { asked with room := ?_ }⟩
  simp only [storeCompleted, request, chunkRequest, readOffset]
  rw [ChunkedEncoding.length_store]
  · exact room
  · simp only [chunkRoom] at room
    omega

/-- A write is completed, and the next chunk asked for. -/
theorem ChunkWriting.writeDone
    (phase : ChunkWriting response start payloads (conn.emission response))
    (chunked : (conn.emission response).chunked = true)
    (invariant : (conn.emission response).body.buffer.Invariant)
    {memory : Bytes} (prepared : chunkRoom ≤ memory.length) :
    ((conn.writeDone memory).emission response).chunked = true ∧
      ((conn.writeDone memory).emission response).body.buffer.Invariant ∧
      ChunkPhase response start payloads ((conn.writeDone memory).emission response) := by
  have sent : conn.written.log.sent =
      start.sent ++ (start.responseBuf ++ payloads.flatMap delimited) := phase.sent
  have begun : conn.writeDone memory =
      conn.written.handleWriteChunkedResponse response .success memory ∧
      conn.written.writing = [] := by
    have isChunked : conn.chunked = true := chunked
    rcases phase.writing with writing | writing
    · have head : conn.writing = [.handleHeadersWritten response] := writing
      simp only [HttpConnection.writeDone, head, runWriteHandler, handleHeadersWritten, ne_eq,
        not_true_eq_false, if_false, isChunked, if_true, written, List.tail_cons, and_self]
    · have chunk : conn.writing = [.handleWriteChunkedResponse response] := writing
      simp only [HttpConnection.writeDone, chunk, runWriteHandler, written, List.tail_cons,
        and_self]
  rcases begun with ⟨begun, empty⟩
  have noError : ¬ErrorCode.success ≠ .success := by simp
  by_cases met : (conn.written.responses response).body.buffer.isEof = true
  · rw [begun, handleWriteChunkedResponse, if_neg noError, if_pos met,
      emission_cancelSendingResponseWithError]
    exact ⟨chunked, invariant, .cancelled ⟨empty, phase.tasks, phase.requests, sent,
      congrArg (· ++ [ErrorCode.ioError]) phase.completed⟩⟩
  · have asked : ChunkAsked start payloads ((conn.written.prepare memory).emission response) :=
      ⟨empty, rfl, prepared, sent, phase.completed⟩
    have nonzero : chunkSize ≠ 0 := by simp [chunkSize]
    have effect : Effect (conn.emission response).body.buffer
        ((Op.getn chunkSize (BufReadHandler.handleChunkedResponseBuffRead response)).exec _) :=
      Op.exec_effect invariant trivial
    rw [begun, handleWriteChunkedResponse, if_neg noError, if_neg met, emission_getnBody]
    refine ⟨chunked, effect.invariant, ?_⟩
    have idle : ((conn.written.prepare memory).emission response).body.buffer.requests = [] :=
      phase.requests
    have noTasks : ((conn.written.prepare memory).emission response).tasks = [] := phase.tasks
    rcases getn_cases ((conn.written.prepare memory).emission response).body.buffer nonzero
      (.handleChunkedResponseBuffRead response) with
      ⟨refused, served, next⟩ | ⟨refused, served, next⟩ | ⟨refused, served, next⟩
    · simp only [refused, served, noTasks, List.foldl_nil, List.map_nil, List.map_cons,
        List.nil_append]
      refine .reading 0 { asked with } rfl ?_ (Nat.zero_le _)
      simp only [Session.exec, next, idle]
    · simp only [refused, served, noTasks, List.foldl_nil, List.foldl_cons, List.map_nil,
        List.map_cons, List.nil_append, List.append_nil]
      rcases complete_request ((conn.written.prepare memory).emission response).body.buffer
        (chunkRequest response) with ⟨request, before⟩
      rcases asked.completed_read request (by rw [request, before]) (before ▸ invariant.consistent)
        with ⟨task, short, readAsked⟩
      refine .reading _ { readAsked with } (congrArg (fun task => [task]) task) ?_ short
      simp only [Session.exec, next, complete_bulk _ (by simp [chunkSize] : 2 ≤ chunkSize),
        read_requests, idle]
    · simp only [refused, served, noTasks, List.foldl_nil, List.map_nil, List.append_nil]
      refine .waiting { asked with } rfl ?_
      simp only [Session.exec, next, idle]
      rfl

/-- What was read is written, or the end is taken for an error. -/
theorem ChunkAsked.runBufRead (asked : ChunkAsked start payloads (conn.emission response))
    (requests : (conn.emission response).body.buffer.requests = []) {count : ℕ}
    (short : count ≤ chunkSize) {rest : List Task} (others : rest.filter Task.sends = []) :
    let next := HttpConnection.runBufRead { conn with tasks := rest }
      (.handleChunkedResponseBuffRead response) (.size count)
    (next.emission response).chunked = (conn.emission response).chunked ∧
      (next.emission response).body = (conn.emission response).body ∧
      (ChunksCancelled start payloads (next.emission response) ∨
        ∃ payload, payload ≠ [] ∧
          ChunkWriting response start (payloads ++ [payload]) (next.emission response)) := by
  intro next
  have nextEq : next = { conn with tasks := rest }.handleChunkedResponseBuffRead count response :=
    rfl
  by_cases zero : count = 0
  · rw [nextEq, handleChunkedResponseBuffRead, if_pos zero,
      emission_cancelSendingResponseWithError]
    exact ⟨rfl, rfl, .inl ⟨asked.writing, others, requests, asked.sent,
      congrArg (· ++ [ErrorCode.ioError]) asked.completed⟩⟩
  · have room : chunkRoom ≤ conn.putArea.length := asked.room
    have fits : count + additionalEncodingSpace ≤ chunkRoom := Nat.add_le_add_right short _
    have digits : count < 16 ^ 8 := lt_of_le_of_lt short (by simp [chunkSize])
    rcases addChunkedDelimiters_pos zero digits fits room with
      ⟨offset, after, added, -, length, slice⟩
    have payloadLength : ((conn.putArea.drop dataOffset).take count).length = count := by
      simp only [List.length_take, List.length_drop, dataOffset, chunkRoom,
        additionalEncodingSpace] at room fits ⊢
      omega
    have nextIs : next =
        ((({ conn with tasks := rest, putArea := after }).commit
          (count + additionalEncodingSpace)).consumeResponse offset).asyncWrite
          (.handleWriteChunkedResponse response) := by
      rw [nextEq, handleChunkedResponseBuffRead, if_neg zero]
      simp only [chunkRoom] at added
      simp only [added, if_neg zero]
    have emptied : conn.responseBuf = [] := asked.emptied
    have buffered : next.responseBuf = delimited ((conn.putArea.drop dataOffset).take count) := by
      simp only [nextIs, asyncWrite, consumeResponse, commit, emptied, List.nil_append,
        List.drop_take]
      rw [slice, delimited, payloadLength]
    have writing : conn.writing = [] := asked.writing
    refine ⟨by rw [nextIs]; rfl, by rw [nextIs]; rfl,
      .inr ⟨(conn.putArea.drop dataOffset).take count, ?_, .inr ?_, ?_, ?_, ?_, ?_⟩⟩
    · exact fun none => zero (payloadLength.symm.trans (congrArg List.length none))
    · rw [nextIs]
      exact congrArg (· ++ [WriteHandler.handleWriteChunkedResponse response]) writing
    · rw [nextIs]
      exact others
    · rw [nextIs]
      exact requests
    · have sent : next.log.sent = start.sent ++ (start.responseBuf ++ payloads.flatMap delimited) :=
        by rw [nextIs]; exact asked.sent
      change next.log.sent ++ next.responseBuf = _
      simp only [sent, buffered, List.flatMap_append, List.flatMap_cons, List.flatMap_nil,
        List.append_nil, List.append_assoc]
    · rw [nextIs]
      exact asked.completed

/-- The application writes to the body, or closes it. -/
theorem ChunkPhase.produces {emission : Emission}
    (phase : ChunkPhase response start payloads emission) (invariant : emission.body.buffer.Invariant)
    {op : Op UInt8 BufReadHandler} (produces : op.Produces) (legal : op.Legal emission.body.buffer) :
    let completed := (op.exec emission.body.buffer).completed
    ChunkPhase response start payloads
      { emission with
        body := emission.body.exec op
        putArea := completed.foldl storeCompleted emission.putArea
        tasks := emission.tasks ++ completed.map bufReadTask } := by
  intro completed
  have serves := produces.serves emission.body.buffer
  have idle (requests : emission.body.buffer.requests = []) :
      completed = [] ∧ (emission.body.exec op).buffer.requests = [] := produces.idle requests
  rcases phase with phase | ⟨asked, tasks, requests⟩ | ⟨count, asked, tasks, requests, short⟩ | phase
  · rcases idle phase.requests with ⟨none, requests⟩
    simp only [none, List.foldl_nil, List.map_nil, List.append_nil]
    exact .writing { phase with requests := requests }
  · have inOrder := serves.inOrder
    rw [requests] at inOrder
    rcases served : completed with _ | ⟨first, others⟩
    · have waiting : (op.exec emission.body.buffer).next.requests = [chunkRequest response] := by
        have none : (op.exec emission.body.buffer).completed = [] := served
        simpa [none] using inOrder.symm
      simp only [List.foldl_nil, List.map_nil, List.append_nil]
      exact .waiting { asked with } tasks waiting
    · have isServed : (op.exec emission.body.buffer).completed = first :: others := served
      rw [isServed, List.map_cons, List.cons_append, List.cons.injEq] at inOrder
      rcases inOrder with ⟨request, none⟩
      rcases List.nil_eq_append_iff.mp none with ⟨noOthers, requests⟩
      obtain rfl : others = [] := List.map_eq_nil_iff.mp noOthers
      have present : first ∈ (op.exec emission.body.buffer).completed := by simp [isServed]
      rcases asked.completed_read request.symm (serves.byComplete first present)
        ((Op.exec_effect invariant legal).served first present).consistent with
        ⟨task, short, readAsked⟩
      simp only [List.foldl_cons, List.foldl_nil, List.map_cons, List.map_nil, tasks,
        List.nil_append]
      exact .reading _ { readAsked with } (congrArg (fun task => [task]) task) requests short
  · rcases idle requests with ⟨none, requests⟩
    simp only [none, List.foldl_nil, List.map_nil, List.append_nil]
    exact .reading count { asked with } tasks requests short
  · rcases idle phase.requests with ⟨none, requests⟩
    simp only [none, List.foldl_nil, List.map_nil, List.append_nil]
    exact .cancelled { phase with requests := requests }

theorem ChunkSending.step {getReqHandler : Bytes → Option ℕ} {next : HttpConnection}
    (sending : ChunkSending response start conn) {event : Event}
    (step : (sendingSystem getReqHandler response).step conn event next) :
    ChunkSending response start next := by
  have quiet := exchange_tasks_sending sending.quiet step
  rcases sending with ⟨quietBefore, chunked, invariant, payloads, nonempty, phase⟩
  rcases sending_cases quietBefore step with
    ⟨memory, handler, rest, rfl, writing, prepared, -, rfl⟩ |
    ⟨handler, result, rest, rfl, tasks, rfl⟩ |
    ⟨op, rfl, produces, legal, rfl⟩ | ⟨-, same⟩
  · have isWriting : (conn.emission response).writing = handler :: rest := writing
    rcases phase with phase | ⟨asked, -, -⟩ | ⟨count, asked, -, -, -⟩ | phase
    · have room : conn.preparedSize handler = chunkRoom := by
        have isChunked : conn.chunked = true := chunked
        rcases phase.writing with head | chunk
        · obtain ⟨rfl, -⟩ := List.cons.inj (isWriting.symm.trans head)
          simp only [preparedSize, isChunked, if_true, chunkRoom]
        · obtain ⟨rfl, -⟩ := List.cons.inj (isWriting.symm.trans chunk)
          rfl
      rcases phase.writeDone chunked invariant (room ▸ prepared) with ⟨chunked, invariant, phase⟩
      exact ⟨quiet, chunked, invariant, payloads, nonempty, phase⟩
    · simp [asked.writing] at isWriting
    · simp [asked.writing] at isWriting
    · simp [phase.writing] at isWriting
  · rcases phase with phase | ⟨-, none, -⟩ | ⟨count, asked, only, requests, short⟩ | phase
    · exact (List.cons_ne_nil _ _ (emission_runTask_sends tasks rfl phase.tasks).symm).elim
    · exact (List.cons_ne_nil _ _ (emission_runTask_sends tasks rfl none).symm).elim
    · have oldest := emission_runTask_sends tasks rfl only
      obtain ⟨rfl, rfl⟩ : handler = .handleChunkedResponseBuffRead response ∧
          result = .size count := by
        simpa using (List.cons.inj oldest).1.symm
      rcases asked.runBufRead requests short (List.cons.inj oldest).2.symm with
        ⟨stillChunked, sameBody, cancelled | ⟨payload, some, writing⟩⟩
      · exact ⟨quiet, stillChunked.trans chunked, sameBody ▸ invariant, payloads, nonempty,
          .cancelled cancelled⟩
      · refine ⟨quiet, stillChunked.trans chunked, sameBody ▸ invariant, payloads ++ [payload], ?_,
          .writing writing⟩
        simp only [List.mem_append, List.mem_singleton]
        rintro other (earlier | rfl)
        · exact nonempty other earlier
        · exact some
    · exact (List.cons_ne_nil _ _ (emission_runTask_sends tasks rfl phase.tasks).symm).elim
  · have after := emission_bodyOp conn response op
    refine ⟨quiet, ?_, ?_, payloads, nonempty, ?_⟩
    · exact (congrArg Emission.chunked after).trans chunked
    · exact (congrArg (·.body.buffer) after) ▸ (Op.exec_effect invariant legal).invariant
    · exact after ▸ phase.produces invariant produces legal
  · exact ⟨quiet, same ▸ chunked, same ▸ invariant, payloads, nonempty, same ▸ phase⟩

/-- A connection about to send a response in chunks.  Its body may be in the stream already, or
be written while it is sent. -/
structure SendsChunked (conn : HttpConnection) (response : HttpResponse) : Prop where
  writing : conn.writing = []
  tasks : ∀ task ∈ conn.tasks, task.answers = false ∧ task.sends = false
  chunked : (conn.asyncProcessResponse response).chunked = true
  stream : ∃ allocSize, (Session.system UInt8 BufReadHandler).Reachable (.new allocSize)
    (conn.responses response).body
  requests : (conn.responses response).body.buffer.requests = []

/-- The bytes sent after the head encode the body. -/
def EncodedBody (body : Bytes) (start next : HttpConnection) : Prop :=
  ∃ text, next.log.sent = start.log.sent ++ (start.responseBuf ++ text) ∧ Encodes text body

/-- What sending a body in chunks is to come to. -/
structure ChunkedEmitted (body : Bytes) (start next : HttpConnection) : Prop where
  encoded : EncodedBody body start next
  completed : next.log.sendCompleted = start.log.sendCompleted ++ [.success]

theorem SendsChunked.started (sends : SendsChunked conn response) :
    let start := conn.asyncProcessResponse response
    ChunkSending response (start.emission response) start := by
  intro start
  rcases sends.stream with ⟨allocSize, reachable⟩
  rcases atEnd_reachable wideTraits_uint8 reachable with ⟨invariant, -⟩
  have sameBody : (start.emission response).body = (conn.responses response).body :=
    emission_asyncProcessResponse_body conn response
  rcases filter_tasks_eq_nil sends.tasks with ⟨answersNone, sendsNone⟩
  refine ⟨answersNone, sends.chunked, sameBody ▸ invariant, [], by simp,
    .writing ⟨.inl ?_, sendsNone, sameBody ▸ sends.requests, ?_, rfl⟩⟩
  · exact congrArg (· ++ [WriteHandler.handleHeadersWritten response]) sends.writing
  · exact congrArg (_ ++ ·) (List.append_nil _).symm

/-- Whatever the body and however it is written, once all has run the response has been given up
with an error, and what was sent encodes nothing. -/
theorem chunkedEmitted_never {getReqHandler : Bytes → Option ℕ} {labels : List Event}
    {next : HttpConnection} (sends : SendsChunked conn response)
    (run : (sendingSystem getReqHandler response).Run (conn.asyncProcessResponse response)
      labels next)
    (closed : (next.responses response).body.buffer.canWrite = false)
    (written : next.writing = []) (allRun : next.tasks = []) (body : Bytes) :
    let start := conn.asyncProcessResponse response
    ¬ChunkedEmitted body start next ∧ ¬EncodedBody body start next ∧
      next.log.sendCompleted = start.log.sendCompleted ++ [.ioError] := by
  intro start
  have sending : ChunkSending response (start.emission response) next :=
    run.invariant (ChunkSending response (start.emission response)) sends.started
      fun _ _ _ sending step => sending.step step
  rcases sending with ⟨-, -, invariant, payloads, nonempty, phase⟩
  have noTasks : (next.emission response).tasks = [] := by simp [emission, allRun]
  have cancelled : ChunksCancelled (start.emission response) payloads (next.emission response) := by
    rcases phase with phase | ⟨-, -, requests⟩ | ⟨count, -, tasks, -, -⟩ | phase
    · rcases phase.writing with writing | writing
      all_goals simp [emission, written] at writing
    · simp [requests_eq_nil_of_closed invariant.blocked closed] at requests
    · simp [noTasks] at tasks
    · exact phase
  have sent : next.log.sent =
      start.log.sent ++ (start.responseBuf ++ payloads.flatMap delimited) := cancelled.sent
  have completed : next.log.sendCompleted = start.log.sendCompleted ++ [.ioError] :=
    cancelled.completed
  refine ⟨?_, ?_, completed⟩
  · rintro ⟨-, success⟩
    simp [completed] at success
  · rintro ⟨text, textSent, encodes⟩
    rw [sent, List.append_cancel_left_eq, List.append_cancel_left_eq] at textSent
    exact not_encodes_delimited nonempty body (textSent ▸ encodes)

/-- A connection with a response that has a body and no length. -/
def chunkedReply (body : Bytes) : HttpConnection :=
  HttpConnection.new.updateResponse 0 fun impl =>
    { impl with
      hasInstream := true
      body := ((Session.new 16).exec (.write body)).exec (.close false true) }

theorem sendsChunked_hi : SendsChunked (chunkedReply (ascii "hi")) 0 :=
  ⟨rfl, nofun, by decide +kernel,
    ⟨16, Session.reachable_exec (Session.reachable_exec (.refl _) trivial) trivial⟩, rfl⟩

/-- The head, the chunk, and the end of the body. -/
def hiEvents : List Event :=
  [.writeDone zeroed, .runTask, .writeDone zeroed, .runTask]

def hiSent : HttpConnection :=
  ((chunkedReply (ascii "hi")).asyncProcessResponse 0).run (fun _ => none) hiEvents

theorem hiEvents_run :
    (sendingSystem (fun _ => none) 0).Run ((chunkedReply (ascii "hi")).asyncProcessResponse 0)
      hiEvents hiSent := by
  have legal : LegalRun (fun _ => none) ((chunkedReply (ascii "hi")).asyncProcessResponse 0)
      hiEvents := by
    refine ⟨⟨by decide +kernel, .handleHeadersWritten 0, [], by decide +kernel,
      preparedSize_le _ _⟩, ?_, ⟨by decide +kernel, .handleWriteChunkedResponse 0, [],
      by decide +kernel, preparedSize_le _ _⟩, ?_, trivial⟩
    all_goals
      change HttpConnection.tasks _ ≠ []
      decide +kernel
  exact legal.run.restrict (by simp [hiEvents, Sends])

theorem chunkedEmitted_never_hi :
    let start := (chunkedReply (ascii "hi")).asyncProcessResponse 0
    ¬ChunkedEmitted (ascii "hi") start hiSent ∧ ¬EncodedBody (ascii "hi") start hiSent ∧
      hiSent.log.sendCompleted = start.log.sendCompleted ++ [.ioError] :=
  chunkedEmitted_never sendsChunked_hi hiEvents_run (by decide +kernel) (by decide +kernel)
    (by decide +kernel) (ascii "hi")

/-- The body "hi" was put in its stream and all has run: the chunk that was sent is two bytes of
the memory that was prepared, and the response has ended in an error. -/
theorem not_chunkedEmitted_hi :
    let start := (chunkedReply (ascii "hi")).asyncProcessResponse 0
    SendsChunked (chunkedReply (ascii "hi")) 0 ∧
      (sendingSystem (fun _ => none) 0).Run start hiEvents hiSent ∧
      ((hiSent.responses 0).body.stored = ascii "hi" ∧
        (hiSent.responses 0).body.buffer.canWrite = false) ∧
      (hiSent.writing = [] ∧ hiSent.tasks = []) ∧
      hiSent.log.sent = start.responseBuf ++ (ascii "2" ++ crlf ++ [0, 0] ++ crlf) ∧
      ¬ChunkedEmitted (ascii "hi") start hiSent := by
  intro start
  refine ⟨sendsChunked_hi, hiEvents_run, by decide +kernel, by decide +kernel, by decide +kernel,
    fun emitted => ?_⟩
  have completed : hiSent.log.sendCompleted = [.success] := emitted.completed
  revert completed
  decide +kernel

end HttpConnection

end Snode.Http
