import Snode.Http.RequestRuns

/-!
# Reception of a body of known length

The loop of `handle_body` and `handle_body_buff_write`.  What follows the head
of the request is the concatenation of what was buffered with the head and what
the socket delivers; at every moment the bytes of it that were counted in
`read_` are those appended to the body, and `request_buf_` holds the others.
-/

namespace Snode.Http

open Streams

/-- Where the loop stands, and how many more events on the socket it can see at most before
`read_` grows. -/
inductive BodyPhase (size : ℕ) (before : List ℕ) (labels : List Event) (state : Reception) :
    ℕ → Prop where
  | reading (count : ℕ) (reading : state.reading = [⟨.atLeast count, .handleBody⟩])
      (tasks : state.tasks = []) (completed : state.completed = before)
      (small : count ≤ chunkSize)
      (enough : min chunkSize (size - state.read) ≤ state.requestBuf.length + count)
      (sides : state.stream.buffer.sides = (true, true)) :
      BodyPhase size before labels state (count + 1)
  | writing (reading : state.reading = [])
      (tasks : state.tasks =
        [.putn (state.requestBuf.take (min state.requestBuf.length (size - state.read)))
          .handleBodyBuffWrite])
      (completed : state.completed = before) (more : state.read < size)
      (nonempty : state.requestBuf ≠ [])
      (sides : state.stream.buffer.sides = (true, true)) :
      BodyPhase size before labels state 0
  | complete (reading : state.reading = []) (tasks : state.tasks = [])
      (completed : state.completed = before ++ [size]) (all : state.read = size) :
      BodyPhase size before labels state 0
  | failed (ec : ErrorCode) (reading : state.reading = []) (tasks : state.tasks = [])
      (completed : state.completed = before ++ [0]) (error : .readError ec ∈ labels) :
      BodyPhase size before labels state 0

/-- The invariant of the loop: `rest` is what was buffered with the head. -/
structure BodyReceiving (size : ℕ) (rest : Bytes) (before : List ℕ) (labels : List Event)
    (state : Reception) : Prop where
  readSize_eq : state.readSize = size
  read_le : state.read ≤ size
  stored_eq : state.stream.stored = (rest ++ received labels).take state.read
  stored_length : state.stream.stored.length = state.read
  requestBuf_eq : state.requestBuf = (rest ++ received labels).drop state.read
  invariant : state.stream.buffer.Invariant
  errors : ∀ ec, .readError ec ∈ labels → state.completed = before ++ [0]
  phase : ∃ weight, BodyPhase size before labels state weight ∧
    labels.countP Event.readsSocket + (size - state.read) * (chunkSize + 2) + weight ≤
      size * (chunkSize + 2) + (chunkSize + 1)

namespace HttpConnection

theorem reception_handleBodyBuffWrite (conn : HttpConnection) {count : ℕ}
    (positive : count ≠ 0) :
    (conn.handleBodyBuffWrite count).reception =
      { conn.reception with
        read := sizeT (conn.read + count)
        requestBuf := conn.requestBuf.drop count
        reading := conn.reading ++
          [⟨.atLeast (min chunkSize (sizeT (conn.readSize - sizeT (conn.read + count))) -
            (conn.requestBuf.drop count).length), .handleBody⟩] } := by
  simp only [handleBodyBuffWrite, if_pos positive, reception_asyncReadUntilBuffersize]
  rfl

end HttpConnection

namespace BodyPhase

variable {size : ℕ} {before : List ℕ} {labels : List Event} {state : Reception} {weight : ℕ}

theorem later (phase : BodyPhase size before labels state weight) (event : Event) :
    BodyPhase size before (labels ++ [event]) state weight := by
  cases phase with
  | reading count reading tasks completed small enough sides =>
      exact .reading count reading tasks completed small enough sides
  | writing reading tasks completed more nonempty sides =>
      exact .writing reading tasks completed more nonempty sides
  | complete reading tasks completed all => exact .complete reading tasks completed all
  | failed ec reading tasks completed error =>
      exact .failed ec reading tasks completed (List.mem_append_left _ error)

/-- A read is under way only at the top of the loop. -/
theorem of_reading (phase : BodyPhase size before labels state weight) {read : SocketRead}
    {others : List SocketRead} (reading : state.reading = read :: others) :
    ∃ count, weight = count + 1 ∧ read = ⟨.atLeast count, .handleBody⟩ ∧ others = [] ∧
      state.tasks = [] ∧ state.completed = before ∧ count ≤ chunkSize ∧
      min chunkSize (size - state.read) ≤ state.requestBuf.length + count ∧
      state.stream.buffer.sides = (true, true) := by
  cases phase with
  | reading count reading' tasks completed small enough sides =>
      rw [reading', List.cons.injEq] at reading
      exact ⟨count, rfl, reading.1.symm, reading.2.symm, tasks, completed, small, enough, sides⟩
  | writing reading' | complete reading' | failed _ reading' => simp [reading'] at reading

/-- A task is pending only between a read and the next. -/
theorem of_task (phase : BodyPhase size before labels state weight) {task : Task}
    {others : List Task} (tasks : state.tasks = task :: others) :
    task = .putn (state.requestBuf.take (min state.requestBuf.length (size - state.read)))
        .handleBodyBuffWrite ∧
      others = [] ∧ state.reading = [] ∧ state.completed = before ∧ state.read < size ∧
      state.requestBuf ≠ [] ∧ state.stream.buffer.sides = (true, true) ∧ weight = 0 := by
  cases phase with
  | writing reading tasks' completed more nonempty sides =>
      rw [tasks', List.cons.injEq] at tasks
      exact ⟨tasks.1.symm, tasks.2.symm, reading, completed, more, nonempty, sides, rfl⟩
  | reading _ _ tasks' | complete _ tasks' | failed _ _ tasks' => simp [tasks'] at tasks

end BodyPhase

namespace BodyReceiving

open HttpConnection

variable {size : ℕ} {rest : Bytes} {before : List ℕ} {labels : List Event} {state : Reception}

theorem later (receiving : BodyReceiving size rest before labels state) (event : Event)
    (silent : event.received = []) (elsewhere : event.readsSocket = false) :
    BodyReceiving size rest before (labels ++ [event]) state := by
  rcases receiving with ⟨readSize, readLe, stored, storedLength, requestBuf, invariant, errors,
    weight, phase, bound⟩
  refine ⟨readSize, readLe, ?_, storedLength, ?_, invariant, ?_, weight, phase.later event, ?_⟩
  · simpa [silent] using stored
  · simpa [silent] using requestBuf
  · intro ec error
    refine errors ec (mem_of_mem_snoc error ?_)
    rintro rfl
    simp [Event.readsSocket] at elsewhere
  · rw [countP_snoc, elsewhere]
    exact bound

theorem receive (receiving : BodyReceiving size rest before labels state) {piece : Bytes}
    {read : SocketRead} {others : List SocketRead} (nonempty : piece ≠ [])
    (reading : state.reading = read :: others)
    (unmet : read.condition.met state.requestBuf = false) :
    BodyReceiving size rest before (labels ++ [.receive piece])
      { state with
        requestBuf := state.requestBuf ++ piece
        reading :=
          { read with
            condition := read.condition.advance state.requestBuf piece.length } :: others } := by
  rcases receiving with ⟨readSize, readLe, stored, storedLength, requestBuf, invariant, errors,
    weight, phase, bound⟩
  rcases phase.of_reading reading with ⟨count, rfl, rfl, rfl, tasks, completed, small, enough,
    sides⟩
  have positive : 0 < piece.length := List.length_pos_of_ne_nil nonempty
  have waiting : count ≠ 0 := by simpa [ReadCondition.met] using unmet
  have covered : state.read ≤ (rest ++ received labels).length := by
    have taken := congrArg List.length stored
    rw [storedLength, List.length_take] at taken
    omega
  refine ⟨readSize, readLe, ?_, storedLength, ?_, invariant,
    fun ec error => errors ec (mem_of_mem_snoc error (by simp)), count - piece.length + 1, ?_, ?_⟩
  · rw [received_snoc, ← List.append_assoc, List.take_append_of_le_length covered]
    exact stored
  · rw [received_snoc, ← List.append_assoc, List.drop_append_of_le_length covered, ← requestBuf]
    rfl
  · refine .reading (count - piece.length) rfl tasks completed (by omega) ?_ sides
    simp only [List.length_append]
    omega
  · rw [countP_snoc]
    simp only [Event.readsSocket, Bool.toNat_true]
    omega

/-- `handle_body` after a read: what was received is passed on, or everything has been. -/
theorem handleBody {conn : HttpConnection} {value : Int} (word : size < 2 ^ 64)
    (idle : conn.reading = [])
    (receiving : BodyReceiving size rest before labels
      { conn.reception with reading := [⟨.atLeast 0, .handleBody⟩] }) :
    BodyReceiving size rest before (labels ++ [.readDone value])
      (conn.handleBody .success).reception := by
  rcases receiving with ⟨readSize, readLe, stored, storedLength, requestBuf, invariant, errors,
    weight, phase, bound⟩
  rcases phase.of_reading rfl with ⟨count, rfl, readEq, -, tasks, completed, small, enough, sides⟩
  obtain rfl : count = 0 := by simpa using readEq.symm
  change conn.readSize = size at readSize
  change conn.read ≤ size at readLe
  have left : sizeT (conn.readSize - conn.read) = size - conn.read := by
    rw [readSize, ← Int.ofNat_sub readLe, sizeT_of_lt (by omega)]
  have counted : (labels ++ [Event.readDone value]).countP Event.readsSocket =
      labels.countP Event.readsSocket + 1 := countP_snoc _ _
  have nothing : received (labels ++ [Event.readDone value]) = received labels := by
    simp [Event.received]
  have once : labels.countP Event.readsSocket + 1 + (size - conn.read) * (chunkSize + 2) + 0 ≤
      size * (chunkSize + 2) + (chunkSize + 1) := by
    change labels.countP Event.readsSocket + (size - conn.read) * (chunkSize + 2) + (0 + 1) ≤
      size * (chunkSize + 2) + (chunkSize + 1) at bound
    omega
  simp only [HttpConnection.handleBody, ne_eq, not_true_eq_false, if_false]
  by_cases more : conn.read < conn.readSize
  · have buffered : conn.requestBuf ≠ [] := by
      intro empty
      simp only [reception, empty, List.length_nil, chunkSize] at enough
      omega
    have positive : min conn.requestBuf.length (size - conn.read) ≠ 0 := by
      have := List.length_pos_of_ne_nil buffered
      omega
    rw [if_pos more, left, reception_putn _ _ positive (Nat.min_le_left _ _)
      (congrArg Prod.snd sides)]
    refine ⟨readSize, readLe, nothing ▸ stored, storedLength, nothing ▸ requestBuf, invariant,
      fun ec error => errors ec (mem_of_mem_snoc error (by simp)), 0, ?_, counted ▸ once⟩
    refine .writing idle ?_ completed (readSize ▸ more) buffered sides
    change conn.tasks.filter Task.receives = [] at tasks
    simp [reception, tasks]
  · have all : conn.read = size := by omega
    rw [if_neg more, reception_complete]
    refine ⟨readSize, readLe, ?_, ?_, nothing ▸ requestBuf, ?_, ?_, 0, ?_, counted ▸ once⟩
    · rw [nothing, Session.stored_exec_close]
      exact stored
    · rw [Session.stored_exec_close]
      exact storedLength
    · exact Session.invariant_exec invariant (.close false true) trivial
    · intro ec error
      have none : before = before ++ [0] :=
        completed.symm.trans (errors ec (mem_of_mem_snoc error (by simp)))
      simp at none
    · refine .complete idle tasks ?_ all
      rw [all, ← completed]

theorem handleBody_error {conn : HttpConnection} {ec : ErrorCode} (error : ec ≠ .success)
    (read : SocketRead) (idle : conn.reading = [])
    (receiving : BodyReceiving size rest before labels
      { conn.reception with reading := [read] }) :
    BodyReceiving size rest before (labels ++ [.readError ec]) (conn.handleBody ec).reception := by
  rcases receiving with ⟨readSize, readLe, stored, storedLength, requestBuf, invariant, errors,
    weight, phase, bound⟩
  rcases phase.of_reading rfl with ⟨count, rfl, -, -, tasks, completed, -⟩
  have counted : (labels ++ [Event.readError ec]).countP Event.readsSocket =
      labels.countP Event.readsSocket + 1 := countP_snoc _ _
  have nothing : received (labels ++ [Event.readError ec]) = received labels := by
    simp [Event.received]
  have once : labels.countP Event.readsSocket + 1 + (size - conn.read) * (chunkSize + 2) + 0 ≤
      size * (chunkSize + 2) + (chunkSize + 1) := by
    change labels.countP Event.readsSocket + (size - conn.read) * (chunkSize + 2) + (count + 1) ≤
      size * (chunkSize + 2) + (chunkSize + 1) at bound
    omega
  rw [HttpConnection.handleBody, if_pos error, reception_complete]
  refine ⟨readSize, readLe, ?_, ?_, nothing ▸ requestBuf, ?_, ?_, 0, ?_, counted ▸ once⟩
  · rw [nothing, Session.stored_exec_close]
    exact stored
  · rw [Session.stored_exec_close]
    exact storedLength
  · exact Session.invariant_exec invariant (.close false true) trivial
  · exact fun _ _ => congrArg (· ++ [0]) completed
  · refine .failed ec idle tasks ?_ (by simp)
    rw [← completed]

/-- The task of `putn`: the bytes are appended to the body, and `handle_body_buff_write` takes
them off `request_buf_` and reads on. -/
theorem runTask {conn : HttpConnection} (word : size < 2 ^ 64) {task : Task} {others : List Task}
    (tasks : conn.tasks = task :: others) (ours : task.receives = true)
    (receiving : BodyReceiving size rest before labels conn.reception) :
    BodyReceiving size rest before (labels ++ [.runTask])
      (HttpConnection.runTask { conn with tasks := others } task).reception := by
  rcases receiving with ⟨readSize, readLe, stored, storedLength, requestBuf, invariant, errors,
    weight, phase, bound⟩
  have pending : conn.reception.tasks = task :: others.filter Task.receives := by
    simp [reception, tasks, ours]
  rcases phase.of_task pending with ⟨taskEq, quiet, reading, completed, more, nonempty, sides, rfl⟩
  change conn.readSize = size at readSize
  change conn.read < size at more
  change conn.requestBuf ≠ [] at nonempty
  change conn.request.stream.buffer.sides = (true, true) at sides
  change conn.request.stream.buffer.Invariant at invariant
  change conn.reading = [] at reading
  have available : 0 < conn.requestBuf.length := List.length_pos_of_ne_nil nonempty
  obtain ⟨count, countEq⟩ : ∃ count, count = min conn.requestBuf.length (size - conn.read) :=
    ⟨_, rfl⟩
  obtain rfl : task = .putn (conn.requestBuf.take count) .handleBodyBuffWrite := by
    rw [taskEq, countEq]
    rfl
  have sourceLength : (conn.requestBuf.take count).length = count := by
    simp only [List.length_take]
    omega
  have written : (conn.request.stream.buffer.write (conn.requestBuf.take count)).1 = count := by
    rw [ProducerConsumerBuffer.write_count invariant.consistent (congrArg Prod.fst sides)
      (congrArg Prod.snd sides) (List.ne_nil_of_length_pos (by omega)), sourceLength]
  have advanced : sizeT (conn.read + count) = conn.read + count := by
    rw [← Nat.cast_add, sizeT_of_lt (by omega)]
  have left : sizeT (conn.readSize - (conn.read + count : ℕ)) = size - (conn.read + count) := by
    rw [readSize, ← Int.ofNat_sub (by omega), sizeT_of_lt (by omega)]
  have nothing : received (labels ++ [Event.runTask]) = received labels := by
    simp [Event.received]
  have counted : (labels ++ [Event.runTask]).countP Event.readsSocket =
      labels.countP Event.readsSocket := countP_snoc _ _
  have shorter : (size - (conn.read + count)) * (chunkSize + 2) + (chunkSize + 2) ≤
      (size - conn.read) * (chunkSize + 2) := by
    rw [← Nat.succ_mul]
    exact Nat.mul_le_mul_right _ (by omega)
  simp only [HttpConnection.runTask, runBufWrite]
  rw [written, reception_handleBodyBuffWrite _ (by omega)]
  simp only [advanced, left, reading, List.nil_append]
  refine ⟨readSize, by simp only; omega, ?_, ?_, ?_, ?_,
    fun ec error => errors ec (mem_of_mem_snoc error (by simp)),
    min chunkSize (size - (conn.read + count)) - (conn.requestBuf.drop count).length + 1, ?_, ?_⟩
  · change (conn.request.stream.exec _).stored = _
    rw [Session.stored_exec_write sides, nothing, List.take_add]
    exact congr_arg₂ _ stored (congrArg (List.take count) requestBuf)
  · change (conn.request.stream.exec _).stored.length = _
    rw [Session.stored_exec_write sides, List.length_append, sourceLength]
    exact congrArg (· + count) storedLength
  · change conn.requestBuf.drop count = _
    rw [nothing, ← List.drop_drop]
    exact congrArg (List.drop count) requestBuf
  · exact Session.invariant_exec invariant (.write (conn.requestBuf.take count)) trivial
  · refine .reading _ rfl quiet completed (by omega) ?_ ?_
    · simp only
      omega
    · exact (Session.sides_exec_write _ _).trans sides
  · rw [counted]
    change labels.countP Event.readsSocket + (size - conn.read) * (chunkSize + 2) + 0 ≤ _ at bound
    simp only
    omega

theorem requestOp {conn : HttpConnection} {op : Op UInt8 ℕ} (consumes : op.Consumes)
    (legal : op.Legal conn.request.stream.buffer)
    (receiving : BodyReceiving size rest before labels conn.reception) :
    BodyReceiving size rest before (labels ++ [.requestOp op]) (conn.requestOp op).reception := by
  rcases receiving.later (.requestOp op) rfl rfl with ⟨readSize, readLe, stored,
    storedLength, requestBuf, invariant, errors, weight, phase, bound⟩
  have storedSame : (conn.request.stream.exec op).stored = conn.request.stream.stored :=
    Session.stored_exec_consumes _ consumes
  have sidesSame : (conn.request.stream.exec op).buffer.sides =
      conn.request.stream.buffer.sides := consumes.sides_eq _
  refine ⟨readSize, readLe, storedSame.trans stored,
    (congrArg List.length storedSame).trans storedLength, requestBuf,
    Session.invariant_exec invariant op legal, errors, weight, ?_, bound⟩
  cases phase with
  | reading count reading tasks completed small enough sides =>
      exact .reading count reading tasks completed small enough (sidesSame.trans sides)
  | writing reading tasks completed more nonempty sides =>
      exact .writing reading tasks completed more nonempty (sidesSame.trans sides)
  | complete reading tasks completed all => exact .complete reading tasks completed all
  | failed ec reading tasks completed error =>
      exact .failed ec reading tasks completed error

/-- A response that ends while the body is incomplete is an interruption. -/
theorem goesOn {getReqHandler : Bytes → Option ℕ} {conn next : HttpConnection} {event : Event}
    (receiving : BodyReceiving size rest before labels conn.reception)
    (step : (uninterrupted (requestSystem getReqHandler before)).step conn event next) :
    conn.restarts event = false := by
  refine goesOn_of_receivesBody step fun incomplete => ?_
  rcases receiving.phase with ⟨weight, phase, -⟩
  cases phase with
  | reading count reading =>
      change conn.reading = _ at reading
      simp [receivesBody, reading, SocketRead.readsHead]
  | writing _ tasks =>
      change conn.tasks.filter Task.receives = _ at tasks
      have receives := List.mem_filter.mp (tasks ▸ List.mem_singleton_self _)
      rw [receivesBody, List.any_eq_true.mpr ⟨_, receives⟩, Bool.or_true]
  | complete _ _ completed =>
      change conn.log.completed = _ at completed
      simp [incomplete] at completed
  | failed _ _ _ completed =>
      change conn.log.completed = _ at completed
      simp [incomplete] at completed

theorem step {getReqHandler : Bytes → Option ℕ} {conn next : HttpConnection} {event : Event}
    (word : size < 2 ^ 64) (receiving : BodyReceiving size rest before labels conn.reception)
    (step : (uninterrupted (requestSystem getReqHandler before)).step conn event next) :
    BodyReceiving size rest before (labels ++ [event]) next.reception := by
  have goesOn := receiving.goesOn step
  cases reception_step step.2.2 with
  | receive nonempty reading unmet =>
      simp only [HttpConnection.receive, reading]
      exact receiving.receive nonempty reading unmet
  | readDone reading met =>
      rcases receiving.phase with ⟨weight, phase, -⟩
      rcases phase.of_reading reading with ⟨count, -, rfl, rfl, -⟩
      obtain rfl : count = 0 := by simpa [ReadCondition.met] using met
      simp only [HttpConnection.readDone, reading, runReadHandler]
      refine handleBody word rfl ?_
      simpa [reception, reading] using receiving
  | readError error reading =>
      rcases receiving.phase with ⟨weight, phase, -⟩
      rcases phase.of_reading reading with ⟨count, -, rfl, rfl, -⟩
      simp only [HttpConnection.readDone, reading, runReadHandler]
      refine handleBody_error error ⟨.atLeast count, .handleBody⟩ rfl ?_
      simpa [reception, reading] using receiving
  | runTask tasks ours => exact receiving.runTask word tasks ours
  | requestOp legal => exact receiving.requestOp step.2.1.1 legal
  | restart restarts => simp [goesOn] at restarts
  | elsewhere _ silent noRead same =>
      rw [same]
      exact receiving.later event silent noRead

end BodyReceiving

namespace HttpConnection

variable {getReqHandler : Bytes → Option ℕ} {reached start conn next : HttpConnection}
  {labels : List Event}

/-- `handle_headers` starts the loop when a length is given and the body is not chunked. -/
theorem reception_headersRead (unchunked : (headersRead getReqHandler conn).chunked = false)
    (sized : 0 < (headersRead getReqHandler conn).readSize) (small : conn.readSize < 2 ^ 64) :
    (headersRead getReqHandler conn).readSize < 2 ^ 64 ∧
      (headersRead getReqHandler conn).reception =
        { conn.reception with
          read := 0
          readSize := (headersRead getReqHandler conn).readSize
          stream := Session.new 512
          reading := conn.reading ++
            [⟨.atLeast (min chunkSize (headersRead getReqHandler conn).readSize -
              conn.requestBuf.length), .handleBody⟩] } := by
  simp only [headersRead] at unchunked sized ⊢
  split at unchunked
  · next isChunked =>
      rw [chunked_dispatchRequestToListener] at unchunked
      exact absurd (unchunked.symm.trans isChunked) Bool.false_ne_true
  · next notChunked =>
      rw [if_neg notChunked] at sized ⊢
      have word : (if (conn.request.headers.matchSize HeaderNames.contentLength
            conn.readSize).1 = true
          then (conn.request.headers.matchSize HeaderNames.contentLength conn.readSize).2
          else 0) < 2 ^ 64 := by
        split
        · exact HttpHeaders.matchSize_snd_lt _ _ small
        · exact Nat.two_pow_pos 64
      generalize (if (conn.request.headers.matchSize HeaderNames.contentLength
            conn.readSize).1 = true
          then (conn.request.headers.matchSize HeaderNames.contentLength conn.readSize).2
          else 0) = size at word sized ⊢
      have dispatched (parsed : HttpConnection) :
          (dispatchRequestToListener getReqHandler parsed).readSize = parsed.readSize :=
        congrArg Reception.readSize (reception_dispatchRequestToListener getReqHandler parsed)
      have reading (parsed : HttpConnection) (wanted : ℕ) (handler : ReadHandler) :
          (parsed.asyncReadUntilBuffersize wanted handler).readSize = parsed.readSize :=
        congrArg Reception.readSize (parsed.reception_asyncReadUntilBuffersize wanted handler)
      have positive : size ≠ 0 := by
        rintro rfl
        simp only [if_true, dispatched] at sized
        exact absurd sized (Nat.lt_irrefl 0)
      simp only [if_neg positive, dispatched, reading, reception_dispatchRequestToListener,
        reception_asyncReadUntilBuffersize]
      exact ⟨word, rfl⟩

/-- The loop starts with what was buffered behind the head. -/
theorem TakesRequest.receiving (takes : TakesRequest getReqHandler reached start)
    (reachable : (uninterrupted (system getReqHandler)).Reachable .new reached)
    (unchunked : start.chunked = false) (sized : 0 < start.readSize) :
    start.readSize < 2 ^ 64 ∧
      BodyReceiving start.readSize start.requestBuf start.log.completed [] start.reception := by
  rcases takes.rested reachable with ⟨conn, rfl, idle, quiet, -, none⟩
  rcases reception_headersRead unchunked sized (none ▸ Nat.two_pow_pos 64) with ⟨word, after⟩
  obtain ⟨size, sizeEq⟩ : ∃ size, size = (headersRead getReqHandler conn).readSize := ⟨_, rfl⟩
  have requestBuf : (headersRead getReqHandler conn).requestBuf = conn.requestBuf :=
    congrArg Reception.requestBuf after
  have completed : (headersRead getReqHandler conn).log.completed = conn.log.completed :=
    congrArg Reception.completed after
  rw [← sizeEq] at sized word after ⊢
  refine ⟨word, ?_⟩
  rw [after, requestBuf, completed]
  refine ⟨rfl, Nat.zero_le _, ?_, rfl, ?_, ProducerConsumerBuffer.new_invariant 512, by simp,
    min chunkSize size - conn.requestBuf.length + 1, ?_, ?_⟩
  · simp [Session.new]
  · simp [reception]
  · refine .reading _ (by simp [idle]) quiet rfl (by omega) ?_ rfl
    simp only [reception]
    omega
  · simp only [List.countP_nil, Nat.sub_zero]
    omega

/-- What is to be true of a connection when these events have happened since the dispatch of a
request with a body of known length.  What was counted so far has been appended to the body, in
order and each byte once, and the buffer holds the others.  The completion is reported once,
with the length when all of it was appended, or with `0` after an error.  Until then the loop
has something to do, and the socket is asked a bounded number of times. -/
structure BodyReceived (start : HttpConnection) (labels : List Event) (next : HttpConnection) :
    Prop where
  readSize : next.readSize = start.readSize
  read_le : next.read ≤ next.readSize
  stored : next.request.stream.stored = (start.requestBuf ++ received labels).take next.read
  stored_length : next.request.stream.stored.length = next.read
  requestBuf : next.requestBuf = (start.requestBuf ++ received labels).drop next.read
  completed :
    next.log.completed = start.log.completed ∧ (∀ ec, .readError ec ∉ labels) ∧
        (next.ready = true ∨ next.waiting = true ∨ ∃ task ∈ next.tasks, task.receives = true) ∨
      next.log.completed = start.log.completed ++ [start.readSize] ∧
          (∀ ec, .readError ec ∉ labels) ∧ next.read = start.readSize ∨
      next.log.completed = start.log.completed ++ [0] ∧ ∃ ec, .readError ec ∈ labels
  bounded : labels.countP Event.readsSocket ≤
    start.readSize * (chunkSize + 2) + (chunkSize + 1)

theorem bodyReceived_of_receiving (sized : 0 < start.readSize)
    (receiving : BodyReceiving start.readSize start.requestBuf start.log.completed labels
      next.reception) : BodyReceived start labels next := by
  rcases receiving with ⟨readSize, readLe, stored, storedLength, requestBuf, invariant, errors,
    weight, phase, bound⟩
  change next.readSize = start.readSize at readSize
  refine ⟨readSize, readSize ▸ readLe, stored, storedLength, requestBuf, ?_, by omega⟩
  have healthy (differs : next.log.completed ≠ start.log.completed ++ [0]) :
      ∀ ec, .readError ec ∉ labels := fun ec error => differs (errors ec error)
  cases phase with
  | reading count reading tasks completed small enough sides =>
      change next.reading = _ at reading
      change next.log.completed = _ at completed
      refine .inl ⟨completed, healthy (by simp [completed]), ?_⟩
      by_cases satisfied : count = 0
      · exact .inl (by simp [ready, reading, ReadCondition.met, satisfied])
      · exact .inr (.inl (by simp [waiting, reading, ReadCondition.met, satisfied]))
  | writing reading tasks completed more nonempty sides =>
      change next.log.completed = _ at completed
      change next.tasks.filter Task.receives = _ at tasks
      refine .inl ⟨completed, healthy (by simp [completed]), .inr (.inr ?_)⟩
      exact ⟨_, List.mem_filter.mp (tasks ▸ List.mem_singleton_self _)⟩
  | complete reading tasks completed all =>
      change next.log.completed = _ at completed
      exact .inr (.inl ⟨completed, healthy (by simp [completed]; omega), all⟩)
  | failed ec reading tasks completed error => exact .inr (.inr ⟨completed, ec, error⟩)

namespace RequestRun

/-- In every state of the run the body has been received as far as it should be. -/
def ReceivesBody (request : RequestRun getReqHandler) : Prop :=
  ∀ earlier later, request.labels = earlier ++ later →
    BodyReceived request.start earlier (request.start.run getReqHandler earlier)

variable {request : RequestRun getReqHandler}

theorem Undisturbed.receivesBody (undisturbed : request.Undisturbed)
    (unchunked : request.start.chunked = false) (sized : 0 < request.start.readSize) :
    request.ReceivesBody := by
  intro earlier later whole
  rcases request.takes.receiving undisturbed.before unchunked sized with ⟨word, initially⟩
  rcases (whole ▸ undisturbed.since).split with ⟨middle, before, -⟩
  have computed : middle = request.start.run getReqHandler earlier :=
    before.eq_foldl fun _ _ _ step => step.2.2.2
  rw [← computed]
  exact bodyReceived_of_receiving sized
    (before.history (fun labels conn => BodyReceiving request.start.readSize
      request.start.requestBuf request.start.log.completed labels conn.reception) initially
      fun labels conn event after receiving step => receiving.step word step)

/-- An interruption takes the length of the body away. -/
theorem uninterrupted_of_receivesBody {before : List ℕ}
    (run : (requestSystem getReqHandler before).Run start labels next)
    (sized : 0 < start.readSize)
    (receives : ∀ earlier later, labels = earlier ++ later →
      BodyReceived start earlier (start.run getReqHandler earlier)) :
    (uninterrupted (requestSystem getReqHandler before)).Run start labels next := by
  induction run with
  | nil => exact .nil _
  | @snoc conn next labels event run step ih =>
      refine .snoc (ih fun earlier later whole => receives earlier (later ++ [event]) ?_) ⟨?_, step⟩
      · rw [whole, List.append_assoc]
      · by_contra interrupted
        have restarts : conn.restarts event = true := by
          simp only [interrupts, Bool.not_eq_false, Bool.and_eq_true] at interrupted
          exact interrupted.1
        have computed : next = start.run getReqHandler (labels ++ [event]) :=
          (run.snoc step).eq_foldl fun _ _ _ step => step.2.2
        have kept := (receives (labels ++ [event]) [] (List.append_nil _).symm).readSize
        have cleared : next.readSize = 0 :=
          congrArg Reception.readSize (reception_of_restarts step.2 restarts)
        rw [← computed, cleared] at kept
        omega

end RequestRun

/-- The body of a request that comes to a connection in order is received in every state of a
run exactly when no response ends in the run while it is.  In the first request of a connection
none does. -/
theorem receivesBody_iff {getReqHandler : Bytes → Option ℕ} (request : RequestRun getReqHandler)
    (unchunked : request.start.chunked = false) (sized : 0 < request.start.readSize) :
    ((uninterrupted (system getReqHandler)).Reachable .new request.reached →
      (request.ReceivesBody ↔
        (uninterrupted (requestSystem getReqHandler request.start.log.completed)).Run
          request.start request.labels request.next)) ∧
      (request.First → request.Undisturbed) := by
  refine ⟨fun before => ⟨?_, ?_⟩, fun first => first.undisturbed⟩
  · exact RequestRun.uninterrupted_of_receivesBody request.run sized
  · intro since
    exact RequestRun.Undisturbed.receivesBody ⟨before, since⟩ unchunked sized

/-! ### A body of three bytes -/

def threeHead : Bytes :=
  ascii "POST / HTTP/1.1" ++ crlf ++ ascii "Content-Length: 3" ++ crlf ++ crlf

/-- The first byte comes with the head. -/
def threeReached : HttpConnection :=
  HttpConnection.new.run anyHandler [.receive (threeHead ++ ascii "a")]

def threeStart : HttpConnection :=
  exec anyHandler threeReached (.readDone 0)

/-- Two more bytes arrive with the first of the next request, while the application reads and
replies. -/
def threeReceived : List Event :=
  [.receive (ascii "b"), .requestOp (.bumpc 0), .reply (HttpResponseImpl.new 200) 0, .runTask,
    .receive (ascii "cG"), .readDone 0, .runTask, .readDone 0]

theorem threeReached_reachable : (system anyHandler).Reachable .new threeReached := by
  have legal : LegalRun anyHandler HttpConnection.new [.receive (threeHead ++ ascii "a")] := by
    decide +kernel
  exact ⟨_, legal.run⟩

def threeRequest : RequestRun anyHandler where
  reached := threeReached
  start := threeStart
  labels := threeReceived
  next := threeStart.run anyHandler threeReceived
  reachable := threeReached_reachable
  takes := ⟨by decide +kernel, ⟨⟨.untilHead 0, .handleHttpLine⟩, [], by decide +kernel, rfl, rfl⟩,
    by decide +kernel⟩
  run := LegalRequest.run (by decide +kernel)

theorem receivesBody_iff_three :
    threeRequest.ReceivesBody ∧ threeRequest.next.request.stream.stored = ascii "abc" ∧
      threeRequest.next.requestBuf = ascii "G" ∧ threeRequest.next.log.completed = [3] := by
  have first : threeRequest.First := by
    change threeReached.request.initiatedResponse = false
    decide +kernel
  have settled := receivesBody_iff threeRequest (by decide +kernel) (by decide +kernel)
  have undisturbed := settled.2 first
  exact ⟨(settled.1 undisturbed.before).mpr undisturbed.since, by decide +kernel⟩

/-! ### The same body on a connection that is kept open -/

/-- The head and two bytes of the body arrive. -/
def keptReached : HttpConnection :=
  exec anyHandler keptOpen (.receive (threeHead ++ ascii "ab"))

def keptStart : HttpConnection :=
  exec anyHandler keptReached (.readDone 0)

/-- The response to the first request is sent once more, and its end clears what was received. -/
def keptInterrupted : List Event :=
  [.runTask, .writeDone [], .receive (ascii "c"), .readDone 0]

def keptRequest : RequestRun anyHandler where
  reached := keptReached
  start := keptStart
  labels := keptInterrupted
  next := keptStart.run anyHandler keptInterrupted
  reachable := keptOpen_receive (List.cons_ne_nil _ _)
  takes := ⟨by decide +kernel, ⟨⟨.untilHead 0, .handleHttpLine⟩, [], by decide +kernel, rfl, rfl⟩,
    by decide +kernel⟩
  run := LegalRequest.run (by decide +kernel)

/-- The three bytes arrive without an error, and the body is completed as empty. -/
theorem not_receivesBody_kept :
    keptRequest.start.chunked = false ∧ keptRequest.start.readSize = 3 ∧
      keptRequest.start.requestBuf ++ received keptRequest.labels = ascii "abc" ∧
      (∀ ec, .readError ec ∉ keptRequest.labels) ∧
      keptRequest.next.log.completed = keptRequest.start.log.completed ++ [0] ∧
      keptRequest.next.request.stream.stored = [] ∧ ¬keptRequest.ReceivesBody := by
  have start : keptStart.chunked = false ∧ keptStart.readSize = 3 ∧
      keptStart.requestBuf = ascii "ab" ∧ keptStart.log.completed = [1] := by
    decide +kernel
  have next : (keptStart.run anyHandler keptInterrupted).log.completed = [1, 0] ∧
      (keptStart.run anyHandler keptInterrupted).request.stream.stored = [] ∧
      (keptStart.run anyHandler keptInterrupted).readSize = 0 := by
    decide +kernel
  refine ⟨start.1, start.2.1, ?_, by simp [keptRequest, keptInterrupted], ?_, next.2.1, ?_⟩
  · simp only [keptRequest, start.2.2.1]
    rfl
  · simp only [keptRequest, next.1, start.2.2.2]
    rfl
  · intro receives
    have kept := (receives keptInterrupted [] rfl).readSize
    change (keptStart.run anyHandler keptInterrupted).readSize = keptStart.readSize at kept
    rw [next.2.2, start.2.1] at kept
    cases kept

end HttpConnection

end Snode.Http
