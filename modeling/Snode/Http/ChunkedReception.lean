import Snode.Http.ChunkStream
import Snode.Http.RequestRuns

/-!
# Reception of a chunked body

The loop of `handle_chunked_header`, `handle_chunked_body` and
`handle_chunked_body_buff_write`.  As long as every chunk-size line that is due
is a good one, the loop stands at such a line or in the data behind it, however
the bytes arrive.
-/

namespace Snode.Http

open Streams

/-- Where the loop stands in a stream of chunks of which `arrived` has arrived.  The indices
count its complete reads, and the bytes announced to it. -/
inductive ChunkPhase (stream arrived : Bytes) (before : List ℕ) (labels : List Event)
    (state : Reception) : ℕ → ℕ → Prop where
  | header {count position : ℕ} {body : Bytes} (due : AtLine stream count position body)
      (reading : state.reading = [⟨.untilCrlf, .handleChunkedHeader⟩]) (tasks : state.tasks = [])
      (completed : state.completed = before) (stored : state.stream.stored = body)
      (within : position ≤ arrived.length) (requestBuf : state.requestBuf = arrived.drop position)
      (sides : state.stream.buffer.sides = (true, true)) :
      ChunkPhase stream arrived before labels state (2 * count) body.length
  | body {count position size : ℕ} {body line tail : Bytes}
      (due : AtLine stream count position body)
      (split : stream.drop position = line ++ crlf ++ tail) (good : GoodLine line size)
      (nonzero : size ≠ 0)
      (reading : state.reading =
        [⟨.atLeast (size + 2 - state.requestBuf.length), .handleChunkedBody size⟩])
      (tasks : state.tasks = []) (completed : state.completed = before)
      (stored : state.stream.stored = body)
      (within : position + (line.length + 2) ≤ arrived.length)
      (requestBuf : state.requestBuf = arrived.drop (position + (line.length + 2)))
      (sides : state.stream.buffer.sides = (true, true)) :
      ChunkPhase stream arrived before labels state (2 * count + 1) (body.length + size)
  | writing {count position size : ℕ} {body line tail : Bytes}
      (due : AtLine stream count position body)
      (split : stream.drop position = line ++ crlf ++ tail) (good : GoodLine line size)
      (nonzero : size ≠ 0) (reading : state.reading = [])
      (tasks : state.tasks = [.putn (state.requestBuf.take size) .handleChunkedBodyBuffWrite])
      (completed : state.completed = before) (stored : state.stream.stored = body)
      (within : position + (line.length + 2) ≤ arrived.length)
      (requestBuf : state.requestBuf = arrived.drop (position + (line.length + 2)))
      (enough : size + 2 ≤ state.requestBuf.length)
      (sides : state.stream.buffer.sides = (true, true)) :
      ChunkPhase stream arrived before labels state (2 * count + 2) (body.length + size)
  | complete {count position : ℕ} {body line tail : Bytes}
      (due : AtLine stream count position body)
      (split : stream.drop position = line ++ crlf ++ tail) (last : ChunkSize line 0)
      (reading : state.reading = []) (tasks : state.tasks = [])
      (completed : state.completed = before ++ [sizeT body.length])
      (stored : state.stream.stored = body) :
      ChunkPhase stream arrived before labels state (2 * count + 1) body.length
  | failed {reads total : ℕ} (ec : ErrorCode) (reading : state.reading = [])
      (tasks : state.tasks = []) (completed : state.completed = before ++ [0])
      (error : .readError ec ∈ labels) :
      ChunkPhase stream arrived before labels state reads total

/-- The lines taken were good ones, taken at their size. -/
def TakesGoodLines (taken : List (Bytes × Int)) : Prop :=
  ∀ header ∈ taken, ∃ line size tail,
    header.1 = line ++ crlf ++ tail ∧ GoodLine line size ∧ header.2 = size

/-- The invariant of the loop: `rest` is what was buffered with the head. -/
structure Decoding (stream rest : Bytes) (before : List ℕ) (headers : List (Bytes × Int))
    (labels : List Event) (state : Reception) (taken : List (Bytes × Int)) (reads total : ℕ) :
    Prop where
  invariant : state.stream.buffer.Invariant
  chunkHeaders : state.chunkHeaders = headers ++ taken
  lines : TakesGoodLines taken
  sum : (taken.map Prod.snd).sum = total
  read : state.read = sizeT total
  announced : AnnouncedTotal stream total
  phase : ChunkPhase stream (rest ++ received labels) before labels state reads total
  counted : labels.countP Event.readsSocket ≤ (received labels).length + reads

def Decodes (stream rest : Bytes) (before : List ℕ) (headers : List (Bytes × Int))
    (labels : List Event) (state : Reception) : Prop :=
  ∃ taken reads total, Decoding stream rest before headers labels state taken reads total

namespace HttpConnection

theorem handleChunkedHeader_eq {conn : HttpConnection} {line more : Bytes} {size total : ℕ}
    (good : GoodLine line size) (nonzero : size ≠ 0)
    (buffered : conn.requestBuf = line ++ crlf ++ more) (read : conn.read = sizeT total)
    (value : Int) :
    conn.handleChunkedHeader .success value =
      { conn with
        requestBuf := more
        read := sizeT (total + size : ℕ)
        log := { conn.log with
          chunkHeaders := conn.log.chunkHeaders ++ [(conn.requestBuf, (size : Int))] }
        }.asyncReadUntilBuffersize (size + 2) (.handleChunkedBody size) := by
  have fits := good.fits
  have small : size < 2 ^ 31 := by omega
  have extracted : (Istream.new conn.requestBuf).getHexInt value =
      ((size : Int), ⟨cr :: lf :: more, false, false⟩) := by
    have whole : conn.requestBuf = line ++ cr :: (lf :: more) := by simp [buffered, crlf]
    rw [whole, getHexInt_chunkSize good.numeral, if_pos small]
  have sum : sizeT (conn.read + size) = sizeT (total + size : ℕ) := by
    rw [read]
    simp only [sizeT]
    omega
  have wanted : sizeT (int32 (size + 2)) = size + 2 := by
    have exact : int32 (size + 2) = (size + 2 : ℕ) := by
      simp only [int32, Int.bmod]
      omega
    rw [exact, sizeT_of_lt (by omega)]
  have positive : (size : Int) ≠ 0 := by omega
  simp only [handleChunkedHeader, ne_eq, not_true_eq_false, if_false, extracted, sum,
    if_neg positive, wanted]
  rfl

theorem reception_handleChunkedHeader {conn : HttpConnection} {line more : Bytes}
    {size total : ℕ} (good : GoodLine line size) (nonzero : size ≠ 0)
    (buffered : conn.requestBuf = line ++ crlf ++ more) (read : conn.read = sizeT total)
    (value : Int) :
    (conn.handleChunkedHeader .success value).reception =
      { conn.reception with
        requestBuf := more
        read := sizeT (total + size : ℕ)
        chunkHeaders := conn.reception.chunkHeaders ++ [(conn.requestBuf, (size : Int))]
        reading := conn.reading ++
          [⟨.atLeast (size + 2 - more.length), .handleChunkedBody size⟩] } := by
  rw [handleChunkedHeader_eq good nonzero buffered read, reception_asyncReadUntilBuffersize]
  rfl

theorem reception_handleChunkedHeader_last {conn : HttpConnection} {line more : Bytes}
    {total : ℕ} (last : ChunkSize line 0) (buffered : conn.requestBuf = line ++ crlf ++ more)
    (read : conn.read = sizeT total) (value : Int) :
    (conn.handleChunkedHeader .success value).reception =
      { conn.reception with
        requestBuf := more
        chunkHeaders := conn.reception.chunkHeaders ++ [(conn.requestBuf, (0 : Int))]
        completed := conn.reception.completed ++ [sizeT total]
        stream := conn.reception.stream.exec (.close false true) } := by
  have extracted : (Istream.new conn.requestBuf).getHexInt value =
      (0, ⟨cr :: lf :: more, false, false⟩) := by
    have whole : conn.requestBuf = line ++ cr :: (lf :: more) := by simp [buffered, crlf]
    rw [whole, getHexInt_chunkSize last, if_pos (by omega)]
    rfl
  have sum : sizeT (conn.read + 0) = conn.read := by
    rw [read]
    simp only [sizeT]
    omega
  simp only [handleChunkedHeader, ne_eq, not_true_eq_false, if_false, extracted, if_true, sum,
    reception_complete]
  rw [← read]
  rfl

theorem reception_handleChunkedBodyBuffWrite (conn : HttpConnection) {count : ℕ}
    (positive : count ≠ 0) :
    (conn.handleChunkedBodyBuffWrite count).reception =
      { conn.reception with
        requestBuf := conn.requestBuf.drop (2 + count)
        reading := conn.reading ++ [⟨.untilCrlf, .handleChunkedHeader⟩] } := by
  simp only [handleChunkedBodyBuffWrite, if_pos positive]
  rfl

end HttpConnection

theorem TakesGoodLines.snoc {taken : List (Bytes × Int)} {line bytes tail : Bytes} {size : ℕ}
    (takes : TakesGoodLines taken) (good : GoodLine line size)
    (buffered : bytes = line ++ crlf ++ tail) :
    TakesGoodLines (taken ++ [(bytes, (size : Int))]) := by
  intro header present
  rcases List.mem_append.mp present with earlier | new
  · exact takes header earlier
  · obtain rfl := List.mem_singleton.mp new
    exact ⟨line, size, tail, buffered, good, rfl⟩

namespace ChunkPhase

variable {stream arrived : Bytes} {before : List ℕ} {labels : List Event} {state : Reception}
  {reads total : ℕ}

theorem later (phase : ChunkPhase stream arrived before labels state reads total)
    (event : Event) :
    ChunkPhase stream arrived before (labels ++ [event]) state reads total := by
  cases phase with
  | header due reading tasks completed stored within requestBuf sides =>
      exact .header due reading tasks completed stored within requestBuf sides
  | body due split good nonzero reading tasks completed stored within requestBuf sides =>
      exact .body due split good nonzero reading tasks completed stored within requestBuf sides
  | writing due split good nonzero reading tasks completed stored within requestBuf enough
      sides =>
      exact .writing due split good nonzero reading tasks completed stored within requestBuf
        enough sides
  | complete due split last reading tasks completed stored =>
      exact .complete due split last reading tasks completed stored
  | failed ec reading tasks completed error =>
      exact .failed ec reading tasks completed (List.mem_append_left _ error)

theorem of_reading (phase : ChunkPhase stream arrived before labels state reads total)
    {read : SocketRead} {others : List SocketRead} (reading : state.reading = read :: others) :
    read = ⟨.untilCrlf, .handleChunkedHeader⟩ ∧ others = [] ∨
      ∃ left toWrite, read = ⟨.atLeast left, .handleChunkedBody toWrite⟩ ∧ others = [] := by
  cases phase with
  | header _ reading' =>
      obtain ⟨rfl, rfl⟩ := List.cons.inj (reading'.symm.trans reading)
      exact .inl ⟨rfl, rfl⟩
  | body _ _ _ _ reading' =>
      obtain ⟨rfl, rfl⟩ := List.cons.inj (reading'.symm.trans reading)
      exact .inr ⟨_, _, rfl, rfl⟩
  | writing _ _ _ _ reading' | complete _ _ _ reading' | failed _ reading' =>
      simp [reading'] at reading

/-- The application may read what was stored. -/
theorem with_stream (phase : ChunkPhase stream arrived before labels state reads total)
    {session : Session UInt8 ℕ} (storedSame : session.stored = state.stream.stored)
    (sidesSame : session.buffer.sides = state.stream.buffer.sides) :
    ChunkPhase stream arrived before labels { state with stream := session } reads total := by
  cases phase with
  | header due reading tasks completed stored within requestBuf sides =>
      exact .header due reading tasks completed (storedSame.trans stored) within requestBuf
        (sidesSame.trans sides)
  | body due split good nonzero reading tasks completed stored within requestBuf sides =>
      exact .body due split good nonzero reading tasks completed (storedSame.trans stored)
        within requestBuf (sidesSame.trans sides)
  | writing due split good nonzero reading tasks completed stored within requestBuf enough
      sides =>
      exact .writing due split good nonzero reading tasks completed (storedSame.trans stored)
        within requestBuf enough (sidesSame.trans sides)
  | complete due split last reading tasks completed stored =>
      exact .complete due split last reading tasks completed (storedSame.trans stored)
  | failed ec reading tasks completed error =>
      exact .failed ec reading tasks completed error

theorem receive (phase : ChunkPhase stream arrived before labels state reads total)
    {piece : Bytes} {read : SocketRead} {others : List SocketRead}
    (reading : state.reading = read :: others) :
    ChunkPhase stream (arrived ++ piece) before labels
      { state with
        requestBuf := state.requestBuf ++ piece
        reading :=
          { read with
            condition := read.condition.advance state.requestBuf piece.length } :: others }
      reads total := by
  cases phase with
  | header due reading' tasks completed stored within requestBuf sides =>
      obtain ⟨rfl, rfl⟩ := List.cons.inj (reading'.symm.trans reading)
      refine .header due rfl tasks completed stored (by simp; omega) ?_ sides
      rw [List.drop_append_of_le_length within, requestBuf]
  | body due split good nonzero reading' tasks completed stored within requestBuf sides =>
      obtain ⟨rfl, rfl⟩ := List.cons.inj (reading'.symm.trans reading)
      refine .body due split good nonzero ?_ tasks completed stored (by simp; omega) ?_ sides
      · simp only [ReadCondition.advance, List.length_append, Nat.sub_sub]
      · rw [List.drop_append_of_le_length within, requestBuf]
  | writing _ _ _ _ reading' | complete _ _ _ reading' | failed _ reading' =>
      simp [reading'] at reading

end ChunkPhase

namespace Decodes

open HttpConnection

variable {stream rest : Bytes} {before : List ℕ} {headers : List (Bytes × Int)}
  {labels : List Event} {state : Reception}

theorem later (decodes : Decodes stream rest before headers labels state) (event : Event)
    (silent : event.received = []) (elsewhere : event.readsSocket = false) :
    Decodes stream rest before headers (labels ++ [event]) state := by
  rcases decodes with ⟨taken, reads, total, invariant, headersEq, lines, sum, read, announced,
    phase, bound⟩
  refine ⟨taken, reads, total, invariant, headersEq, lines, sum, read, announced, ?_, ?_⟩
  · simpa [silent] using phase.later event
  · rw [countP_snoc, elsewhere, received_snoc, silent, List.append_nil]
    exact bound

theorem receive (decodes : Decodes stream rest before headers labels state) {piece : Bytes}
    {read : SocketRead} {others : List SocketRead} (nonempty : piece ≠ [])
    (reading : state.reading = read :: others) :
    Decodes stream rest before headers (labels ++ [.receive piece])
      { state with
        requestBuf := state.requestBuf ++ piece
        reading :=
          { read with
            condition := read.condition.advance state.requestBuf piece.length } :: others } := by
  rcases decodes with ⟨taken, reads, total, invariant, headersEq, lines, sum, readEq, announced,
    phase, bound⟩
  have positive : 0 < piece.length := List.length_pos_of_ne_nil nonempty
  refine ⟨taken, reads, total, invariant, headersEq, lines, sum, readEq, announced, ?_, ?_⟩
  · rw [received_snoc, ← List.append_assoc]
    exact (phase.receive reading).later _
  · rw [countP_snoc, received_snoc, List.length_append]
    simp only [Event.readsSocket, Event.received, Bool.toNat_true]
    omega

theorem handleChunkedHeader {conn : HttpConnection} {value : Int} (good : GoodChunks stream)
    (arrived : rest ++ received labels <+: stream) (idle : conn.reading = [])
    (lineComplete : containsPattern crlf conn.requestBuf = true)
    (decodes : Decodes stream rest before headers labels
      { conn.reception with reading := [⟨.untilCrlf, .handleChunkedHeader⟩] }) :
    Decodes stream rest before headers (labels ++ [.readDone value])
      (conn.handleChunkedHeader .success value).reception := by
  rcases decodes with ⟨taken, reads, total, invariant, headersEq, lines, sum, read, announced,
    phase, bound⟩
  have nothing : received (labels ++ [Event.readDone value]) = received labels := by
    simp [Event.received]
  cases phase with
  | @header count position body due _ tasks completed stored within requestBuf sides =>
      change conn.requestBuf = _ at requestBuf
      change conn.read = _ at read
      have front : conn.requestBuf <+: stream.drop position := requestBuf ▸ arrived.drop position
      rcases good count position body due
          (containsPattern_iff.mpr ((containsPattern_iff.mp lineComplete).trans front.isInfix))
        with ⟨line, size, tail, goodLine, split⟩
      rcases line_of_containsPattern goodLine.noCr (split ▸ front) lineComplete with
        ⟨more, buffered, -⟩
      have lineLength : (line ++ crlf).length = line.length + 2 := by simp [crlf]
      have whole : (rest ++ received labels).drop position = line ++ crlf ++ more :=
        requestBuf.symm.trans buffered
      have behind : position + (line.length + 2) ≤ (rest ++ received labels).length := by
        have := congrArg List.length whole
        simp only [List.length_drop, List.length_append, crlf, List.length_cons,
          List.length_nil] at this ⊢
        omega
      have moreEq : more = (rest ++ received labels).drop (position + (line.length + 2)) := by
        rw [← List.drop_drop, whole, List.drop_left' lineLength]
      have headersNext (len : Int) : conn.reception.chunkHeaders ++ [(conn.requestBuf, len)] =
          headers ++ (taken ++ [(conn.requestBuf, len)]) :=
        (congrArg (· ++ _) headersEq).trans (List.append_assoc _ _ _)
      have sumNext : ((taken ++ [(conn.requestBuf, (size : Int))]).map Prod.snd).sum =
          (body.length + size : ℕ) := by
        simp [sum]
      have counting : (labels ++ [Event.readDone value]).countP Event.readsSocket ≤
          (received (labels ++ [Event.readDone value])).length + (2 * count + 1) := by
        rw [countP_snoc, nothing]
        simp only [Event.readsSocket, Bool.toNat_true]
        omega
      by_cases last : size = 0
      · subst last
        rw [reception_handleChunkedHeader_last goodLine.numeral buffered read]
        refine ⟨taken ++ [(conn.requestBuf, 0)], 2 * count + 1, body.length,
          Session.invariant_exec invariant (.close false true) trivial, headersNext 0,
          lines.snoc goodLine buffered, sumNext, read, announced, ?_, counting⟩
        refine .complete due split goodLine.numeral idle tasks ?_ ?_
        · exact congrArg (· ++ [sizeT body.length]) completed
        · exact (Session.stored_exec_close _ _ _).trans stored
      · rw [reception_handleChunkedHeader goodLine last buffered read]
        refine ⟨taken ++ [(conn.requestBuf, (size : Int))], 2 * count + 1, body.length + size,
          invariant, headersNext size, lines.snoc goodLine buffered, sumNext, rfl,
          .after due split goodLine, ?_, counting⟩
        rw [nothing]
        refine .body due split goodLine last ?_ tasks completed stored behind moreEq sides
        rw [idle, List.nil_append]
  | body _ _ _ _ reading | writing _ _ _ _ reading | complete _ _ _ reading | failed _ reading =>
      simp at reading

theorem handleChunkedBody {conn : HttpConnection} {value toWrite : Int} (idle : conn.reading = [])
    (decodes : Decodes stream rest before headers labels
      { conn.reception with reading := [⟨.atLeast 0, .handleChunkedBody toWrite⟩] }) :
    Decodes stream rest before headers (labels ++ [.readDone value])
      (conn.handleChunkedBody .success toWrite).reception := by
  rcases decodes with ⟨taken, reads, total, invariant, headersEq, lines, sum, read, announced,
    phase, bound⟩
  have nothing : received (labels ++ [Event.readDone value]) = received labels := by
    simp [Event.received]
  cases phase with
  | @body count position size body line tail due split goodLine nonzero reading tasks completed
      stored within requestBuf sides =>
      simp only [List.cons.injEq, SocketRead.mk.injEq, ReadCondition.atLeast.injEq,
        ReadHandler.handleChunkedBody.injEq, and_true] at reading
      rcases reading with ⟨none, rfl⟩
      have enough : size + 2 ≤ conn.requestBuf.length := by
        change 0 = size + 2 - conn.requestBuf.length at none
        omega
      simp only [HttpConnection.handleChunkedBody, ne_eq, not_true_eq_false, if_false,
        goodLine.sizeT_eq]
      rw [reception_putn _ _ nonzero (by omega) (congrArg Prod.snd sides)]
      refine ⟨taken, 2 * count + 2, body.length + size, invariant, headersEq, lines, sum, read,
        announced, ?_, ?_⟩
      · rw [nothing]
        refine .writing due split goodLine nonzero idle ?_ completed stored within requestBuf
          enough sides
        change conn.tasks.filter Task.receives = [] at tasks
        simp [reception, tasks]
      · rw [countP_snoc, nothing]
        simp only [Event.readsSocket, Bool.toNat_true]
        omega
  | header _ reading | writing _ _ _ _ reading | complete _ _ _ reading | failed _ reading =>
      simp at reading

/-- Any handler of the loop after an error. -/
theorem complete_error {conn : HttpConnection} {ec : ErrorCode} (idle : conn.reading = [])
    (read : SocketRead)
    (decodes : Decodes stream rest before headers labels
      { conn.reception with reading := [read] }) :
    Decodes stream rest before headers (labels ++ [.readError ec]) (conn.complete 0).reception := by
  rcases decodes with ⟨taken, reads, total, invariant, headersEq, lines, sum, read, announced,
    phase, bound⟩
  have quiet : conn.reception.tasks = [] ∧ conn.reception.completed = before := by
    cases phase with
    | header _ _ tasks completed => exact ⟨tasks, completed⟩
    | body _ _ _ _ _ tasks completed => exact ⟨tasks, completed⟩
    | writing _ _ _ _ reading | complete _ _ _ reading | failed _ reading => simp at reading
  rw [reception_complete]
  refine ⟨taken, reads + 1, total, Session.invariant_exec invariant (.close false true) trivial,
    headersEq, lines, sum, read, announced, .failed ec idle quiet.1 ?_ (by simp), ?_⟩
  · exact congrArg (· ++ [0]) quiet.2
  · rw [countP_snoc, received_snoc]
    simp only [Event.readsSocket, Event.received, Bool.toNat_true, List.append_nil]
    omega

/-- The task of `putn`, and `handle_chunked_body_buff_write` after it. -/
theorem runTask {conn : HttpConnection} {task : Task} {others : List Task}
    (arrived : rest ++ received labels <+: stream) (tasks : conn.tasks = task :: others)
    (ours : task.receives = true)
    (decodes : Decodes stream rest before headers labels conn.reception) :
    Decodes stream rest before headers (labels ++ [.runTask])
      (HttpConnection.runTask { conn with tasks := others } task).reception := by
  rcases decodes with ⟨taken, reads, total, invariant, headersEq, lines, sum, read, announced,
    phase, bound⟩
  have pending : conn.reception.tasks = task :: others.filter Task.receives := by
    simp [reception, tasks, ours]
  have nothing : received (labels ++ [Event.runTask]) = received labels := by
    simp [Event.received]
  cases phase with
  | @writing count position size body line tail due split goodLine nonzero reading taskEq completed
      stored within requestBuf enough sides =>
      change conn.requestBuf = _ at requestBuf
      change conn.read = _ at read
      change size + 2 ≤ conn.requestBuf.length at enough
      change conn.request.stream.buffer.sides = (true, true) at sides
      change conn.request.stream.buffer.Invariant at invariant
      change conn.request.stream.stored = body at stored
      change conn.reading = [] at reading
      have tailEq : stream.drop (position + (line.length + 2)) = tail := by
        rw [← List.drop_drop, split]
        exact List.drop_left' (by simp [crlf])
      have front : conn.requestBuf <+: tail := tailEq ▸ requestBuf ▸ arrived.drop _
      have advanced := due.take split goodLine nonzero front enough
      have length : (conn.requestBuf.take size).length = size := by
        rw [List.length_take]
        omega
      have bodyLength : (body ++ conn.requestBuf.take size).length = body.length + size := by
        rw [List.length_append, length]
      obtain ⟨taskIs, quiet⟩ := List.cons.inj (taskEq.symm.trans pending)
      obtain rfl : task = .putn (conn.requestBuf.take size) .handleChunkedBodyBuffWrite :=
        taskIs.symm
      have written : (conn.request.stream.buffer.write (conn.requestBuf.take size)).1 = size := by
        rw [ProducerConsumerBuffer.write_count invariant.consistent (congrArg Prod.fst sides)
          (congrArg Prod.snd sides) (List.ne_nil_of_length_pos (by omega)), length]
      have behind : (rest ++ received labels).drop (position + (line.length + 2) + (size + 2)) =
          conn.requestBuf.drop (2 + size) := by
        rw [requestBuf, List.drop_drop, Nat.add_comm 2 size]
      simp only [HttpConnection.runTask, runBufWrite]
      rw [← bodyLength] at sum read
      rw [written, reception_handleChunkedBodyBuffWrite _ nonzero]
      refine ⟨taken, 2 * (count + 1), (body ++ conn.requestBuf.take size).length,
        Session.invariant_exec invariant (.write _) trivial, headersEq, lines, sum, read,
        .before advanced, ?_, ?_⟩
      · rw [nothing]
        refine .header advanced ?_ quiet.symm completed ?_ ?_ behind.symm ?_
        · simp only [reading, List.nil_append]
        · exact (Session.stored_exec_write sides _).trans
            (congrArg (· ++ conn.requestBuf.take size) stored)
        · have := congrArg List.length requestBuf
          rw [List.length_drop] at this
          omega
        · exact (Session.sides_exec_write _ _).trans sides
      · rw [countP_snoc, nothing]
        simp only [Event.readsSocket, Bool.toNat_false]
        omega
  | header _ _ tasks | body _ _ _ _ _ tasks | complete _ _ _ _ tasks | failed _ _ tasks =>
      simp [tasks] at pending

theorem requestOp {conn : HttpConnection} {op : Op UInt8 ℕ} (consumes : op.Consumes)
    (legal : op.Legal conn.request.stream.buffer)
    (decodes : Decodes stream rest before headers labels conn.reception) :
    Decodes stream rest before headers (labels ++ [.requestOp op])
      (conn.requestOp op).reception := by
  rcases decodes.later (.requestOp op) rfl rfl with ⟨taken, reads, total, invariant, headersEq,
    lines, sum, read, announced, phase, bound⟩
  exact ⟨taken, reads, total, Session.invariant_exec invariant op legal, headersEq, lines, sum,
    read, announced,
    phase.with_stream (Session.stored_exec_consumes _ consumes) (consumes.sides_eq _), bound⟩

/-- A response that ends while the body is incomplete is an interruption. -/
theorem goesOn {getReqHandler : Bytes → Option ℕ} {conn next : HttpConnection} {event : Event}
    (decodes : Decodes stream rest before headers labels conn.reception)
    (step : (uninterrupted (requestSystem getReqHandler before)).step conn event next) :
    conn.restarts event = false := by
  refine goesOn_of_receivesBody step fun incomplete => ?_
  rcases decodes with ⟨taken, reads, total, decoding⟩
  cases decoding.phase with
  | header _ reading =>
      change conn.reading = _ at reading
      simp [receivesBody, reading, SocketRead.readsHead]
  | body _ _ _ _ reading =>
      change conn.reading = _ at reading
      simp [receivesBody, reading, SocketRead.readsHead]
  | writing _ _ _ _ _ tasks =>
      change conn.tasks.filter Task.receives = _ at tasks
      have receives := List.mem_filter.mp (tasks ▸ List.mem_singleton_self _)
      rw [receivesBody, List.any_eq_true.mpr ⟨_, receives⟩, Bool.or_true]
  | complete _ _ _ _ _ completed =>
      change conn.log.completed = _ at completed
      simp [incomplete] at completed
  | failed _ _ _ completed =>
      change conn.log.completed = _ at completed
      simp [incomplete] at completed

theorem step {getReqHandler : Bytes → Option ℕ} {conn next : HttpConnection} {event : Event}
    (good : GoodChunks stream) (arrived : rest ++ received labels <+: stream)
    (decodes : Decodes stream rest before headers labels conn.reception)
    (step : (uninterrupted (requestSystem getReqHandler before)).step conn event next) :
    Decodes stream rest before headers (labels ++ [event]) next.reception := by
  have goesOn := decodes.goesOn step
  cases reception_step step.2.2 with
  | receive nonempty reading unmet =>
      simp only [HttpConnection.receive, reading]
      exact decodes.receive nonempty reading
  | readDone reading met =>
      rcases decodes with ⟨taken, reads, total, decoding⟩
      rcases decoding.phase.of_reading reading with ⟨rfl, rfl⟩ | ⟨left, toWrite, rfl, rfl⟩
      · simp only [HttpConnection.readDone, reading, runReadHandler]
        refine handleChunkedHeader good arrived rfl met ⟨taken, reads, total, ?_⟩
        simpa [reception, reading] using decoding
      · obtain rfl : left = 0 := by simpa [ReadCondition.met] using met
        simp only [HttpConnection.readDone, reading, runReadHandler]
        refine handleChunkedBody rfl ⟨taken, reads, total, ?_⟩
        simpa [reception, reading] using decoding
  | readError error reading =>
      rcases decodes with ⟨taken, reads, total, decoding⟩
      rcases decoding.phase.of_reading reading with ⟨rfl, rfl⟩ | ⟨left, toWrite, rfl, rfl⟩
      · simp only [HttpConnection.readDone, reading, runReadHandler,
          HttpConnection.handleChunkedHeader, if_pos error]
        refine complete_error rfl ⟨.untilCrlf, .handleChunkedHeader⟩ ⟨taken, reads, total, ?_⟩
        simpa [reception, reading] using decoding
      · simp only [HttpConnection.readDone, reading, runReadHandler,
          HttpConnection.handleChunkedBody, if_pos error]
        refine complete_error rfl ⟨.atLeast left, .handleChunkedBody toWrite⟩
          ⟨taken, reads, total, ?_⟩
        simpa [reception, reading] using decoding
  | runTask tasks ours => exact decodes.runTask arrived tasks ours
  | requestOp legal => exact decodes.requestOp step.2.1.1 legal
  | restart restarts => simp [goesOn] at restarts
  | elsewhere _ silent noRead same =>
      rw [same]
      exact decodes.later event silent noRead

end Decodes

namespace HttpConnection

variable {getReqHandler : Bytes → Option ℕ} {reached start conn next : HttpConnection}
  {labels : List Event} {stream : Bytes}

/-- `handle_headers` starts the loop when the body is chunked. -/
theorem reception_headersRead_chunked
    (chunked : (headersRead getReqHandler conn).chunked = true) :
    (headersRead getReqHandler conn).reception =
      { conn.reception with
        stream := Session.new 512
        reading := conn.reading ++ [⟨.untilCrlf, .handleChunkedHeader⟩] } := by
  simp only [headersRead] at chunked ⊢
  split at chunked
  · next isChunked =>
      rw [if_pos isChunked, reception_dispatchRequestToListener]
      rfl
  · next notChunked =>
      rw [chunked_dispatchRequestToListener] at chunked
      generalize (if (conn.request.headers.matchSize HeaderNames.contentLength
            conn.readSize).1 = true
          then (conn.request.headers.matchSize HeaderNames.contentLength conn.readSize).2
          else 0) = size at chunked
      by_cases empty : size = 0
      · rw [if_pos empty] at chunked
        exact absurd chunked notChunked
      · rw [if_neg empty] at chunked
        simp only [asyncReadUntilBuffersize] at chunked
        split at chunked <;> exact absurd chunked notChunked

/-- The loop starts with what was buffered behind the head. -/
theorem TakesRequest.decodes (takes : TakesRequest getReqHandler reached start)
    (reachable : (uninterrupted (system getReqHandler)).Reachable .new reached)
    (chunked : start.chunked = true) (stream : Bytes) :
    Decodes stream start.requestBuf start.log.completed start.log.chunkHeaders []
      start.reception := by
  rcases takes.rested reachable with ⟨conn, rfl, idle, quiet, read, -⟩
  have after := reception_headersRead_chunked chunked
  have requestBuf : (headersRead getReqHandler conn).requestBuf = conn.requestBuf :=
    congrArg Reception.requestBuf after
  have completed : (headersRead getReqHandler conn).log.completed = conn.log.completed :=
    congrArg Reception.completed after
  have chunkHeaders : (headersRead getReqHandler conn).log.chunkHeaders =
      conn.log.chunkHeaders := congrArg Reception.chunkHeaders after
  rw [after, requestBuf, completed, chunkHeaders]
  refine ⟨[], 0, 0, ProducerConsumerBuffer.new_invariant 512, by simp [reception], nofun, rfl,
    read, .before .start, .header .start ?_ quiet rfl rfl (Nat.zero_le _) ?_ rfl, by simp⟩
  · simp [idle]
  · simp [reception]

/-- The run lemma: the invariant holds as long as what arrives is a prefix of a stream of good
chunks. -/
theorem RequestRun.Undisturbed.decodes {request : RequestRun getReqHandler}
    (undisturbed : request.Undisturbed) (chunked : request.start.chunked = true)
    (good : GoodChunks stream)
    (arrived : request.start.requestBuf ++ received request.labels <+: stream) :
    Decodes stream request.start.requestBuf request.start.log.completed
      request.start.log.chunkHeaders request.labels request.next.reception := by
  refine undisturbed.since.history
    (fun labels conn => request.start.requestBuf ++ received labels <+: stream →
      Decodes stream request.start.requestBuf request.start.log.completed
        request.start.log.chunkHeaders labels conn.reception) ?_ ?_ arrived
  · intro _
    exact request.takes.decodes undisturbed.before chunked stream
  · intro labels conn event next decodes step arrived
    have earlier : request.start.requestBuf ++ received labels <+: stream := by
      rw [received_snoc, ← List.append_assoc] at arrived
      exact (List.prefix_append _ _).trans arrived
    exact (decodes earlier).step good earlier step

/-! ### The first request of a connection, and its second -/

def chunkedHead : Bytes :=
  ascii "POST / HTTP/1.1" ++ crlf ++ ascii "Transfer-Encoding: chunked" ++ crlf ++ crlf

def chunkedReached : HttpConnection :=
  HttpConnection.new.run anyHandler [.receive chunkedHead]

/-- A request with a chunked body, of which nothing has arrived. -/
def chunkedStart : HttpConnection :=
  exec anyHandler chunkedReached (.readDone 0)

/-- Whatever happens next. -/
def chunkedRequest {labels : List Event} {next : HttpConnection}
    (run : (requestSystem anyHandler []).Run chunkedStart labels next) : RequestRun anyHandler where
  reached := chunkedReached
  start := chunkedStart
  labels := labels
  next := next
  reachable := by
    have legal : LegalRun anyHandler HttpConnection.new [.receive chunkedHead] := by
      decide +kernel
    exact ⟨_, legal.run⟩
  takes := ⟨by decide +kernel, ⟨⟨.untilHead 0, .handleHttpLine⟩, [], by decide +kernel, rfl, rfl⟩,
    by decide +kernel⟩
  run := by
    have none : chunkedStart.log.completed = [] := by decide +kernel
    exact none ▸ run

theorem first_chunkedRequest {labels : List Event} {next : HttpConnection}
    (run : (requestSystem anyHandler []).Run chunkedStart labels next) :
    (chunkedRequest run).First := by
  change chunkedReached.request.initiatedResponse = false
  decide +kernel

theorem chunkedStart_stream : chunkedStart.request.stream = Session.new 512 := by
  rcases (chunkedRequest (.nil _)).takes.eq_headersRead with ⟨conn, is, -⟩
  have chunked : (headersRead anyHandler conn).chunked = true := by
    rw [← is]
    change chunkedStart.chunked = true
    decide +kernel
  have after := congrArg Reception.stream (reception_headersRead_chunked chunked)
  rw [← is] at after
  exact after

def keptChunkedReached : HttpConnection :=
  exec anyHandler keptOpen (.receive chunkedHead)

def keptChunkedStart : HttpConnection :=
  exec anyHandler keptChunkedReached (.readDone 0)

/-- A chunk arrives, the response to the first request is sent once more, and the last chunk
arrives. -/
def keptChunkedEvents : List Event :=
  [.receive (ascii "2" ++ crlf ++ ascii "hi" ++ crlf), .runTask, .readDone 0, .readDone 0, .runTask,
    .writeDone [], .receive (ascii "0" ++ crlf ++ crlf), .readDone 0]

def keptChunked : RequestRun anyHandler where
  reached := keptChunkedReached
  start := keptChunkedStart
  labels := keptChunkedEvents
  next := keptChunkedStart.run anyHandler keptChunkedEvents
  reachable := keptOpen_receive (List.cons_ne_nil _ _)
  takes := ⟨by decide +kernel, ⟨⟨.untilHead 0, .handleHttpLine⟩, [], by decide +kernel, rfl, rfl⟩,
    by decide +kernel⟩
  run := LegalRequest.run (by decide +kernel)

end HttpConnection

end Snode.Http
