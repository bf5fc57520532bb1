import Snode.Http.ChunkedReception

/-!
# Which chunk-size lines are contained

The decoder never checks what extraction made of a chunk-size line.  It stays
within bounds on exactly those streams in which every line that is due is a
good one: from the first other line on, its length or its sum is wrong.
-/

namespace Snode.Http.HttpConnection

open Streams

/-- What `handle_chunked_header` should find and take: a hexadecimal line whose size and two
are an `int`, that size as the length, and the sum of the lengths so far. -/
structure Contained (taken : List (Bytes × Int)) (read : ℕ) : Prop where
  lines : TakesGoodLines taken
  sum : (taken.map Prod.snd).sum = read

/-- Every line that is due and complete is hexadecimal, in range of `int` with the two bytes
behind the data, and does not take the sum out of `size_t`. -/
def ContainedLines (stream : Bytes) : Prop :=
  ∀ count position body, AtLine stream count position body →
    containsPattern crlf (stream.drop position) = true →
      ∃ line size tail, GoodLine line size ∧ body.length + size < 2 ^ 64 ∧
        stream.drop position = line ++ crlf ++ tail

/-- In every run of a kind on the stream, and however it arrives, every line the decoder takes is
a hexadecimal size in range, taken at its value, and the sum is exact. -/
def ContainsChunks (kind : ∀ {getReqHandler : Bytes → Option ℕ}, RequestRun getReqHandler → Prop)
    (stream : Bytes) : Prop :=
  ∀ (getReqHandler : Bytes → Option ℕ) (request : RequestRun getReqHandler),
    kind request → request.start.chunked = true →
    request.start.requestBuf ++ received request.labels <+: stream →
      ∃ taken, request.next.log.chunkHeaders = request.start.log.chunkHeaders ++ taken ∧
        Contained taken request.next.read

/-- Whatever the line is, a length is taken from it and added to the sum. -/
theorem handleChunkedHeader_takes (conn : HttpConnection) (value : Int) :
    let len := ((Istream.new conn.requestBuf).getHexInt value).1
    (conn.handleChunkedHeader .success value).log.chunkHeaders =
        conn.log.chunkHeaders ++ [(conn.requestBuf, len)] ∧
      (conn.handleChunkedHeader .success value).read = sizeT (conn.read + len) := by
  simp only [handleChunkedHeader, ne_eq, not_true_eq_false, if_false]
  split
  · exact ⟨rfl, rfl⟩
  · simp only [asyncReadUntilBuffersize]
    split <;> exact ⟨rfl, rfl⟩

/-- All of the stream is buffered and the decoder stands at a line. -/
structure AllBuffered (stream : Bytes) (position : ℕ) (body : Bytes) (conn : HttpConnection) :
    Prop where
  requestBuf : conn.requestBuf = stream.drop position
  read : conn.read = sizeT body.length
  sum : (conn.log.chunkHeaders.map Prod.snd).sum = body.length
  reading : conn.reading = [⟨.untilCrlf, .handleChunkedHeader⟩]
  tasks : conn.tasks = []
  sides : conn.request.stream.buffer.sides = (true, true)
  invariant : conn.request.stream.buffer.Invariant

/-- The connection when the chunk that is due has been announced, and all of it is buffered. -/
def chunkAnnounced (conn : HttpConnection) (size total : ℕ) (rest : Bytes) : HttpConnection :=
  { conn with
    requestBuf := rest
    read := sizeT total
    reading := [⟨.atLeast 0, .handleChunkedBody size⟩]
    log := { conn.log with
      chunkHeaders := conn.log.chunkHeaders ++ [(conn.requestBuf, (size : Int))] } }

/-- The connection when the chunk is about to be written to the body. -/
def chunkWriting (conn : HttpConnection) (size total : ℕ) (rest : Bytes) : HttpConnection :=
  { conn.chunkAnnounced size total rest with
    reading := []
    tasks := [.putn (rest.take size) .handleChunkedBodyBuffWrite] }

section AllBuffered

variable {getReqHandler : Bytes → Option ℕ} {before : List ℕ} {conn : HttpConnection}
  {stream : Bytes} {position size : ℕ} {body line rest : Bytes}

theorem AllBuffered.step_header (buffered : AllBuffered stream position body conn)
    (split : stream.drop position = line ++ crlf ++ rest) (good : GoodLine line size)
    (nonzero : size ≠ 0) (enough : size + 2 ≤ rest.length) :
    (requestSystem getReqHandler before).step conn (.readDone 0)
      (conn.chunkAnnounced size (body.length + size) rest) := by
  have met : ReadCondition.untilCrlf.met conn.requestBuf = true := by
    rw [buffered.requestBuf, split]
    exact containsPattern_iff.mpr ⟨line, _, rfl⟩
  refine requestSystem_step trivial rfl ⟨by simpa [Legal, ready, buffered.reading] using met, ?_⟩
  obtain ⟨popped, poppedEq⟩ : ∃ popped, popped = { conn with reading := [] } := ⟨_, rfl⟩
  have poppedBuf : popped.requestBuf = line ++ crlf ++ rest := by
    rw [poppedEq]
    exact buffered.requestBuf.trans split
  have poppedRead : popped.read = sizeT body.length := poppedEq ▸ buffered.read
  simp only [exec, readDone, buffered.reading, runReadHandler, ← poppedEq]
  rw [handleChunkedHeader_eq good nonzero poppedBuf poppedRead, asyncReadUntilBuffersize,
    if_pos enough, chunkAnnounced, poppedEq]
  rfl

theorem AllBuffered.step_body (buffered : AllBuffered stream position body conn)
    (good : GoodLine line size) (nonzero : size ≠ 0) (enough : size + 2 ≤ rest.length)
    (total : ℕ) :
    (requestSystem getReqHandler before).step (conn.chunkAnnounced size total rest) (.readDone 0)
      (conn.chunkWriting size total rest) := by
  have canWrite : conn.request.stream.buffer.canWrite = true := congrArg Prod.snd buffered.sides
  have fits : ¬rest.length < size := by omega
  have isOpen : ¬(!conn.request.stream.buffer.canWrite) = true := by simp [canWrite]
  refine requestSystem_step trivial rfl
    ⟨by simp [Legal, ready, chunkAnnounced, ReadCondition.met], ?_⟩
  simp only [exec, readDone, chunkAnnounced, runReadHandler, handleChunkedBody, ne_eq,
    not_true_eq_false, if_false, good.sizeT_eq, putn, if_neg nonzero, if_neg isOpen, if_neg fits,
    connect, buffered.tasks, List.nil_append, chunkWriting]

theorem AllBuffered.next {payload delimiter tail : Bytes}
    (buffered : AllBuffered stream position body conn)
    (split : stream.drop position = line ++ crlf ++ (payload ++ (delimiter ++ tail)))
    (good : GoodLine line size) (nonzero : size ≠ 0) (length : payload.length = size)
    (delimited : delimiter.length = 2) :
    ∃ next,
      (requestSystem getReqHandler before).Run conn [.readDone 0, .readDone 0, .runTask] next ∧
      AllBuffered stream (position + (line.length + 2) + (size + 2)) (body ++ payload) next := by
  obtain ⟨rest, restEq⟩ : ∃ rest, rest = payload ++ (delimiter ++ tail) := ⟨_, rfl⟩
  rw [← restEq] at split
  have enough : size + 2 ≤ rest.length := by
    simp only [restEq, List.length_append, length, delimited]
    omega
  have taken : rest.take size = payload := by
    rw [restEq]
    exact List.take_left' length
  have canWrite : conn.request.stream.buffer.canWrite = true := congrArg Prod.snd buffered.sides
  have written : (conn.request.stream.buffer.write payload).1 = size := by
    rw [ProducerConsumerBuffer.write_count buffered.invariant.consistent
      (congrArg Prod.fst buffered.sides) canWrite (List.ne_nil_of_length_pos (by omega)), length]
  have toBody : (requestSystem getReqHandler before).step conn (.readDone 0)
      (conn.chunkAnnounced size (body.length + size) rest) :=
    buffered.step_header split good nonzero enough
  have toWrite : (requestSystem getReqHandler before).step
      (conn.chunkAnnounced size (body.length + size) rest) (.readDone 0)
      (conn.chunkWriting size (body.length + size) rest) :=
    buffered.step_body good nonzero enough _
  obtain ⟨atWrite, atWriteEq⟩ : ∃ atWrite, atWrite =
      conn.chunkWriting size (body.length + size) rest := ⟨_, rfl⟩
  rw [← atWriteEq] at toWrite
  simp only [chunkWriting, chunkAnnounced, taken] at atWriteEq
  have toNext : (requestSystem getReqHandler before).step atWrite .runTask
      (runTask { atWrite with tasks := [] } (.putn payload .handleChunkedBodyBuffWrite)) := by
    refine requestSystem_step trivial rfl ⟨by simp [Legal, atWriteEq], ?_⟩
    simp only [exec, runNextTask, atWriteEq]
  refine ⟨_, .snoc (.snoc (.single toBody) toWrite) toNext, ?_⟩
  have kept : atWrite.request.stream = conn.request.stream := by rw [atWriteEq]
  simp only [runTask, runBufWrite, kept, written, handleChunkedBodyBuffWrite, if_pos nonzero]
  refine ⟨?_, ?_, ?_, ?_, rfl, (Session.sides_exec_write _ _).trans buffered.sides,
    Session.invariant_exec buffered.invariant (.write payload) trivial⟩
  · have lineLength : (line ++ crlf).length = line.length + 2 := by simp [crlf]
    have behind : stream.drop (position + (line.length + 2)) = rest := by
      rw [← List.drop_drop, split, List.drop_left' lineLength]
    simp only [asyncRead, consumeRequest, atWriteEq]
    rw [Nat.add_comm 2 size, ← behind, List.drop_drop]
  · simp only [asyncRead, consumeRequest, atWriteEq, List.length_append, length]
  · simp [asyncRead, consumeRequest, atWriteEq, buffered.sum, length]
  · simp only [asyncRead, consumeRequest, atWriteEq, List.nil_append]

end AllBuffered

theorem AllBuffered.of_atLine {stream : Bytes} {count position : ℕ} {body : Bytes}
    (due : AtLine stream count position body) (nonempty : stream ≠ []) :
    ∃ labels conn, (requestSystem anyHandler []).Run chunkedStart labels conn ∧
      received labels = stream ∧ AllBuffered stream position body conn := by
  induction due with
  | start =>
      have start : chunkedStart.socketOpen = true ∧ chunkedStart.waiting = true ∧
          chunkedStart.requestBuf = [] ∧ chunkedStart.read = 0 ∧
          chunkedStart.log.chunkHeaders = [] ∧
          chunkedStart.reading = [⟨.untilCrlf, .handleChunkedHeader⟩] ∧
          chunkedStart.tasks = [] := by
        decide +kernel
      rcases start with ⟨isOpen, waiting, requestBuf, read, chunkHeaders, reading, tasks⟩
      have session := chunkedStart_stream
      have step : (requestSystem anyHandler []).step chunkedStart (.receive stream)
          (chunkedStart.receive stream) :=
        requestSystem_step trivial rfl ⟨⟨isOpen, waiting, nonempty⟩, rfl⟩
      refine ⟨[.receive stream], _, Lts.Run.single step, by simp [received, Event.received], ?_⟩
      simp only [receive, reading]
      refine ⟨?_, read, ?_, rfl, tasks, ?_, ?_⟩
      · simp [requestBuf]
      · simp [chunkHeaders]
      · simp only [session]
        rfl
      · simp only [session]
        exact ProducerConsumerBuffer.new_invariant 512
  | next due split good nonzero length delimited ih =>
      rcases ih with ⟨labels, conn, run, all, buffered⟩
      rcases buffered.next split good nonzero length delimited with ⟨next, more, advanced⟩
      refine ⟨labels ++ [.readDone 0, .readDone 0, .runTask], next, run.append more, ?_, advanced⟩
      simp [received, Event.received] at all ⊢
      exact all

/-- No sum leaves `size_t`. -/
theorem ContainedLines.announced {stream : Bytes} (lines : ContainedLines stream) {total : ℕ}
    (announced : AnnouncedTotal stream total) : total < 2 ^ 64 := by
  have bounded {count position size : ℕ} {body line tail : Bytes}
      (due : AtLine stream count position body)
      (split : stream.drop position = line ++ crlf ++ tail) (good : GoodLine line size) :
      body.length + size < 2 ^ 64 := by
    have complete : containsPattern crlf (stream.drop position) = true := by
      rw [split]
      exact containsPattern_iff.mpr ⟨line, tail, rfl⟩
    rcases lines count position body due complete with ⟨line', size', tail', good', sum, split'⟩
    rcases good.unique good'.numeral (split.symm.trans split') with ⟨-, rfl, -⟩
    exact sum
  cases announced with
  | before due =>
      cases due with
      | start => exact Nat.two_pow_pos 64
      | next due split good nonzero length delimited =>
          rw [List.length_append, length]
          exact bounded due split good
  | after due split good => exact bounded due split good

/-- However it arrives, an undisturbed request with such a body is contained. -/
theorem ContainedLines.contains {stream : Bytes} (lines : ContainedLines stream) :
    ContainsChunks RequestRun.Undisturbed stream := by
  intro getReqHandler request undisturbed chunked arrived
  have good : GoodChunks stream := fun count position body due complete => by
    rcases lines count position body due complete with ⟨line, size, tail, good, -, split⟩
    exact ⟨line, size, tail, good, split⟩
  rcases undisturbed.decodes chunked good arrived with
    ⟨taken, reads, total, -, headersEq, taking, sum, read, announced, -⟩
  refine ⟨taken, headersEq, taking, ?_⟩
  change request.next.read = _ at read
  rw [sum, read, sizeT_of_lt (lines.announced announced)]

/-- A line that is due is taken, in the first request of a connection too. -/
theorem ContainsChunks.lines {stream : Bytes} (contains : ContainsChunks RequestRun.First stream) :
    ContainedLines stream := by
  intro count position body due complete
  have nonempty : stream ≠ [] := by
    rintro rfl
    simp [containsPattern, crlf] at complete
  rcases AllBuffered.of_atLine due nonempty with ⟨labels, conn, run, all, buffered⟩
  have step : (requestSystem anyHandler []).step conn (.readDone 0)
      (conn.readDone anyHandler .success 0) := by
    refine requestSystem_step trivial rfl ⟨?_, rfl⟩
    simp [Legal, ready, buffered.reading, ReadCondition.met, buffered.requestBuf, complete]
  have start : chunkedStart.chunked = true ∧ chunkedStart.requestBuf = [] ∧
      chunkedStart.log.chunkHeaders = [] := by
    decide +kernel
  have allStill : chunkedStart.requestBuf ++ received (labels ++ [.readDone 0]) <+: stream := by
    rw [received_snoc, all, start.2.1]
    exact ⟨[], by simp [Event.received]⟩
  rcases contains _ (chunkedRequest (run.snoc step)) (first_chunkedRequest _) start.1 allStill with
    ⟨taken, takenEq, contained⟩
  have takes := handleChunkedHeader_takes { conn with reading := [] } 0
  obtain ⟨len, lenEq⟩ : ∃ len, len = ((Istream.new conn.requestBuf).getHexInt 0).1 := ⟨_, rfl⟩
  simp only [← lenEq] at takes
  have nextEq : (chunkedRequest (run.snoc step)).next =
      handleChunkedHeader { conn with reading := [] } .success 0 := by
    change conn.readDone anyHandler .success 0 = _
    simp only [readDone, buffered.reading, runReadHandler]
  obtain rfl : taken = conn.log.chunkHeaders ++ [(conn.requestBuf, len)] := by
    change _ = chunkedStart.log.chunkHeaders ++ taken at takenEq
    rw [nextEq, takes.1, start.2.2] at takenEq
    exact takenEq.symm
  rcases contained.lines (conn.requestBuf, len) (by simp) with
    ⟨line, size, tail, split, good, lenIs⟩
  refine ⟨line, size, tail, good, ?_, buffered.requestBuf.symm.trans split⟩
  have sum := contained.sum
  change len = size at lenIs
  rw [nextEq, takes.2, List.map_append, List.sum_append, buffered.sum, buffered.read] at sum
  simp only [List.map_cons, List.map_nil, List.sum_cons, List.sum_nil, lenIs, sizeT] at sum
  omega

/-- The decoder contains a stream exactly when every line that is due in it is hexadecimal and
in range, as long as no response ends while it arrives.  In the first request of a connection
none does. -/
theorem containsChunks_iff (stream : Bytes) :
    (ContainsChunks RequestRun.Undisturbed stream ↔ ContainedLines stream) ∧
      (ContainsChunks RequestRun.First stream ↔ ContainedLines stream) := by
  have narrower (contains : ContainsChunks RequestRun.Undisturbed stream) :
      ContainsChunks RequestRun.First stream :=
    fun getReqHandler request first => contains getReqHandler request first.undisturbed
  refine ⟨⟨fun contains => (narrower contains).lines, ContainedLines.contains⟩,
    ⟨ContainsChunks.lines, fun lines => narrower lines.contains⟩⟩

/-- A line that is no number is taken as the last chunk; and while a stream of good lines arrives
the end of a response clears the sum. -/
theorem not_containsChunks :
    ¬ContainsChunks RequestRun.First (ascii "xyz" ++ crlf) ∧
      ¬ContainsChunks (fun _ => True)
        (ascii "2" ++ crlf ++ ascii "hi" ++ crlf ++ ascii "0" ++ crlf ++ crlf) := by
  refine ⟨?_, ?_⟩
  · intro contains
    have legal : LegalRequest anyHandler [] chunkedStart
        [.receive (ascii "xyz" ++ crlf), .readDone 0] := by
      decide +kernel
    have start : chunkedStart.chunked = true ∧ chunkedStart.requestBuf = [] ∧
        chunkedStart.log.chunkHeaders = [] := by
      decide +kernel
    have arrived : chunkedStart.requestBuf ++
        received [.receive (ascii "xyz" ++ crlf), .readDone 0] <+: ascii "xyz" ++ crlf := by
      rw [start.2.1]
      exact ⟨[], by decide⟩
    rcases contains _ (chunkedRequest legal.run) (first_chunkedRequest _) start.1 arrived with
      ⟨taken, takenEq, contained⟩
    have headers : (chunkedStart.run anyHandler
        [.receive (ascii "xyz" ++ crlf), .readDone 0]).log.chunkHeaders =
          [(ascii "xyz" ++ crlf, 0)] := by
      decide +kernel
    obtain rfl : taken = [(ascii "xyz" ++ crlf, 0)] := by
      change _ = chunkedStart.log.chunkHeaders ++ taken at takenEq
      rw [start.2.2] at takenEq
      exact takenEq.symm.trans headers
    rcases contained.lines _ (List.mem_singleton_self _) with ⟨line, size, tail, split, good, -⟩
    rcases line with _ | ⟨first, rest⟩
    · exact good.numeral.nonempty rfl
    · have firstIs : (120 : UInt8) = first := (List.cons.inj split).1
      have digit : (hexDigit? first).isSome = true :=
        good.numeral.isSome List.mem_cons_self
      rw [← firstIs] at digit
      exact absurd digit (by decide)
  · intro contains
    have start : keptChunkedStart.chunked = true ∧ keptChunkedStart.requestBuf = [] ∧
        keptChunkedStart.log.chunkHeaders = [] := by
      decide +kernel
    have next : (keptChunkedStart.run anyHandler keptChunkedEvents).log.chunkHeaders =
          [(ascii "2" ++ crlf ++ ascii "hi" ++ crlf, 2), (ascii "0" ++ crlf ++ crlf, 0)] ∧
        (keptChunkedStart.run anyHandler keptChunkedEvents).read = 0 := by
      decide +kernel
    have arrived : keptChunkedStart.requestBuf ++ received keptChunkedEvents <+:
        ascii "2" ++ crlf ++ ascii "hi" ++ crlf ++ ascii "0" ++ crlf ++ crlf := by
      rw [start.2.1]
      exact ⟨[], by decide⟩
    rcases contains _ keptChunked trivial start.1 arrived with ⟨taken, takenEq, contained⟩
    obtain rfl : taken =
        [(ascii "2" ++ crlf ++ ascii "hi" ++ crlf, 2), (ascii "0" ++ crlf ++ crlf, 0)] := by
      change _ = keptChunkedStart.log.chunkHeaders ++ taken at takenEq
      rw [start.2.2] at takenEq
      exact takenEq.symm.trans next.1
    have sum := contained.sum
    change _ = ((keptChunkedStart.run anyHandler keptChunkedEvents).read : Int) at sum
    rw [next.2] at sum
    revert sum
    decide

end Snode.Http.HttpConnection
