import Snode.Http.HeaderMap
import Snode.Http.LargeResponse

/-!
# When a body of known length is sent

The loop over a body of known length, started by `async_process_response`,
sends the body and ends, unless it comes to read a last chunk of one character.
`ev_request::complete` hands that character to the handler in the place of a
count, and copies nothing.
-/

namespace Snode.Http

open Streams

namespace HttpConnection

/-- A connection about to send a response whose length is known and whose body is all there. -/
structure SendsBody (conn : HttpConnection) (response : HttpResponse) (body : Bytes) : Prop where
  writing : conn.writing = []
  tasks : ∀ task ∈ conn.tasks, task.answers = false ∧ task.sends = false
  socketOpen : conn.socketOpen = true
  contentLength : (conn.responses response).headers.matchSize HeaderNames.contentLength 0 =
    (true, body.length)
  unchunked : (conn.responses response).headers.matchString HeaderNames.transferEncoding [] ≠
    (true, ascii "chunked")
  hasInstream : (conn.responses response).hasInstream = true
  stream : ∃ allocSize, (Session.system UInt8 BufReadHandler).Reachable (.new allocSize)
    (conn.responses response).body
  readable : (conn.responses response).body.buffer.canRead = true
  closed : (conn.responses response).body.buffer.canWrite = false
  unread : (conn.responses response).body.buffer.unread = body

/-- What sending a body of known length is to come to: how far it has got, and where it stands
when nothing of it is under way any more. -/
structure LargeEmitted (body : Bytes) (start next : HttpConnection) (writes : ℕ) : Prop where
  writeSize : next.writeSize = body.length
  bounded : next.write ≤ next.writeSize
  inOrder : next.log.sent <+: start.log.sent ++ (start.responseBuf ++ body)
  ends : next.log.sendCompleted = start.log.sendCompleted ∧
      (next.writing ≠ [] ∨ ∃ task ∈ next.tasks, task.sends = true) ∨
    next.log.sendCompleted = start.log.sendCompleted ++ [.success] ∧
      next.write = next.writeSize ∧
      next.log.sent = start.log.sent ++ (start.responseBuf ++ body)
  counted : writes ≤ (body.length + (chunkSize - 1)) / chunkSize + 1

variable {response : HttpResponse} {body : Bytes} {conn : HttpConnection}

theorem SendsBody.word (sends : SendsBody conn response body) : body.length < 2 ^ 64 :=
  HttpHeaders.matchSize_lt (by simp) sends.contentLength

theorem SendsBody.started (sends : SendsBody conn response body) :
    let start := conn.asyncProcessResponse response
    start.exchange.tasks = [] ∧ LargeBody body (start.emission response) ∧
      LargeWriting response body (start.emission response) 0 (start.emission response) ∧
      start.write = 0 ∧ start.socketOpen = true := by
  intro start
  rcases sends.stream with ⟨allocSize, reachable⟩
  rcases atEnd_reachable wideTraits_uint8 reachable with ⟨invariant, atEnd⟩
  have sameBody : (start.emission response).body = (conn.responses response).body :=
    emission_asyncProcessResponse_body conn response
  have unchunked : start.chunked = false := by
    have different := sends.unchunked
    simp only [ne_eq, Prod.ext_iff, not_and] at different
    have notEncoded : (((conn.responses response).headers.matchString
        HeaderNames.transferEncoding []).1 &&
        ((conn.responses response).headers.matchString HeaderNames.transferEncoding []).2 ==
          ascii "chunked") = false := by
      by_contra both
      simp only [Bool.not_eq_false, Bool.and_eq_true, beq_iff_eq] at both
      exact different both.1 both.2
    simp [start, asyncProcessResponse, asyncWrite, sends.contentLength, notEncoded]
  rcases filter_tasks_eq_nil sends.tasks with ⟨answersNone, sendsNone⟩
  have noneWritten : 0 = (0 + (chunkSize - 1)) / chunkSize := rfl
  refine ⟨answersNone, ⟨sameBody ▸ invariant, sameBody ▸ atEnd, sameBody ▸ sends.readable,
    sameBody ▸ sends.closed, ?_, ?_, unchunked⟩,
    ⟨.inl ?_, sendsNone, Nat.zero_le _, .inr rfl, ?_, ?_, rfl, noneWritten⟩, rfl,
    sends.socketOpen⟩
  · rw [sameBody]
    exact ProducerConsumerBuffer.requests_eq_nil_of_closed invariant.blocked sends.closed
  · exact congrArg Prod.snd sends.contentLength
  · exact congrArg (· ++ [WriteHandler.handleHeadersWritten response]) sends.writing
  · exact congrArg (_ ++ ·) (List.append_nil _).symm
  · exact (congrArg (fun body => body.buffer.unread) sameBody).trans sends.unread

/-! ### Bodies that are sent -/

theorem LargeSending.emitted {start next : HttpConnection} {writes : ℕ}
    (sending : LargeSending response body (start.emission response) writes next) :
    LargeEmitted body start next writes := by
  rcases sending with ⟨-, large, phase⟩
  have writeSize : next.writeSize = body.length := large.writeSize
  have taken (count : ℕ) : start.log.sent ++ (start.responseBuf ++ body.take count) <+:
      start.log.sent ++ (start.responseBuf ++ body) :=
    (List.prefix_append_right_inj _).mpr
      ((List.prefix_append_right_inj _).mpr (List.take_prefix _ _))
  have fewer {write : ℕ} (within : write ≤ body.length) :
      (write + (chunkSize - 1)) / chunkSize ≤ (body.length + (chunkSize - 1)) / chunkSize :=
    Nat.div_le_div_right (Nat.add_le_add_right within _)
  rcases phase with phase | ⟨count, phase⟩ | phase
  · have written : next.write ≤ body.length := phase.written
    refine ⟨writeSize, writeSize ▸ written, ?_, .inl ⟨phase.completed, .inl ?_⟩, ?_⟩
    · have sent : next.log.sent ++ next.responseBuf =
          start.log.sent ++ (start.responseBuf ++ body.take next.write) := phase.sent
      exact (sent ▸ List.prefix_append _ _).trans (taken _)
    · rcases phase.writing with writing | writing
      all_goals exact ne_of_eq_of_ne writing (List.cons_ne_nil _ _)
    · exact (phase.counted ▸ fewer phase.written).trans (Nat.le_succ _)
  · have more : next.write < body.length := phase.more
    refine ⟨writeSize, writeSize ▸ more.le, ?_, .inl ⟨phase.completed, .inr ?_⟩, ?_⟩
    · have sent : next.log.sent =
          start.log.sent ++ (start.responseBuf ++ body.take next.write) := phase.sent
      exact sent ▸ taken _
    · have present : Task.bufRead (.handleLargeResponseBuffRead response) (.size count) ∈
          next.tasks.filter Task.sends := by
        have tasks : next.tasks.filter Task.sends = _ := phase.tasks
        simp [tasks]
      exact ⟨_, List.mem_filter.mp present⟩
    · rw [phase.counted]
      exact Nat.succ_le_succ (fewer more.le)
  · have written : next.write = body.length := phase.written
    have sent : next.log.sent = start.log.sent ++ (start.responseBuf ++ body) := phase.sent
    exact ⟨writeSize, (written.trans writeSize.symm).le, sent ▸ List.prefix_rfl,
      .inr ⟨phase.completed, written.trans writeSize.symm, sent⟩, phase.counted.le⟩

/-! ### A last character by itself -/

/-- The last character has been handed over in the place of a count. -/
structure CharacterRead (response : HttpResponse) (body : Bytes) (start : Emission)
    (character : UInt8) (emission : Emission) : Prop where
  writing : emission.writing = []
  tasks : emission.tasks =
    [.bufRead (.handleLargeResponseBuffRead response) (.ch (.char character))]
  putArea : emission.putArea = zeroed
  emptied : emission.responseBuf = []
  writeSize : emission.writeSize = body.length
  unchunked : emission.chunked = false
  last : body = body.take emission.write ++ [character]
  aligned : emission.write % chunkSize = 0
  sent : emission.sent = start.sent ++ (start.responseBuf ++ body.take emission.write)
  completed : emission.sendCompleted = start.sendCompleted

theorem LargeWriting.single {start : Emission} {writes : ℕ}
    (large : LargeBody body (conn.emission response)) (word : body.length < 2 ^ 64)
    (phase : LargeWriting response body start writes (conn.emission response))
    (last : conn.write + 1 = body.length) :
    ∃ character,
      CharacterRead response body start character ((conn.writeDone zeroed).emission response) := by
  have more : conn.write < body.length := by omega
  rcases phase.asks large word more zeroed with ⟨begun, empty⟩
  have one : min chunkSize (body.length - conn.written.write) = 1 := by
    change min chunkSize (body.length - conn.write) = 1
    simp only [chunkSize]
    omega
  have rest : body.drop conn.write = [body[conn.write]] := by
    rw [List.drop_eq_getElem_cons more, List.drop_eq_nil_of_le last.ge]
  have unread : ((conn.written.prepare zeroed).emission response).body.buffer.unread =
      [body[conn.write]] := phase.unread.trans rest
  rcases getn_one_of_closed large.invariant.consistent large.readable large.closed unread
    (.handleLargeResponseBuffRead response) with
    ⟨refused, completed, served, handlerEq, copied, result⟩
  have tasks : conn.tasks.filter Task.sends = [] := phase.tasks
  refine ⟨body[conn.write], ?_⟩
  rw [begun, one, emission_getnBody]
  have servedHere : ((Op.getn 1 (.handleLargeResponseBuffRead response)).exec
      ((conn.written.prepare zeroed).emission response).body.buffer).completed = [completed] :=
    served
  have refusedHere : (AsyncStreambuf.getn ((conn.written.prepare zeroed).emission
      response).body.buffer 1 (.handleLargeResponseBuffRead response)).2.2 = [] := refused
  simp only [servedHere, refusedHere]
  refine ⟨empty, ?_, ?_, rfl, large.writeSize, large.unchunked, ?_,
    phase.aligned.resolve_left (Nat.ne_of_lt more), phase.sent, phase.completed⟩
  · simp only [List.map_cons, List.map_nil, List.append_nil, bufReadTask, handlerEq, result]
    exact congrArg (· ++ _) tasks
  · simp only [List.foldl_cons, List.foldl_nil, storeCompleted, copied, handlerEq, readOffset,
      ChunkedEncoding.store_zero, List.length_nil, List.drop_zero, List.nil_append]
    rfl
  · exact (List.take_append_drop conn.write body).symm.trans (congrArg (_ ++ ·) rest)

theorem CharacterRead.runBufRead {start : Emission} {character : UInt8}
    (read : CharacterRead response body start character (conn.emission response))
    {rest : List Task}
    (tasks : conn.tasks =
      .bufRead (.handleLargeResponseBuffRead response) (.ch (.char character)) :: rest) :
    let next := HttpConnection.runBufRead { conn with tasks := rest }
      (.handleLargeResponseBuffRead response) (.ch (.char character))
    (character = 0 ∧ next.log.sendCompleted = start.sendCompleted ++ [.ioError]) ∨
      (character ≠ 0 ∧ next.socketOpen = conn.socketOpen ∧
        next.emission response =
          { conn.emission response with
            write := sizeT (conn.write + character.toNat)
            responseBuf := zeroed.take character.toNat
            putArea := zeroed.drop character.toNat
            writing := [.handleWriteLargeResponse response]
            tasks := [] }) := by
  intro next
  have size : completionSize (.ch (.char character)) = character.toNat := by
    have small : character.toNat < 2 ^ 64 := character.toNat_lt.trans (by simp)
    exact sizeT_of_lt small
  have nextEq : next = { conn with tasks := rest }.handleLargeResponseBuffRead character.toNat
      response := by
    simp only [next, HttpConnection.runBufRead, size]
  have completed : conn.log.sendCompleted = start.sendCompleted := read.completed
  by_cases zero : character.toNat = 0
  · refine .inl ⟨UInt8.toNat_inj.mp zero, ?_⟩
    rw [nextEq, handleLargeResponseBuffRead, if_pos zero, ← completed]
    rfl
  · have noOther : rest.filter Task.sends = [] := by
      have only := emission_runTask_sends tasks rfl read.tasks
      exact (List.cons.inj only).2.symm
    have emptied : conn.responseBuf = [] := read.emptied
    have putArea : conn.putArea = zeroed := read.putArea
    have writing : conn.writing = [] := read.writing
    refine .inr ⟨fun same => zero (by simp [same]), ?_, ?_⟩
    · rw [nextEq, handleLargeResponseBuffRead, if_neg zero]
      rfl
    · rw [nextEq, handleLargeResponseBuffRead, if_neg zero]
      simp [emission, commit, asyncWrite, noOther, emptied, putArea, writing]

theorem CharacterRead.length {start emission : Emission} {character : UInt8}
    (read : CharacterRead response body start character emission) :
    emission.write + 1 = body.length := by
  have lengths := congrArg List.length read.last
  simp only [List.length_append, List.length_take, List.length_singleton] at lengths
  omega

/-- The position moves by the character, and does not wrap around. -/
theorem CharacterRead.sizeT_eq {start emission : Emission} {character : UInt8}
    (read : CharacterRead response body start character emission) (word : body.length < 2 ^ 64) :
    sizeT (emission.write + character.toNat) = emission.write + character.toNat := by
  have length := read.length
  have aligned := read.aligned
  have small := character.toNat_lt
  have bound : emission.write + character.toNat < 2 ^ 64 := by
    simp only [chunkSize] at aligned
    omega
  exact_mod_cast sizeT_of_lt bound

/-- When the position is right by chance, memory that was never written is sent. -/
theorem CharacterRead.writeDone_one {start : Emission} {character : UInt8}
    {taken : HttpConnection}
    (read : CharacterRead response body start character (conn.emission response))
    (after : taken.emission response = { conn.emission response with
      write := sizeT (conn.write + character.toNat)
      responseBuf := zeroed.take character.toNat
      putArea := zeroed.drop character.toNat
      writing := [.handleWriteLargeResponse response]
      tasks := [] })
    (one : character.toNat = 1) (atEnd : taken.write = body.length) :
    (taken.writeDone zeroed).log.sent =
      start.sent ++ (start.responseBuf ++ body.take conn.write) ++ [0] := by
  have writing : taken.writing = [.handleWriteLargeResponse response] :=
    congrArg Emission.writing after
  have unchunked : taken.chunked = false :=
    (congrArg Emission.chunked after).trans read.unchunked
  have writeSize : taken.writeSize = body.length :=
    (congrArg Emission.writeSize after).trans read.writeSize
  have finished : taken.written.write = taken.written.writeSize := by
    change taken.write = taken.writeSize
    rw [atEnd, writeSize]
  have sentBefore : taken.log.sent =
      start.sent ++ (start.responseBuf ++ body.take conn.write) :=
    (congrArg Emission.sent after).trans read.sent
  have buffered : taken.responseBuf = [0] :=
    (congrArg Emission.responseBuf after).trans (by rw [one]; rfl)
  rw [writeDone_large (.inr rfl) writing unchunked zeroed, ← sentBefore, ← buffered]
  exact congrArg Emission.sent (handleWriteLargeResponse_end finished zeroed)

/-- All but the remainder goes out in full chunks. -/
theorem BetweenChunks.chunks (getReqHandler : Bytes → Option ℕ) {start : Emission}
    (between : BetweenChunks response body start 0 conn) (word : body.length < 2 ^ 64)
    (count : ℕ) (enough : chunkSize * count ≤ body.length) :
    ∃ labels next, (sendingSystem getReqHandler response).Run conn labels next ∧
      BetweenChunks response body start (chunkSize * count) next := by
  induction count with
  | zero => exact ⟨[], conn, .nil conn, between⟩
  | succ count ih =>
      rw [Nat.mul_succ] at enough ⊢
      rcases ih (Nat.le_of_add_right_le enough) with ⟨labels, middle, run, reached⟩
      rcases reached.chunk getReqHandler word enough with ⟨more, next, last, after⟩
      exact ⟨labels ++ more, next, run.append last, after⟩

/-- The last character goes wrong whatever it is. -/
theorem BetweenChunks.not_emitted (getReqHandler : Bytes → Option ℕ) {start : HttpConnection}
    {done : ℕ} (between : BetweenChunks response body (start.emission response) done conn)
    (word : body.length < 2 ^ 64) (last : done + 1 = body.length) :
    ∃ labels next, (sendingSystem getReqHandler response).Run conn labels next ∧
      ∀ writes, ¬LargeEmitted body start next writes := by
  rcases between with ⟨quiet, large, ⟨writes, phase⟩, rfl, socketOpen⟩
  rcases phase.single large word last with ⟨character, read⟩
  have written := phase.step getReqHandler socketOpen
  rcases exists_run_to_task getReqHandler (exchange_tasks_sending quiet written) read.tasks with
    ⟨labels, middle, rest, run, tasks, middleQuiet, same, middleOpen⟩
  rw [← same] at read
  have ran : (sendingSystem getReqHandler response).step middle .runTask
      (HttpConnection.runBufRead { middle with tasks := rest }
        (.handleLargeResponseBuffRead response) (.ch (.char character))) :=
    ⟨trivial, by simp [Legal, tasks], by simp [exec, runNextTask, tasks, runTask]⟩
  have runs := Lts.Run.cons written (run.snoc ran)
  rcases read.runBufRead tasks with ⟨rfl, failed⟩ | ⟨nonzero, stillOpen, after⟩
  · refine ⟨_, _, runs, fun writes emitted => ?_⟩
    have completed : start.log.sendCompleted = (start.emission response).sendCompleted := rfl
    rcases emitted.ends with ⟨unchanged, -⟩ | ⟨success, -, -⟩
    · simp [failed, completed] at unchanged
    · simp [failed, completed] at success
  · have positive : character.toNat ≠ 0 := fun zero => nonzero (UInt8.toNat_inj.mp zero)
    have length : middle.write + 1 = body.length := read.length
    have size : sizeT (middle.write + character.toNat) = middle.write + character.toNat :=
      read.sizeT_eq word
    generalize next : HttpConnection.runBufRead { middle with tasks := rest }
      (.handleLargeResponseBuffRead response) (.ch (.char character)) = taken at *
    have write : taken.write = middle.write + character.toNat :=
      (congrArg Emission.write after).trans size
    by_cases one : character.toNat = 1
    · have takenOpen : taken.socketOpen = true := by
        rw [stillOpen, middleOpen, (phase.writeDone_kept large word (by omega) zeroed).1,
          socketOpen]
      have writing : taken.writing = [.handleWriteLargeResponse response] :=
        congrArg Emission.writing after
      have finish : (sendingSystem getReqHandler response).step taken (.writeDone zeroed)
          (taken.writeDone zeroed) :=
        ⟨trivial, ⟨takenOpen, _, [], writing, preparedSize_le _ _⟩, rfl⟩
      refine ⟨_, _, runs.snoc finish, fun writes emitted => ?_⟩
      have wrote : body = body.take middle.write ++ [character] := read.last
      have whole : start.log.sent ++ (start.responseBuf ++ body) =
          start.log.sent ++ (start.responseBuf ++ body.take middle.write) ++ [character] := by
        rw [List.append_assoc, List.append_assoc, ← wrote]
      have sent : (taken.writeDone zeroed).log.sent =
          start.log.sent ++ (start.responseBuf ++ body.take middle.write) ++ [0] :=
        read.writeDone_one after one (by omega)
      have wrong := emitted.inOrder
      rw [sent, whole, List.prefix_append_right_inj] at wrong
      simp [nonzero.symm] at wrong
    · refine ⟨_, _, runs, fun writes emitted => ?_⟩
      have bounded := emitted.bounded
      rw [emitted.writeSize, write] at bounded
      omega

/-- A body of known length is sent as it should be exactly when its last chunk is not a single
character. -/
theorem largeEmitted_iff {getReqHandler : Bytes → Option ℕ}
    (sends : SendsBody conn response body) :
    (∀ labels next,
      (sendingSystem getReqHandler response).Run (conn.asyncProcessResponse response) labels next →
        LargeEmitted body (conn.asyncProcessResponse response) next
          (labels.countP Event.writes)) ↔
      body.length % chunkSize ≠ 1 := by
  rcases sends.started with ⟨quiet, large, writing, write, socketOpen⟩
  constructor
  · intro emitted single
    have between : BetweenChunks response body
        ((conn.asyncProcessResponse response).emission response) 0
        (conn.asyncProcessResponse response) := ⟨quiet, large, ⟨0, writing⟩, write, socketOpen⟩
    have split := Nat.div_add_mod body.length chunkSize
    rw [single] at split
    rcases between.chunks getReqHandler sends.word (body.length / chunkSize) (by omega) with
      ⟨labels, middle, run, reached⟩
    rcases reached.not_emitted getReqHandler sends.word split with ⟨more, next, last, wrong⟩
    exact wrong _ (emitted _ _ (run.append last))
  · intro notSingle labels next run
    have sending : LargeSending response body
        ((conn.asyncProcessResponse response).emission response) (labels.countP Event.writes)
        next := by
      refine run.history (fun labels next => LargeSending response body
        ((conn.asyncProcessResponse response).emission response) (labels.countP Event.writes) next)
        ⟨quiet, large, .writing writing⟩ ?_
      intro labels middle event next sending step
      have counted : (labels ++ [event]).countP Event.writes =
          labels.countP Event.writes + event.writes.toNat := by
        cases writes : event.writes <;> simp [List.countP_append, writes]
      exact counted ▸ sending.step sends.word notSingle step
    exact sending.emitted

/-- A connection with a response whose body is known to its length. -/
def largeReply (body : Bytes) : HttpConnection :=
  HttpConnection.new.updateResponse 0 fun impl =>
    { impl with
      headers := [(HeaderNames.contentLength, printNumber body.length)]
      hasInstream := true
      body := ((Session.new 16).exec (.write body)).exec (.close false true) }

theorem largeReply_stream (body : Bytes) :
    (Session.system UInt8 BufReadHandler).Reachable (.new 16)
      ((largeReply body).responses 0).body :=
  Session.reachable_exec (Session.reachable_exec (.refl _) trivial) trivial

theorem sendsBody_hi : SendsBody (largeReply (ascii "hi")) 0 (ascii "hi") :=
  ⟨rfl, nofun, rfl, by decide +kernel, by decide +kernel, rfl, ⟨16, largeReply_stream _⟩, rfl,
    by decide +kernel, by decide +kernel⟩

theorem largeEmitted_iff_hi :
    (∀ labels next,
      (sendingSystem (fun _ => none) 0).Run ((largeReply (ascii "hi")).asyncProcessResponse 0)
          labels next →
        LargeEmitted (ascii "hi") ((largeReply (ascii "hi")).asyncProcessResponse 0) next
          (labels.countP Event.writes)) ↔
      (ascii "hi").length % chunkSize ≠ 1 :=
  largeEmitted_iff sendsBody_hi

/-- Of the body "A" nothing is sent, and `write_` passes `write_size_`. -/
theorem not_largeEmitted_A :
    SendsBody (largeReply (ascii "A")) 0 (ascii "A") ∧
    ¬∀ labels next,
      (sendingSystem (fun _ => none) 0).Run ((largeReply (ascii "A")).asyncProcessResponse 0)
          labels next →
        LargeEmitted (ascii "A") ((largeReply (ascii "A")).asyncProcessResponse 0) next
          (labels.countP Event.writes) := by
  refine ⟨⟨rfl, nofun, rfl, by decide +kernel, by decide +kernel, rfl, ⟨16, largeReply_stream _⟩,
    rfl, by decide +kernel, by decide +kernel⟩, fun emitted => ?_⟩
  have legal : LegalRun (fun _ => none) ((largeReply (ascii "A")).asyncProcessResponse 0)
      [.writeDone [0], .runTask] :=
    ⟨⟨rfl, _, [], rfl, by decide +kernel⟩, by
      change HttpConnection.tasks _ ≠ []
      decide +kernel, trivial⟩
  have run : (sendingSystem (fun _ => none) 0).Run _ _ _ :=
    legal.run.restrict (by simp [Sends])
  have bounded := (emitted _ _ run).bounded
  revert bounded
  decide +kernel

end HttpConnection

end Snode.Http
