import Snode.Streams.BufferRuns

/-!
# Readers and writers

A buffer has a reader on one side and a writer on the other.  What the
operations of one of them leave alone is stated here, for the components that
are one of the two.
-/

namespace Snode.Streams

open ProducerConsumerBuffer

variable {α η : Type}

/-- What a reader of the buffer does. -/
def Op.Consumes : Op α η → Prop
  | sbumpc | sgetc | sgetn _ | scopy _ | getn _ _ | bumpc _ | acquireRelease _ _ => True
  | write _ | alloc _ | fill _ | commit _ | sync | close _ _ => False

instance (op : Op α η) : Decidable op.Consumes :=
  match op with
  | .sbumpc | .sgetc | .sgetn _ | .scopy _ | .getn _ _ | .bumpc _ | .acquireRelease _ _ =>
      .isTrue trivial
  | .write _ | .alloc _ | .fill _ | .commit _ | .sync | .close _ _ => .isFalse id

/-- What a writer of the buffer does; it closes its own side only. -/
def Op.Produces : Op α η → Prop
  | write _ | alloc _ | fill _ | commit _ | sync => True
  | close input _ => input = false
  | sbumpc | sgetc | sgetn _ | scopy _ | getn _ _ | bumpc _ | acquireRelease _ _ => False

instance (op : Op α η) : Decidable op.Produces :=
  match op with
  | .write _ | .alloc _ | .fill _ | .commit _ | .sync => .isTrue trivial
  | .close input _ => inferInstanceAs (Decidable (input = false))
  | .sbumpc | .sgetc | .sgetn _ | .scopy _ | .getn _ _ | .bumpc _ | .acquireRelease _ _ =>
      .isFalse id

namespace ProducerConsumerBuffer

/-- The flags of the two sides. -/
def sides (buffer : ProducerConsumerBuffer α η) : Bool × Bool :=
  (buffer.canRead, buffer.canWrite)

/-- The flags of a reader: whether it may read, and whether it has met the end. -/
def readFlags (buffer : ProducerConsumerBuffer α η) : Bool × Bool :=
  (buffer.canRead, buffer.isEof)

theorem read_flags (buffer : ProducerConsumerBuffer α η) (count : ℕ) (advance : Bool) :
    (buffer.read count advance).2.toAsyncStreambuf = buffer.toAsyncStreambuf := by
  cases advance <;> rfl

section

variable {β : Type} {field : ProducerConsumerBuffer α η → β}

/-- What reading leaves alone, completing a request leaves alone. -/
theorem complete_keeps
    (reads : ∀ buffer count advance, field (ProducerConsumerBuffer.read buffer count advance).2 =
      field buffer)
    (buffer : ProducerConsumerBuffer α η) (request : EvRequest η) :
    field (buffer.complete request).2 = field buffer := by
  simp only [complete]
  split
  · exact reads _ _ _
  · simp only [readByte_snd, reads]
    split
    · exact reads _ _ _
    · rfl

theorem fulfillRequests_keeps
    (reads : ∀ buffer count advance, field (ProducerConsumerBuffer.read buffer count advance).2 =
      field buffer)
    (queues : ∀ buffer requests, field { buffer with requests := requests } = field buffer)
    (requests : List (EvRequest η)) (buffer : ProducerConsumerBuffer α η) :
    field (fulfillRequests requests buffer).1 = field buffer := by
  induction requests generalizing buffer with
  | nil => exact queues _ _
  | cons request rest ih =>
      simp only [fulfillRequests]
      split
      · rw [ih, complete_keeps reads]
      · exact queues _ _

theorem enqueueRequest_keeps
    (reads : ∀ buffer count advance, field (ProducerConsumerBuffer.read buffer count advance).2 =
      field buffer)
    (queues : ∀ buffer requests, field { buffer with requests := requests } = field buffer)
    (buffer : ProducerConsumerBuffer α η) (request : EvRequest η) :
    field (buffer.enqueueRequest request).1 = field buffer := by
  simp only [enqueueRequest]
  split
  · exact complete_keeps reads _ _
  · exact queues _ _

end

theorem complete_flags (buffer : ProducerConsumerBuffer α η) (request : EvRequest η) :
    (buffer.complete request).2.toAsyncStreambuf = buffer.toAsyncStreambuf :=
  complete_keeps read_flags buffer request

theorem fulfillRequests_flags (requests : List (EvRequest η))
    (buffer : ProducerConsumerBuffer α η) :
    (fulfillRequests requests buffer).1.toAsyncStreambuf = buffer.toAsyncStreambuf :=
  fulfillRequests_keeps read_flags (fun _ _ => rfl) requests buffer

theorem fulfillOutstanding_flags (buffer : ProducerConsumerBuffer α η) :
    buffer.fulfillOutstanding.1.toAsyncStreambuf = buffer.toAsyncStreambuf :=
  fulfillRequests_flags _ _

theorem enqueueRequest_flags (buffer : ProducerConsumerBuffer α η) (request : EvRequest η) :
    (buffer.enqueueRequest request).1.toAsyncStreambuf = buffer.toAsyncStreambuf :=
  enqueueRequest_keeps read_flags (fun _ _ => rfl) buffer request

theorem write_flags [Inhabited α] (buffer : ProducerConsumerBuffer α η) (source : List α) :
    (buffer.write source).2.1.toAsyncStreambuf = buffer.toAsyncStreambuf := by
  simp only [write]
  split
  · rfl
  · split
    · rfl
    · simp only [updateWriteHead, fulfillOutstanding_flags, assert]

/-- What was waiting is completed from the front of the queue, and the rest goes on waiting. -/
structure Serves (requests : List (EvRequest η)) (completed : List (Completed α η))
    (waiting : List (EvRequest η)) : Prop where
  inOrder : requests = completed.map Completed.request ++ waiting
  byComplete : ∀ served ∈ completed, served = (served.before.complete served.request).1

theorem complete_request (buffer : ProducerConsumerBuffer α η) (request : EvRequest η) :
    (buffer.complete request).1.request = request ∧
      (buffer.complete request).1.before = buffer := by
  simp only [complete]
  split <;> exact ⟨rfl, rfl⟩

theorem complete_requests (buffer : ProducerConsumerBuffer α η) (request : EvRequest η) :
    (buffer.complete request).2.requests = buffer.requests :=
  complete_keeps read_requests buffer request

theorem fulfillRequests_serves (requests : List (EvRequest η))
    (buffer : ProducerConsumerBuffer α η) :
    Serves requests (fulfillRequests requests buffer).2
      (fulfillRequests requests buffer).1.requests := by
  induction requests generalizing buffer with
  | nil => exact ⟨rfl, by simp [fulfillRequests]⟩
  | cons request rest ih =>
      rcases complete_request buffer request with ⟨requestEq, beforeEq⟩
      simp only [fulfillRequests]
      split
      · have served := ih (buffer.complete request).2
        refine ⟨?_, ?_⟩
        · simp only [List.map_cons, List.cons_append, requestEq, ← served.inOrder]
        · intro completed present
          rcases List.mem_cons.mp present with rfl | later
          · rw [requestEq, beforeEq]
          · exact served.byComplete completed later
      · exact ⟨rfl, by simp⟩

/-- A write into an open buffer takes all it is given. -/
theorem write_count [Inhabited α] {buffer : ProducerConsumerBuffer α η}
    (consistent : buffer.Consistent) (canRead : buffer.canRead = true)
    (canWrite : buffer.canWrite = true) {source : List α} (nonempty : source ≠ []) :
    (buffer.write source).1 = source.length := by
  have positive : source.length ≠ 0 := by simpa using nonempty
  rcases Effect.writeBlock_spec consistent source.length with ⟨-, -, lastWf, room⟩
  simp [write, canRead, canWrite, positive, (MemBlock.write_of_le lastWf room).1]

end ProducerConsumerBuffer

namespace Op

variable [Inhabited α] [CharTraits α]

/-- What reading, queueing and `release` leave alone, a reader leaves alone that returns no single
character. -/
theorem Consumes.keeps_of_ne {β : Type} {field : ProducerConsumerBuffer α η → β}
    (reads : ∀ buffer count advance, field (ProducerConsumerBuffer.read buffer count advance).2 =
      field buffer)
    (queues : ∀ buffer requests, field { buffer with requests := requests } = field buffer)
    (releases : ∀ buffer count, field (ProducerConsumerBuffer.release buffer count) = field buffer)
    {op : Op α η} (consumes : op.Consumes) (noSbumpc : op ≠ .sbumpc) (noSgetc : op ≠ .sgetc)
    (buffer : ProducerConsumerBuffer α η) :
    field (op.exec buffer).next = field buffer := by
  cases op with
  | write | alloc | fill | commit | sync | close => exact consumes.elim
  | sbumpc => exact (noSbumpc rfl).elim
  | sgetc => exact (noSgetc rfl).elim
  | sgetn count =>
      simp only [exec, AsyncStreambuf.sgetn, ProducerConsumerBuffer.sgetn]
      split
      · split
        · rfl
        · split
          · exact reads _ _ _
          · rfl
      · rfl
  | scopy count =>
      simp only [exec, AsyncStreambuf.scopy, ProducerConsumerBuffer.scopy]
      split
      · rfl
      · split
        · exact reads _ _ _
        · rfl
  | getn count handler =>
      simp only [exec, AsyncStreambuf.getn, ProducerConsumerBuffer.getn]
      split
      · split
        · rfl
        · exact enqueueRequest_keeps reads queues _ _
      · rfl
  | bumpc handler =>
      simp only [exec, AsyncStreambuf.bumpc, ProducerConsumerBuffer.bumpc]
      split
      · rfl
      · exact enqueueRequest_keeps reads queues _ _
  | acquireRelease guarded count =>
      simp only [exec]
      rcases acquiredEq : acquired buffer guarded with _ | chars
      · rfl
      · rcases acquired_eq_some acquiredEq with ⟨front, rest, blocks, -, releasedEq⟩
        simp only [releasedEq]
        exact releases _ _

/-- If the flag of a reader leaves it alone as well, every reader does. -/
theorem Consumes.keeps {β : Type} {field : ProducerConsumerBuffer α η → β}
    (reads : ∀ buffer count advance, field (ProducerConsumerBuffer.read buffer count advance).2 =
      field buffer)
    (queues : ∀ buffer requests, field { buffer with requests := requests } = field buffer)
    (flags : ∀ buffer readEof, field { buffer with streamReadEof := readEof } = field buffer)
    (releases : ∀ buffer count, field (ProducerConsumerBuffer.release buffer count) = field buffer)
    {op : Op α η} (consumes : op.Consumes) (buffer : ProducerConsumerBuffer α η) :
    field (op.exec buffer).next = field buffer := by
  by_cases sbumpc : op = .sbumpc
  · subst sbumpc
    simp only [exec, AsyncStreambuf.sbumpc, ProducerConsumerBuffer.sbumpc]
    split
    · rfl
    · split
      · simp only [AsyncStreambuf.checkSyncReadEof, readByte_snd]
        exact (flags _ _).trans (reads _ _ _)
      · exact flags _ _
  by_cases sgetc : op = .sgetc
  · subst sgetc
    simp only [exec, AsyncStreambuf.sgetc, ProducerConsumerBuffer.sgetc]
    split
    · rfl
    · split
      · simp only [AsyncStreambuf.checkSyncReadEof, readByte_snd]
        exact (flags _ _).trans (reads _ _ _)
      · exact flags _ _
  exact consumes.keeps_of_ne reads queues releases sbumpc sgetc buffer

theorem Consumes.sides_eq {op : Op α η} (consumes : op.Consumes)
    (buffer : ProducerConsumerBuffer α η) :
    (op.exec buffer).next.sides = buffer.sides := by
  apply consumes.keeps
  · intro buffer count advance
    simp only [sides, canRead, canWrite, read_flags]
  · exact fun _ _ => rfl
  · exact fun _ _ => rfl
  · intro buffer count
    simp only [release]
    split <;> rfl

theorem Consumes.stored_eq {op : Op α η} (consumes : op.Consumes)
    (buffer : ProducerConsumerBuffer α η) : (op.exec buffer).stored = [] := by
  cases op with
  | write | alloc | fill | commit | sync | close => exact consumes.elim
  | acquireRelease guarded count =>
      simp only [exec]
      split <;> rfl
  | sbumpc | sgetc | sgetn | scopy | getn | bumpc => rfl

theorem Produces.readFlags_eq {op : Op α η} (produces : op.Produces)
    (buffer : ProducerConsumerBuffer α η) :
    (op.exec buffer).next.readFlags = buffer.readFlags := by
  cases op with
  | sbumpc | sgetc | sgetn | scopy | getn | bumpc | acquireRelease => exact produces.elim
  | write source => simp only [exec, readFlags, canRead, isEof, write_flags]
  | alloc count =>
      simp only [exec, AsyncStreambuf.alloc, ProducerConsumerBuffer.alloc]
      by_cases closed : (!buffer.canWrite) = true
      · simp only [if_pos closed]
      · by_cases already : buffer.alloced = true
        · simp only [if_neg closed, if_pos already]
        · simp only [if_neg closed, if_neg already]
          rfl
  | fill chars => rfl
  | commit count =>
      simp only [exec, AsyncStreambuf.commit]
      by_cases writable : buffer.canWrite = true
      · by_cases notAlloced : (!buffer.alloced) = true
        · simp only [if_pos writable, if_pos notAlloced]
        · simp only [if_pos writable, if_neg notAlloced, ProducerConsumerBuffer.commit]
          split
          · rfl
          · simp only [readFlags, canRead, isEof, updateWriteHead, fulfillOutstanding_flags]
      · simp only [if_neg writable]
  | sync =>
      simp only [exec, AsyncStreambuf.sync]
      split
      · next next completed syncEq =>
          split at syncEq
          · simp at syncEq
          · simp only [Except.ok.injEq] at syncEq
            rw [show next = buffer.sync.1 from by rw [syncEq]]
            simp only [readFlags, canRead, isEof, ProducerConsumerBuffer.sync,
              fulfillOutstanding_flags]
      · rfl
  | close input output =>
      obtain rfl : input = false := produces
      simp only [exec, AsyncStreambuf.close, Bool.false_and, Bool.false_eq_true, if_false]
      split
      · simp only [readFlags, canRead, isEof, closeWrite, fulfillOutstanding_flags]
      · rfl

/-- A writer issues no reads, it only lets the waiting ones be fulfilled. -/
theorem Produces.fulfils {op : Op α η} (produces : op.Produces)
    (buffer : ProducerConsumerBuffer α η) :
    ((op.exec buffer).completed = [] ∧ (op.exec buffer).next.requests = buffer.requests) ∨
      ∃ middle : ProducerConsumerBuffer α η,
        (op.exec buffer).completed = (fulfillRequests buffer.requests middle).2 ∧
        (op.exec buffer).next.requests = (fulfillRequests buffer.requests middle).1.requests ∧
        (op.exec buffer).next.unread = (fulfillRequests buffer.requests middle).1.unread ∧
        (op.exec buffer).next.canWrite = (fulfillRequests buffer.requests middle).1.canWrite ∧
        middle.totalRead = buffer.totalRead := by
  cases op with
  | sbumpc | sgetc | sgetn | scopy | getn | bumpc | acquireRelease => exact produces.elim
  | fill chars => exact .inl ⟨rfl, rfl⟩
  | write source =>
      simp only [exec, ProducerConsumerBuffer.write]
      split
      · exact .inl ⟨rfl, rfl⟩
      · split
        · exact .inl ⟨rfl, rfl⟩
        · exact .inr ⟨_, rfl, rfl, rfl, rfl, rfl⟩
  | alloc count =>
      simp only [exec, AsyncStreambuf.alloc, ProducerConsumerBuffer.alloc]
      by_cases closed : (!buffer.canWrite) = true
      · simp only [if_pos closed]
        exact .inl ⟨trivial, trivial⟩
      · by_cases already : buffer.alloced = true
        · simp only [if_neg closed, if_pos already]
          exact .inl ⟨trivial, trivial⟩
        · simp only [if_neg closed, if_neg already]
          exact .inl ⟨trivial, rfl⟩
  | commit count =>
      simp only [exec, AsyncStreambuf.commit]
      by_cases writable : buffer.canWrite = true
      · by_cases notAlloced : (!buffer.alloced) = true
        · simp only [if_pos writable, if_pos notAlloced]
          exact .inl ⟨trivial, trivial⟩
        · simp only [if_pos writable, if_neg notAlloced, ProducerConsumerBuffer.commit]
          split
          · exact .inl ⟨rfl, rfl⟩
          · exact .inr ⟨_, rfl, rfl, rfl, rfl, rfl⟩
      · simp only [if_neg writable]
        exact .inl ⟨trivial, trivial⟩
  | sync =>
      simp only [exec, AsyncStreambuf.sync]
      by_cases writable : (!buffer.canWrite) = true
      · simp only [if_pos writable]
        exact .inl ⟨trivial, trivial⟩
      · simp only [if_neg writable, ProducerConsumerBuffer.sync]
        exact .inr ⟨_, rfl, rfl, rfl, rfl, rfl⟩
  | close input output =>
      obtain rfl : input = false := produces
      simp only [exec, AsyncStreambuf.close, Bool.false_and, Bool.false_eq_true, if_false]
      split
      · exact .inr ⟨_, rfl, rfl, rfl, rfl, rfl⟩
      · exact .inl ⟨rfl, rfl⟩

theorem Produces.serves {op : Op α η} (produces : op.Produces)
    (buffer : ProducerConsumerBuffer α η) :
    Serves buffer.requests (op.exec buffer).completed (op.exec buffer).next.requests := by
  rcases produces.fulfils buffer with ⟨completed, requests⟩ | ⟨middle, completed, requests, -⟩
  · rw [completed, requests]
    exact ⟨rfl, by simp⟩
  · rw [completed, requests]
    exact fulfillRequests_serves _ _

theorem Produces.removed_eq {op : Op α η} (produces : op.Produces)
    (buffer : ProducerConsumerBuffer α η) :
    (op.exec buffer).removed = deliveredBy (op.exec buffer).completed := by
  cases op with
  | sbumpc | sgetc | sgetn | scopy | getn | bumpc | acquireRelease => exact produces.elim
  | write | fill | close => rfl
  | alloc | commit | sync =>
      simp only [exec]
      split <;> rfl

theorem Produces.idle {op : Op α η} (produces : op.Produces)
    {buffer : ProducerConsumerBuffer α η} (idle : buffer.requests = []) :
    (op.exec buffer).completed = [] ∧ (op.exec buffer).next.requests = [] := by
  simpa [idle] using (produces.serves buffer).inOrder.symm

end Op

namespace Session

variable [Inhabited α] [CharTraits α]

theorem invariant_exec {session : Session α η} (invariant : session.buffer.Invariant)
    (op : Op α η) (legal : op.Legal session.buffer) : (session.exec op).buffer.Invariant :=
  (Op.exec_effect invariant legal).invariant

@[simp]
theorem stored_exec_close (session : Session α η) (input output : Bool) :
    (session.exec (.close input output)).stored = session.stored := by
  simp [exec, Op.exec]

theorem stored_exec_consumes (session : Session α η) {op : Op α η} (consumes : op.Consumes) :
    (session.exec op).stored = session.stored := by
  simp [exec, consumes.stored_eq]

theorem stored_exec_write {session : Session α η} (sides : session.buffer.sides = (true, true))
    (source : List α) : (session.exec (.write source)).stored = session.stored ++ source := by
  have canRead : session.buffer.canRead = true := congrArg Prod.fst sides
  have canWrite : session.buffer.canWrite = true := congrArg Prod.snd sides
  simp [exec, Op.exec, canRead, canWrite]

theorem sides_exec_write (session : Session α η) (source : List α) :
    (session.exec (.write source)).buffer.sides = session.buffer.sides := by
  simp only [exec, Op.exec, ProducerConsumerBuffer.sides, canRead, canWrite, write_flags]

end Session

end Snode.Streams
