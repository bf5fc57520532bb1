import Snode.Streams.Requests
import Snode.Streams.Roles

/-!
# The end of a stream

Once the write side of a buffer is closed nothing is added to it, what is left
is read to its end without waiting, and the flag by which a reader has met the
end is raised only there.
-/

namespace Snode.Streams

open ProducerConsumerBuffer

variable {α η : Type} [Inhabited α] [CharTraits α]

namespace Op

theorem exec_closed (op : Op α η) {buffer : ProducerConsumerBuffer α η}
    (closed : buffer.canWrite = false) : (op.exec buffer).next.canWrite = false := by
  have reader (consumes : op.Consumes) : (op.exec buffer).next.canWrite = false :=
    (congrArg Prod.snd (consumes.sides_eq buffer)).trans closed
  cases op with
  | sbumpc | sgetc | sgetn | scopy | getn | bumpc | acquireRelease => exact reader trivial
  | write source => simp [exec, ProducerConsumerBuffer.write, closed]
  | alloc count => simp [exec, AsyncStreambuf.alloc, closed]
  | fill chars => exact closed
  | commit count => simp [exec, AsyncStreambuf.commit, closed]
  | sync => simp [exec, AsyncStreambuf.sync, closed]
  | close input output =>
      have middle : (if input && buffer.canRead then buffer.closeRead else buffer).canWrite =
          false := by
        split <;> exact closed
      simp only [exec, AsyncStreambuf.close, middle, Bool.and_false, Bool.false_eq_true, if_false]

theorem stored_of_closed (op : Op α η) {buffer : ProducerConsumerBuffer α η}
    (closed : buffer.canWrite = false) : (op.exec buffer).stored = [] := by
  cases op with
  | write source => simp [exec, closed]
  | commit count =>
      simp only [exec, AsyncStreambuf.commit, closed]
      rfl
  | alloc count =>
      simp only [exec]
      split <;> rfl
  | sync =>
      simp only [exec]
      split <;> rfl
  | acquireRelease guarded count =>
      simp only [exec]
      split <;> rfl
  | fill | sbumpc | sgetc | sgetn | scopy | getn | bumpc | close => rfl

/-- On a closed stream the writer does nothing any more. -/
theorem Produces.closed {op : Op α η} (produces : op.Produces)
    {buffer : ProducerConsumerBuffer α η} (closed : buffer.canWrite = false) :
    (op.exec buffer).completed = [] ∧ (op.exec buffer).removed = [] ∧
      (op.exec buffer).next.requests = buffer.requests := by
  cases op with
  | sbumpc | sgetc | sgetn | scopy | getn | bumpc | acquireRelease => exact produces.elim
  | write source => simp [exec, ProducerConsumerBuffer.write, closed, deliveredBy]
  | alloc count => simp [exec, AsyncStreambuf.alloc, closed]
  | fill chars => exact ⟨rfl, rfl, rfl⟩
  | commit count => simp [exec, AsyncStreambuf.commit, closed, deliveredBy]
  | sync => simp [exec, AsyncStreambuf.sync, closed]
  | close input output =>
      obtain rfl : input = false := produces
      simp [exec, AsyncStreambuf.close, closed, deliveredBy]

end Op

/-- No character looks like `eof()`. -/
def WideTraits (α : Type) [CharTraits α] : Prop :=
  ∀ character : α, CharTraits.toIntType character ≠ CharTraits.eof α

theorem wideTraits_uint8 : WideTraits UInt8 := by
  intro character
  have small := character.toNat_lt
  change (character.toNat : Int) ≠ 2 ^ 64 - 1
  omega

omit [Inhabited α] in
theorem IntType.eq_eof_of_val (wide : WideTraits α) {value : IntType α}
    (same : value.val = CharTraits.eof α) : value = .eof := by
  cases value with
  | char character => exact (wide character same).elim
  | eof => rfl
  | requiresAsync =>
      simp only [IntType.val, CharTraits.requiresAsync] at same
      omega

namespace Op

/-- Only a reader of single characters moves the flag. -/
theorem Consumes.isEof_of_ne {op : Op α η} (consumes : op.Consumes) (noSbumpc : op ≠ .sbumpc)
    (noSgetc : op ≠ .sgetc) (buffer : ProducerConsumerBuffer α η) :
    (op.exec buffer).next.isEof = buffer.isEof := by
  apply consumes.keeps_of_ne _ _ _ noSbumpc noSgetc
  · intro buffer count advance
    simp only [ProducerConsumerBuffer.isEof, read_flags]
  · exact fun _ _ => rfl
  · intro buffer count
    rw [release]
    split <;> rfl

/-- A reader raises the flag at the end of a closed stream only. -/
theorem Consumes.isEof {op : Op α η} (consumes : op.Consumes) (wide : WideTraits α)
    {buffer : ProducerConsumerBuffer α η} (consistent : buffer.Consistent)
    (met : (op.exec buffer).next.isEof = true) :
    buffer.isEof = true ∨ buffer.canWrite = false ∧ buffer.unread = [] := by
  by_cases sbumpc : op = .sbumpc
  · subst sbumpc
    by_cases readable : buffer.canRead = true
    · have value := AsyncStreambuf.sbumpc_eq_eof consistent readable
      simp only [exec, AsyncStreambuf.sbumpc, readable, Bool.not_true, Bool.false_eq_true,
        if_false, AsyncStreambuf.checkSyncReadEof] at met value
      exact .inr (value (IntType.eq_eof_of_val wide (of_decide_eq_true met)))
    · simp only [exec, AsyncStreambuf.sbumpc, readable, Bool.not_false, if_true] at met
      exact .inl met
  by_cases sgetc : op = .sgetc
  · subst sgetc
    by_cases readable : buffer.canRead = true
    · have value := AsyncStreambuf.sgetc_eq_eof consistent readable
      simp only [exec, AsyncStreambuf.sgetc, readable, Bool.not_true, Bool.false_eq_true,
        if_false, AsyncStreambuf.checkSyncReadEof] at met value
      exact .inr (value (IntType.eq_eof_of_val wide (of_decide_eq_true met)))
    · simp only [exec, AsyncStreambuf.sgetc, readable, Bool.not_false, if_true] at met
      exact .inl met
  left
  rwa [consumes.isEof_of_ne sbumpc sgetc] at met

omit [Inhabited α] [CharTraits α] in
theorem role (op : Op α η) : op.Consumes ∨ op.Produces ∨ ∃ output, op = .close true output := by
  cases op with
  | sbumpc | sgetc | sgetn | scopy | getn | bumpc | acquireRelease => exact .inl trivial
  | write | alloc | fill | commit | sync => exact .inr (.inl trivial)
  | close input output =>
      cases input with
      | false => exact .inr (.inl rfl)
      | true => exact .inr (.inr ⟨output, rfl⟩)

theorem isEof_close (buffer : ProducerConsumerBuffer α η) (input output : Bool) :
    ((Op.close input output).exec buffer).next.isEof = buffer.isEof := by
  have closedRead : (if input && buffer.canRead then buffer.closeRead else buffer).isEof =
      buffer.isEof := by
    split <;> rfl
  simp only [exec, AsyncStreambuf.close]
  generalize (if input && buffer.canRead then buffer.closeRead else buffer) = middle
    at closedRead ⊢
  split
  · simp only [ProducerConsumerBuffer.isEof, closeWrite, fulfillOutstanding_flags]
    exact closedRead
  · exact closedRead

end Op

/-! ### Reading a closed stream -/

section

variable {buffer : ProducerConsumerBuffer α η}

omit [Inhabited α] [CharTraits α] in
theorem complete_bulk (buffer : ProducerConsumerBuffer α η) {count : ℕ} (bulk : 2 ≤ count)
    (handler : η) :
    buffer.complete ⟨count, .advanceOnce, true, handler⟩ =
      (⟨⟨count, .advanceOnce, true, handler⟩, buffer, (buffer.read count true).1,
        .size (buffer.read count true).1.length⟩, (buffer.read count true).2) := by
  have several : 1 < count := bulk
  have advances : (AdvanceAction.advanceOnce != .noAdvance) = true := rfl
  simp [complete, several, advances]

omit [Inhabited α] [CharTraits α] in
theorem complete_single (buffer : ProducerConsumerBuffer α η) (handler : η) :
    buffer.complete ⟨1, .advanceOnce, true, handler⟩ =
      (⟨⟨1, .advanceOnce, true, handler⟩, buffer, [], .ch (buffer.readByte true).1⟩,
        (buffer.readByte true).2) := by
  simp [complete]

omit [Inhabited α] [CharTraits α] in
theorem getn_of_satisfiable {count : ℕ} (nonzero : count ≠ 0)
    (readable : buffer.canRead = true) (satisfiable : buffer.canSatisfy count = true)
    (handler : η) :
    AsyncStreambuf.getn buffer count handler =
      ((buffer.complete ⟨count, .advanceOnce, true, handler⟩).2,
        [(buffer.complete ⟨count, .advanceOnce, true, handler⟩).1], []) := by
  simp [AsyncStreambuf.getn, ProducerConsumerBuffer.getn, enqueueRequest, EvRequest.size, nonzero,
    readable, satisfiable]

/-- What becomes of a read: the buffer is closed for reading, or the read is completed at once,
or it waits. -/
theorem getn_cases (buffer : ProducerConsumerBuffer α η) {count : ℕ} (nonzero : count ≠ 0) (handler : η) :
    let request : EvRequest η := ⟨count, .advanceOnce, true, handler⟩
    let outcome := (Op.getn count handler).exec buffer
    let refused := (AsyncStreambuf.getn buffer count handler).2.2
    (refused = [(handler, .size 0)] ∧ outcome.completed = [] ∧ outcome.next = buffer) ∨
      (refused = [] ∧ outcome.completed = [(buffer.complete request).1] ∧
        outcome.next = (buffer.complete request).2) ∨
      (refused = [] ∧ outcome.completed = [] ∧
        outcome.next = { buffer with requests := buffer.requests ++ [request] }) := by
  by_cases readable : buffer.canRead = true
  · by_cases satisfiable : buffer.canSatisfy count = true
    · right; left
      simp [Op.exec, AsyncStreambuf.getn, ProducerConsumerBuffer.getn, enqueueRequest,
        EvRequest.size, nonzero, readable, satisfiable]
    · right; right
      simp [Op.exec, AsyncStreambuf.getn, ProducerConsumerBuffer.getn, enqueueRequest,
        EvRequest.size, nonzero, readable, satisfiable]
  · left
    simp [Op.exec, AsyncStreambuf.getn, nonzero, readable]

/-- A bulk read of a closed stream is completed at once with what is left. -/
theorem getn_of_closed (consistent : buffer.Consistent) (readable : buffer.canRead = true)
    (closed : buffer.canWrite = false) {count : ℕ} (bulk : 2 ≤ count) (handler : η) :
    (AsyncStreambuf.getn buffer count handler).2.2 = [] ∧
    ∃ completed, ((Op.getn count handler).exec buffer).completed = [completed] ∧
      completed.request.completionOp = handler ∧
      completed.copied = buffer.unread.take count ∧
      completed.result = .size (buffer.unread.take count).length ∧
      ((Op.getn count handler).exec buffer).next.unread = buffer.unread.drop count ∧
      ((Op.getn count handler).exec buffer).next.requests = buffer.requests := by
  have satisfiable : buffer.canSatisfy count = true := by simp [canSatisfy, closed]
  simp only [Op.exec, getn_of_satisfiable (by omega) readable satisfiable,
    complete_bulk buffer bulk, read_chars consistent, read_unread consistent, read_requests,
    if_true]
  exact ⟨trivial, _, rfl, rfl, rfl, rfl, trivial, trivial⟩

/-- A bulk read of one character hands it to the handler, and copies nothing. -/
theorem getn_one_of_closed (consistent : buffer.Consistent) (readable : buffer.canRead = true)
    (closed : buffer.canWrite = false) {character : α} {rest : List α}
    (unread : buffer.unread = character :: rest) (handler : η) :
    (AsyncStreambuf.getn buffer 1 handler).2.2 = [] ∧
    ∃ completed, ((Op.getn 1 handler).exec buffer).completed = [completed] ∧
      completed.request.completionOp = handler ∧ completed.copied = [] ∧
      completed.result = .ch (.char character) := by
  have satisfiable : buffer.canSatisfy 1 = true := by simp [canSatisfy, closed]
  have value := readByte_fst consistent true
  simp only [unread] at value
  simp only [Op.exec, getn_of_satisfiable Nat.one_ne_zero readable satisfiable, complete_single, value]
  exact ⟨trivial, _, rfl, rfl, rfl, rfl⟩

end

/-- Where a reader has met the end the stream is closed and has been read. -/
def AtEnd (buffer : ProducerConsumerBuffer α η) : Prop :=
  buffer.isEof = true → buffer.canWrite = false ∧ buffer.unread = []

theorem AtEnd.exec (wide : WideTraits α) {buffer : ProducerConsumerBuffer α η}
    (atEnd : AtEnd buffer) (invariant : buffer.Invariant) {op : Op α η}
    (legal : op.Legal buffer) : AtEnd (op.exec buffer).next := by
  intro met
  have before : buffer.canWrite = false ∧ buffer.unread = [] := by
    rcases op.role with consumes | produces | ⟨output, rfl⟩
    · exact (consumes.isEof wide invariant.consistent met).elim atEnd id
    · exact atEnd ((congrArg Prod.snd (produces.readFlags_eq buffer)).symm.trans met)
    · exact atEnd ((Op.isEof_close buffer true output).symm.trans met)
  refine ⟨op.exec_closed before.1, ?_⟩
  have moved := (Op.exec_effect invariant legal).moved
  rw [before.2, op.stored_of_closed before.1] at moved
  exact (List.append_eq_nil_iff.mp moved.symm).2

theorem atEnd_reachable (wide : WideTraits α) {allocSize : ℕ} {session : Session α η}
    (reachable : (Session.system α η).Reachable (.new allocSize) session) :
    session.buffer.Invariant ∧ AtEnd session.buffer := by
  refine reachable.invariant (fun session => session.buffer.Invariant ∧ AtEnd session.buffer)
    ⟨new_invariant allocSize, nofun⟩ ?_
  rintro session op next ⟨invariant, atEnd⟩ ⟨legal, rfl⟩
  exact ⟨session.invariant_exec invariant op legal, atEnd.exec wide invariant legal⟩

end Snode.Streams
