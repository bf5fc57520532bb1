import Snode.Streams.BufferRuns

/-!
# Waiting reads

Which reads wait in a buffer, and what a read that completes with less than it
asked for tells about the stream.  Everything follows from the invariant of a
reachable buffer (in particular `synced_ <= total_`) and from what is known of a
served request.
-/

namespace Snode.Streams

namespace ProducerConsumerBuffer

variable {α η : Type}

/-- A read that may run and finds nothing finds the end of the stream. -/
theorem closed_of_take_eq_nil {buffer : ProducerConsumerBuffer α η}
    (consistent : buffer.Consistent) {count : ℕ} (positive : 1 ≤ count)
    (satisfiable : buffer.canSatisfy count = true) (nothing : buffer.unread.take count = []) :
    buffer.canWrite = false ∧ buffer.unread = [] := by
  have unreadNil : buffer.unread = [] := by
    rcases List.take_eq_nil_iff.mp nothing with zero | empty
    · omega
    · exact empty
  have total : buffer.total = 0 := by rw [consistent.total_eq, unreadNil, List.length_nil]
  have synced := consistent.synced_le
  have notSynced : ¬0 < buffer.synced := by omega
  have notEnough : ¬count ≤ buffer.total := by omega
  refine ⟨?_, unreadNil⟩
  simpa [canSatisfy, inAvail, notSynced, notEnough] using satisfiable

/-- A read that may run and finds less than it asked for takes all there is, and either was
flushed or came after the last write. -/
theorem short_read {buffer : ProducerConsumerBuffer α η} (consistent : buffer.Consistent)
    {count : ℕ} (satisfiable : buffer.canSatisfy count = true)
    (short : (buffer.unread.take count).length < count) :
    (buffer.canWrite = false ∨ 0 < buffer.synced) ∧ buffer.unread.take count = buffer.unread := by
  have fewer : buffer.unread.length < count := by
    rw [List.length_take] at short
    omega
  have notEnough : ¬count ≤ buffer.total := by
    rw [consistent.total_eq]
    omega
  refine ⟨?_, List.take_of_length_le (Nat.le_of_lt fewer)⟩
  simp only [canSatisfy, inAvail, notEnough, decide_false, Bool.or_false, Bool.or_eq_true,
    decide_eq_true_eq, Bool.not_eq_true'] at satisfiable
  exact satisfiable.symm

theorem readByte_eof {buffer : ProducerConsumerBuffer α η} (consistent : buffer.Consistent)
    {advance : Bool} (satisfiable : buffer.canSatisfy 1 = true)
    (eof : (buffer.readByte advance).1 = .eof) :
    buffer.canWrite = false ∧ buffer.unread = [] := by
  apply closed_of_take_eq_nil consistent (Nat.le_refl 1) satisfiable
  rw [readByte_fst consistent advance] at eof
  rcases unreadEq : buffer.unread with _ | ⟨first, rest⟩
  · rfl
  · simp [unreadEq] at eof

end ProducerConsumerBuffer

namespace AsyncStreambuf

open ProducerConsumerBuffer

variable {α η : Type} [CharTraits α] {buffer : ProducerConsumerBuffer α η}

/-- A synchronous read that answers, and answers with nothing, has met the end of the stream.
The answer `requires_async` is a number of its own. -/
theorem sgetn_eq_zero (consistent : buffer.Consistent) (readable : buffer.canRead = true)
    {count : ℕ} (positive : 1 ≤ count) (zero : (sgetn buffer count).1 = 0) :
    buffer.canWrite = false ∧ buffer.unread = [] := by
  have nonzero : count ≠ 0 := by omega
  simp only [sgetn, if_pos nonzero, readable, ProducerConsumerBuffer.sgetn] at zero
  by_cases satisfiable : buffer.canSatisfy count = true
  · apply closed_of_take_eq_nil consistent positive satisfiable
    rw [if_pos satisfiable] at zero
    rw [← read_chars consistent count true]
    exact List.eq_nil_of_length_eq_zero (by simpa using zero)
  · simp [satisfiable, CharTraits.requiresAsyncSize_eq] at zero

theorem scopy_eq_zero (consistent : buffer.Consistent) (readable : buffer.canRead = true)
    {count : ℕ} (positive : 1 ≤ count) (zero : (scopy buffer count).1 = 0) :
    buffer.canWrite = false ∧ buffer.unread = [] := by
  simp only [scopy, readable, ProducerConsumerBuffer.scopy] at zero
  by_cases satisfiable : buffer.canSatisfy count = true
  · apply closed_of_take_eq_nil consistent positive satisfiable
    rw [if_pos satisfiable] at zero
    rw [← read_chars consistent count false]
    exact List.eq_nil_of_length_eq_zero (by simpa using zero)
  · simp [satisfiable, CharTraits.requiresAsyncSize_eq] at zero

theorem sbumpc_eq_eof (consistent : buffer.Consistent) (readable : buffer.canRead = true)
    (eof : (sbumpc buffer).1 = .eof) : buffer.canWrite = false ∧ buffer.unread = [] := by
  simp only [sbumpc, readable, ProducerConsumerBuffer.sbumpc, checkSyncReadEof] at eof
  by_cases satisfiable : buffer.canSatisfy 1 = true
  · exact readByte_eof consistent satisfiable (by simpa [satisfiable] using eof)
  · simp [satisfiable] at eof

theorem sgetc_eq_eof (consistent : buffer.Consistent) (readable : buffer.canRead = true)
    (eof : (sgetc buffer).1 = .eof) : buffer.canWrite = false ∧ buffer.unread = [] := by
  simp only [sgetc, readable, ProducerConsumerBuffer.sgetc, checkSyncReadEof] at eof
  by_cases satisfiable : buffer.canSatisfy 1 = true
  · exact readByte_eof consistent satisfiable (by simpa [satisfiable] using eof)
  · simp [satisfiable] at eof

end AsyncStreambuf

namespace Session

open ProducerConsumerBuffer

variable {α η : Type} [Inhabited α] [CharTraits α]

/-- No read is stranded: what waits has to wait, and nothing waits once no more can come.
No read ends early: end of file is reported only at the end of a closed stream, and a bulk
read comes back short only if it was flushed or the stream is closed, with all there is. -/
theorem no_stranded_read {allocSize : ℕ} {session : Session α η}
    (reachable : (system α η).Reachable (new allocSize) session) :
    (∀ request ∈ session.buffer.requests.head?,
        session.buffer.canSatisfy request.size = false) ∧
      (session.buffer.canWrite = false → session.buffer.requests = []) ∧
      (session.buffer.canRead = true →
        (∀ count, 1 ≤ count →
          (AsyncStreambuf.sgetn session.buffer count).1 = 0 ∨
            (AsyncStreambuf.scopy session.buffer count).1 = 0 →
          session.buffer.canWrite = false ∧ session.buffer.unread = []) ∧
        ((AsyncStreambuf.sbumpc session.buffer).1 = .eof ∨
            (AsyncStreambuf.sgetc session.buffer).1 = .eof →
          session.buffer.canWrite = false ∧ session.buffer.unread = [])) ∧
      (∀ op : Op α η, op.Legal session.buffer →
        ∀ completed ∈ (op.exec session.buffer).completed,
          (completed.result.IsEof ∨ completed.delivered = [] →
            completed.before.canWrite = false ∧ completed.before.unread = []) ∧
          (2 ≤ completed.request.count →
            completed.delivered.length < completed.request.count →
              (completed.before.canWrite = false ∨ 0 < completed.before.synced) ∧
                completed.delivered = completed.before.unread)) := by
  rcases reachable_refines reachable with ⟨channel, invariant, -⟩
  have consistent := invariant.consistent
  refine ⟨invariant.blocked, requests_eq_nil_of_closed invariant.blocked, ?_, ?_⟩
  · intro readable
    refine ⟨?_, ?_⟩
    · rintro count positive (zero | zero)
      · exact AsyncStreambuf.sgetn_eq_zero consistent readable positive zero
      · exact AsyncStreambuf.scopy_eq_zero consistent readable positive zero
    · rintro (eof | eof)
      · exact AsyncStreambuf.sbumpc_eq_eof consistent readable eof
      · exact AsyncStreambuf.sgetc_eq_eof consistent readable eof
  · intro op legal completed present
    rcases (Op.exec_effect invariant legal).served completed present with
      ⟨plain, beforeConsistent, satisfiable, delivered, deliveredOfEof⟩
    refine ⟨?_, ?_⟩
    · intro ended
      have nothing : completed.delivered = [] := by
        rcases ended with eof | empty
        · exact deliveredOfEof eof
        · exact empty
      exact closed_of_take_eq_nil beforeConsistent plain.count_pos satisfiable
        (delivered ▸ nothing)
    · intro _ short
      rw [delivered] at short ⊢
      exact short_read beforeConsistent satisfiable short

/-- A read of four characters waits with two in the buffer; a flush completes it with these
two and nothing else. -/
theorem no_stranded_read_getn_sync :
    let session := (((new 2 : Session UInt8 Unit).exec (.getn 4 ())).exec (.write [1, 2]))
    session.buffer.requests.length = 1 ∧
      session.buffer.canSatisfy 4 = false ∧
      ((Op.sync : Op UInt8 Unit).exec session.buffer).completed.map Completed.delivered =
        [[1, 2]] ∧
      ∀ completed ∈ ((Op.sync : Op UInt8 Unit).exec session.buffer).completed,
        2 ≤ completed.request.count → completed.delivered.length < completed.request.count →
          completed.delivered = completed.before.unread := by
  refine ⟨by decide, by decide, by decide, ?_⟩
  intro completed present bulk short
  have reachable : (system UInt8 Unit).Reachable (new 2)
      (((new 2 : Session UInt8 Unit).exec (.getn 4 ())).exec (.write [1, 2])) :=
    reachable_exec (reachable_exec (.refl _) trivial) trivial
  exact (((no_stranded_read reachable).2.2.2 .sync trivial completed present).2 bulk short).2

end Session

end Snode.Streams
