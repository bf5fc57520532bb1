import Snode.Lib.Channel
import Snode.Streams.BufferInvariant

/-!
# Runs of a producer/consumer buffer

Every operation keeps the invariant of the buffer and moves characters only
from its stored end to its removed end.  By induction this holds along every
run of operations in any order, so a session refines a FIFO channel, and the
requests that wait in a buffer are exactly those that have to.
-/

namespace Snode.Streams

namespace ProducerConsumerBuffer

variable {α η : Type}

/-- A block handed out by `alloc` is untouched until it is committed. -/
def AllocOk (buffer : ProducerConsumerBuffer α η) : Prop :=
  buffer.alloced = buffer.allocblock.isSome ∧
    ∀ block ∈ buffer.allocblock, block.Wf ∧ block.read = 0 ∧ block.pos = 0

/-- What holds of a buffer between two operations. -/
structure Invariant (buffer : ProducerConsumerBuffer α η) : Prop where
  consistent : buffer.Consistent
  allocOk : buffer.AllocOk
  plain : ∀ request ∈ buffer.requests, request.Plain
  blocked : buffer.Blocked

theorem allocOk_of_control_eq {buffer later : ProducerConsumerBuffer α η}
    (control : later.control = buffer.control) (allocOk : buffer.AllocOk) : later.AllocOk := by
  simp only [ProducerConsumerBuffer.control, Prod.mk.injEq] at control
  rcases control with ⟨-, -, alloced, -, allocblock⟩
  simpa only [AllocOk, alloced, allocblock] using allocOk

theorem canWrite_of_control_eq {buffer later : ProducerConsumerBuffer α η}
    (control : later.control = buffer.control) : later.canWrite = buffer.canWrite :=
  congrArg (fun fields => fields.2.1) control

theorem new_invariant (allocSize : ℕ) :
    (new allocSize : ProducerConsumerBuffer α η).Invariant where
  consistent := ⟨by simp [new], rfl, rfl, Nat.le_refl _, rfl⟩
  allocOk := ⟨rfl, by simp [new]⟩
  plain := by simp [new]
  blocked := by simp [new, Blocked]

theorem read_invariant {buffer : ProducerConsumerBuffer α η} (invariant : buffer.Invariant)
    {count : ℕ} (advance : Bool) (satisfiable : buffer.canSatisfy count = true) :
    (buffer.read count advance).2.Invariant := by
  rcases read_consistent invariant.consistent advance satisfiable with
    ⟨consistent, synced, total⟩
  have control := read_control buffer count advance
  refine ⟨consistent, allocOk_of_control_eq control invariant.allocOk, ?_, ?_⟩
  · rw [read_requests]
    exact invariant.plain
  · intro request present
    rw [read_requests] at present
    exact canSatisfy_mono synced total (canWrite_of_control_eq control)
      (invariant.blocked request present)

theorem fulfillOutstanding_spec {buffer : ProducerConsumerBuffer α η}
    (consistent : buffer.Consistent) (plain : ∀ request ∈ buffer.requests, request.Plain) :
    Fulfilled buffer buffer.fulfillOutstanding.1 buffer.fulfillOutstanding.2 :=
  fulfillRequests_spec buffer.requests consistent plain

theorem Fulfilled.invariant {before after : ProducerConsumerBuffer α η}
    {completed : List (Completed α η)} (fulfilled : Fulfilled before after completed)
    (allocOk : before.AllocOk) : after.Invariant where
  consistent := fulfilled.consistent
  allocOk := allocOk_of_control_eq fulfilled.control_eq allocOk
  plain := fulfilled.plain
  blocked := fulfilled.blocked

/-- Once no more characters can be written, nothing waits for them. -/
theorem requests_eq_nil_of_closed {buffer : ProducerConsumerBuffer α η}
    (blocked : buffer.Blocked) (closed : buffer.canWrite = false) : buffer.requests = [] := by
  rcases waiting : buffer.requests with _ | ⟨request, rest⟩
  · rfl
  · have unsatisfiable := blocked request (by simp [waiting])
    simp [canSatisfy, closed] at unsatisfiable

end ProducerConsumerBuffer

/-- What one operation does: it keeps the invariant, and what was unread followed by what
it stored is what it removed followed by what is unread now. -/
structure Effect {α η : Type} (before : ProducerConsumerBuffer α η) (outcome : Outcome α η) :
    Prop where
  invariant : outcome.next.Invariant
  moved : before.unread ++ outcome.stored = outcome.removed ++ outcome.next.unread
  totalRead_eq : outcome.next.totalRead = before.totalRead + outcome.removed.length
  served : ∀ request ∈ outcome.completed, ProducerConsumerBuffer.Served request

namespace Effect

open ProducerConsumerBuffer

variable {α η : Type} {buffer : ProducerConsumerBuffer α η}

theorem idle (invariant : buffer.Invariant) : Effect buffer ⟨buffer, [], [], []⟩ :=
  ⟨invariant, by simp, rfl, by simp⟩

/-- An operation whose last step is to run the waiting requests of `middle`, where the
characters it stored already are. -/
theorem of_fulfilled {middle after : ProducerConsumerBuffer α η} {stored : List α}
    {completed : List (Completed α η)} (fulfilled : Fulfilled middle after completed)
    (allocOk : middle.AllocOk) (unread : middle.unread = buffer.unread ++ stored)
    (totalRead : middle.totalRead = buffer.totalRead) :
    Effect buffer ⟨after, stored, deliveredBy completed, completed⟩ where
  invariant := fulfilled.invariant allocOk
  moved := by rw [← unread, fulfilled.unread_eq]
  totalRead_eq := by rw [fulfilled.totalRead_eq, totalRead]
  served := fulfilled.served

theorem of_read (invariant : buffer.Invariant) {count : ℕ}
    (satisfiable : buffer.canSatisfy count = true) :
    Effect buffer ⟨(buffer.read count true).2, [], (buffer.read count true).1, []⟩ where
  invariant := read_invariant invariant true satisfiable
  moved := by
    simp only [List.append_nil]
    rw [read_chars invariant.consistent, read_unread invariant.consistent, if_pos rfl,
      List.take_append_drop]
  totalRead_eq := by
    rw [read_totalRead invariant.consistent, if_pos rfl, read_chars invariant.consistent]
  served := by simp

theorem of_peek (invariant : buffer.Invariant) {count : ℕ}
    (satisfiable : buffer.canSatisfy count = true) :
    Effect buffer ⟨(buffer.read count false).2, [], [], []⟩ where
  invariant := read_invariant invariant false satisfiable
  moved := by simp [read_unread invariant.consistent]
  totalRead_eq := by simp [read_totalRead invariant.consistent]
  served := by simp

/-- The flag `stream_read_eof_` matters to no part of the effect. -/
theorem with_readEof {outcome : Outcome α η} (effect : Effect buffer outcome) (flag : Bool) :
    Effect buffer
      { outcome with next := { outcome.next with streamReadEof := flag } } := by
  rcases effect with ⟨⟨⟨blocksWf, totalEq, writtenEq, syncedLe, notFailed⟩, allocOk, plain,
    blocked⟩, moved, totalRead, served⟩
  exact ⟨⟨⟨blocksWf, totalEq, writtenEq, syncedLe, notFailed⟩, allocOk, plain, blocked⟩, moved,
    totalRead, served⟩

theorem of_enqueue (invariant : buffer.Invariant) {request : EvRequest η}
    (plain : request.Plain) :
    Effect buffer ⟨(buffer.enqueueRequest request).1, [],
      deliveredBy (buffer.enqueueRequest request).2, (buffer.enqueueRequest request).2⟩ := by
  by_cases satisfiable : buffer.canSatisfy request.size = true
  · rcases complete_spec invariant.consistent plain with ⟨delivered, after, before, requestEq, eof⟩
    have effect := of_read invariant satisfiable
    simp only [enqueueRequest, satisfiable, if_true, deliveredBy, List.flatMap_cons,
      List.flatMap_nil, List.append_nil, delivered, after]
    refine ⟨effect.invariant, ?_, ?_, ?_⟩
    · simpa only [read_chars invariant.consistent, EvRequest.size] using effect.moved
    · simpa only [read_chars invariant.consistent, EvRequest.size] using effect.totalRead_eq
    · intro completed present
      simp only [List.mem_singleton] at present
      subst present
      exact ⟨by rw [requestEq]; exact plain, by rw [before]; exact invariant.consistent,
        by rw [before, requestEq]; exact satisfiable, by rw [before, requestEq]; exact delivered, eof⟩
  · have unsatisfiable : buffer.canSatisfy request.size = false := by simpa using satisfiable
    simp only [enqueueRequest, unsatisfiable, Bool.false_eq_true, if_false]
    rcases invariant with ⟨⟨blocksWf, totalEq, writtenEq, syncedLe, notFailed⟩, allocOk,
      waitingPlain, blocked⟩
    refine ⟨⟨⟨blocksWf, totalEq, writtenEq, syncedLe, notFailed⟩, allocOk, ?_, ?_⟩,
      by simp [deliveredBy, unread], by simp [deliveredBy], by simp⟩
    · intro other present
      rcases List.mem_append.mp present with waiting | new
      · exact waitingPlain other waiting
      · simp only [List.mem_singleton] at new
        subst new
        exact plain
    · -- the queue is served in order, so a newcomer changes its front only when it was empty
      intro front present
      rcases queue : buffer.requests with _ | ⟨oldest, rest⟩
      · simp only [queue, List.nil_append, List.head?_cons, Option.mem_def,
          Option.some.injEq] at present
        subst present
        exact unsatisfiable
      · simp only [queue, List.cons_append, List.head?_cons, Option.mem_def,
          Option.some.injEq] at present
        subst present
        exact blocked oldest (by simp [queue])

/-- The block a write goes to, behind the blocks in front of it. -/
theorem writeBlock_spec [Inhabited α] (consistent : buffer.Consistent) (count : ℕ) :
    unreadBlocks (buffer.writeBlock count).1 ++ (buffer.writeBlock count).2.unread =
        buffer.unread ∧
      (∀ block ∈ (buffer.writeBlock count).1, block.Wf) ∧
      (buffer.writeBlock count).2.Wf ∧ count ≤ (buffer.writeBlock count).2.wrCharsLeft := by
  have fresh : (MemBlock.new (max count buffer.allocSize) : MemBlock α).unread = [] := by
    simp [MemBlock.unread, MemBlock.rdCharsLeft, MemBlock.new]
  have room : count ≤ (MemBlock.new (max count buffer.allocSize) : MemBlock α).wrCharsLeft := by
    simp only [MemBlock.wrCharsLeft, MemBlock.new]
    omega
  have wf := consistent.blocks_wf
  simp only [writeBlock]
  rcases lastEq : buffer.blocks.getLast? with _ | last
  · exact ⟨by simp [fresh, unread], wf, MemBlock.new_wf _, room⟩
  · have split : buffer.blocks = buffer.blocks.dropLast ++ [last] :=
      (List.dropLast_append_getLast? last lastEq).symm
    have lastWf : last.Wf := wf last (by rw [split]; simp)
    by_cases full : last.wrCharsLeft < count
    · simp only [if_pos full]
      exact ⟨by simp [fresh, unread], wf, MemBlock.new_wf _, room⟩
    · simp only [if_neg full]
      refine ⟨?_, ?_, lastWf, by omega⟩
      · conv_rhs => rw [unread, split]
        simp
      · exact fun block present => wf block ((List.dropLast_subset _ present))

theorem of_write [Inhabited α] (invariant : buffer.Invariant) (source : List α) :
    Effect buffer ⟨(buffer.write source).2.1,
      if buffer.canRead && buffer.canWrite then source else [],
      deliveredBy (buffer.write source).2.2, (buffer.write source).2.2⟩ := by
  by_cases refused : (!buffer.canWrite || decide (source.length = 0)) = true
  · have nothing : (if buffer.canRead && buffer.canWrite then source else []) = [] := by
      simp only [Bool.or_eq_true, Bool.not_eq_true', decide_eq_true_eq] at refused
      rcases refused with closed | empty
      · simp [closed]
      · simp [List.eq_nil_of_length_eq_zero empty]
    simp only [write, if_pos refused, nothing]
    exact idle invariant
  · by_cases unreadable : (!buffer.canRead) = true
    · have nothing : (if buffer.canRead && buffer.canWrite then source else []) = [] := by
        simp only [Bool.not_eq_true'] at unreadable
        simp [unreadable]
      simp only [write, if_neg refused, if_pos unreadable, nothing]
      exact idle invariant
    · have both : (buffer.canRead && buffer.canWrite) = true := by
        simp only [Bool.or_eq_true, Bool.not_eq_true', decide_eq_true_eq, not_or,
          Bool.not_eq_false] at refused unreadable
        simp [refused.1, unreadable]
      rcases writeBlock_spec invariant.consistent source.length with
        ⟨unreadEq, frontWf, lastWf, room⟩
      rcases MemBlock.write_of_le lastWf room with ⟨written, nextWf, nextUnread⟩
      rcases invariant with ⟨⟨blocksWf, totalEq, writtenEq, syncedLe, notFailed⟩, allocOk, plain,
        blocked⟩
      simp only [write, if_neg refused, if_neg unreadable, both, if_true, written]
      refine of_fulfilled (fulfillOutstanding_spec ?_ plain) allocOk ?_ rfl
      · refine ⟨?_, ?_, ?_, ?_, by simp [assert, notFailed]⟩
        · intro block present
          simp only [List.mem_append, List.mem_singleton] at present
          rcases present with old | rfl
          · exact frontWf block old
          · exact nextWf
        · simp only [unread, unreadBlocks_append, unreadBlocks_cons, unreadBlocks_nil, nextUnread,
            List.append_nil, ← List.append_assoc, unreadEq, List.length_append, assert, totalEq]
        · simp only [assert]
          omega
        · simp only [assert]
          omega
      · simp only [unread, unreadBlocks_append, unreadBlocks_cons, unreadBlocks_nil, nextUnread,
          List.append_nil, ← List.append_assoc, unreadEq]

theorem of_commit [Inhabited α] (invariant : buffer.Invariant) {count : ℕ}
    {block : MemBlock α} (allocated : buffer.allocblock = some block)
    (legal : count ≤ block.size) :
    Effect buffer ⟨{ (buffer.commit count).1 with alloced := false }, block.data.take count,
      deliveredBy (buffer.commit count).2, (buffer.commit count).2⟩ := by
  rcases invariant with ⟨⟨blocksWf, totalEq, writtenEq, syncedLe, notFailed⟩,
    ⟨allocedEq, allocWf⟩, plain, blocked⟩
  rcases allocWf block (by simp [allocated]) with ⟨wf, readZero, posZero⟩
  have committedUnread : (block.updateWriteHead count).unread = block.data.take count := by
    simp [MemBlock.unread, MemBlock.updateWriteHead, MemBlock.rdCharsLeft, readZero, posZero]
  have committedWf : (block.updateWriteHead count).Wf :=
    MemBlock.updateWriteHead_wf wf (by omega)
  have lengthTake : (block.data.take count).length = count := by
    rw [List.length_take, wf.length_data]
    omega
  let middle : ProducerConsumerBuffer α η :=
    { buffer with
      blocks := buffer.blocks ++ [block.updateWriteHead count]
      allocblock := none
      total := buffer.total + count
      totalWritten := buffer.totalWritten + count }
  have middleUnread : middle.unread = buffer.unread ++ block.data.take count := by
    simp [middle, unread, committedUnread]
  have consistent : middle.Consistent := by
    refine ⟨?_, ?_, ?_, ?_, notFailed⟩
    · intro other present
      simp only [middle, List.mem_append, List.mem_singleton] at present
      rcases present with old | rfl
      · exact blocksWf other old
      · exact committedWf
    · rw [middleUnread, List.length_append, lengthTake, ← totalEq]
    · simp only [middle]
      omega
    · simp only [middle]
      omega
  have fulfilled := fulfillOutstanding_spec consistent plain
  have result : buffer.commit count = middle.fulfillOutstanding := by
    simp only [commit, allocated]
    rfl
  rw [result]
  have control := fulfilled.control_eq
  simp only [ProducerConsumerBuffer.control, Prod.mk.injEq] at control
  rcases control with ⟨-, -, -, -, allocblock⟩
  rcases fulfilled with ⟨⟨nextWf, nextTotal, nextWritten, nextSynced, nextOk⟩, -, totalRead,
    unreadEq, nextPlain, nextBlocked, served⟩
  refine ⟨⟨⟨nextWf, nextTotal, nextWritten, nextSynced, nextOk⟩, ⟨?_, ?_⟩, nextPlain,
    nextBlocked⟩, ?_, totalRead, served⟩
  · simp [allocblock, middle]
  · simp [allocblock, middle]
  · rw [← middleUnread, unreadEq]
    rfl

theorem of_release (invariant : buffer.Invariant) {count : ℕ} {front : MemBlock α}
    {rest : List (MemBlock α)} (blocks : buffer.blocks = front :: rest)
    (legal : count ≤ front.rdCharsLeft) :
    Effect buffer ⟨buffer.release count, [], front.unread.take count, []⟩ := by
  rcases invariant with ⟨⟨blocksWf, totalEq, writtenEq, syncedLe, notFailed⟩, allocOk, plain,
    blocked⟩
  have frontWf := blocksWf front (by simp [blocks])
  have released : ({ front with read := front.read + count } : MemBlock α) =
      (front.readChars count true).2 := by
    simp [MemBlock.readChars, Nat.min_eq_left legal]
  have unreadEq : buffer.unread = front.unread ++ unreadBlocks rest := by
    simp [unread, blocks]
  have lengthTake : (front.unread.take count).length = count := by
    rw [List.length_take, MemBlock.length_unread frontWf]
    omega
  have short : count ≤ buffer.total := by
    rw [totalEq, unreadEq, List.length_append, MemBlock.length_unread frontWf]
    omega
  have after : buffer.release count =
      ({ buffer.assert true with
        blocks := (front.readChars count true).2 :: rest }).updateReadHead count := by
    simp only [release, blocks, released, legal, decide_true]
  have afterUnread : (buffer.release count).unread =
      front.unread.drop count ++ unreadBlocks rest := by
    rw [after]
    simp [unread, updateReadHead, MemBlock.readChars_unread]
  have afterTotal : (buffer.release count).total = buffer.total - count := by rw [after]; rfl
  have afterSynced : (buffer.release count).synced = buffer.synced - count := by
    rw [after, updateReadHead_synced]
    rfl
  have afterRead : (buffer.release count).totalRead = buffer.totalRead + count := by
    rw [after]
    rfl
  have afterRequests : (buffer.release count).requests = buffer.requests := by rw [after]; rfl
  refine ⟨⟨⟨?_, ?_, ?_, ?_, ?_⟩, ?_, ?_, ?_⟩, ?_, ?_, by simp⟩
  · rw [after]
    refine purge_blocks_wf fun block present => ?_
    rcases List.mem_cons.mp present with rfl | present
    · exact MemBlock.readChars_wf frontWf count true
    · exact blocksWf block (by simp [blocks, present])
  · rw [afterTotal, afterUnread, totalEq, unreadEq]
    simp only [List.length_append, List.length_drop]
    rw [MemBlock.length_unread frontWf]
    omega
  · show (buffer.release count).totalWritten =
      (buffer.release count).totalRead + (buffer.release count).total
    rw [afterRead, afterTotal]
    have written : (buffer.release count).totalWritten = buffer.totalWritten := by rw [after]; rfl
    omega
  · show (buffer.release count).synced ≤ (buffer.release count).total
    omega
  · rw [after]
    simp [updateReadHead, assert, notFailed]
  · exact allocOk_of_control_eq (by rw [after]; rfl) allocOk
  · rw [afterRequests]
    exact plain
  · intro request present
    rw [afterRequests] at present
    have syncedLess : (buffer.release count).synced ≤ buffer.synced := by omega
    have totalLess : (buffer.release count).total ≤ buffer.total := by omega
    exact canSatisfy_mono syncedLess totalLess (by rw [after]; rfl) (blocked request present)
  · simp only [List.append_nil, afterUnread, unreadEq, ← List.append_assoc,
      List.take_append_drop]
  · simp only [afterRead, lengthTake]

end Effect

namespace Op

open ProducerConsumerBuffer

variable {α η : Type}

/-- A pointer that is not null points to the unread characters of the front block. -/
theorem acquired_eq_some {buffer : ProducerConsumerBuffer α η} {guarded : Bool} {chars : List α}
    (acquiredEq : acquired buffer guarded = some chars) :
    ∃ front rest, buffer.blocks = front :: rest ∧ front.unread = chars ∧
      ∀ count, released buffer guarded count = buffer.release count := by
  have impl : buffer.acquire.2 = some chars ∧
      ∀ count, released buffer guarded count = buffer.release count := by
    cases guarded with
    | false => exact ⟨by simpa [acquired] using acquiredEq, fun count => by simp [released]⟩
    | true =>
        by_cases writable : buffer.canWrite = true
        · exact ⟨by simpa [acquired, AsyncStreambuf.acquire, writable] using acquiredEq,
            fun count => by simp [released, AsyncStreambuf.release, writable]⟩
        · simp [acquired, AsyncStreambuf.acquire, writable] at acquiredEq
  rcases impl with ⟨acquiredImpl, releasedEq⟩
  simp only [ProducerConsumerBuffer.acquire] at acquiredImpl
  by_cases unreadable : (!buffer.canRead) = true
  · simp [unreadable] at acquiredImpl
  · rcases blocks : buffer.blocks with _ | ⟨front, rest⟩
    · simp [unreadable, blocks] at acquiredImpl
    · simp only [if_neg unreadable, blocks, Option.some.injEq] at acquiredImpl
      exact ⟨front, rest, rfl, acquiredImpl, releasedEq⟩

variable [Inhabited α] [CharTraits α]

variable {buffer : ProducerConsumerBuffer α η}

theorem alloc_effect (invariant : buffer.Invariant) (count : ℕ) :
    Effect buffer ((alloc count : Op α η).exec buffer) := by
  have idle := Effect.idle invariant
  simp only [exec, AsyncStreambuf.alloc]
  by_cases closed : (!buffer.canWrite) = true
  · simp only [if_pos closed]
    exact idle
  · by_cases already : buffer.alloced = true
    · simp only [if_neg closed, if_pos already]
      exact idle
    · rcases invariant with ⟨⟨blocksWf, totalEq, writtenEq, syncedLe, notFailed⟩,
        ⟨allocedEq, allocWf⟩, plain, blocked⟩
      have free : buffer.allocblock.isNone = true := by
        rw [← Option.not_isSome, ← allocedEq]
        simpa using already
      simp only [if_neg closed, if_neg already, ProducerConsumerBuffer.alloc, free, if_true]
      refine ⟨⟨⟨blocksWf, totalEq, writtenEq, syncedLe, by simp [assert, notFailed]⟩,
        ⟨rfl, ?_⟩, plain, blocked⟩, by simp [unread, assert], rfl, by simp⟩
      intro block present
      simp only [Option.mem_def, Option.some.injEq] at present
      subst present
      exact ⟨MemBlock.new_wf count, rfl, rfl⟩

theorem fill_effect (invariant : buffer.Invariant) {chars : List α}
    (legal : (Op.fill chars : Op α η).Legal buffer) :
    Effect buffer ((fill chars : Op α η).exec buffer) := by
  rcases invariant with ⟨⟨blocksWf, totalEq, writtenEq, syncedLe, notFailed⟩,
    ⟨allocedEq, allocWf⟩, plain, blocked⟩
  refine ⟨⟨⟨blocksWf, totalEq, writtenEq, syncedLe, notFailed⟩, ⟨?_, ?_⟩, plain, blocked⟩,
    by simp [exec, unread], rfl, by simp [exec]⟩
  · simpa [exec] using allocedEq
  · intro block present
    simp only [exec, Option.mem_def, Option.map_eq_some_iff] at present
    rcases present with ⟨old, allocated, rfl⟩
    rcases allocWf old allocated with ⟨wf, readZero, posZero⟩
    have fits : chars.length ≤ old.wrCharsLeft := by
      simpa [MemBlock.wrCharsLeft, posZero] using legal old allocated
    exact ⟨MemBlock.store_wf wf fits, readZero, posZero⟩

theorem commit_effect (invariant : buffer.Invariant) {count : ℕ}
    (legal : (Op.commit count : Op α η).Legal buffer) :
    Effect buffer ((commit count : Op α η).exec buffer) := by
  have idle := Effect.idle invariant
  simp only [exec, AsyncStreambuf.commit]
  by_cases writable : buffer.canWrite = true
  · rcases allocated : buffer.allocblock with _ | block
    · have notAlloced : (!buffer.alloced) = true := by
        simp [invariant.allocOk.1, allocated]
      simp only [if_pos writable, if_pos notAlloced]
      exact idle
    · have alloced : ¬(!buffer.alloced) = true := by
        simp [invariant.allocOk.1, allocated]
      simp only [if_pos writable, if_neg alloced, Option.map_some, Option.getD_some]
      exact Effect.of_commit invariant allocated (legal block allocated)
  · simp only [if_neg writable]
    exact idle

theorem sbumpc_effect (invariant : buffer.Invariant) :
    Effect buffer ((sbumpc : Op α η).exec buffer) := by
  have idle := Effect.idle invariant
  simp only [exec, AsyncStreambuf.sbumpc, ProducerConsumerBuffer.sbumpc]
  by_cases unreadable : (!buffer.canRead) = true
  · simp only [if_pos unreadable]
    exact idle
  · by_cases satisfiable : buffer.canSatisfy 1 = true
    · have effect := (Effect.of_read invariant satisfiable).with_readEof
      have value := readByte_fst invariant.consistent true
      have chars := read_chars invariant.consistent 1 true
      have removed : (buffer.readByte true).1.toList = (buffer.read 1 true).1 := by
        rw [value, chars]
        rcases buffer.unread with _ | ⟨first, rest⟩ <;> simp [IntType.toList]
      simp only [if_neg unreadable, if_pos satisfiable, AsyncStreambuf.checkSyncReadEof,
        removed, readByte_snd]
      exact effect _
    · simp only [if_neg unreadable, if_neg satisfiable, AsyncStreambuf.checkSyncReadEof]
      exact idle.with_readEof _

theorem sgetc_effect (invariant : buffer.Invariant) :
    Effect buffer ((sgetc : Op α η).exec buffer) := by
  have idle := Effect.idle invariant
  simp only [exec, AsyncStreambuf.sgetc, ProducerConsumerBuffer.sgetc]
  by_cases unreadable : (!buffer.canRead) = true
  · simp only [if_pos unreadable]
    exact idle
  · by_cases satisfiable : buffer.canSatisfy 1 = true
    · simp only [if_neg unreadable, if_pos satisfiable, AsyncStreambuf.checkSyncReadEof,
        readByte_snd]
      exact (Effect.of_peek invariant satisfiable).with_readEof _
    · simp only [if_neg unreadable, if_neg satisfiable, AsyncStreambuf.checkSyncReadEof]
      exact idle.with_readEof _

theorem sgetn_effect (invariant : buffer.Invariant) (count : ℕ) :
    Effect buffer ((sgetn count : Op α η).exec buffer) := by
  have idle := Effect.idle invariant
  simp only [exec, AsyncStreambuf.sgetn, ProducerConsumerBuffer.sgetn]
  by_cases positive : count ≠ 0
  · by_cases unreadable : (!buffer.canRead) = true
    · simp only [if_pos positive, if_pos unreadable]
      exact idle
    · by_cases satisfiable : buffer.canSatisfy count = true
      · simp only [if_pos positive, if_neg unreadable, if_pos satisfiable]
        exact Effect.of_read invariant satisfiable
      · simp only [if_pos positive, if_neg unreadable, if_neg satisfiable]
        exact idle
  · simp only [if_neg positive]
    exact idle

theorem scopy_effect (invariant : buffer.Invariant) (count : ℕ) :
    Effect buffer ((scopy count : Op α η).exec buffer) := by
  have idle := Effect.idle invariant
  simp only [exec, AsyncStreambuf.scopy, ProducerConsumerBuffer.scopy]
  by_cases unreadable : (!buffer.canRead) = true
  · simp only [if_pos unreadable]
    exact idle
  · by_cases satisfiable : buffer.canSatisfy count = true
    · simp only [if_neg unreadable, if_pos satisfiable]
      exact Effect.of_peek invariant satisfiable
    · simp only [if_neg unreadable, if_neg satisfiable]
      exact idle

theorem getn_effect (invariant : buffer.Invariant) (count : ℕ) (handler : η) :
    Effect buffer ((getn count handler : Op α η).exec buffer) := by
  have idle := Effect.idle invariant
  simp only [exec, AsyncStreambuf.getn, ProducerConsumerBuffer.getn]
  by_cases positive : count ≠ 0
  · by_cases unreadable : (!buffer.canRead) = true
    · simp only [if_pos positive, if_pos unreadable]
      exact idle
    · simp only [if_pos positive, if_neg unreadable]
      exact Effect.of_enqueue invariant ⟨rfl, by simp only; omega, by simp⟩
  · simp only [if_neg positive]
    exact idle

theorem bumpc_effect (invariant : buffer.Invariant) (handler : η) :
    Effect buffer ((bumpc handler : Op α η).exec buffer) := by
  have idle := Effect.idle invariant
  simp only [exec, AsyncStreambuf.bumpc, ProducerConsumerBuffer.bumpc]
  by_cases unreadable : (!buffer.canRead) = true
  · simp only [if_pos unreadable]
    exact idle
  · simp only [if_neg unreadable]
    exact Effect.of_enqueue invariant ⟨rfl, Nat.le_refl 1, fun _ => rfl⟩

theorem acquireRelease_effect (invariant : buffer.Invariant) {guarded : Bool} {count : ℕ}
    (legal : (Op.acquireRelease guarded count : Op α η).Legal buffer) :
    Effect buffer ((acquireRelease guarded count : Op α η).exec buffer) := by
  have idle := Effect.idle invariant
  rcases acquiredEq : acquired buffer guarded with _ | chars
  · simp only [exec, acquiredEq]
    exact idle
  · rcases acquired_eq_some acquiredEq with ⟨front, rest, blocks, unreadEq, releasedEq⟩
    have frontWf := invariant.consistent.blocks_wf front (by simp [blocks])
    have length := MemBlock.length_unread frontWf
    have fits := legal chars acquiredEq
    simp only [exec, acquiredEq, releasedEq count]
    rw [← unreadEq]
    exact Effect.of_release invariant blocks (by rw [unreadEq] at length; omega)

theorem sync_effect (invariant : buffer.Invariant) :
    Effect buffer ((sync : Op α η).exec buffer) := by
  have idle := Effect.idle invariant
  simp only [exec, AsyncStreambuf.sync]
  by_cases closed : (!buffer.canWrite) = true
  · simp only [if_pos closed]
    exact idle
  · rcases invariant with ⟨⟨blocksWf, totalEq, writtenEq, syncedLe, notFailed⟩, allocOk,
      plain, blocked⟩
    simp only [if_neg closed, ProducerConsumerBuffer.sync]
    exact Effect.of_fulfilled (fulfillOutstanding_spec
      ⟨blocksWf, totalEq, writtenEq, Nat.le_refl _, notFailed⟩ plain) allocOk
      (by simp [unread]) rfl

theorem close_effect (invariant : buffer.Invariant) (input output : Bool) :
    Effect buffer ((close input output : Op α η).exec buffer) := by
  rcases invariant with ⟨⟨blocksWf, totalEq, writtenEq, syncedLe, notFailed⟩, allocOk,
    plain, blocked⟩
  have closedRead : (if input && buffer.canRead then buffer.closeRead else buffer).Invariant ∧
      (if input && buffer.canRead then buffer.closeRead else buffer).unread =
        buffer.unread ∧
      (if input && buffer.canRead then buffer.closeRead else buffer).totalRead =
        buffer.totalRead := by
    split
    · exact ⟨⟨⟨blocksWf, totalEq, writtenEq, syncedLe, notFailed⟩, allocOk, plain, blocked⟩,
        rfl, rfl⟩
    · exact ⟨⟨⟨blocksWf, totalEq, writtenEq, syncedLe, notFailed⟩, allocOk, plain, blocked⟩,
        rfl, rfl⟩
  simp only [exec, AsyncStreambuf.close]
  generalize (if input && buffer.canRead then buffer.closeRead else buffer) = middle
    at closedRead ⊢
  rcases closedRead with ⟨invariant, unreadEq, totalRead⟩
  by_cases closing : (output && middle.canWrite) = true
  · simp only [if_pos closing, closeWrite]
    exact Effect.of_fulfilled (fulfillOutstanding_spec
      ⟨invariant.consistent.blocks_wf, invariant.consistent.total_eq,
        invariant.consistent.written_eq, invariant.consistent.synced_le,
        invariant.consistent.not_failed⟩ invariant.plain) invariant.allocOk
      (by simpa [unread] using unreadEq) totalRead
  · simp only [if_neg closing, deliveredBy, List.flatMap_nil]
    exact ⟨invariant, by simp [unreadEq], by simp [totalRead], by simp⟩

/-- The step lemma: one legal operation, whichever it is. -/
theorem exec_effect (invariant : buffer.Invariant) {op : Op α η} (legal : op.Legal buffer) :
    Effect buffer (op.exec buffer) := by
  cases op with
  | write source => exact Effect.of_write invariant source
  | alloc count => exact alloc_effect invariant count
  | fill chars => exact fill_effect invariant legal
  | commit count => exact commit_effect invariant legal
  | sbumpc => exact sbumpc_effect invariant
  | sgetc => exact sgetc_effect invariant
  | sgetn count => exact sgetn_effect invariant count
  | scopy count => exact scopy_effect invariant count
  | getn count handler => exact getn_effect invariant count handler
  | bumpc handler => exact bumpc_effect invariant handler
  | acquireRelease guarded count => exact acquireRelease_effect invariant legal
  | sync => exact sync_effect invariant
  | close input output => exact close_effect invariant input output

end Op

namespace Session

variable {α η : Type}

/-- The session as a FIFO channel. -/
structure Refines (session : Session α η) (channel : Channel α) : Prop where
  invariant : session.buffer.Invariant
  stored_eq : channel.stored = session.stored
  removed_eq : channel.removed = session.removed
  unread_eq : channel.unread = session.buffer.unread
  totalRead_eq : session.buffer.totalRead = session.removed.length

theorem new_refines (allocSize : ℕ) :
    (new allocSize : Session α η).Refines Channel.empty :=
  ⟨ProducerConsumerBuffer.new_invariant allocSize, rfl, rfl, rfl, rfl⟩

variable [Inhabited α] [CharTraits α]

/-- Each operation is a push followed by a pop. -/
theorem exec_refines {session : Session α η} {channel : Channel α}
    (refines : session.Refines channel) {op : Op α η} (legal : op.Legal session.buffer) :
    (session.exec op).Refines
      ((channel.push (op.exec session.buffer).stored).pop
        (op.exec session.buffer).removed.length) := by
  rcases refines with ⟨invariant, storedEq, removedEq, unreadEq, totalReadEq⟩
  have effect := Op.exec_effect invariant legal
  have moved := effect.moved
  have taken : ((channel.push (op.exec session.buffer).stored).unread.take
      (op.exec session.buffer).removed.length) = (op.exec session.buffer).removed := by
    rw [Channel.unread_push, unreadEq, moved, List.take_left]
  refine ⟨effect.invariant, ?_, ?_, ?_, ?_⟩
  · simp [exec, Channel.pop, Channel.push, storedEq]
  · simp only [Channel.pop, taken, exec]
    simp [Channel.push, removedEq]
  · rw [Channel.unread_pop, Channel.unread_push, unreadEq, moved, List.drop_left]
    rfl
  · simp only [exec, List.length_append, effect.totalRead_eq, totalReadEq]

/-- The run lemma: every reachable session is some channel. -/
theorem reachable_refines {allocSize : ℕ} {session : Session α η}
    (reachable : (system α η).Reachable (new allocSize) session) :
    ∃ channel, session.Refines channel :=
  reachable.invariant (fun reached => ∃ channel, reached.Refines channel)
    ⟨_, new_refines allocSize⟩ fun before op after refined step => by
      rcases refined with ⟨channel, refines⟩
      rcases step with ⟨legal, rfl⟩
      exact ⟨_, exec_refines refines legal⟩

theorem reachable_exec {start session : Session α η} {op : Op α η}
    (reachable : (system α η).Reachable start session) (legal : op.Legal session.buffer) :
    (system α η).Reachable start (session.exec op) :=
  reachable.tail ⟨legal, rfl⟩

/-- First in, first out: along every run, what was stored is what was removed followed by
what the blocks still hold, the counters agree with both, and no assert has failed. -/
theorem fifo {allocSize : ℕ} {session : Session α η}
    (reachable : (system α η).Reachable (new allocSize) session) :
    session.stored = session.removed ++ session.buffer.unread ∧
      session.buffer.total = session.buffer.unread.length ∧
      session.buffer.totalRead = session.removed.length ∧
      session.buffer.totalWritten = session.stored.length ∧
      (∀ block ∈ session.buffer.blocks, block.read ≤ block.pos ∧ block.pos ≤ block.size) ∧
      session.buffer.failed = false := by
  rcases reachable_refines reachable with ⟨channel, invariant, storedEq, removedEq, unreadEq,
    totalReadEq⟩
  have history := channel.removed_append_unread
  rw [storedEq, removedEq, unreadEq] at history
  rcases invariant.consistent with ⟨blocksWf, totalEq, writtenEq, syncedLe, notFailed⟩
  refine ⟨history.symm, totalEq, totalReadEq, ?_, ?_, notFailed⟩
  · rw [writtenEq, totalReadEq, totalEq, ← history, List.length_append]
  · intro block present
    exact ⟨(blocksWf block present).read_le, (blocksWf block present).pos_le⟩

/-- Two characters are committed out of a block of three, two more are written behind them,
and one is read. -/
theorem fifo_commit_write_sbumpc :
    let session := ((((((new 2 : Session UInt8 Unit).exec (.alloc 3)).exec
      (.fill [10, 11])).exec (.commit 2)).exec (.write [12, 13])).exec .sbumpc)
    session.stored = [10, 11, 12, 13] ∧ session.removed = [10] ∧
      session.stored = session.removed ++ session.buffer.unread ∧
      session.buffer.total = session.buffer.unread.length ∧
      session.buffer.totalRead = session.removed.length ∧
      session.buffer.totalWritten = session.stored.length ∧
      (∀ block ∈ session.buffer.blocks, block.read ≤ block.pos ∧ block.pos ≤ block.size) ∧
      session.buffer.failed = false := by
  have reachable : (system UInt8 Unit).Reachable (new 2)
      ((((((new 2 : Session UInt8 Unit).exec (.alloc 3)).exec (.fill [10, 11])).exec
        (.commit 2)).exec (.write [12, 13])).exec .sbumpc) := by
    refine reachable_exec (reachable_exec (reachable_exec (reachable_exec (reachable_exec
      (.refl _) trivial) ?_) ?_) trivial) trivial
    · intro block allocated
      obtain rfl : _ = block := Option.some.inj allocated
      decide
    · intro block allocated
      obtain rfl : _ = block := Option.some.inj allocated
      decide
  exact ⟨by decide, by decide, fifo reachable⟩

end Session

end Snode.Streams
