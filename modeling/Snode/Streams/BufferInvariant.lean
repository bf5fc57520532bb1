import Snode.Streams.Operations

/-!
# What each function of the buffer does to its unread characters

The unread characters of a buffer are those between the two heads of each of
its blocks, front block first.  For every function there is one lemma that says
what it returns and what it leaves unread, and one that says which part of the
buffer it does not touch; no later module looks inside these functions.

`Consistent` is what every function keeps: heads in order inside each block,
counters that agree with the blocks, and no failed assert.
-/

namespace Snode.Streams

namespace MemBlock

variable {α : Type}

/-- Heads in order, inside the memory the block owns. -/
structure Wf (block : MemBlock α) : Prop where
  read_le : block.read ≤ block.pos
  pos_le : block.pos ≤ block.size
  length_data : block.data.length = block.size

def unread (block : MemBlock α) : List α :=
  (block.data.drop block.read).take block.rdCharsLeft

theorem length_unread {block : MemBlock α} (wf : block.Wf) :
    block.unread.length = block.rdCharsLeft := by
  rcases wf with ⟨readLe, posLe, lengthData⟩
  simp only [unread, rdCharsLeft, List.length_take, List.length_drop]
  omega

theorem new_wf [Inhabited α] (size : ℕ) : (new size : MemBlock α).Wf := by
  constructor <;> simp [new]

theorem readChars_fst (block : MemBlock α) (count : ℕ) (advance : Bool) :
    (block.readChars count advance).1 = block.unread.take count := by
  simp only [readChars, unread, List.take_take]

theorem readChars_wf {block : MemBlock α} (wf : block.Wf) (count : ℕ) (advance : Bool) :
    (block.readChars count advance).2.Wf := by
  rcases wf with ⟨readLe, posLe, lengthData⟩
  cases advance with
  | false => exact ⟨readLe, posLe, lengthData⟩
  | true =>
      refine ⟨?_, posLe, lengthData⟩
      simp only [readChars, rdCharsLeft, if_true]
      omega

theorem readChars_unread (block : MemBlock α) (count : ℕ) :
    (block.readChars count true).2.unread = block.unread.drop count := by
  simp only [readChars, unread, rdCharsLeft, if_true, List.drop_take, List.drop_drop]
  rcases Nat.le_total count (block.pos - block.read) with enough | short
  · rw [Nat.min_eq_left enough]
    congr 1
    omega
  · rw [Nat.min_eq_right short]
    have nothing : block.pos - block.read - count = 0 := by omega
    have nothing' : block.pos - (block.read + (block.pos - block.read)) = 0 := by omega
    simp [nothing, nothing']

theorem store_wf {block : MemBlock α} (wf : block.Wf) {source : List α}
    (fits : source.length ≤ block.wrCharsLeft) : (block.store source).Wf := by
  rcases wf with ⟨readLe, posLe, lengthData⟩
  refine ⟨readLe, posLe, ?_⟩
  simp only [wrCharsLeft] at fits
  simp only [store, List.length_append, List.length_take, List.length_drop]
  omega

/-- A write that fits is written whole and shows up behind what was unread. -/
theorem write_of_le {block : MemBlock α} (wf : block.Wf) {source : List α}
    (fits : source.length ≤ block.wrCharsLeft) :
    (block.write source).1 = source.length ∧ (block.write source).2.Wf ∧
      (block.write source).2.unread = block.unread ++ source := by
  rcases wf with ⟨readLe, posLe, lengthData⟩
  have wrcount : min source.length block.wrCharsLeft = source.length := Nat.min_eq_left fits
  simp only [wrCharsLeft] at fits
  refine ⟨wrcount, ⟨?_, ?_, ?_⟩, ?_⟩
  · simp only [write, updateWriteHead, store]
    omega
  · simp only [write, updateWriteHead, store, wrcount]
    omega
  · simp only [write, updateWriteHead, store, wrcount, List.take_length, List.length_append,
      List.length_take, List.length_drop]
    omega
  · simp only [write, updateWriteHead, store, wrcount, List.take_length, unread, rdCharsLeft]
    have kept : (block.data.take block.pos).length = block.pos := by
      simp only [List.length_take]
      omega
    rw [List.append_assoc, List.drop_append_of_le_length (by omega), List.drop_take,
      List.take_append, List.take_append]
    simp only [List.length_take, List.length_drop]
    have first : block.pos + source.length - block.read -
        min (block.pos - block.read) (block.data.length - block.read) = source.length := by omega
    rw [first, List.take_length, Nat.sub_self, List.take_zero, List.append_nil, List.take_take]
    congr 2
    omega

theorem updateWriteHead_wf {block : MemBlock α} (wf : block.Wf) {count : ℕ}
    (fits : block.pos + count ≤ block.size) : (block.updateWriteHead count).Wf := by
  rcases wf with ⟨readLe, posLe, lengthData⟩
  refine ⟨?_, fits, lengthData⟩
  simp only [updateWriteHead]
  omega

end MemBlock

/-- The requests that `getn` and `bumpc` make. -/
structure EvRequest.Plain {η : Type} (request : EvRequest η) : Prop where
  advances : request.advanceAct = .advanceOnce
  count_pos : 1 ≤ request.count
  count_eq_one : request.bufptr = false → request.count = 1

namespace ProducerConsumerBuffer

variable {α η : Type}

def unreadBlocks (blocks : List (MemBlock α)) : List α :=
  blocks.flatMap MemBlock.unread

@[simp]
theorem unreadBlocks_nil : unreadBlocks ([] : List (MemBlock α)) = [] := rfl

@[simp]
theorem unreadBlocks_cons (block : MemBlock α) (rest : List (MemBlock α)) :
    unreadBlocks (block :: rest) = block.unread ++ unreadBlocks rest := by
  simp [unreadBlocks]

@[simp]
theorem unreadBlocks_append (front back : List (MemBlock α)) :
    unreadBlocks (front ++ back) = unreadBlocks front ++ unreadBlocks back := by
  simp [unreadBlocks]

/-- The characters stored in the buffer and not yet read. -/
def unread (buffer : ProducerConsumerBuffer α η) : List α :=
  unreadBlocks buffer.blocks

theorem purge_subset {block : MemBlock α} {blocks : List (MemBlock α)}
    (present : block ∈ purge blocks) : block ∈ blocks := by
  induction blocks with
  | nil => simp [purge] at present
  | cons front rest ih =>
      simp only [purge] at present
      split at present
      · exact present
      · exact List.mem_cons_of_mem _ (ih present)

@[simp]
theorem unreadBlocks_purge (blocks : List (MemBlock α)) :
    unreadBlocks (purge blocks) = unreadBlocks blocks := by
  induction blocks with
  | nil => rfl
  | cons front rest ih =>
      simp only [purge]
      split
      · rfl
      · rename_i exhausted
        have nothing : front.rdCharsLeft = 0 := by omega
        simp [ih, MemBlock.unread, nothing]

/-- What the loop of `read` copies, leaves and checks, from `totalr` characters on. -/
theorem readBlocks_spec (count : ℕ) (advance : Bool) (totalr : ℕ)
    (blocks : List (MemBlock α)) (wf : ∀ block ∈ blocks, block.Wf) (le : totalr ≤ count) :
    (readBlocks count advance totalr blocks).1 = (unreadBlocks blocks).take (count - totalr) ∧
      unreadBlocks (readBlocks count advance totalr blocks).2.1 =
        (if advance then (unreadBlocks blocks).drop (count - totalr) else unreadBlocks blocks) ∧
      (∀ block ∈ (readBlocks count advance totalr blocks).2.1, block.Wf) ∧
      (readBlocks count advance totalr blocks).2.2 = true := by
  induction blocks generalizing totalr with
  | nil => simp [readBlocks]
  | cons block rest ih =>
      have blockWf := wf block (by simp)
      have restWf : ∀ block ∈ rest, block.Wf := fun block present => wf block (by simp [present])
      have readWf := MemBlock.readChars_wf blockWf (count - totalr) advance
      have chars := MemBlock.readChars_fst block (count - totalr) advance
      have left : (block.readChars (count - totalr) advance).2.unread =
          if advance then block.unread.drop (count - totalr) else block.unread := by
        cases advance with
        | false => simp [MemBlock.readChars]
        | true => simpa using MemBlock.readChars_unread block (count - totalr)
      simp only [readBlocks, chars, List.length_take]
      have total : totalr + min (count - totalr) block.unread.length ≤ count := by omega
      by_cases full : totalr + min (count - totalr) block.unread.length = count
      · -- the block held all that was still missing, so the loop stops at it
        have covered : count - totalr ≤ block.unread.length := by omega
        rw [if_pos full]
        refine ⟨?_, ?_, ?_, by simpa using total⟩
        · rw [unreadBlocks_cons, List.take_append_of_le_length covered]
        · rw [unreadBlocks_cons, left]
          cases advance with
          | false => simp
          | true => simp [List.drop_append_of_le_length covered]
        · intro other present
          rcases List.mem_cons.mp present with rfl | present
          · exact readWf
          · exact restWf other present
      · have short : block.unread.length < count - totalr := by omega
        have next := ih (totalr + min (count - totalr) block.unread.length) restWf total
        have missing : count - (totalr + min (count - totalr) block.unread.length) =
            count - totalr - block.unread.length := by omega
        rw [missing] at next
        rcases next with ⟨nextChars, nextLeft, nextWf, nextHolds⟩
        rw [if_neg full]
        refine ⟨?_, ?_, ?_, ?_⟩
        · simp only [nextChars, unreadBlocks_cons, List.take_append]
        · simp only [unreadBlocks_cons, left, nextLeft]
          cases advance with
          | false => simp
          | true => simp [List.drop_append]
        · intro other present
          rcases List.mem_cons.mp present with rfl | present
          · exact readWf
          · exact nextWf other present
        · simp only [nextHolds, Bool.and_true, decide_eq_true_eq]
          exact total

/-- What every function of the buffer keeps. -/
structure Consistent (buffer : ProducerConsumerBuffer α η) : Prop where
  blocks_wf : ∀ block ∈ buffer.blocks, block.Wf
  total_eq : buffer.total = buffer.unread.length
  written_eq : buffer.totalWritten = buffer.totalRead + buffer.total
  synced_le : buffer.synced ≤ buffer.total
  not_failed : buffer.failed = false

/-- The part of a buffer that reads, writes and completions leave alone. -/
def control (buffer : ProducerConsumerBuffer α η) : Bool × Bool × Bool × ℕ × Option (MemBlock α) :=
  (buffer.streamCanRead, buffer.streamCanWrite, buffer.alloced, buffer.allocSize,
    buffer.allocblock)

@[simp]
theorem purge_blocks_wf {blocks : List (MemBlock α)} (wf : ∀ block ∈ blocks, block.Wf) :
    ∀ block ∈ purge blocks, block.Wf :=
  fun block present => wf block (purge_subset present)

theorem updateReadHead_synced (buffer : ProducerConsumerBuffer α η) (count : ℕ) :
    (buffer.updateReadHead count).synced = buffer.synced - count := by
  simp only [updateReadHead]
  split
  · split <;> omega
  · omega

/-! ### Reading -/

@[simp]
theorem read_control (buffer : ProducerConsumerBuffer α η) (count : ℕ) (advance : Bool) :
    (buffer.read count advance).2.control = buffer.control := by
  cases advance <;> rfl

@[simp]
theorem read_requests (buffer : ProducerConsumerBuffer α η) (count : ℕ) (advance : Bool) :
    (buffer.read count advance).2.requests = buffer.requests := by
  cases advance <;> rfl

theorem read_chars {buffer : ProducerConsumerBuffer α η} (consistent : buffer.Consistent)
    (count : ℕ) (advance : Bool) :
    (buffer.read count advance).1 = buffer.unread.take count := by
  simpa [read, unread] using
    (readBlocks_spec count advance 0 buffer.blocks consistent.blocks_wf (Nat.zero_le _)).1

theorem read_unread {buffer : ProducerConsumerBuffer α η} (consistent : buffer.Consistent)
    (count : ℕ) (advance : Bool) :
    (buffer.read count advance).2.unread =
      if advance then buffer.unread.drop count else buffer.unread := by
  have left :=
    (readBlocks_spec count advance 0 buffer.blocks consistent.blocks_wf (Nat.zero_le _)).2.1
  cases advance with
  | false => simpa [read, unread, assert] using left
  | true => simpa [read, unread, assert, updateReadHead] using left

theorem read_totalRead {buffer : ProducerConsumerBuffer α η} (consistent : buffer.Consistent)
    (count : ℕ) (advance : Bool) :
    (buffer.read count advance).2.totalRead =
      buffer.totalRead + if advance then (buffer.unread.take count).length else 0 := by
  have chars := read_chars consistent count advance
  cases advance with
  | false => simp [read, assert]
  | true =>
      rw [← chars]
      rfl

/-- A read that may run keeps the buffer consistent and makes no request easier to satisfy. -/
theorem read_consistent {buffer : ProducerConsumerBuffer α η} (consistent : buffer.Consistent)
    {count : ℕ} (advance : Bool) (satisfiable : buffer.canSatisfy count = true) :
    (buffer.read count advance).2.Consistent ∧
      (buffer.read count advance).2.synced ≤ buffer.synced ∧
      (buffer.read count advance).2.total ≤ buffer.total := by
  have spec := readBlocks_spec count advance 0 buffer.blocks consistent.blocks_wf (Nat.zero_le _)
  have chars := read_chars consistent count advance
  have unreadEq := read_unread consistent count advance
  rcases consistent with ⟨blocksWf, totalEq, writtenEq, syncedLe, notFailed⟩
  rcases spec with ⟨-, -, nextWf, holds⟩
  cases advance with
  | false =>
      refine ⟨⟨nextWf, ?_, writtenEq, syncedLe, ?_⟩, Nat.le_refl _, Nat.le_refl _⟩
      · rw [unreadEq]
        exact totalEq
      · simp [read, assert, satisfiable, holds, notFailed]
  | true =>
      have taken : (buffer.read count true).1.length ≤ buffer.total := by
        rw [chars, totalEq, List.length_take]
        exact Nat.min_le_right _ _
      have synced : (buffer.read count true).2.synced =
          buffer.synced - (buffer.read count true).1.length :=
        updateReadHead_synced _ _
      have total : (buffer.read count true).2.total =
          buffer.total - (buffer.read count true).1.length := rfl
      refine ⟨⟨purge_blocks_wf nextWf, ?_, ?_, ?_, ?_⟩, by omega, by omega⟩
      · rw [unreadEq, total, chars, totalEq]
        simp only [if_true, List.length_drop, List.length_take]
        omega
      · change buffer.totalWritten = buffer.totalRead + (buffer.read count true).1.length +
          (buffer.total - (buffer.read count true).1.length)
        omega
      · omega
      · simp [read, assert, updateReadHead, satisfiable, holds, notFailed]

theorem canSatisfy_mono {buffer later : ProducerConsumerBuffer α η} {count : ℕ}
    (synced : later.synced ≤ buffer.synced) (total : later.total ≤ buffer.total)
    (canWrite : later.canWrite = buffer.canWrite)
    (unsatisfiable : buffer.canSatisfy count = false) : later.canSatisfy count = false := by
  simp only [canSatisfy, inAvail, canWrite, Bool.or_eq_false_iff, decide_eq_false_iff_not,
    Nat.not_lt] at unsatisfiable ⊢
  rcases unsatisfiable with ⟨⟨notSynced, notEnough⟩, stillOpen⟩
  have short : ¬count ≤ buffer.total := of_decide_eq_false notEnough
  exact ⟨⟨Nat.le_trans synced notSynced, decide_eq_false (by omega)⟩, stillOpen⟩

/-! ### Completing requests -/

theorem readByte_fst {buffer : ProducerConsumerBuffer α η} (consistent : buffer.Consistent)
    (advance : Bool) :
    (buffer.readByte advance).1 = (match buffer.unread with
      | [] => .eof
      | value :: _ => .char value) := by
  have chars := read_chars consistent 1 advance
  simp only [readByte]
  rcases unreadEq : buffer.unread with _ | ⟨value, rest⟩ <;>
    simp [chars, unreadEq]

theorem readByte_snd (buffer : ProducerConsumerBuffer α η) (advance : Bool) :
    (buffer.readByte advance).2 = (buffer.read 1 advance).2 := by
  simp only [readByte]
  split <;> rfl

/-- A request of the plain kind is completed with the characters it asked for, as far as
they are there, and takes exactly these. -/
theorem complete_spec {buffer : ProducerConsumerBuffer α η} (consistent : buffer.Consistent)
    {request : EvRequest η} (plain : request.Plain) :
    (buffer.complete request).1.delivered = buffer.unread.take request.count ∧
      (buffer.complete request).2 = (buffer.read request.count true).2 ∧
      (buffer.complete request).1.before = buffer ∧
      (buffer.complete request).1.request = request ∧
      ((buffer.complete request).1.result.IsEof → (buffer.complete request).1.delivered = []) := by
  rcases plain with ⟨advances, countPos, countOne⟩
  by_cases bulk : 1 < request.count ∧ request.bufptr = true
  · have chars := read_chars consistent request.count true
    have advance : (request.advanceAct != .noAdvance) = true := by simp [advances]
    simp only [complete, if_pos bulk, advance, Completed.delivered, chars, Completion.IsEof]
    exact ⟨trivial, trivial, trivial, trivial, List.eq_nil_of_length_eq_zero⟩
  · have one : request.count = 1 := by
      by_contra several
      cases destination : request.bufptr with
      | false => exact several (countOne destination)
      | true => exact bulk ⟨by omega, destination⟩
    have value := readByte_fst consistent true
    have advance : (request.advanceAct == .advanceOnce) = true := by simp [advances]
    have notBefore : ¬request.advanceAct = .advanceBefore := by simp [advances]
    simp only [complete, if_neg notBefore, advance, Completed.delivered, readByte_snd, one, value]
    rcases buffer.unread with _ | ⟨first, rest⟩ <;> simp [IntType.toList, Completion.IsEof]

/-- What a completed request is known to have found and done. -/
structure Served (completed : Completed α η) : Prop where
  plain : completed.request.Plain
  consistent : completed.before.Consistent
  satisfiable : completed.before.canSatisfy completed.request.count = true
  delivered_eq :
    completed.delivered = completed.before.unread.take completed.request.count
  delivered_of_eof : completed.result.IsEof → completed.delivered = []

/-- The oldest waiting request cannot be satisfied. -/
def Blocked (buffer : ProducerConsumerBuffer α η) : Prop :=
  ∀ request ∈ buffer.requests.head?, buffer.canSatisfy request.size = false

/-- What running the waiting requests does to a buffer. -/
structure Fulfilled (before after : ProducerConsumerBuffer α η)
    (completed : List (Completed α η)) : Prop where
  consistent : after.Consistent
  control_eq : after.control = before.control
  totalRead_eq : after.totalRead = before.totalRead + (deliveredBy completed).length
  unread_eq : before.unread = deliveredBy completed ++ after.unread
  plain : ∀ request ∈ after.requests, request.Plain
  blocked : after.Blocked
  served : ∀ request ∈ completed, Served request

theorem fulfillRequests_spec (requests : List (EvRequest η))
    {buffer : ProducerConsumerBuffer α η} (consistent : buffer.Consistent)
    (plain : ∀ request ∈ requests, request.Plain) :
    Fulfilled buffer (fulfillRequests requests buffer).1 (fulfillRequests requests buffer).2 := by
  induction requests generalizing buffer with
  | nil =>
      rcases consistent with ⟨blocksWf, totalEq, writtenEq, syncedLe, notFailed⟩
      exact ⟨⟨blocksWf, totalEq, writtenEq, syncedLe, notFailed⟩, rfl, rfl, rfl,
        by simp [fulfillRequests], by simp [fulfillRequests, Blocked], by simp [fulfillRequests]⟩
  | cons request rest ih =>
      have requestPlain := plain request (by simp)
      have restPlain : ∀ other ∈ rest, other.Plain := fun other present =>
        plain other (by simp [present])
      by_cases satisfiable : buffer.canSatisfy request.size = true
      · rcases complete_spec consistent requestPlain with
          ⟨delivered, after, before, requestEq, eof⟩
        have readOk := read_consistent consistent true satisfiable
        have stillConsistent : (buffer.complete request).2.Consistent := by
          rw [after]
          exact readOk.1
        have next := ih stillConsistent restPlain
        simp only [fulfillRequests, satisfiable, if_true]
        refine ⟨next.consistent, ?_, ?_, ?_, next.plain, next.blocked, ?_⟩
        · rw [next.control_eq, after, read_control]
        · rw [next.totalRead_eq, after, read_totalRead consistent]
          simp [deliveredBy, delivered, Nat.add_assoc]
        · have unreadEq := next.unread_eq
          have remaining : (buffer.complete request).2.unread = buffer.unread.drop request.count := by
            rw [after, read_unread consistent, if_pos rfl]
          simp only [deliveredBy, List.flatMap_cons, delivered, List.append_assoc] at unreadEq ⊢
          rw [← unreadEq, remaining, List.take_append_drop]
        · intro completed present
          rcases List.mem_cons.mp present with rfl | present
          · refine ⟨?_, ?_, ?_, ?_, eof⟩
            · rw [requestEq]
              exact requestPlain
            · rw [before]
              exact consistent
            · rw [before, requestEq]
              exact satisfiable
            · rw [before, requestEq]
              exact delivered
          · exact next.served completed present
      · have unsatisfiable : buffer.canSatisfy request.size = false := by simpa using satisfiable
        simp only [fulfillRequests, unsatisfiable, Bool.false_eq_true, if_false]
        rcases consistent with ⟨blocksWf, totalEq, writtenEq, syncedLe, notFailed⟩
        refine ⟨⟨blocksWf, totalEq, writtenEq, syncedLe, notFailed⟩, rfl, rfl, rfl, plain, ?_,
          by simp⟩
        intro front present
        simp only [List.head?_cons, Option.mem_def, Option.some.injEq] at present
        subst present
        exact unsatisfiable

end ProducerConsumerBuffer

end Snode.Streams
