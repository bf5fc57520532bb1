import Snode.Streams.BufferRuns

/-!
# Reading in blocks and reading byte by byte

`sgetn` walks over the blocks and purges them once at its end, `sbumpc` purges
them after each character.  Both move the read head and the counters alike, and
`scopy` shows the characters that `sgetn` takes and moves nothing.
-/

namespace Snode.Streams

namespace ProducerConsumerBuffer

variable {α η : Type}

/-- `sbumpc` called `count` times in a row: what was returned, and the buffer after that. -/
def bumps : ℕ → ProducerConsumerBuffer α η → List (IntType α) × ProducerConsumerBuffer α η
  | 0, buffer => ([], buffer)
  | count + 1, buffer =>
      let (value, after) := buffer.sbumpc
      let (values, final) := bumps count after
      (value :: values, final)

/-- `total_`, `total_read_` and `synced_`. -/
def counters (buffer : ProducerConsumerBuffer α η) : ℕ × ℕ × ℕ :=
  (buffer.total, buffer.totalRead, buffer.synced)

/-- What a peek, a bulk read and as many single reads have in common. -/
structure ReadsAlike [CharTraits α] (buffer : ProducerConsumerBuffer α η) (count : ℕ) :
    Prop where
  /-- The peek moves nothing. -/
  unchanged : (buffer.scopy count).2.2 = buffer
  number : (buffer.scopy count).1 = min count buffer.inAvail ∧
    (buffer.sgetn count).1 = min count buffer.inAvail ∧
    (buffer.sgetn count).2.1.length = min count buffer.inAvail
  /-- The peek shows what a read after it takes. -/
  peeked : ((buffer.scopy count).2.2.sgetn count).2.1 = (buffer.scopy count).2.1
  values : (bumps (min count buffer.inAvail) buffer).1 = (buffer.sgetn count).2.1.map .char
  unread_eq :
    (bumps (min count buffer.inAvail) buffer).2.unread = (buffer.sgetn count).2.2.unread
  counters_eq :
    (bumps (min count buffer.inAvail) buffer).2.counters = (buffer.sgetn count).2.2.counters

theorem Consistent.inAvail_eq {buffer : ProducerConsumerBuffer α η}
    (consistent : buffer.Consistent) : buffer.inAvail = buffer.unread.length :=
  consistent.total_eq

/-! ### Peeks -/

theorem readBlocks_peek (count totalr : ℕ) (blocks : List (MemBlock α)) :
    (readBlocks count false totalr blocks).2.1 = blocks := by
  induction blocks generalizing totalr with
  | nil => rfl
  | cons block rest ih =>
      simp only [readBlocks]
      split
      · rfl
      · exact congrArg (block :: ·) (ih _)

theorem read_peek {buffer : ProducerConsumerBuffer α η} (consistent : buffer.Consistent)
    {count : ℕ} (satisfiable : buffer.canSatisfy count = true) :
    (buffer.read count false).2 = buffer := by
  have holds :=
    (readBlocks_spec count false 0 buffer.blocks consistent.blocks_wf (Nat.zero_le _)).2.2.2
  have same := readBlocks_peek count 0 buffer.blocks
  simp [read, assert, satisfiable, holds, same]

/-! ### Single reads -/

theorem read_counters {buffer : ProducerConsumerBuffer α η} (consistent : buffer.Consistent)
    (count : ℕ) :
    (buffer.read count true).2.counters =
      (buffer.total - min count buffer.total, buffer.totalRead + min count buffer.total,
        buffer.synced - min count buffer.total) := by
  have taken : (buffer.read count true).1.length = min count buffer.total := by
    rw [read_chars consistent, List.length_take, consistent.total_eq]
  have synced : (buffer.read count true).2.synced =
      buffer.synced - (buffer.read count true).1.length :=
    updateReadHead_synced _ _
  rw [← taken, ← synced]
  rfl

/-- One step: the character at the front is returned and taken. -/
theorem sbumpc_eq {buffer : ProducerConsumerBuffer α η} (consistent : buffer.Consistent)
    {first : α} {rest : List α} (unreadEq : buffer.unread = first :: rest) :
    buffer.sbumpc = (.char first, (buffer.read 1 true).2) ∧
      (buffer.read 1 true).2.Consistent ∧ (buffer.read 1 true).2.unread = rest ∧
      (buffer.read 1 true).2.counters =
        (buffer.total - 1, buffer.totalRead + 1, buffer.synced - 1) := by
  have some : 1 ≤ buffer.total := by
    rw [consistent.total_eq, unreadEq]
    simp
  have satisfiable : buffer.canSatisfy 1 = true := by simp [canSatisfy, inAvail, some]
  refine ⟨?_, (read_consistent consistent true satisfiable).1, ?_, ?_⟩
  · have value := readByte_fst consistent true
    rw [unreadEq] at value
    have bumped : buffer.readByte true = (.char first, (buffer.read 1 true).2) :=
      Prod.ext value (readByte_snd buffer true)
    rw [sbumpc, if_pos satisfiable, bumped]
  · rw [read_unread consistent, if_pos rfl, unreadEq]
    rfl
  · rw [read_counters consistent, Nat.min_eq_left some]

/-- The run: by induction on the number of reads, each of which leaves a consistent buffer. -/
theorem bumps_spec {buffer : ProducerConsumerBuffer α η} (consistent : buffer.Consistent)
    {count : ℕ} (enough : count ≤ buffer.unread.length) :
    (bumps count buffer).1 = (buffer.unread.take count).map .char ∧
      (bumps count buffer).2.unread = buffer.unread.drop count ∧
      (bumps count buffer).2.counters =
        (buffer.total - count, buffer.totalRead + count, buffer.synced - count) := by
  induction count generalizing buffer with
  | zero => exact ⟨rfl, rfl, rfl⟩
  | succ count ih =>
      rcases unreadEq : buffer.unread with _ | ⟨first, rest⟩
      · simp [unreadEq] at enough
      · rcases sbumpc_eq consistent unreadEq with ⟨bumped, stillConsistent, left, counted⟩
        have fewer : count ≤ (buffer.read 1 true).2.unread.length := by
          rw [left]
          simpa [unreadEq] using enough
        rcases ih stillConsistent fewer with ⟨values, unread, final⟩
        simp only [counters, Prod.mk.injEq] at counted
        rcases counted with ⟨total, totalRead, synced⟩
        simp only [bumps, bumped]
        refine ⟨?_, ?_, ?_⟩
        · rw [values, left, List.take_succ_cons, List.map_cons]
        · rw [unread, left, List.drop_succ_cons]
        · rw [final, total, totalRead, synced, Nat.sub_sub, Nat.sub_sub, Nat.add_assoc,
            Nat.add_comm 1 count]

theorem readsAlike [CharTraits α] {buffer : ProducerConsumerBuffer α η}
    (consistent : buffer.Consistent) {count : ℕ}
    (satisfiable : buffer.canSatisfy count = true) : buffer.ReadsAlike count := by
  have peek := read_peek consistent satisfiable
  have chars := read_chars consistent count
  have available := consistent.inAvail_eq
  have length : (buffer.unread.take count).length = min count buffer.inAvail := by
    rw [List.length_take, available]
  have enough : min count buffer.inAvail ≤ buffer.unread.length := by
    rw [available]
    exact Nat.min_le_right _ _
  rcases bumps_spec consistent enough with ⟨values, unread, counted⟩
  have scopied : buffer.scopy count =
      ((buffer.read count false).1.length, (buffer.read count false).1, buffer) := by
    have copied : buffer.read count false = ((buffer.read count false).1, buffer) :=
      Prod.ext rfl peek
    rw [scopy, if_pos satisfiable, copied]
  have sgotten : buffer.sgetn count =
      ((buffer.read count true).1.length, (buffer.read count true).1,
        (buffer.read count true).2) := by
    rw [sgetn, if_pos satisfiable]
  have whole : buffer.unread.take (min count buffer.inAvail) = buffer.unread.take count := by
    rw [available, ← List.take_eq_take_min]
  refine ⟨?_, ⟨?_, ?_, ?_⟩, ?_, ?_, ?_, ?_⟩
  · rw [scopied]
  · rw [scopied, chars, length]
  · rw [sgotten, chars, length]
  · rw [sgotten, chars, length]
  · rw [scopied]
    simp only [sgotten, chars]
  · rw [values, sgotten, chars, whole]
  · rw [unread, sgotten, read_unread consistent, if_pos rfl, available]
    rcases Nat.le_total count buffer.unread.length with fewer | more
    · rw [Nat.min_eq_left fewer]
    · rw [Nat.min_eq_right more, List.drop_length, List.drop_of_length_le more]
  · rw [counted, sgotten, read_counters consistent]
    rfl

end ProducerConsumerBuffer

theorem Session.readsAlike {α η : Type} [Inhabited α] [CharTraits α] {allocSize : ℕ}
    {session : Session α η} (reachable : (system α η).Reachable (new allocSize) session)
    {count : ℕ} (satisfiable : session.buffer.canSatisfy count = true) :
    session.buffer.ReadsAlike count := by
  rcases reachable_refines reachable with ⟨channel, invariant, -⟩
  exact ProducerConsumerBuffer.readsAlike invariant.consistent satisfiable

end Snode.Streams
