import Snode.Streams.BufferRuns

/-!
# Acquiring unread characters

`acquire` is to point to the next unread characters, or to tell whether more may come.
The guard of the base class asks for an open write side where it should ask for the
read side, so that nothing can be acquired from a closed stream, not even its end.
And the buffer points to the block at the front of its list, which is empty after a
commit of no characters.
-/

namespace Snode.Streams

open ProducerConsumerBuffer

variable {α η : Type}

/-- What `acquire` is to answer, and what `release` is to do after it. -/
structure ProducerConsumerBuffer.Exposes (buffer : ProducerConsumerBuffer α η) : Prop where
  unread : buffer.unread ≠ [] → ∃ chars,
    AsyncStreambuf.acquire buffer = (true, some chars) ∧ chars ≠ [] ∧ chars <+: buffer.unread ∧
      ∀ count, count ≤ chars.length →
        (AsyncStreambuf.release buffer count).unread = buffer.unread.drop count
  nothing : buffer.unread = [] → AsyncStreambuf.acquire buffer = (!buffer.canWrite, none)

theorem ProducerConsumerBuffer.Exposes.acquired {buffer : ProducerConsumerBuffer α η}
    (exposes : buffer.Exposes) (unread : buffer.unread ≠ []) :
    (AsyncStreambuf.acquire buffer).2.getD [] ≠ [] := by
  rcases exposes.unread unread with ⟨chars, acquired, nonempty, -⟩
  rwa [acquired]

namespace AsyncStreambuf

variable {buffer : ProducerConsumerBuffer α η} {front : MemBlock α} {rest : List (MemBlock α)}

theorem acquire_of_closed (closed : buffer.canWrite = false) : acquire buffer = (false, none) := by
  simp [acquire, closed]

theorem acquire_of_cons (readable : buffer.canRead = true) (writable : buffer.canWrite = true)
    (blocks : buffer.blocks = front :: rest) :
    acquire buffer = (true, some front.unread) := by
  simp [acquire, writable, ProducerConsumerBuffer.acquire, readable, blocks, MemBlock.unread]

theorem acquire_of_nil (readable : buffer.canRead = true) (writable : buffer.canWrite = true)
    (blocks : buffer.blocks = []) : acquire buffer = (false, none) := by
  simp [acquire, writable, ProducerConsumerBuffer.acquire, readable, blocks]

/-- Characters that were acquired and are released are removed, and nothing else is. -/
theorem release_unread (invariant : buffer.Invariant) (writable : buffer.canWrite = true)
    (blocks : buffer.blocks = front :: rest) {count : ℕ} (within : count ≤ front.unread.length) :
    (release buffer count).unread = buffer.unread.drop count := by
  have wf := invariant.consistent.blocks_wf front (by simp [blocks])
  have legal : count ≤ front.rdCharsLeft := by rwa [← MemBlock.length_unread wf]
  have moved := (Effect.of_release invariant blocks legal).moved
  have length : (front.unread.take count).length = count := List.length_take_of_le within
  rw [release, if_pos writable]
  rw [List.append_nil] at moved
  rw [moved]
  exact (List.drop_left' length).symm

end AsyncStreambuf

namespace Session

variable [Inhabited α] [CharTraits α] {allocSize : ℕ} {session : Session α η}

/-- Unread characters are exposed exactly while the write side is open and the block at the
front is not empty. -/
theorem exposes_iff (reachable : (system α η).Reachable (new allocSize) session)
    (readable : session.buffer.canRead = true) :
    session.buffer.Exposes ↔
      session.buffer.canWrite = true ∧
        ∀ front ∈ session.buffer.blocks.head?, 0 < front.rdCharsLeft := by
  rcases reachable_refines reachable with ⟨channel, invariant, -⟩
  constructor
  · intro exposes
    cases writable : session.buffer.canWrite with
    | false =>
        have refused := AsyncStreambuf.acquire_of_closed writable
        by_cases unread : session.buffer.unread = []
        · have ended := exposes.nothing unread
          rw [refused, writable] at ended
          simp at ended
        · rcases exposes.unread unread with ⟨chars, acquired, -⟩
          rw [refused] at acquired
          simp at acquired
    | true =>
        refine ⟨rfl, fun front isFront => ?_⟩
        rcases blocks : session.buffer.blocks with _ | ⟨first, rest⟩
        · simp [blocks] at isFront
        obtain rfl : first = front := by simpa [blocks] using isFront
        have wf := invariant.consistent.blocks_wf first (by simp [blocks])
        have acquires := AsyncStreambuf.acquire_of_cons readable writable blocks
        by_cases unread : session.buffer.unread = []
        · have waits := exposes.nothing unread
          rw [acquires, writable] at waits
          simp at waits
        · rcases exposes.unread unread with ⟨chars, acquired, nonempty, -⟩
          rw [acquires] at acquired
          obtain rfl : first.unread = chars := by simpa using acquired
          rw [← MemBlock.length_unread wf]
          exact List.length_pos_of_ne_nil nonempty
  · rintro ⟨writable, frontNonempty⟩
    rcases blocks : session.buffer.blocks with _ | ⟨front, rest⟩
    · have unread : session.buffer.unread = [] := by
        rw [ProducerConsumerBuffer.unread, blocks, unreadBlocks_nil]
      refine ⟨fun some => (some unread).elim, fun _ => ?_⟩
      rw [AsyncStreambuf.acquire_of_nil readable writable blocks, writable]
      rfl
    · have wf := invariant.consistent.blocks_wf front (by simp [blocks])
      have positive := frontNonempty front (by simp [blocks])
      rw [← MemBlock.length_unread wf] at positive
      have nonempty : front.unread ≠ [] := List.ne_nil_of_length_pos positive
      have unread : session.buffer.unread = front.unread ++ unreadBlocks rest := by
        rw [ProducerConsumerBuffer.unread, blocks, unreadBlocks_cons]
      refine ⟨fun _ => ⟨front.unread, ?_, nonempty, ?_, ?_⟩, fun none => ?_⟩
      · exact AsyncStreambuf.acquire_of_cons readable writable blocks
      · rw [unread]
        exact List.prefix_append _ _
      · exact fun count within => AsyncStreambuf.release_unread invariant writable blocks within
      · rw [unread] at none
        exact (nonempty (List.append_eq_nil_iff.mp none).1).elim

/-- Two bytes and then the end of the stream, none of which can be acquired once the write side
is closed; and an empty block that hides a byte behind it. -/
theorem not_exposes_closed_or_empty :
    (∃ session : Session UInt8 Unit, (system UInt8 Unit).Reachable (new 512) session ∧
        session.buffer.canRead = true ∧ session.buffer.unread = [1, 2] ∧
        AsyncStreambuf.acquire session.buffer = (false, none) ∧ ¬session.buffer.Exposes) ∧
      ∃ session : Session UInt8 Unit, (system UInt8 Unit).Reachable (new 512) session ∧
        session.buffer.canRead = true ∧ session.buffer.unread = [1] ∧
        AsyncStreambuf.acquire session.buffer = (true, some []) ∧ ¬session.buffer.Exposes := by
  constructor
  · refine ⟨((new 512).exec (.write [1, 2])).exec (.close false true),
      reachable_exec (reachable_exec (.refl _) trivial) trivial, by decide +kernel,
      by decide +kernel, by decide +kernel, ?_⟩
    exact fun exposes => exposes.acquired (by decide +kernel) (by decide +kernel)
  · refine ⟨(((new 512).exec (.alloc 0)).exec (.commit 0)).exec (.write [1]),
      reachable_exec (reachable_exec (reachable_exec (.refl _) trivial) ?_) trivial,
      by decide +kernel, by decide +kernel, by decide +kernel, ?_⟩
    · exact fun block _ => Nat.zero_le _
    · exact fun exposes => exposes.acquired (by decide +kernel) (by decide +kernel)

/-- Of two unread bytes the first is released. -/
theorem exposes_iff_two_bytes :
    let session : Session UInt8 Unit := (new 512).exec (.write [1, 2])
    session.buffer.Exposes ∧ AsyncStreambuf.acquire session.buffer = (true, some [1, 2]) ∧
      (AsyncStreambuf.release session.buffer 1).unread = [2] := by
  intro session
  have reachable : (system UInt8 Unit).Reachable (new 512) session :=
    reachable_exec (.refl _) trivial
  exact ⟨(exposes_iff reachable rfl).mpr ⟨rfl, by decide +kernel⟩, by decide +kernel,
    by decide +kernel⟩

end Session

end Snode.Streams
