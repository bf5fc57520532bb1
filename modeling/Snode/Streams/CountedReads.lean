import Snode.Streams.EndOfStream

/-!
# Counted reads

A read of `count` characters is to store some characters in its destination and to
tell how many.  `getn` does for two characters or more, but a request for one is
completed the way `bumpc` is: the handler gets the character as if it were the number,
and the destination gets nothing.  `sgetn` and `scopy` do unless they would have to
wait, which they tell by a number that is far greater than any `count`.

A buffer closed for reading has nothing more for its readers, and all of them say so.
-/

namespace Snode.Streams

open ProducerConsumerBuffer

variable {α η : Type}

/-- The characters there are, up to `count`, are in the destination, and the handler is told
how many. -/
structure Completed.Counted (completed : Completed α η) : Prop where
  copied : completed.copied = completed.before.unread.take completed.request.count
  result :
    completed.result = .size (min completed.request.count completed.before.unread.length)

/-- What `sgetn` and `scopy` are to return: the number of characters they stored, which are
the next ones, and zero if there are none without waiting. -/
structure ProducerConsumerBuffer.CountedNow (buffer : ProducerConsumerBuffer α η) (count : ℕ)
    (result : ℕ × List α × ProducerConsumerBuffer α η) : Prop where
  stored : result.2.1 <+: buffer.unread
  number : result.1 = result.2.1.length
  bound : result.1 ≤ count
  waiting : buffer.canSatisfy count = false → result.1 = 0

/-- A request with a destination is counted exactly if it asks for more than one character. -/
theorem counted_iff_of_served {completed : Completed α η} (served : Served completed)
    (byComplete : completed = (completed.before.complete completed.request).1)
    (destination : completed.request.bufptr = true) :
    completed.Counted ↔ 2 ≤ completed.request.count := by
  rcases served.plain with ⟨advances, positive, -⟩
  by_cases several : 1 < completed.request.count
  · have chars := read_chars served.consistent completed.request.count true
    have advance : (completed.request.advanceAct != .noAdvance) = true := by simp [advances]
    have bulk : 1 < completed.request.count ∧ completed.request.bufptr = true :=
      ⟨several, destination⟩
    simp only [complete, if_pos bulk, advance, chars] at byComplete
    refine iff_of_true ⟨?_, ?_⟩ several
    · exact congrArg Completed.copied byComplete
    · rw [← List.length_take]
      exact congrArg Completed.result byComplete
  · refine iff_of_false ?_ several
    rintro ⟨-, result⟩
    have single : ¬(1 < completed.request.count ∧ completed.request.bufptr = true) :=
      fun both => several both.1
    rw [byComplete, complete, if_neg single] at result
    have kinds : Completion.ch _ = Completion.size _ := result
    simp at kinds

namespace Op

variable [Inhabited α] [CharTraits α]

/-- Whatever an operation completes, it completes by `complete`. -/
theorem byComplete (op : Op α η) (buffer : ProducerConsumerBuffer α η) :
    ∀ completed ∈ (op.exec buffer).completed,
      completed = (completed.before.complete completed.request).1 := by
  have enqueued (request : EvRequest η) : ∀ completed ∈ (buffer.enqueueRequest request).2,
      completed = (completed.before.complete completed.request).1 := by
    intro completed present
    rw [enqueueRequest] at present
    split at present
    · obtain rfl := List.mem_singleton.mp present
      rcases complete_request buffer request with ⟨requestEq, beforeEq⟩
      rw [requestEq, beforeEq]
    · simp at present
  rcases op.role with consumes | produces | ⟨output, rfl⟩
  · cases op with
    | write | alloc | fill | commit | sync | close => exact consumes.elim
    | sbumpc | sgetc | sgetn | scopy => simp [exec]
    | acquireRelease guarded count =>
        simp only [exec]
        split <;> simp
    | getn count handler =>
        simp only [exec, AsyncStreambuf.getn]
        split
        · split
          · simp
          · exact enqueued _
        · simp
    | bumpc handler =>
        simp only [exec, AsyncStreambuf.bumpc]
        split
        · simp
        · exact enqueued _
  · exact (produces.serves buffer).byComplete
  · simp only [exec, AsyncStreambuf.close]
    generalize (if (true && buffer.canRead) = true then buffer.closeRead else buffer) = middle
    split
    · exact (fulfillRequests_serves _ _).byComplete
    · simp

end Op

namespace AsyncStreambuf

variable [CharTraits α] {buffer : ProducerConsumerBuffer α η}

/-- The number that stands for a read that would have to wait is not one of characters. -/
theorem not_countedNow_requiresAsync (count : ℕ) :
    ¬buffer.CountedNow count (CharTraits.requiresAsyncSize α, [], buffer) := by
  rintro ⟨-, number, -, -⟩
  simp [CharTraits.requiresAsyncSize_eq] at number

omit [CharTraits α] in
theorem countedNow_nothing (count : ℕ) : buffer.CountedNow count (0, [], buffer) where
  stored := List.nil_prefix
  number := rfl
  bound := Nat.zero_le _
  waiting _ := rfl

omit [CharTraits α] in
theorem countedNow_read (consistent : buffer.Consistent) {count : ℕ} (advance : Bool)
    (satisfiable : buffer.canSatisfy count = true) :
    buffer.CountedNow count ((buffer.read count advance).1.length,
      (buffer.read count advance).1, (buffer.read count advance).2) where
  stored := by
    simp only [read_chars consistent]
    exact List.take_prefix _ _
  number := rfl
  bound := by
    simp only [read_chars consistent, List.length_take]
    exact Nat.min_le_left _ _
  waiting unsatisfiable := by simp [satisfiable] at unsatisfiable

theorem sgetn_countedNow_iff (consistent : buffer.Consistent) {count : ℕ} (positive : 1 ≤ count) :
    buffer.CountedNow count (sgetn buffer count) ↔
      buffer.canRead = false ∨ buffer.canSatisfy count = true := by
  have nonzero : count ≠ 0 := by omega
  rw [sgetn, if_pos nonzero]
  cases readable : buffer.canRead with
  | false => exact iff_of_true (countedNow_nothing count) (.inl rfl)
  | true =>
      simp only [Bool.not_true, Bool.false_eq_true, if_false, ProducerConsumerBuffer.sgetn]
      cases satisfiable : buffer.canSatisfy count with
      | false => exact iff_of_false (not_countedNow_requiresAsync count) (by simp)
      | true => exact iff_of_true (countedNow_read consistent true satisfiable) (.inr rfl)

theorem scopy_countedNow_iff (consistent : buffer.Consistent) (count : ℕ) :
    buffer.CountedNow count (scopy buffer count) ↔
      buffer.canRead = false ∨ buffer.canSatisfy count = true := by
  rw [scopy]
  cases readable : buffer.canRead with
  | false => exact iff_of_true (countedNow_nothing count) (.inl rfl)
  | true =>
      simp only [Bool.not_true, Bool.false_eq_true, if_false, ProducerConsumerBuffer.scopy]
      cases satisfiable : buffer.canSatisfy count with
      | false => exact iff_of_false (not_countedNow_requiresAsync count) (by simp)
      | true => exact iff_of_true (countedNow_read consistent false satisfiable) (.inr rfl)

end AsyncStreambuf

namespace Session

variable [Inhabited α] [CharTraits α] {allocSize : ℕ} {session : Session α η}

/-- Counted reads tell the truth except for requests of one character, and for synchronous
reads that would have to wait. -/
theorem counted_iff (reachable : (system α η).Reachable (new allocSize) session) :
    (∀ op : Op α η, op.Legal session.buffer →
        ∀ completed ∈ (op.exec session.buffer).completed, completed.request.bufptr = true →
          (completed.Counted ↔ 2 ≤ completed.request.count)) ∧
      (∀ count handler, 1 ≤ count → session.buffer.canRead = false →
        AsyncStreambuf.getn session.buffer count handler =
          (session.buffer, [], [(handler, .size 0)])) ∧
      ∀ count, 1 ≤ count →
        (session.buffer.CountedNow count (AsyncStreambuf.sgetn session.buffer count) ↔
          session.buffer.canRead = false ∨ session.buffer.canSatisfy count = true) ∧
        (session.buffer.CountedNow count (AsyncStreambuf.scopy session.buffer count) ↔
          session.buffer.canRead = false ∨ session.buffer.canSatisfy count = true) := by
  rcases reachable_refines reachable with ⟨channel, invariant, -⟩
  refine ⟨?_, ?_, ?_⟩
  · intro op legal completed present destination
    exact counted_iff_of_served ((Op.exec_effect invariant legal).served completed present)
      (op.byComplete session.buffer completed present) destination
  · intro count handler positive unreadable
    have nonzero : count ≠ 0 := by omega
    simp [AsyncStreambuf.getn, nonzero, unreadable]
  · intro count positive
    exact ⟨AsyncStreambuf.sgetn_countedNow_iff invariant.consistent positive,
      AsyncStreambuf.scopy_countedNow_iff invariant.consistent count⟩

/-- With one byte unread, `getn` of one hands the byte to the handler and stores nothing, and
`sgetn` of two returns `2 ^ 64 - 2`. -/
theorem not_counted_one_byte :
    let session : Session UInt8 Unit := (new 512).exec (.write [7])
    (∃ completed, ((Op.getn 1 ()).exec session.buffer).completed = [completed] ∧
        completed.request.bufptr = true ∧ completed.copied = [] ∧
        completed.result = .ch (.char 7) ∧ ¬completed.Counted) ∧
      (AsyncStreambuf.sgetn session.buffer 2).1 = 2 ^ 64 - 2 ∧
      ¬session.buffer.CountedNow 2 (AsyncStreambuf.sgetn session.buffer 2) ∧
      ¬session.buffer.CountedNow 2 (AsyncStreambuf.scopy session.buffer 2) := by
  refine ⟨⟨_, rfl, rfl, rfl, by decide, ?_⟩, by decide, ?_, ?_⟩
  · rintro ⟨-, result⟩
    have kinds : Completion.ch _ = Completion.size _ := result
    simp at kinds
  · exact AsyncStreambuf.not_countedNow_requiresAsync 2
  · exact AsyncStreambuf.not_countedNow_requiresAsync 2

/-- Of two unread bytes `getn` of three stores two after the stream was closed. -/
theorem counted_iff_three :
    let session : Session UInt8 Unit :=
      ((new 512).exec (.write [7, 8])).exec (.close false true)
    ∀ completed ∈ ((Op.getn 3 ()).exec session.buffer).completed,
      completed.Counted ∧ completed.result = .size 2 := by
  intro session completed present
  have reachable : (system UInt8 Unit).Reachable (new 512) session :=
    reachable_exec (reachable_exec (.refl _) trivial) trivial
  have one : completed = (session.buffer.complete ⟨3, .advanceOnce, true, ()⟩).1 :=
    List.mem_singleton.mp present
  have counts : completed.request.count = 3 := by rw [one]; rfl
  have counted := ((counted_iff reachable).1 (.getn 3 ()) trivial completed present
    (by rw [one]; rfl)).mpr (by omega)
  exact ⟨counted, by rw [one]; decide⟩

end Session

end Snode.Streams
