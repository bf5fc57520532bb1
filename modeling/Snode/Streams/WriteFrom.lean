import Snode.Streams.ReadInto

/-!
# Writing from another buffer

`write` of a stream does with its own buffer and a source what `read` does with a target: it
allocates a block and lets a `getn` on the source fill it.  It commits the count that the `getn`
has completed with, and asks nobody what is at the front of the buffer.
-/

namespace Snode.Streams

open ProducerConsumerBuffer

namespace WriteFrom

open ReadInto

variable {α : Type} [Inhabited α] [CharTraits α]

/-- `write`, from `source` into the buffer of the stream, `target`.  A buffer that can be written
to never answers an `alloc` with a null pointer, so the branch for one is left out. -/
def write (count : ℕ) (writing : ReadInto α) : Except String (ReadInto α) :=
  if !writing.target.buffer.canWrite then
    .error "stream buffer not set up for output of data"
  else if !writing.source.buffer.canRead then
    .error "source buffer not set up for input of data"
  else if count = 0 then
    .ok writing
  else
    match AsyncStreambuf.alloc writing.target.buffer count with
    | .error message => .error message
    | .ok _ => .ok (getn count (targetOp (.alloc count) writing))

/-- `post_read`.  A `commit` that throws ends it; one to a buffer that is closed does nothing. -/
def postRead (count : ℕ) (writing : ReadInto α) : ReadInto α :=
  match AsyncStreambuf.commit writing.target.buffer count with
  | .error _ => writing
  | .ok _ =>
      { targetOp (.commit count) writing with
        commits := writing.commits ++
          (if writing.target.buffer.canWrite then [count] else [])
        called := writing.called ++ [count] }

def runTask (writing : ReadInto α) : ReadInto α :=
  match writing.tasks with
  | [] => writing
  | count :: rest => postRead count { writing with tasks := rest }

variable {count : ℕ} {writing : ReadInto α}

/-- A `write` that does not throw begins as a `read` does. -/
theorem read_of_write (begins : write count writing = .ok begun) :
    ReadInto.read count writing = .ok begun := by
  simp only [write] at begins
  split at begins
  · cases begins
  · next writable =>
      split at begins
      · cases begins
      · next readable =>
          rw [ReadInto.read, if_neg readable, if_neg writable]
          exact begins

/-- The handler is called in any case. -/
theorem called_runTask (begun : Begun count writing)
    (tasks : writing.tasks = [writing.taken.length]) :
    (runTask writing).called = [writing.taken.length] := by
  rcases begun.block with ⟨block, allocated, -⟩
  have alloced : writing.target.buffer.alloced = true := by
    rw [begun.target.allocOk.1, allocated]
    rfl
  simp only [runTask, tasks, postRead, AsyncStreambuf.commit, alloced]
  by_cases writable : writing.target.buffer.canWrite = true
  · simp [writable, begun.called]
  · simp [writable, begun.called]

theorem commits_runTask (begun : Begun count writing)
    (closed : ¬writing.target.buffer.canWrite = true)
    (tasks : writing.tasks = [writing.taken.length]) : (runTask writing).commits = [] := by
  simp only [runTask, tasks, postRead, AsyncStreambuf.commit, if_neg closed, begun.commits]
  rfl

theorem moved_runTask (begun : Begun count writing) {block : MemBlock α}
    (allocated : writing.target.buffer.allocblock = some block)
    (short : writing.taken.length ≤ block.size)
    (copied : block.data.take writing.taken.length = writing.taken)
    (tasks : writing.tasks = [writing.taken.length])
    (writable : writing.target.buffer.canWrite = true) : Moved writing (runTask writing) := by
  have alloced : writing.target.buffer.alloced = true := by
    rw [begun.target.allocOk.1, allocated]
    rfl
  have legal : Op.Legal writing.target.buffer (.commit writing.taken.length : Op α ℕ) := by
    intro other present
    rw [allocated, Option.mem_some_iff] at present
    rw [← present]
    exact short
  have moved := (Op.exec_effect begun.target legal).moved
  have stored : ((Op.commit writing.taken.length).exec writing.target.buffer).stored =
      writing.taken := by
    simp [Op.exec, AsyncStreambuf.commit, writable, alloced, allocated, copied]
  rw [stored] at moved
  refine ⟨?_, ?_, called_runTask begun tasks⟩
  · simp only [runTask, tasks, postRead, AsyncStreambuf.commit, writable, alloced, if_true,
      Bool.not_true, Bool.false_eq_true, if_false]
    rw [List.append_assoc, moved]
    exact (List.append_assoc _ _ _).symm
  · simp [runTask, tasks, postRead, AsyncStreambuf.commit, writable, alloced, begun.commits]

/-- When `write` completes, its handler is called once, with the count that was taken from the
source; and what was taken is in the buffer unless this was closed in the meantime. -/
theorem write_moves_iff {sourceSize targetSize : ℕ} {source : Session α Reader}
    {target : Session α ℕ} {begun : ReadInto α}
    (sourceReached : (Session.system α Reader).Reachable (.new sourceSize) source)
    (targetReached : (Session.system α ℕ).Reachable (.new targetSize) target)
    (requests : ∀ waiting ∈ source.buffer.requests, waiting.completionOp = .other)
    (several : 2 ≤ count) (begins : write count (new source target) = .ok begun)
    (reachable : (others α).Reachable begun writing) (completes : writing.tasks ≠ []) :
    (runTask writing).called = [writing.taken.length] ∧
      (Moved writing (runTask writing) ↔ writing.target.buffer.canWrite = true) := by
  rcases Session.reachable_refines sourceReached with ⟨-, sourceInvariant, -⟩
  rcases Session.reachable_refines targetReached with ⟨-, targetInvariant, -⟩
  have none : source.buffer.requests.filter isOwn = [] := by
    apply List.filter_eq_nil_iff.mpr
    intro waiting present
    simp [isOwn, requests waiting present]
  have initially : Begun count begun :=
    begun_read several sourceInvariant targetInvariant none (read_of_write begins)
  have isBegun : Begun count writing :=
    reachable.invariant (Begun count) initially fun _ _ _ begun step => begun.step several step
  rcases isBegun.block with ⟨block, allocated, size, phase⟩
  cases phase with
  | waiting requests tasks taken => exact (completes tasks).elim
  | completed requests tasks short copied =>
      refine ⟨called_runTask isBegun tasks, ?_, ?_⟩
      · intro moved
        by_contra closed
        have none := commits_runTask isBegun closed tasks
        rw [moved.commits] at none
        cases none
      · intro writable
        exact moved_runTask isBegun allocated (size.symm ▸ short) copied tasks writable

/-- Two characters are written into an empty buffer, where a `read` loses them. -/
theorem write_moves_iff_two :
    ∃ writing, write 2 (new twoInSource (Session.new 2)) = .ok writing ∧
      Moved writing (runTask writing) := by
  have source : (Session.system UInt8 Reader).Reachable (.new 2) twoInSource :=
    Session.reachable_exec (.refl _) trivial
  refine ⟨_, rfl, ?_⟩
  apply (write_moves_iff source (.refl _) (by decide +kernel) (Nat.le_refl 2) rfl (.refl _)
    (by decide +kernel)).2.mpr
  decide +kernel

end WriteFrom

end Snode.Streams
