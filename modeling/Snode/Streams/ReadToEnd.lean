import Snode.Streams.Istream

/-!
# Reading to the end

`read_to_end` reads blocks from the source and writes each of them to the target
before it reads the next.  The chain is always in one of four phases, and each
of them says where the characters taken from the source are.
-/

namespace Snode.Streams

open ProducerConsumerBuffer

/-- `end_read_impl`. -/
abbrev EndRead (α : Type) := Transfer α Unit Unit (ReadHelper α)

namespace EndRead

variable {α : Type} [CharTraits α]

omit [CharTraits α] in
/-- A completed `getn` has copied its characters to `outbuf`. -/
def storeOutbuf (completed : Completed α Unit) (helper : ReadHelper α) : ReadHelper α :=
  if completed.request.bufptr then { helper with outbuf := completed.copied } else helper

def onRead (result : Completion α) (transfer : EndRead α) : EndRead α :=
  let count := result.toSize
  if count ≠ 0 then transfer.putn (transfer.helper.outbuf.take count) ()
  else transfer.callHandler transfer.helper.total

variable [Inhabited α]

def readToEnd (transfer : EndRead α) : EndRead α :=
  transfer.getn storeOutbuf bufSize ()

def onWrite (count : ℕ) (transfer : EndRead α) : EndRead α :=
  if count ≠ 0 then
    readToEnd (Transfer.targetOp
      { transfer with
        helper := { transfer.helper with total := transfer.helper.total + count } } .sync)
  else
    transfer.callHandler transfer.helper.total

def impl : Callbacks α Unit Unit (ReadHelper α) where
  onRead _ := onRead
  onWrite _ := onWrite
  store := storeOutbuf

/-! ### Phases -/

omit [CharTraits α] [Inhabited α] in
/-- The read of the chain on its source. -/
def request : EvRequest Unit :=
  ⟨bufSize, .advanceOnce, true, ()⟩

omit [CharTraits α] [Inhabited α] in
/-- Where the characters taken from the source are, for a target that held `before` when the
chain began. -/
inductive Phase (before : List α) (transfer : EndRead α) : Prop where
  | reading (requests : transfer.source.buffer.requests = [request]) (tasks : transfer.tasks = [])
      (stored : transfer.target.stored = before ++ transfer.source.removed)
      (total : transfer.helper.total = transfer.source.removed.length)
      (called : transfer.called = [])
  | read (sent data : List α) (requests : transfer.source.buffer.requests = [])
      (tasks : transfer.tasks = [.onRead () (.size data.length)])
      (outbuf : transfer.helper.outbuf = data)
      (removed : transfer.source.removed = sent ++ data)
      (stored : transfer.target.stored = before ++ sent)
      (total : transfer.helper.total = sent.length) (called : transfer.called = [])
      (ended : data = [] → transfer.source.buffer.canWrite = false ∧
        transfer.source.buffer.unread = [])
  | writing (sent data : List α) (nonempty : data ≠ [])
      (requests : transfer.source.buffer.requests = []) (tasks : transfer.tasks = [.putn data ()])
      (removed : transfer.source.removed = sent ++ data)
      (stored : transfer.target.stored = before ++ sent)
      (total : transfer.helper.total = sent.length) (called : transfer.called = [])
  | done (requests : transfer.source.buffer.requests = []) (tasks : transfer.tasks = [])
      (stored : transfer.target.stored = before ++ transfer.source.removed)
      (called : transfer.called = [transfer.source.removed.length])
      (closed : transfer.source.buffer.canWrite = false)
      (unread : transfer.source.buffer.unread = [])

omit [CharTraits α] [Inhabited α] in
/-- What holds of a chain that has begun. -/
structure Going (before : List α) (transfer : EndRead α) : Prop where
  source : Source transfer.source
  target : Target transfer.target
  phase : Phase before transfer

variable {before : List α} {transfer : EndRead α}

/-- The read goes on waiting, or the callback is scheduled. -/
theorem Phase.of_answer {op : Op α Unit} (answer : Answer request (op.exec transfer.source.buffer))
    (tasks : transfer.tasks = [])
    (stored : transfer.target.stored = before ++ transfer.source.removed)
    (total : transfer.helper.total = transfer.source.removed.length)
    (called : transfer.called = []) : Phase before (transfer.sourceOp storeOutbuf op) := by
  cases answer with
  | waits completed removed requests =>
      have same : (transfer.source.exec op).removed = transfer.source.removed := by
        simp [Session.exec, removed]
      apply Phase.reading
      · exact requests
      · simp [Transfer.sourceOp, Transfer.connect, completed, tasks]
      · exact stored.trans (congrArg (before ++ ·) same.symm)
      · simpa [Transfer.sourceOp, Transfer.connect, completed, same] using total
      · exact called
  | answers found completed removed requests unread canWrite consistent satisfiable =>
      have several : 2 ≤ bufSize := by decide
      rw [request, complete_bulk found several, read_chars consistent] at completed
      apply Phase.read transfer.source.removed (found.unread.take bufSize)
      · exact requests
      · simp [Transfer.sourceOp, Transfer.connect, completed, tasks]
      · simp [Transfer.sourceOp, Transfer.connect, completed, storeOutbuf]
      · exact congrArg (transfer.source.removed ++ ·) removed
      · exact stored
      · simpa [Transfer.sourceOp, Transfer.connect, completed, storeOutbuf] using total
      · exact called
      · intro nothing
        rcases closed_of_answer consistent (Nat.le_of_succ_le several) satisfiable nothing with
          ⟨closed, drained⟩
        exact ⟨canWrite.trans closed, unread.trans drained⟩

/-- A read on a source that is open for reading is never refused. -/
theorem going_readToEnd (source : Source transfer.source) (target : Target transfer.target)
    (idle : transfer.source.buffer.requests = []) (tasks : transfer.tasks = [])
    (stored : transfer.target.stored = before ++ transfer.source.removed)
    (total : transfer.helper.total = transfer.source.removed.length)
    (called : transfer.called = []) : Going before transfer.readToEnd := by
  have several : bufSize ≠ 0 := by decide
  have issued : AsyncStreambuf.getn transfer.source.buffer bufSize () =
      ((transfer.source.buffer.enqueueRequest request).1,
        (transfer.source.buffer.enqueueRequest request).2, []) := by
    simp [AsyncStreambuf.getn, several, source.canRead, ProducerConsumerBuffer.getn, request]
  have answer : Answer request ((Op.getn bufSize ()).exec transfer.source.buffer) := by
    simp only [Op.exec, issued]
    apply Answer.enqueue source.invariant.consistent idle
    exact ⟨rfl, by decide, by simp [request]⟩
  have same : transfer.readToEnd = transfer.sourceOp storeOutbuf (.getn bufSize ()) := by
    simp [readToEnd, Transfer.getn, issued, Transfer.connect]
  rw [same]
  exact ⟨source.consumes trivial trivial, target, Phase.of_answer answer tasks stored total called⟩

theorem Going.runTask (going : Going before transfer) : Going before (impl.runTask transfer) := by
  rcases going with ⟨source, target, phase⟩
  cases phase with
  | reading requests tasks stored total called =>
      simp only [Callbacks.runTask, tasks]
      exact ⟨source, target, .reading requests tasks stored total called⟩
  | read sent data requests tasks outbuf removed stored total called ended =>
      simp only [Callbacks.runTask, tasks, impl, onRead, Completion.toSize]
      by_cases empty : data = []
      · simp only [empty, List.length_nil, ne_eq, not_true_eq_false, if_false]
        rcases ended empty with ⟨closed, unread⟩
        rw [empty, List.append_nil] at removed
        refine ⟨source, target, .done requests rfl (removed ▸ stored) ?_ closed unread⟩
        simp [Transfer.callHandler, called, total, removed]
      · have nonzero : data.length ≠ 0 := by simpa using empty
        have whole : transfer.helper.outbuf.take data.length = data := by
          rw [outbuf, List.take_length]
        simp only [if_pos nonzero, whole, Transfer.putn, target.canWrite, Bool.not_true,
          Bool.false_eq_true, if_false]
        exact ⟨source, target, .writing sent data empty requests rfl removed stored total called⟩
  | writing sent data nonempty requests tasks removed stored total called =>
      rcases target.write nonempty with ⟨count, written, nowStored⟩
      have nonzero : data.length ≠ 0 := by simpa using nonempty
      rcases written.sync with ⟨synced, stillStored⟩
      simp only [Callbacks.runTask, tasks, impl, onWrite, count, if_pos nonzero]
      apply going_readToEnd
      · exact source
      · exact synced
      · exact requests
      · rfl
      · refine (stillStored.trans nowStored).trans ?_
        rw [stored, List.append_assoc, ← removed]
        rfl
      · simp [Transfer.targetOp, total, removed]
      · exact called
  | done requests tasks stored called closed unread =>
      simp only [Callbacks.runTask, tasks]
      exact ⟨source, target, .done requests tasks stored called closed unread⟩

theorem Going.sourceOp (going : Going before transfer) {op : Op α Unit} (produces : op.Produces)
    (legal : op.Legal transfer.source.buffer) :
    Going before (transfer.sourceOp storeOutbuf op) := by
  rcases going with ⟨source, target, phase⟩
  refine ⟨source.produces produces legal, target, ?_⟩
  cases phase with
  | reading requests tasks stored total called =>
      exact Phase.of_answer (Answer.produces produces source.invariant legal requests) tasks stored
        total called
  | read sent data requests tasks outbuf removed stored total called ended =>
      rcases idle_produces produces requests storeOutbuf with ⟨next, still, same⟩
      rw [next]
      exact .read sent data still tasks outbuf (same.trans removed) stored total called
        fun empty => source.drained legal (ended empty).1 (ended empty).2
  | writing sent data nonempty requests tasks removed stored total called =>
      rcases idle_produces produces requests storeOutbuf with ⟨next, still, same⟩
      rw [next]
      exact .writing sent data nonempty still tasks (same.trans removed) stored total called
  | done requests tasks stored called closed unread =>
      rcases idle_produces produces requests storeOutbuf with ⟨next, still, same⟩
      rcases source.drained legal closed unread with ⟨stillClosed, drained⟩
      rw [next]
      exact .done still tasks (by rw [same]; exact stored) (by rw [same]; exact called) stillClosed
        drained

theorem Going.targetOp (going : Going before transfer) {op : Op α ℕ} (consumes : op.Consumes)
    (legal : op.Legal transfer.target.buffer) : Going before (transfer.targetOp op) := by
  rcases going with ⟨source, target, phase⟩
  rcases target.consumes consumes legal with ⟨still, same⟩
  refine ⟨source, still, ?_⟩
  cases phase with
  | reading requests tasks stored total called =>
      exact .reading requests tasks (same.trans stored) total called
  | read sent data requests tasks outbuf removed stored total called ended =>
      exact .read sent data requests tasks outbuf removed (same.trans stored) total called ended
  | writing sent data nonempty requests tasks removed stored total called =>
      exact .writing sent data nonempty requests tasks removed (same.trans stored) total called
  | done requests tasks stored called closed unread =>
      exact .done requests tasks (same.trans stored) called closed unread

theorem Going.step (going : Going before transfer) {event : TransferEvent α Unit}
    {next : EndRead α} (step : impl.system.step transfer event next) : Going before next := by
  rcases step with ⟨legal, rfl⟩
  cases event with
  | source op => exact going.sourceOp legal.1 legal.2
  | target op => exact going.targetOp legal.1 legal.2
  | runTask => exact going.runTask

/-! ### Runs -/

/-- However the producer, the consumer and the tasks take turns: once the source is closed and
no task is left, all of it has been appended to the target, and the handler has been called once,
with the length. -/
theorem readToEnd_transfers {source : Session α Unit} {target : Session α ℕ}
    (produced : Produced source) (isOpen : Target target)
    (reachable : impl.system.Reachable (readToEnd (.new source target .new)) transfer)
    (closed : transfer.source.buffer.canWrite = false) (drained : transfer.tasks = []) :
    transfer.target.stored = target.stored ++ transfer.source.stored ∧
      transfer.called = [transfer.source.stored.length] := by
  rcases produced.source with ⟨isSource, idle, removed⟩
  have going : Going target.stored transfer := by
    refine reachable.invariant (Going target.stored) ?_ fun _ _ _ going step => going.step step
    apply going_readToEnd isSource isOpen idle rfl ?_ ?_ rfl
    · simp [Transfer.new, removed]
    · simp [Transfer.new, ReadHelper.new, removed]
  rcases going with ⟨source, -, phase⟩
  have none := requests_eq_nil_of_closed source.invariant.blocked closed
  cases phase with
  | reading requests => simp [none] at requests
  | read sent data requests tasks => simp [drained] at tasks
  | writing sent data nonempty requests tasks => simp [drained] at tasks
  | done requests tasks stored called closed unread =>
      have all : transfer.source.stored = transfer.source.removed := by
        rw [source.stored, unread, List.append_nil]
      rw [all]
      exact ⟨stored, called⟩

/-- Three characters in two pieces, with a flush between them. -/
def threeCharacters : List (TransferEvent UInt8 Unit) :=
  [.source (.write [1, 2]), .source .sync, .runTask, .source (.write [3]), .runTask,
    .source (.close false true), .runTask, .runTask, .runTask]

def threeStarted : EndRead UInt8 :=
  readToEnd (.new (Session.new 2) (Session.new 2) .new)

theorem readToEnd_transfers_three :
    let transfer := impl.run threeStarted threeCharacters
    transfer.target.stored = [] ++ transfer.source.stored ∧
      transfer.called = [transfer.source.stored.length] := by
  have follows : impl.system.Follows impl.exec threeStarted threeCharacters := by
    refine ⟨⟨⟨trivial, trivial⟩, rfl⟩, ⟨⟨trivial, trivial⟩, rfl⟩, ⟨?_, rfl⟩,
      ⟨⟨trivial, trivial⟩, rfl⟩, ⟨?_, rfl⟩, ⟨⟨rfl, trivial⟩, rfl⟩, ⟨?_, rfl⟩, ⟨?_, rfl⟩,
      ⟨?_, rfl⟩, trivial⟩
    all_goals
      change Transfer.tasks _ ≠ []
      decide +kernel
  have produced : Produced (Session.new 2 : Session UInt8 Unit) := ⟨2, .refl _⟩
  have isOpen : Target (Session.new 2 : Session UInt8 ℕ) := ⟨new_invariant 2, rfl⟩
  exact readToEnd_transfers produced isOpen follows.reachable (by decide +kernel)
    (by decide +kernel)

end EndRead

end Snode.Streams
