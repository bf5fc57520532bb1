import Snode.Streams.Calls

/-!
# Asynchronous input streams

`async_istream` reads from a source buffer into a target buffer by chains of
callbacks: a read on the source schedules `on_read`, a write to the target
schedules `on_write`, and each of them goes on with the next operation.  A
chain is given here by its callbacks, and runs beside a producer that writes to
the source and a consumer that reads from the target.

`std::bind` copies the object that holds the chain with its flag, so the flag
is part of a scheduled callback; the `read_helper` is shared by all copies.
-/

namespace Snode.Streams

open ProducerConsumerBuffer

/-- `buf_size_`. -/
def bufSize : ℕ := 16 * 1024

/-- `read_helper`; `outbuf` is filled up to `write_pos`. -/
structure ReadHelper (α : Type) where
  total : ℕ
  outbuf : List α

namespace ReadHelper

variable {α : Type}

def new : ReadHelper α where
  total := 0
  outbuf := []

def isFull (helper : ReadHelper α) : Bool :=
  helper.outbuf.length == bufSize

/-- `outbuf[write_pos] = ch; write_pos += 1`. -/
def push (helper : ReadHelper α) (ch : IntType α) : ReadHelper α :=
  { helper with outbuf := helper.outbuf ++ ch.toList }

/-- `total += count; write_pos = 0`. -/
def flushed (helper : ReadHelper α) (count : ℕ) : ReadHelper α where
  total := helper.total + count
  outbuf := []

end ReadHelper

/-- The `size_t` a callback is called with. -/
def Completion.toSize {α : Type} [CharTraits α] : Completion α → ℕ
  | .size count => count
  | .ch value => (value.val % 2 ^ 64).toNat

/-- A segment that has something in it, and fits into `outbuf` with room to spare. -/
def Fits (segment : List UInt8) : Prop :=
  segment ≠ [] ∧ segment.length < bufSize

instance (segment : List UInt8) : Decidable (Fits segment) :=
  inferInstanceAs (Decidable (segment ≠ [] ∧ segment.length < bufSize))

/-- What is scheduled on the worker: a callback of a read, the write of a `putn` with its copy of
the data, or the callback of a write that was refused. -/
inductive TransferTask (α ρ ω : Type) where
  | onRead (callback : ρ) (result : Completion α)
  | putn (source : List α) (callback : ω)
  | onWrite (callback : ω) (count : ℕ)

/-- A chain from a source to a target.  `ρ` and `ω` name the callbacks of reads and writes, and
`κ` is what the chain keeps on the heap. -/
structure Transfer (α ρ ω κ : Type) where
  source : Session α ρ
  target : Session α ℕ
  helper : κ
  tasks : List (TransferTask α ρ ω)
  /-- What the handler of the user was called with. -/
  called : List ℕ

namespace Transfer

variable {α ρ ω κ : Type}

def new (source : Session α ρ) (target : Session α ℕ) (helper : κ) : Transfer α ρ ω κ where
  source := source
  target := target
  helper := helper
  tasks := []
  called := []

/-- `async_task::connect`. -/
def connect (transfer : Transfer α ρ ω κ) (tasks : List (TransferTask α ρ ω)) :
    Transfer α ρ ω κ :=
  { transfer with tasks := transfer.tasks ++ tasks }

/-- The handler of the user. -/
def callHandler (transfer : Transfer α ρ ω κ) (count : ℕ) : Transfer α ρ ω κ :=
  { transfer with called := transfer.called ++ [count] }

/-- `putn` on the target. -/
def putn (transfer : Transfer α ρ ω κ) (source : List α) (callback : ω) : Transfer α ρ ω κ :=
  if source.length ≠ 0 then
    if !transfer.target.buffer.canWrite then transfer.connect [.onWrite callback 0]
    else transfer.connect [.putn source callback]
  else
    transfer

variable [Inhabited α] [CharTraits α]

/-- An operation on the target; requests it completes are those of the consumer. -/
def targetOp (transfer : Transfer α ρ ω κ) (op : Op α ℕ) : Transfer α ρ ω κ :=
  { transfer with target := transfer.target.exec op }

/-- An operation on the source, after which the callbacks of the requests it completes are
scheduled.  `store` is what a completed request leaves in the memory of the chain. -/
def sourceOp (transfer : Transfer α ρ ω κ) (store : Completed α ρ → κ → κ) (op : Op α ρ) :
    Transfer α ρ ω κ :=
  let completed := (op.exec transfer.source.buffer).completed
  connect
    { transfer with
      source := transfer.source.exec op
      helper := completed.foldl (fun helper request => store request helper) transfer.helper }
    (completed.map fun request => .onRead request.request.completionOp request.result)

/-- `getn` on the source. -/
def getn (transfer : Transfer α ρ ω κ) (store : Completed α ρ → κ → κ) (count : ℕ)
    (callback : ρ) : Transfer α ρ ω κ :=
  (transfer.sourceOp store (.getn count callback)).connect
    ((AsyncStreambuf.getn transfer.source.buffer count callback).2.2.map fun refused =>
      .onRead refused.1 refused.2)

/-- `bumpc` on the source. -/
def bumpc (transfer : Transfer α ρ ω κ) (callback : ρ) : Transfer α ρ ω κ :=
  (transfer.sourceOp (fun _ helper => helper) (.bumpc callback)).connect
    ((AsyncStreambuf.bumpc transfer.source.buffer callback).2.2.map fun refused =>
      .onRead refused.1 refused.2)

/-- `sbumpc` on the source. -/
def sbumpc (transfer : Transfer α ρ ω κ) : IntType α × Transfer α ρ ω κ :=
  ((AsyncStreambuf.sbumpc transfer.source.buffer).1,
    { transfer with source := transfer.source.exec .sbumpc })

/-- `sgetc` on the source. -/
def sgetc (transfer : Transfer α ρ ω κ) : IntType α × Transfer α ρ ω κ :=
  ((AsyncStreambuf.sgetc transfer.source.buffer).1,
    { transfer with source := transfer.source.exec .sgetc })

end Transfer

/-- The callbacks of a chain, and what a completed request leaves in its memory. -/
structure Callbacks (α ρ ω κ : Type) where
  onRead : ρ → Completion α → Transfer α ρ ω κ → Transfer α ρ ω κ
  onWrite : ω → ℕ → Transfer α ρ ω κ → Transfer α ρ ω κ
  store : Completed α ρ → κ → κ

/-- What happens next to a chain. -/
inductive TransferEvent (α ρ : Type) where
  /-- The producer works on the source. -/
  | source (op : Op α ρ)
  /-- The consumer works on the target. -/
  | target (op : Op α ℕ)
  | runTask

namespace Callbacks

variable {α ρ ω κ : Type} [Inhabited α] [CharTraits α]

/-- The oldest task; the write of a `putn` calls its callback itself. -/
def runTask (callbacks : Callbacks α ρ ω κ) (transfer : Transfer α ρ ω κ) :
    Transfer α ρ ω κ :=
  match transfer.tasks with
  | [] => transfer
  | .onRead callback result :: rest =>
      callbacks.onRead callback result { transfer with tasks := rest }
  | .putn source callback :: rest =>
      callbacks.onWrite callback (transfer.target.buffer.write source).1
        (Transfer.targetOp { transfer with tasks := rest } (.write source))
  | .onWrite callback count :: rest =>
      callbacks.onWrite callback count { transfer with tasks := rest }

def exec (callbacks : Callbacks α ρ ω κ) (transfer : Transfer α ρ ω κ) :
    TransferEvent α ρ → Transfer α ρ ω κ
  | .source op => transfer.sourceOp callbacks.store op
  | .target op => transfer.targetOp op
  | .runTask => callbacks.runTask transfer

omit [Inhabited α] [CharTraits α] in
/-- The producer writes, syncs and closes the source for writing, the consumer reads from the
target, and neither does anything else. -/
def Legal (transfer : Transfer α ρ ω κ) : TransferEvent α ρ → Prop
  | .source op => op.Produces ∧ op.Legal transfer.source.buffer
  | .target op => op.Consumes ∧ op.Legal transfer.target.buffer
  | .runTask => transfer.tasks ≠ []

/-- The chain, the producer and the consumer in any order. -/
def system (callbacks : Callbacks α ρ ω κ) :
    Lts (Transfer α ρ ω κ) (TransferEvent α ρ) where
  step transfer event next := Legal transfer event ∧ next = callbacks.exec transfer event

/-- The state after some events. -/
def run (callbacks : Callbacks α ρ ω κ) (transfer : Transfer α ρ ω κ)
    (events : List (TransferEvent α ρ)) : Transfer α ρ ω κ :=
  events.foldl callbacks.exec transfer

end Callbacks

/-! ### The source -/

/-- A stream that only its producer has worked on. -/
def Produced {α η : Type} [Inhabited α] [CharTraits α] (session : Session α η) : Prop :=
  ∃ allocSize, ((Session.system α η).restrict Op.Produces).Reachable (.new allocSize) session

section

variable {α η : Type}

/-- A stream whose reader has it to itself. -/
structure Source (session : Session α η) : Prop where
  invariant : session.buffer.Invariant
  canRead : session.buffer.canRead = true
  stored : session.stored = session.removed ++ session.buffer.unread

/-- What becomes of the only read of a stream in an operation: it goes on waiting, or it is
completed in a state of the buffer that may run it. -/
inductive Answer (request : EvRequest η) (outcome : Outcome α η) : Prop where
  | waits (completed : outcome.completed = []) (removed : outcome.removed = [])
      (requests : outcome.next.requests = [request])
  | answers (before : ProducerConsumerBuffer α η)
      (completed : outcome.completed = [(before.complete request).1])
      (removed : outcome.removed = before.unread.take request.count)
      (requests : outcome.next.requests = [])
      (unread : outcome.next.unread = before.unread.drop request.count)
      (canWrite : outcome.next.canWrite = before.canWrite)
      (consistent : before.Consistent)
      (satisfiable : before.canSatisfy request.count = true)

variable [Inhabited α] [CharTraits α]

theorem Source.exec {session : Session α η} (source : Source session) {op : Op α η}
    (legal : op.Legal session.buffer)
    (canRead : (op.exec session.buffer).next.canRead = session.buffer.canRead) :
    Source (session.exec op) := by
  have effect := Op.exec_effect source.invariant legal
  refine ⟨effect.invariant, canRead.trans source.canRead, ?_⟩
  simp only [Session.exec]
  rw [source.stored, List.append_assoc, effect.moved, List.append_assoc]

theorem Source.produces {session : Session α η} (source : Source session) {op : Op α η}
    (produces : op.Produces) (legal : op.Legal session.buffer) : Source (session.exec op) :=
  source.exec legal (congrArg Prod.fst (produces.readFlags_eq session.buffer))

theorem Source.consumes {session : Session α η} (source : Source session) {op : Op α η}
    (consumes : op.Consumes) (legal : op.Legal session.buffer) : Source (session.exec op) :=
  source.exec legal (congrArg Prod.fst (consumes.sides_eq session.buffer))

theorem Produced.source {session : Session α η} (produced : Produced session) :
    Source session ∧ session.buffer.requests = [] ∧ session.removed = [] := by
  rcases produced with ⟨allocSize, reachable⟩
  refine reachable.invariant (fun session =>
    Source session ∧ session.buffer.requests = [] ∧ session.removed = [])
    ⟨⟨new_invariant allocSize, rfl, rfl⟩, rfl, rfl⟩ ?_
  rintro session op next ⟨source, idle, removed⟩ ⟨produces, legal, rfl⟩
  rcases produces.idle idle with ⟨completed, requests⟩
  refine ⟨source.produces produces legal, requests, ?_⟩
  simp [Session.exec, removed, produces.removed_eq, completed, deliveredBy]

theorem Source.drained {session : Session α η} (source : Source session) {op : Op α η}
    (legal : op.Legal session.buffer) (closed : session.buffer.canWrite = false)
    (unread : session.buffer.unread = []) :
    (session.exec op).buffer.canWrite = false ∧ (session.exec op).buffer.unread = [] := by
  refine ⟨op.exec_closed closed, ?_⟩
  have moved := (Op.exec_effect source.invariant legal).moved
  rw [unread, op.stored_of_closed closed] at moved
  exact (List.append_eq_nil_iff.mp moved.symm).2

/-- With no read waiting a producer lets nothing be taken. -/
theorem idle_produces {ρ ω κ : Type} {transfer : Transfer α ρ ω κ} {op : Op α ρ}
    (produces : op.Produces) (idle : transfer.source.buffer.requests = [])
    (store : Completed α ρ → κ → κ) :
    transfer.sourceOp store op = { transfer with source := transfer.source.exec op } ∧
      (transfer.source.exec op).buffer.requests = [] ∧
      (transfer.source.exec op).removed = transfer.source.removed := by
  rcases produces.idle idle with ⟨completed, still⟩
  refine ⟨?_, still, ?_⟩
  · simp [Transfer.sourceOp, completed, Transfer.connect]
  · simp [Session.exec, produces.removed_eq, completed, deliveredBy]

/-- A producer may let the read of its reader go on. -/
theorem Answer.produces {op : Op α η} (produces : op.Produces)
    {buffer : ProducerConsumerBuffer α η} (invariant : buffer.Invariant)
    (legal : op.Legal buffer) {request : EvRequest η} (waiting : buffer.requests = [request]) :
    Answer request (op.exec buffer) := by
  have served := (op.exec_effect invariant legal).served
  have removed := produces.removed_eq buffer
  rcases produces.fulfils buffer with
    ⟨completed, requests⟩ | ⟨middle, completed, requests, unread, canWrite, -⟩
  · exact .waits completed (by rw [removed, completed]; rfl) (requests.trans waiting)
  · rw [waiting] at completed requests unread canWrite
    by_cases satisfiable : middle.canSatisfy request.size = true
    · simp only [fulfillRequests, if_pos satisfiable] at completed requests unread canWrite
      have done : Served (middle.complete request).1 := served _ (by rw [completed]; simp)
      rcases complete_request middle request with ⟨sameRequest, sameBuffer⟩
      have consistent : middle.Consistent := sameBuffer ▸ done.consistent
      rcases complete_spec consistent (sameRequest ▸ done.plain) with ⟨delivered, after, -⟩
      refine .answers middle completed ?_ requests ?_ ?_ consistent satisfiable
      · rw [removed, completed]
        simp [deliveredBy, delivered]
      · rw [unread]
        change (middle.complete request).2.unread = _
        rw [after, read_unread consistent, if_pos rfl]
      · rw [canWrite]
        exact congrArg AsyncStreambuf.streamCanWrite (complete_flags middle request)
    · simp only [fulfillRequests, if_neg satisfiable] at completed requests
      exact .waits completed (by rw [removed, completed]; rfl) requests

omit [Inhabited α] [CharTraits α] in
/-- A read on a stream that has no other. -/
theorem Answer.enqueue {buffer : ProducerConsumerBuffer α η} (consistent : buffer.Consistent)
    (idle : buffer.requests = []) {request : EvRequest η} (plain : request.Plain) :
    Answer request ⟨(buffer.enqueueRequest request).1, [],
      deliveredBy (buffer.enqueueRequest request).2, (buffer.enqueueRequest request).2⟩ := by
  rcases complete_spec consistent plain with ⟨delivered, after, -⟩
  simp only [enqueueRequest]
  by_cases satisfiable : buffer.canSatisfy request.size = true
  · simp only [if_pos satisfiable]
    refine .answers buffer rfl ?_ ?_ ?_ ?_ consistent satisfiable
    · simp [deliveredBy, delivered]
    · exact (complete_requests buffer request).trans idle
    · change (buffer.complete request).2.unread = _
      rw [after, read_unread consistent, if_pos rfl]
    · exact congrArg AsyncStreambuf.streamCanWrite (complete_flags buffer request)
  · simp only [if_neg satisfiable]
    exact .waits rfl rfl (by simp [idle])

omit [Inhabited α] [CharTraits α] in
/-- An answer without characters is that of a stream at its end. -/
theorem closed_of_answer {buffer : ProducerConsumerBuffer α η} (consistent : buffer.Consistent)
    {count : ℕ} (positive : 1 ≤ count) (satisfiable : buffer.canSatisfy count = true)
    (nothing : buffer.unread.take count = []) :
    buffer.canWrite = false ∧ buffer.unread.drop count = [] := by
  rcases closed_of_take_eq_nil consistent positive satisfiable nothing with ⟨closed, unread⟩
  exact ⟨closed, by simp [unread]⟩

end

/-! ### Single characters -/

theorem val_char_ne_requiresAsync (character : UInt8) :
    (IntType.char character : IntType UInt8).val ≠ CharTraits.requiresAsync UInt8 := by
  have small := character.toNat_lt
  change (character.toNat : Int) ≠ 2 ^ 64 - 1 - 1
  omega

theorem val_char_eq (character other : UInt8) :
    (IntType.char character : IntType UInt8).val = other.toNat ↔ character = other := by
  change (character.toNat : Int) = other.toNat ↔ _
  rw [Int.natCast_inj, UInt8.toNat_inj]

section

variable {α ρ ω κ : Type}

/-- The read of a `bumpc`. -/
def bumpRequest (callback : ρ) : EvRequest ρ :=
  ⟨1, .advanceOnce, false, callback⟩

/-- A character was taken from the source, or its end was met. -/
def Taken (removed : List α) (source : Session α ρ) : IntType α → Prop
  | .char character => source.removed = removed ++ [character]
  | .eof =>
      source.removed = removed ∧ source.buffer.canWrite = false ∧ source.buffer.unread = []
  | .requiresAsync => False

theorem complete_bumpRequest (buffer : ProducerConsumerBuffer α ρ) (callback : ρ) :
    buffer.complete (bumpRequest callback) =
      (⟨bumpRequest callback, buffer, [], .ch (buffer.readByte true).1⟩,
        (buffer.readByte true).2) := by
  simp [complete, bumpRequest]

variable [Inhabited α] [CharTraits α] {transfer : Transfer α ρ ω κ}

theorem bump_answer {op : Op α ρ} {callback : ρ} {store : Completed α ρ → κ → κ}
    (keeps : ∀ completed helper, store completed helper = helper)
    (answer : Answer (bumpRequest callback) (op.exec transfer.source.buffer)) :
    (transfer.sourceOp store op).helper = transfer.helper ∧
      ((transfer.sourceOp store op).tasks = transfer.tasks ∧
          (transfer.source.exec op).buffer.requests = [bumpRequest callback] ∧
          (transfer.source.exec op).removed = transfer.source.removed ∨
        ∃ ch, (transfer.sourceOp store op).tasks = transfer.tasks ++ [.onRead callback (.ch ch)] ∧
          (transfer.source.exec op).buffer.requests = [] ∧
          Taken transfer.source.removed (transfer.source.exec op) ch) := by
  cases answer with
  | waits completed removed requests =>
      refine ⟨?_, .inl ⟨?_, requests, ?_⟩⟩
      · simp [Transfer.sourceOp, Transfer.connect, completed]
      · simp [Transfer.sourceOp, Transfer.connect, completed]
      · simp [Session.exec, removed]
  | answers found completed removed requests unread canWrite consistent satisfiable =>
      have value := readByte_fst consistent true
      rw [complete_bumpRequest] at completed
      rcases unreadEq : found.unread with _ | ⟨character, rest⟩
      · rw [unreadEq] at value
        rcases closed_of_answer consistent (Nat.le_refl 1) satisfiable (by simp [unreadEq]) with
          ⟨closed, drained⟩
        refine ⟨?_, .inr ⟨.eof, ?_, requests, ?_, canWrite.trans closed, unread.trans drained⟩⟩
        · simp [Transfer.sourceOp, Transfer.connect, completed, keeps]
        · simp [Transfer.sourceOp, Transfer.connect, completed, value, bumpRequest]
        · simp [Session.exec, removed, unreadEq]
      · rw [unreadEq] at value
        refine ⟨?_, .inr ⟨.char character, ?_, requests, ?_⟩⟩
        · simp [Transfer.sourceOp, Transfer.connect, completed, keeps]
        · simp [Transfer.sourceOp, Transfer.connect, completed, value, bumpRequest]
        · simp [Taken, Session.exec, removed, unreadEq, bumpRequest]

/-- A `bumpc` on a source that has no read waiting. -/
theorem bumpc_answer (source : Source transfer.source) (callback : ρ)
    (idle : transfer.source.buffer.requests = []) :
    transfer.bumpc callback = transfer.sourceOp (fun _ helper => helper) (.bumpc callback) ∧
      Answer (bumpRequest callback) ((Op.bumpc callback).exec transfer.source.buffer) := by
  have issued : AsyncStreambuf.bumpc transfer.source.buffer callback =
      ((transfer.source.buffer.enqueueRequest (bumpRequest callback)).1,
        (transfer.source.buffer.enqueueRequest (bumpRequest callback)).2, []) := by
    simp [AsyncStreambuf.bumpc, source.canRead, ProducerConsumerBuffer.bumpc, bumpRequest]
  refine ⟨?_, ?_⟩
  · simp [Transfer.bumpc, issued, Transfer.connect]
  · simp only [Op.exec, issued]
    apply Answer.enqueue source.invariant.consistent idle
    exact ⟨rfl, Nat.le_refl 1, fun _ => rfl⟩

/-- What a synchronous read or peek does to a source with something in it. -/
theorem Source.sbumpc (source : Source transfer.source) {character : α} {rest : List α}
    (unread : transfer.source.buffer.unread = character :: rest) :
    transfer.sbumpc.1 = .char character ∧
      Source transfer.sbumpc.2.source ∧
      transfer.sbumpc.2.source.removed = transfer.source.removed ++ [character] ∧
      transfer.sbumpc.2.source.buffer.unread = rest ∧
      transfer.sbumpc.2.source.buffer.requests = transfer.source.buffer.requests ∧
      transfer.sbumpc.2.source.buffer.canWrite = transfer.source.buffer.canWrite := by
  have consistent := source.invariant.consistent
  have satisfiable : transfer.source.buffer.canSatisfy 1 = true := by
    simp [canSatisfy, inAvail, consistent.total_eq, unread]
  have value := readByte_fst consistent true
  rw [unread] at value
  have bumped : AsyncStreambuf.sbumpc transfer.source.buffer =
      AsyncStreambuf.checkSyncReadEof (transfer.source.buffer.read 1 true).2
        (.char character) := by
    simp [AsyncStreambuf.sbumpc, source.canRead, ProducerConsumerBuffer.sbumpc, satisfiable,
      value, readByte_snd]
  refine ⟨?_, ?_, ?_, ?_, ?_, ?_⟩
  · simp [Transfer.sbumpc, bumped, AsyncStreambuf.checkSyncReadEof]
  · exact source.consumes trivial trivial
  · simp [Transfer.sbumpc, Session.exec, Op.exec, bumped, AsyncStreambuf.checkSyncReadEof,
      IntType.toList]
  · simp only [Transfer.sbumpc, Session.exec, Op.exec, bumped, AsyncStreambuf.checkSyncReadEof]
    change (transfer.source.buffer.read 1 true).2.unread = rest
    rw [read_unread consistent, if_pos rfl, unread, List.drop_succ_cons, List.drop_zero]
  · simp only [Transfer.sbumpc, Session.exec, Op.exec, bumped, AsyncStreambuf.checkSyncReadEof]
    exact read_requests _ _ _
  · simp only [Transfer.sbumpc, Session.exec, Op.exec, bumped, AsyncStreambuf.checkSyncReadEof]
    change (transfer.source.buffer.read 1 true).2.canWrite = _
    exact congrArg AsyncStreambuf.streamCanWrite (read_flags transfer.source.buffer 1 true)

/-- What a peek leaves as it was. -/
structure Peeked (before after : Session α ρ) : Prop where
  source : Source after
  removed : after.removed = before.removed
  unread : after.buffer.unread = before.buffer.unread
  requests : after.buffer.requests = before.buffer.requests
  canWrite : after.buffer.canWrite = before.buffer.canWrite

theorem Source.sgetc (source : Source transfer.source) :
    Peeked transfer.source transfer.sgetc.2.source ∧
      (transfer.sgetc.1 = .requiresAsync ∧ transfer.source.buffer.unread = [] ∨
        transfer.sgetc.1 = (match transfer.source.buffer.unread with
          | [] => .eof
          | character :: _ => .char character)) := by
  have consistent := source.invariant.consistent
  have isSource : Source (transfer.source.exec .sgetc) := source.consumes trivial trivial
  by_cases satisfiable : transfer.source.buffer.canSatisfy 1 = true
  · have peeked : AsyncStreambuf.sgetc transfer.source.buffer =
        AsyncStreambuf.checkSyncReadEof (transfer.source.buffer.read 1 false).2
          (transfer.source.buffer.readByte false).1 := by
      simp [AsyncStreambuf.sgetc, source.canRead, ProducerConsumerBuffer.sgetc, satisfiable,
        readByte_snd]
    refine ⟨⟨isSource, ?_, ?_, ?_, ?_⟩, .inr ?_⟩
    · simp [Transfer.sgetc, Session.exec, Op.exec]
    · simp only [Transfer.sgetc, Session.exec, Op.exec, peeked, AsyncStreambuf.checkSyncReadEof]
      change (transfer.source.buffer.read 1 false).2.unread = _
      rw [read_unread consistent, if_neg Bool.false_ne_true]
    · simp only [Transfer.sgetc, Session.exec, Op.exec, peeked, AsyncStreambuf.checkSyncReadEof]
      exact read_requests _ _ _
    · simp only [Transfer.sgetc, Session.exec, Op.exec, peeked, AsyncStreambuf.checkSyncReadEof]
      change (transfer.source.buffer.read 1 false).2.canWrite = _
      exact congrArg AsyncStreambuf.streamCanWrite (read_flags transfer.source.buffer 1 false)
    · simp only [Transfer.sgetc, peeked, AsyncStreambuf.checkSyncReadEof]
      exact readByte_fst consistent false
  · have peeked : AsyncStreambuf.sgetc transfer.source.buffer =
        AsyncStreambuf.checkSyncReadEof transfer.source.buffer .requiresAsync := by
      simp [AsyncStreambuf.sgetc, source.canRead, ProducerConsumerBuffer.sgetc, satisfiable]
    refine ⟨⟨isSource, ?_, ?_, ?_, ?_⟩, .inl ⟨?_, ?_⟩⟩
    · simp [Transfer.sgetc, Session.exec, Op.exec]
    · simp only [Transfer.sgetc, Session.exec, Op.exec, peeked, AsyncStreambuf.checkSyncReadEof]
      rfl
    · simp only [Transfer.sgetc, Session.exec, Op.exec, peeked, AsyncStreambuf.checkSyncReadEof]
    · simp only [Transfer.sgetc, Session.exec, Op.exec, peeked, AsyncStreambuf.checkSyncReadEof]
      rfl
    · simp [Transfer.sgetc, peeked, AsyncStreambuf.checkSyncReadEof]
    · by_contra some
      have positive := List.length_pos_iff.mpr some
      rw [← consistent.total_eq] at positive
      apply satisfiable
      simp [canSatisfy, inAvail, Nat.succ_le_of_lt positive]

end

/-! ### The target -/

/-- A target that is open in both directions. -/
structure Target {α η : Type} (session : Session α η) : Prop where
  invariant : session.buffer.Invariant
  sides : session.buffer.sides = (true, true)

section

variable {α η : Type} [Inhabited α] [CharTraits α] {session : Session α η}

omit [Inhabited α] [CharTraits α] in
theorem Target.canWrite (target : Target session) : session.buffer.canWrite = true :=
  congrArg Prod.snd target.sides

theorem Target.consumes (target : Target session) {op : Op α η} (consumes : op.Consumes)
    (legal : op.Legal session.buffer) :
    Target (session.exec op) ∧ (session.exec op).stored = session.stored :=
  ⟨⟨(Op.exec_effect target.invariant legal).invariant,
    (consumes.sides_eq session.buffer).trans target.sides⟩,
    session.stored_exec_consumes consumes⟩

/-- A write and the flush behind it. -/
theorem Target.write (target : Target session) {source : List α} (nonempty : source ≠ []) :
    (session.buffer.write source).1 = source.length ∧ Target (session.exec (.write source)) ∧
      (session.exec (.write source)).stored = session.stored ++ source := by
  have canRead : session.buffer.canRead = true := congrArg Prod.fst target.sides
  refine ⟨write_count target.invariant.consistent canRead target.canWrite nonempty, ?_,
    Session.stored_exec_write target.sides source⟩
  exact ⟨session.invariant_exec target.invariant (.write source) trivial,
    (session.sides_exec_write source).trans target.sides⟩

theorem Target.sync (target : Target session) :
    Target (session.exec .sync) ∧ (session.exec .sync).stored = session.stored := by
  have synced : AsyncStreambuf.sync session.buffer = .ok session.buffer.sync := by
    simp [AsyncStreambuf.sync, target.canWrite]
  have flags : session.buffer.sync.1.toAsyncStreambuf = session.buffer.toAsyncStreambuf :=
    fulfillOutstanding_flags _
  have invariant := session.invariant_exec target.invariant .sync trivial
  refine ⟨⟨invariant, ?_⟩, ?_⟩
  · rw [← target.sides]
    simp only [Session.exec, Op.exec, synced, ProducerConsumerBuffer.sides, canRead,
      ProducerConsumerBuffer.canWrite, flags]
  · simp only [Session.exec, Op.exec, synced, List.append_nil]

end

end Snode.Streams
