import Snode.Lib.Lts
import Snode.Streams.ProducerConsumerBuffer

/-!
# Operations on a producer/consumer buffer

The buffer as its users have it, through `async_streambuf`: the guards of the
base class in front of each operation, and runs of these operations in any
order.  A `putc` or `putn` only schedules a task; what counts here is the write
that task runs.  A session is a buffer together with the characters stored in
it and removed from it so far, as the operations themselves reported them.
-/

namespace Snode.Streams

open ProducerConsumerBuffer

namespace AsyncStreambuf

variable {α η : Type}

def checkSyncReadEof [CharTraits α] (buffer : ProducerConsumerBuffer α η) (value : IntType α) :
    IntType α × ProducerConsumerBuffer α η :=
  (value, { buffer with streamReadEof := decide (value.val = CharTraits.eof α) })

def sbumpc [CharTraits α] (buffer : ProducerConsumerBuffer α η) :
    IntType α × ProducerConsumerBuffer α η :=
  if !buffer.canRead then
    (.eof, buffer)
  else
    let (value, after) := buffer.sbumpc
    checkSyncReadEof after value

def sgetc [CharTraits α] (buffer : ProducerConsumerBuffer α η) :
    IntType α × ProducerConsumerBuffer α η :=
  if !buffer.canRead then
    (.eof, buffer)
  else
    let (value, after) := buffer.sgetc
    checkSyncReadEof after value

def sgetn [CharTraits α] (buffer : ProducerConsumerBuffer α η) (count : ℕ) :
    ℕ × List α × ProducerConsumerBuffer α η :=
  if count ≠ 0 then
    if !buffer.canRead then (0, [], buffer) else buffer.sgetn count
  else
    (0, [], buffer)

def scopy [CharTraits α] (buffer : ProducerConsumerBuffer α η) (count : ℕ) :
    ℕ × List α × ProducerConsumerBuffer α η :=
  if !buffer.canRead then (0, [], buffer) else buffer.scopy count

/-- `getn`: the buffer, the requests it completed and the handlers the guard scheduled
itself because the buffer is closed for reading. -/
def getn (buffer : ProducerConsumerBuffer α η) (count : ℕ) (handler : η) :
    ProducerConsumerBuffer α η × List (Completed α η) × List (η × Completion α) :=
  if count ≠ 0 then
    if !buffer.canRead then
      (buffer, [], [(handler, .size 0)])
    else
      let (after, completed) := buffer.getn count handler
      (after, completed, [])
  else
    (buffer, [], [])

def bumpc (buffer : ProducerConsumerBuffer α η) (handler : η) :
    ProducerConsumerBuffer α η × List (Completed α η) × List (η × Completion α) :=
  if !buffer.canRead then
    (buffer, [], [(handler, .ch .eof)])
  else
    let (after, completed) := buffer.bumpc handler
    (after, completed, [])

def alloc [Inhabited α] (buffer : ProducerConsumerBuffer α η) (count : ℕ) :
    Except String (Bool × ProducerConsumerBuffer α η) :=
  if !buffer.canWrite then
    .ok (false, buffer)
  else if buffer.alloced then
    .error "The buffer is already allocated, this maybe caused by overlap of stream read or write"
  else
    let (allocated, after) := buffer.alloc count
    .ok (allocated, if allocated then { after with alloced := true } else after)

def commit (buffer : ProducerConsumerBuffer α η) (count : ℕ) :
    Except String (ProducerConsumerBuffer α η × List (Completed α η)) :=
  if buffer.canWrite then
    if !buffer.alloced then
      .error "The buffer needs to allocate first"
    else
      let (after, completed) := buffer.commit count
      .ok ({ after with alloced := false }, completed)
  else
    .ok (buffer, [])

/-- The guard tests the write side. -/
def acquire (buffer : ProducerConsumerBuffer α η) : Bool × Option (List α) :=
  if buffer.canWrite then buffer.acquire else (false, none)

def release (buffer : ProducerConsumerBuffer α η) (count : ℕ) : ProducerConsumerBuffer α η :=
  if buffer.canWrite then buffer.release count else buffer

def sync (buffer : ProducerConsumerBuffer α η) :
    Except String (ProducerConsumerBuffer α η × List (Completed α η)) :=
  if !buffer.canWrite then
    .error "stream buffer not set up for output of data"
  else
    .ok buffer.sync

/-- `close` for the given directions, the read head first. -/
def close (buffer : ProducerConsumerBuffer α η) (input output : Bool) :
    ProducerConsumerBuffer α η × List (Completed α η) :=
  let buffer := if input && buffer.canRead then buffer.closeRead else buffer
  if output && buffer.canWrite then buffer.closeWrite else (buffer, [])

end AsyncStreambuf

/-- An operation on the buffer. -/
inductive Op (α η : Type) where
  /-- The write run by the task of a `putc` or a `putn`. -/
  | write (source : List α)
  | alloc (count : ℕ)
  /-- The caller stores characters through the pointer `alloc` returned. -/
  | fill (chars : List α)
  | commit (count : ℕ)
  | sbumpc
  | sgetc
  | sgetn (count : ℕ)
  | scopy (count : ℕ)
  | getn (count : ℕ) (handler : η)
  | bumpc (handler : η)
  /-- `acquire`, and `release` of `count` characters through the pointer it returned: with
  the guards of the base class, or called on the implementation itself. -/
  | acquireRelease (guarded : Bool) (count : ℕ)
  | sync
  | close (input output : Bool)

/-- What an operation did: the buffer it left, the characters it stored and removed, and
the requests it completed. -/
structure Outcome (α η : Type) where
  next : ProducerConsumerBuffer α η
  stored : List α
  removed : List α
  completed : List (Completed α η)

/-- The characters that completed requests took from the buffer. -/
def deliveredBy {α η : Type} (completed : List (Completed α η)) : List α :=
  completed.flatMap Completed.delivered

namespace Op

variable {α η : Type}

/-- The unread characters the pointer of an `acquire` points to. -/
def acquired (buffer : ProducerConsumerBuffer α η) (guarded : Bool) : Option (List α) :=
  if guarded then (AsyncStreambuf.acquire buffer).2 else buffer.acquire.2

def released (buffer : ProducerConsumerBuffer α η) (guarded : Bool) (count : ℕ) :
    ProducerConsumerBuffer α η :=
  if guarded then AsyncStreambuf.release buffer count else buffer.release count

/-- What a caller has to keep to: no more characters than were allocated are stored or
committed, and no more are released than were acquired. -/
def Legal (buffer : ProducerConsumerBuffer α η) : Op α η → Prop
  | fill chars => ∀ block ∈ buffer.allocblock, chars.length ≤ block.size
  | commit count => ∀ block ∈ buffer.allocblock, count ≤ block.size
  | acquireRelease guarded count =>
      ∀ chars ∈ acquired buffer guarded, count ≤ chars.length
  | _ => True

instance (buffer : ProducerConsumerBuffer α η) (op : Op α η) : Decidable (op.Legal buffer) :=
  match op with
  | fill chars =>
      inferInstanceAs (Decidable (∀ block ∈ buffer.allocblock, chars.length ≤ block.size))
  | commit count => inferInstanceAs (Decidable (∀ block ∈ buffer.allocblock, count ≤ block.size))
  | acquireRelease guarded count =>
      inferInstanceAs (Decidable (∀ chars ∈ acquired buffer guarded, count ≤ chars.length))
  | write _ | alloc _ | sbumpc | sgetc | sgetn _ | scopy _ | getn _ _ | bumpc _ | sync
  | close _ _ => .isTrue trivial

/-- Runs one operation.  An operation that throws leaves the buffer as it was. -/
def exec [Inhabited α] [CharTraits α] (buffer : ProducerConsumerBuffer α η) :
    Op α η → Outcome α η
  | write source =>
      let (_, next, completed) := buffer.write source
      ⟨next, if buffer.canRead && buffer.canWrite then source else [],
        deliveredBy completed, completed⟩
  | alloc count =>
      match AsyncStreambuf.alloc buffer count with
      | .ok (_, next) => ⟨next, [], [], []⟩
      | .error _ => ⟨buffer, [], [], []⟩
  | fill chars =>
      ⟨{ buffer with allocblock := buffer.allocblock.map (·.store chars) }, [], [], []⟩
  | commit count =>
      match AsyncStreambuf.commit buffer count with
      | .ok (next, completed) =>
          ⟨next,
            if buffer.canWrite then
              (buffer.allocblock.map fun block => block.data.take count).getD []
            else [],
            deliveredBy completed, completed⟩
      | .error _ => ⟨buffer, [], [], []⟩
  | sbumpc =>
      let (value, next) := AsyncStreambuf.sbumpc buffer
      ⟨next, [], value.toList, []⟩
  | sgetc =>
      let (_, next) := AsyncStreambuf.sgetc buffer
      ⟨next, [], [], []⟩
  | sgetn count =>
      let (_, chars, next) := AsyncStreambuf.sgetn buffer count
      ⟨next, [], chars, []⟩
  | scopy count =>
      let (_, _, next) := AsyncStreambuf.scopy buffer count
      ⟨next, [], [], []⟩
  | getn count handler =>
      let (next, completed, _) := AsyncStreambuf.getn buffer count handler
      ⟨next, [], deliveredBy completed, completed⟩
  | bumpc handler =>
      let (next, completed, _) := AsyncStreambuf.bumpc buffer handler
      ⟨next, [], deliveredBy completed, completed⟩
  | acquireRelease guarded count =>
      match acquired buffer guarded with
      | some chars => ⟨released buffer guarded count, [], chars.take count, []⟩
      | none => ⟨buffer, [], [], []⟩
  | sync =>
      match AsyncStreambuf.sync buffer with
      | .ok (next, completed) => ⟨next, [], deliveredBy completed, completed⟩
      | .error _ => ⟨buffer, [], [], []⟩
  | close input output =>
      let (next, completed) := AsyncStreambuf.close buffer input output
      ⟨next, [], deliveredBy completed, completed⟩

end Op

/-- A buffer with the history of what went in and out. -/
structure Session (α η : Type) where
  buffer : ProducerConsumerBuffer α η
  stored : List α
  removed : List α

namespace Session

variable {α η : Type}

def new (allocSize : ℕ) : Session α η where
  buffer := ProducerConsumerBuffer.new allocSize
  stored := []
  removed := []

def exec [Inhabited α] [CharTraits α] (session : Session α η) (op : Op α η) : Session α η :=
  let outcome := op.exec session.buffer
  { buffer := outcome.next
    stored := session.stored ++ outcome.stored
    removed := session.removed ++ outcome.removed }

/-- Sessions run any legal operation at any time. -/
def system (α η : Type) [Inhabited α] [CharTraits α] : Lts (Session α η) (Op α η) where
  step session op next := op.Legal session.buffer ∧ next = session.exec op

end Session

end Snode.Streams
