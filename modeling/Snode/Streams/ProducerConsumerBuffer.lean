import Snode.Streams.AsyncStreambuf

/-!
# The producer/consumer buffer

`producer_consumer_buf.h` function by function.  A buffer is a list of memory
blocks, read from the front and written at the back, with four counters beside
it and a queue of reads waiting for data.

Where the source schedules a completion with `async_task::connect`, the model
returns it: a function gives back the new buffer and the completions it
scheduled, in order.  An `assert` that fails sets `failed`, which nothing
clears.  The memory of a fresh block is indeterminate in the source and filled
with the default character here.
-/

namespace Snode.Streams

/-- `mem_block`. -/
structure MemBlock (α : Type) where
  /-- Read head. -/
  read : ℕ
  /-- Write head. -/
  pos : ℕ
  /-- Allocation size of `data`. -/
  size : ℕ
  data : List α

namespace MemBlock

variable {α : Type}

def new [Inhabited α] (size : ℕ) : MemBlock α where
  read := 0
  pos := 0
  size := size
  data := List.replicate size default

def rdCharsLeft (block : MemBlock α) : ℕ :=
  block.pos - block.read

def wrCharsLeft (block : MemBlock α) : ℕ :=
  block.size - block.pos

/-- Read up to `count` characters: those copied to the destination, and the block after it. -/
def readChars (block : MemBlock α) (count : ℕ) (advance : Bool) : List α × MemBlock α :=
  let readcount := min count block.rdCharsLeft
  ((block.data.drop block.read).take readcount,
    if advance then { block with read := block.read + readcount } else block)

def updateWriteHead (block : MemBlock α) (count : ℕ) : MemBlock α :=
  { block with pos := block.pos + count }

/-- Store characters into the block's memory from the write head on. -/
def store (block : MemBlock α) (source : List α) : MemBlock α :=
  { block with
    data := block.data.take block.pos ++ source ++ block.data.drop (block.pos + source.length) }

/-- Write as much of `source` as fits: the number of characters written, and the block. -/
def write (block : MemBlock α) (source : List α) : ℕ × MemBlock α :=
  let wrcount := min source.length block.wrCharsLeft
  (wrcount, (block.store (source.take wrcount)).updateWriteHead wrcount)

end MemBlock

/-- `ev_request::AdvanceAction`. -/
inductive AdvanceAction where
  | advanceOnce
  | advanceBefore
  | noAdvance
  deriving DecidableEq

/-- `ev_request`: a waiting read.  `completionOp` names the handler, and with it the
destination; `bufptr` tells whether a destination was given. -/
structure EvRequest (η : Type) where
  count : ℕ
  advanceAct : AdvanceAction
  bufptr : Bool
  completionOp : η

def EvRequest.size {η : Type} (request : EvRequest η) : ℕ :=
  request.count

/-- `producer_consumer_buffer`. -/
structure ProducerConsumerBuffer (α η : Type) extends AsyncStreambuf where
  /-- Default block size. -/
  allocSize : ℕ
  /-- Block used for alloc/commit. -/
  allocblock : Option (MemBlock α)
  /-- Total available data. -/
  total : ℕ
  totalRead : ℕ
  totalWritten : ℕ
  /-- Characters that have been flushed but still remain to be consumed. -/
  synced : ℕ
  blocks : List (MemBlock α)
  requests : List (EvRequest η)
  /-- An `assert` has failed. -/
  failed : Bool

/-- A completed request: the characters copied to its destination and what its handler is
to be called with.  `before` is the buffer the request was completed in; it is recorded for
the proofs and read by no function of the model. -/
structure Completed (α η : Type) where
  request : EvRequest η
  before : ProducerConsumerBuffer α η
  copied : List α
  result : Completion α

namespace Completed

variable {α η : Type}

/-- The characters a completion delivers to the reader, in memory or as its value. -/
def delivered (completed : Completed α η) : List α :=
  match completed.result with
  | .size _ => completed.copied
  | .ch value => value.toList

end Completed

namespace ProducerConsumerBuffer

variable {α η : Type}

/-- The constructor; `alloc_size` defaults to 512 in the source. -/
def new (allocSize : ℕ) : ProducerConsumerBuffer α η where
  toAsyncStreambuf := AsyncStreambuf.new true true
  allocSize := allocSize
  allocblock := none
  total := 0
  totalRead := 0
  totalWritten := 0
  synced := 0
  blocks := []
  requests := []
  failed := false

def canRead (buffer : ProducerConsumerBuffer α η) : Bool :=
  buffer.streamCanRead

def canWrite (buffer : ProducerConsumerBuffer α η) : Bool :=
  buffer.streamCanWrite

def isEof (buffer : ProducerConsumerBuffer α η) : Bool :=
  buffer.streamReadEof

def inAvail (buffer : ProducerConsumerBuffer α η) : ℕ :=
  buffer.total

/-- `assert(condition)`. -/
def assert (buffer : ProducerConsumerBuffer α η) (condition : Bool) :
    ProducerConsumerBuffer α η :=
  { buffer with failed := buffer.failed || !condition }

/-- Determine if the request can be satisfied. -/
def canSatisfy (buffer : ProducerConsumerBuffer α η) (count : ℕ) : Bool :=
  decide (0 < buffer.synced) || decide (count ≤ buffer.inAvail) || !buffer.canWrite

/-- Purge empty blocks so that the block at the front reflects the read head. -/
def purge : List (MemBlock α) → List (MemBlock α)
  | [] => []
  | block :: rest => if 0 < block.rdCharsLeft then block :: rest else purge rest

/-- Updates the read head by the specified offset. -/
def updateReadHead (buffer : ProducerConsumerBuffer α η) (count : ℕ) :
    ProducerConsumerBuffer α η :=
  { buffer with
    total := buffer.total - count
    totalRead := buffer.totalRead + count
    synced :=
      if 0 < buffer.synced then
        if count < buffer.synced then buffer.synced - count else 0
      else buffer.synced
    blocks := purge buffer.blocks }

/-- The loop of `read` over `blocks_`: the characters copied, the blocks after it, and
whether the assert in the loop body held each time. -/
def readBlocks (count : ℕ) (advance : Bool) :
    ℕ → List (MemBlock α) → List α × List (MemBlock α) × Bool
  | _, [] => ([], [], true)
  | totalr, block :: rest =>
      let (chars, block') := block.readChars (count - totalr) advance
      let totalr' := totalr + chars.length
      let holds := decide (totalr' ≤ count)
      if totalr' = count then
        (chars, block' :: rest, holds)
      else
        let (chars', rest', holds') := readBlocks count advance totalr' rest
        (chars ++ chars', block' :: rest', holds && holds')

/-- Reads up to `count` characters; the source copies them to `ptr` and returns their number. -/
def read (buffer : ProducerConsumerBuffer α η) (count : ℕ) (advance : Bool) :
    List α × ProducerConsumerBuffer α η :=
  let (chars, blocks, holds) := readBlocks count advance 0 buffer.blocks
  let buffer := { (buffer.assert (buffer.canSatisfy count)).assert holds with blocks := blocks }
  (chars, if advance then buffer.updateReadHead chars.length else buffer)

/-- Reads a byte from the stream and returns it as `int_type`. -/
def readByte (buffer : ProducerConsumerBuffer α η) (advance : Bool) :
    IntType α × ProducerConsumerBuffer α η :=
  let (chars, buffer) := buffer.read 1 advance
  match chars with
  | [value] => (.char value, buffer)
  | _ => (.eof, buffer)

/-- `ev_request::complete`.  A request for one character, or without a destination, is
completed with the character read; any other with the number of characters copied. -/
def complete (buffer : ProducerConsumerBuffer α η) (request : EvRequest η) :
    Completed α η × ProducerConsumerBuffer α η :=
  if 1 < request.count ∧ request.bufptr = true then
    let advance := request.advanceAct != .noAdvance
    let (chars, after) := buffer.read request.count advance
    (⟨request, buffer, chars, .size chars.length⟩, after)
  else
    let advance := request.advanceAct == .advanceOnce
    let bumped :=
      if request.advanceAct = .advanceBefore then (buffer.readByte true).2 else buffer
    let (value, after) := bumped.readByte advance
    (⟨request, buffer, [], .ch value⟩, after)

/-- The loop of `fulfill_outstanding`, over the queue `requests_`. -/
def fulfillRequests :
    List (EvRequest η) → ProducerConsumerBuffer α η →
      ProducerConsumerBuffer α η × List (Completed α η)
  | [], buffer => ({ buffer with requests := [] }, [])
  | request :: rest, buffer =>
      if buffer.canSatisfy request.size then
        let (completed, after) := buffer.complete request
        let (final, others) := fulfillRequests rest after
        (final, completed :: others)
      else
        ({ buffer with requests := request :: rest }, [])

/-- Fulfill pending requests. -/
def fulfillOutstanding (buffer : ProducerConsumerBuffer α η) :
    ProducerConsumerBuffer α η × List (Completed α η) :=
  fulfillRequests buffer.requests buffer

def enqueueRequest (buffer : ProducerConsumerBuffer α η) (request : EvRequest η) :
    ProducerConsumerBuffer α η × List (Completed α η) :=
  if buffer.canSatisfy request.size then
    let (completed, after) := buffer.complete request
    (after, [completed])
  else
    ({ buffer with requests := buffer.requests ++ [request] }, [])

/-- Updates the write head by an offset specified by `count`. -/
def updateWriteHead (buffer : ProducerConsumerBuffer α η) (count : ℕ) :
    ProducerConsumerBuffer α η × List (Completed α η) :=
  fulfillOutstanding
    { buffer with
      total := buffer.total + count
      totalWritten := buffer.totalWritten + count }

/-- The blocks in front of the write head and the block it is in, after a new block was
pushed if the last one has no room for `count` characters. -/
def writeBlock [Inhabited α] (buffer : ProducerConsumerBuffer α η) (count : ℕ) :
    List (MemBlock α) × MemBlock α :=
  match buffer.blocks.getLast? with
  | some last =>
      if last.wrCharsLeft < count then
        (buffer.blocks, MemBlock.new (max count buffer.allocSize))
      else
        (buffer.blocks.dropLast, last)
  | none => (buffer.blocks, MemBlock.new (max count buffer.allocSize))

/-- Writes `source` into the stream buffer: the returned count, the buffer and the
requests that were completed. -/
def write [Inhabited α] (buffer : ProducerConsumerBuffer α η) (source : List α) :
    ℕ × ProducerConsumerBuffer α η × List (Completed α η) :=
  if !buffer.canWrite || decide (source.length = 0) then
    (0, buffer, [])
  else if !buffer.canRead then
    -- If no one is going to read, just pretend to be writing.
    (source.length, buffer, [])
  else
    let (front, last) := buffer.writeBlock source.length
    let (written, last') := last.write source
    let buffer :=
      { buffer.assert (decide (written = source.length)) with blocks := front ++ [last'] }
    (written, buffer.updateWriteHead written)

/-! ### The public operations -/

/-- Allocates a contiguous block of `count` characters; `false` stands for `nullptr`. -/
def alloc [Inhabited α] (buffer : ProducerConsumerBuffer α η) (count : ℕ) :
    Bool × ProducerConsumerBuffer α η :=
  if !buffer.canWrite then
    (false, buffer)
  else
    (true,
      { buffer.assert buffer.allocblock.isNone with allocblock := some (MemBlock.new count) })

/-- Submits the allocated block with `count` characters in it. -/
def commit (buffer : ProducerConsumerBuffer α η) (count : ℕ) :
    ProducerConsumerBuffer α η × List (Completed α η) :=
  match buffer.allocblock with
  | none => (buffer.assert false, [])
  | some block =>
      updateWriteHead
        { buffer with
          blocks := buffer.blocks ++ [block.updateWriteHead count]
          allocblock := none } count

/-- `acquire`: its answer, and the unread characters of the front block when the pointer it
returns is not null. -/
def acquire (buffer : ProducerConsumerBuffer α η) : Bool × Option (List α) :=
  if !buffer.canRead then
    (false, none)
  else
    match buffer.blocks with
    | [] => (!buffer.canWrite, none)
    | block :: _ => (true, some ((block.data.drop block.read).take block.rdCharsLeft))

/-- `release` of `count` characters through a pointer that is not null. -/
def release (buffer : ProducerConsumerBuffer α η) (count : ℕ) : ProducerConsumerBuffer α η :=
  match buffer.blocks with
  | [] => buffer
  | block :: rest =>
      { buffer.assert (decide (count ≤ block.rdCharsLeft)) with
        blocks := { block with read := block.read + count } :: rest }.updateReadHead count

def sync (buffer : ProducerConsumerBuffer α η) :
    ProducerConsumerBuffer α η × List (Completed α η) :=
  fulfillOutstanding { buffer with synced := buffer.inAvail }

/-- `getn` into a destination that is not null. -/
def getn (buffer : ProducerConsumerBuffer α η) (count : ℕ) (handler : η) :
    ProducerConsumerBuffer α η × List (Completed α η) :=
  buffer.enqueueRequest ⟨count, .advanceOnce, true, handler⟩

def bumpc (buffer : ProducerConsumerBuffer α η) (handler : η) :
    ProducerConsumerBuffer α η × List (Completed α η) :=
  buffer.enqueueRequest ⟨1, .advanceOnce, false, handler⟩

/-- `sgetn`: the count returned, the characters copied and the buffer. -/
def sgetn [CharTraits α] (buffer : ProducerConsumerBuffer α η) (count : ℕ) :
    ℕ × List α × ProducerConsumerBuffer α η :=
  if buffer.canSatisfy count then
    let (chars, after) := buffer.read count true
    (chars.length, chars, after)
  else
    (CharTraits.requiresAsyncSize α, [], buffer)

/-- `scopy`: as `sgetn`, without advancing. -/
def scopy [CharTraits α] (buffer : ProducerConsumerBuffer α η) (count : ℕ) :
    ℕ × List α × ProducerConsumerBuffer α η :=
  if buffer.canSatisfy count then
    let (chars, after) := buffer.read count false
    (chars.length, chars, after)
  else
    (CharTraits.requiresAsyncSize α, [], buffer)

def sbumpc (buffer : ProducerConsumerBuffer α η) : IntType α × ProducerConsumerBuffer α η :=
  if buffer.canSatisfy 1 then buffer.readByte true else (.requiresAsync, buffer)

def sgetc (buffer : ProducerConsumerBuffer α η) : IntType α × ProducerConsumerBuffer α η :=
  if buffer.canSatisfy 1 then buffer.readByte false else (.requiresAsync, buffer)

def closeRead (buffer : ProducerConsumerBuffer α η) : ProducerConsumerBuffer α η :=
  { buffer with streamCanRead := false }

def closeWrite (buffer : ProducerConsumerBuffer α η) :
    ProducerConsumerBuffer α η × List (Completed α η) :=
  fulfillOutstanding { buffer with streamCanWrite := false }

end ProducerConsumerBuffer

end Snode.Streams
