import Snode.Streams.AsyncStreambuf

/-!
# The source buffer

`sourcebuf.h`: a stream buffer that reads the constant data of a source, such as a
`media_source`.  The positions it keeps are of type `size_t`: sums wrap around, and the
offset `-1`, which stands for none, becomes the largest of them.  An asynchronous
operation is modelled where its task runs.
-/

namespace Snode.Streams

/-- What a source type complies with. -/
class SourceImpl (σ : Type) (α : outParam Type) where
  /-- The characters copied to `ptr`, whose number is returned, and the source afterwards. -/
  read (source : σ) (count : ℕ) (offset : Int) : List α × σ
  size (source : σ) : ℕ

/-- The conversion of an `off_type` to `size_t`. -/
def toSizeType (value : Int) : ℕ :=
  (value % 2 ^ 64).toNat

/-- The conversion of a `size_t` to `pos_type`. -/
def toPosType (value : ℕ) : Int :=
  if value < 2 ^ 63 then value else value - 2 ^ 64

/-- `sourcebuf::buffer_info`. -/
structure BufferInfo (α : Type) where
  /-- Read pointer as an offset from the start of the source. -/
  rdpos : ℕ
  /-- Source position that the start of the buffer represents. -/
  bufoff : ℕ
  /-- How much of the buffer is filled. -/
  buffill : ℕ
  atend : Bool
  buffer : List α

/-- `sourcebuf`. -/
structure Sourcebuf (σ α : Type) extends AsyncStreambuf where
  source : σ
  info : BufferInfo α

namespace Sourcebuf

variable {σ α : Type}

/-- The constructor. -/
def new [Inhabited α] (source : σ) : Sourcebuf σ α where
  toAsyncStreambuf := AsyncStreambuf.new true false
  source := source
  info := {
    rdpos := 0
    bufoff := 0
    buffill := 0
    atend := false
    buffer := List.replicate 512 default }

def canRead (buffer : Sourcebuf σ α) : Bool :=
  buffer.streamCanRead

def isOpen (buffer : Sourcebuf σ α) : Bool :=
  buffer.streamCanRead || buffer.streamCanWrite

/-- `bufoff_ + buffill_`. -/
def bufend (buffer : Sourcebuf σ α) : ℕ :=
  (buffer.info.bufoff + buffer.info.buffill) % 2 ^ 64

def inAvail (buffer : Sourcebuf σ α) : ℕ :=
  if !buffer.isOpen then 0
  else if buffer.info.buffill = 0 then 0
  else if buffer.info.rdpos < buffer.info.bufoff ∨ buffer.bufend < buffer.info.rdpos then 0
  else buffer.info.buffill - (buffer.info.rdpos - buffer.info.bufoff)

/-- `rdpos_ += count`, which is done only to `advance`. -/
def moveRdpos (buffer : Sourcebuf σ α) (count : ℕ) (advance : Bool) : Sourcebuf σ α :=
  if advance then
    { buffer with info.rdpos := (buffer.info.rdpos + count) % 2 ^ 64 }
  else
    buffer

variable [SourceImpl σ α]

/-- Fill the buffer from the source, at an offset unless that is `-1`. -/
def fillBuffer (buffer : Sourcebuf σ α) (count : ℕ) (offset : Int) : ℕ × Sourcebuf σ α :=
  let countr :=
    if buffer.info.buffer.length < count then buffer.info.buffer.length else count
  let (chars, source) := SourceImpl.read buffer.source countr offset
  let totalr := chars.length
  let info := { buffer.info with
    atend := decide (totalr < countr)
    buffer := chars ++ buffer.info.buffer.drop totalr }
  if totalr = 0 then
    (0, { buffer with source := source, info := info })
  else
    -- An offset of zero is as good as none.
    let rdpos := if offset = 0 then info.rdpos else toSizeType offset
    (totalr, { buffer with
      source := source
      info := { info with rdpos := rdpos, bufoff := rdpos, buffill := totalr } })

end Sourcebuf

/-- The variables of the loop in `read`. -/
structure Refill (σ α : Type) where
  buffer : Sourcebuf σ α
  /-- The characters copied to `ptr`. -/
  stored : List α
  totalr : ℕ
  fillcount : ℕ
  avail : ℕ

namespace Refill

variable {σ α : Type} [SourceImpl σ α]

/-- The body of the loop. -/
def body (advance : Bool) (loop : Refill σ α) : Refill σ α :=
  let (avail, buffer) := loop.buffer.fillBuffer loop.fillcount (-1)
  if avail = 0 then
    { loop with buffer := buffer, avail := 0 }
  else
    let charCount := if loop.fillcount ≤ avail then loop.fillcount else avail
    let totalr := loop.totalr + charCount
    { buffer := buffer.moveRdpos totalr advance
      stored := loop.stored ++ buffer.info.buffer.take charCount
      totalr := totalr
      fillcount := if avail < loop.fillcount then loop.fillcount - avail else 0
      avail := avail }

/-- The condition under which the body is executed again. -/
def again (loop : Refill σ α) : Bool :=
  decide (loop.fillcount ≠ 0 ∧ loop.avail ≠ 0)

/-- The body, and as long as the condition holds the body again, at most `fuel` times. -/
def run (advance : Bool) : ℕ → Refill σ α → Refill σ α
  | 0, loop => loop.body advance
  | fuel + 1, loop =>
      let next := loop.body advance
      if next.again then next.run advance fuel else next

end Refill

namespace Sourcebuf

variable {σ α : Type} [SourceImpl σ α]

/-- The characters copied to `ptr`, whose number is returned, and the buffer after it.  The
loop is left after as many iterations as there are characters to read. -/
def read (buffer : Sourcebuf σ α) (count : ℕ) (advance : Bool) : List α × Sourcebuf σ α :=
  let bufoff := (buffer.info.rdpos + 2 ^ 64 - buffer.info.bufoff) % 2 ^ 64
  if count ≤ buffer.inAvail then
    ((buffer.info.buffer.drop bufoff).take count, buffer.moveRdpos count advance)
  else
    let avail := buffer.inAvail
    let fillcount := count - avail
    let loop : Refill σ α := {
      buffer := if avail = 0 then buffer else buffer.moveRdpos avail advance
      stored := if avail = 0 then [] else (buffer.info.buffer.drop bufoff).take avail
      totalr := avail
      fillcount := fillcount
      avail := avail }
    let left := loop.run advance fillcount
    (left.stored, left.buffer)

/-- `read_byte`, which does not look at its argument. -/
def readByte (buffer : Sourcebuf σ α) (_advance : Bool) : IntType α × Sourcebuf σ α :=
  match buffer.read 1 true with
  | ([value], buffer) => (.char value, buffer)
  | (_, buffer) => (.eof, buffer)

/-- The `read_op` of `getn`. -/
def getn (buffer : Sourcebuf σ α) (count : ℕ) : List α × Sourcebuf σ α :=
  buffer.read count true

def scopy (buffer : Sourcebuf σ α) (count : ℕ) : List α × Sourcebuf σ α :=
  buffer.read count true

/-- The `read_op` of `bumpc`. -/
def bumpc (buffer : Sourcebuf σ α) : IntType α × Sourcebuf σ α :=
  buffer.readByte true

def sbumpc (buffer : Sourcebuf σ α) : IntType α × Sourcebuf σ α :=
  buffer.readByte true

/-- The `read_op` of `getc`, which does not hand its argument on. -/
def getc (buffer : Sourcebuf σ α) : IntType α × Sourcebuf σ α :=
  buffer.readByte true

def sgetc (buffer : Sourcebuf σ α) : IntType α × Sourcebuf σ α :=
  buffer.readByte false

/-- `seekpos`; `-1` is `EOF`. -/
def seekpos (buffer : Sourcebuf σ α) (position : Int) (input output : Bool) :
    Int × Sourcebuf σ α :=
  if !(input && !output) || !buffer.canRead then
    (-1, buffer)
  else if 0 ≤ position then
    let pos := toSizeType position
    if position ≤ toPosType (SourceImpl.size buffer.source) then
      let buffer :=
        if buffer.bufend < pos ∨ pos < buffer.info.bufoff then
          { buffer with info.rdpos := pos }
        else
          (buffer.fillBuffer buffer.info.buffer.length pos).2
      (toPosType buffer.info.rdpos, buffer)
    else
      (-1, buffer)
  else
    (-1, buffer)

/-- The starting point of a relative seek. -/
def seekBase (buffer : Sourcebuf σ α) : SeekDir → Option Int
  | .beg => some 0
  | .cur => some (toPosType buffer.info.rdpos)
  | .fin => some (toPosType (SourceImpl.size buffer.source))
  | .other => none

def seekoff (buffer : Sourcebuf σ α) (offset : Int) (way : SeekDir) (input output : Bool) :
    Int × Sourcebuf σ α :=
  if !(input && !output) || !buffer.canRead then
    (-1, buffer)
  else
    match buffer.seekBase way with
    | some base => buffer.seekpos (base + offset) input output
    | none => (-1, buffer)

end Sourcebuf

end Snode.Streams
