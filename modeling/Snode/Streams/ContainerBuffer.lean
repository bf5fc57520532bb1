import Snode.Lib.CursorArray
import Snode.Streams.AsyncStreambuf

/-!
# The container buffer

`container_buffer.h`: a stream buffer over a collection, with one position for
reading, writing and seeking.  An `assert` that fails sets `failed`.
-/

namespace Snode.Streams

/-- `container_buffer`. -/
structure ContainerBuffer (α : Type) extends AsyncStreambuf where
  data : List α
  /-- Read/write head. -/
  currentPosition : ℕ
  failed : Bool

namespace ContainerBuffer

variable {α : Type}

/-- `validate_mode`, for the mode given by its two directions. -/
def validateMode (input output : Bool) : Except String Unit :=
  if input && output then
    .error "this combination of modes on container stream not supported"
  else
    .ok ()

/-- A buffer with the given open directions at the beginning of its collection. -/
def start (data : List α) (input output : Bool) : ContainerBuffer α where
  toAsyncStreambuf := AsyncStreambuf.new input output
  data := data
  currentPosition := 0
  failed := false

/-- The constructor with a mode only. -/
def new (input output : Bool) : Except String (ContainerBuffer α) := do
  validateMode input output
  return start [] input output

/-- The constructor with a collection; it opens the base class for both directions. -/
def ofCollection (data : List α) (input output : Bool) : Except String (ContainerBuffer α) := do
  validateMode input output
  return start data true true

def canRead (buffer : ContainerBuffer α) : Bool :=
  buffer.streamCanRead

def canWrite (buffer : ContainerBuffer α) : Bool :=
  buffer.streamCanWrite

/-- `assert(condition)`. -/
def assert (buffer : ContainerBuffer α) (condition : Bool) : ContainerBuffer α :=
  { buffer with failed := buffer.failed || !condition }

/-- The assert of `in_avail`. -/
def inRange (buffer : ContainerBuffer α) : Bool :=
  decide (buffer.currentPosition ≤ buffer.data.length)

def inAvail (buffer : ContainerBuffer α) : ℕ :=
  buffer.data.length - buffer.currentPosition

/-- Determine if the request can be satisfied. -/
def canSatisfy (buffer : ContainerBuffer α) : Bool :=
  decide (0 < buffer.inAvail)

def updateCurrentPosition (buffer : ContainerBuffer α) (newPos : ℕ) : ContainerBuffer α :=
  let buffer := { buffer with currentPosition := newPos }
  buffer.assert buffer.inRange

def resizeForWrite [Inhabited α] (buffer : ContainerBuffer α) (newPos : ℕ) : ContainerBuffer α :=
  if buffer.data.length < newPos then
    { buffer with
      data := buffer.data ++ List.replicate (newPos - buffer.data.length) default }
  else
    buffer

/-- The characters copied, whose number the source returns, and the buffer after it. -/
def read (buffer : ContainerBuffer α) (count : ℕ) (advance : Bool) :
    List α × ContainerBuffer α :=
  let buffer := buffer.assert buffer.inRange
  if !buffer.canSatisfy then
    ([], buffer)
  else
    let readSize := min count buffer.inAvail
    let newpos := buffer.currentPosition + readSize
    ((buffer.data.drop buffer.currentPosition).take readSize,
      if advance then buffer.updateCurrentPosition newpos else buffer)

def readByte (buffer : ContainerBuffer α) (advance : Bool) : IntType α × ContainerBuffer α :=
  match buffer.read 1 advance with
  | ([value], buffer) => (.char value, buffer)
  | (_, buffer) => (.eof, buffer)

def write [Inhabited α] (buffer : ContainerBuffer α) (source : List α) :
    ℕ × ContainerBuffer α :=
  if !buffer.canWrite || decide (source.length = 0) then
    (0, buffer)
  else
    let newSize := buffer.currentPosition + source.length
    let buffer := buffer.resizeForWrite newSize
    let buffer :=
      { buffer with
        data := buffer.data.take buffer.currentPosition ++ source ++
          buffer.data.drop (buffer.currentPosition + source.length) }
    (source.length, buffer.updateCurrentPosition newSize)

def sgetn (buffer : ContainerBuffer α) (count : ℕ) : List α × ContainerBuffer α :=
  buffer.read count true

def scopy (buffer : ContainerBuffer α) (count : ℕ) : List α × ContainerBuffer α :=
  buffer.read count false

def sbumpc (buffer : ContainerBuffer α) : IntType α × ContainerBuffer α :=
  buffer.readByte true

def sgetc (buffer : ContainerBuffer α) : IntType α × ContainerBuffer α :=
  buffer.readByte false

/-- `seekpos`; `-1` is `EOF`. -/
def seekpos [Inhabited α] (buffer : ContainerBuffer α) (position : Int) (input output : Bool) :
    Int × ContainerBuffer α :=
  if 0 ≤ position then
    let pos := position.toNat
    if input && buffer.canRead && decide (position ≤ buffer.data.length) then
      -- We do not allow reads to seek beyond the end or before the start position.
      let buffer := buffer.updateCurrentPosition pos
      (buffer.currentPosition, buffer)
    else if output && buffer.canWrite then
      let buffer := (buffer.resizeForWrite pos).updateCurrentPosition pos
      (buffer.currentPosition, buffer)
    else
      (-1, buffer)
  else
    (-1, buffer)

def seekoff [Inhabited α] (buffer : ContainerBuffer α) (offset : Int) (way : SeekDir)
    (input output : Bool) : Int × ContainerBuffer α :=
  match way with
  | .beg => buffer.seekpos (0 + offset) input output
  | .cur => buffer.seekpos (buffer.currentPosition + offset) input output
  | .fin => buffer.seekpos (buffer.data.length + offset) input output
  | .other => (-1, buffer)

/-- `close_read` and `close_write`. -/
def close (buffer : ContainerBuffer α) (input output : Bool) : ContainerBuffer α :=
  { buffer with
    streamCanRead := buffer.streamCanRead && !input
    streamCanWrite := buffer.streamCanWrite && !output }

end ContainerBuffer

/-! ### What the buffer is for -/

/-- An operation on the buffer. -/
inductive ContainerOp (α : Type) where
  /-- The write of a `putc` or a `putn`. -/
  | write (source : List α)
  | sgetn (count : ℕ)
  | scopy (count : ℕ)
  | sbumpc
  | sgetc
  | seekpos (position : Int) (input output : Bool)
  | seekoff (offset : Int) (way : SeekDir) (input output : Bool)
  | close (input output : Bool)

/-- What an operation returns. -/
inductive ContainerResult (α : Type) where
  | count (number : ℕ)
  /-- The characters stored at the destination; their number is returned. -/
  | chars (stored : List α)
  | char (value : IntType α)
  | position (value : Int)
  | none
  deriving DecidableEq

namespace ContainerBuffer

variable {α : Type} [Inhabited α]

def exec (buffer : ContainerBuffer α) :
    ContainerOp α → ContainerResult α × ContainerBuffer α
  | .write source => (buffer.write source).map .count id
  | .sgetn count => (buffer.sgetn count).map .chars id
  | .scopy count => (buffer.scopy count).map .chars id
  | .sbumpc => buffer.sbumpc.map .char id
  | .sgetc => buffer.sgetc.map .char id
  | .seekpos position input output => (buffer.seekpos position input output).map .position id
  | .seekoff offset way input output =>
      (buffer.seekoff offset way input output).map .position id
  | .close input output => (.none, buffer.close input output)

/-- The results of some operations, and the buffer after them. -/
def run (buffer : ContainerBuffer α) :
    List (ContainerOp α) → List (ContainerResult α) × ContainerBuffer α
  | [] => ([], buffer)
  | op :: ops =>
      let (result, next) := buffer.exec op
      (next.run ops).map (result :: ·) id

end ContainerBuffer

/-- An array with a cursor that can be open for reading and for writing. -/
structure CursorStream (α : Type) [Inhabited α] where
  array : CursorArray α
  readable : Bool
  writable : Bool

namespace CursorStream

variable {α : Type} [Inhabited α]

/-- A read seek goes anywhere in the array, a write seek anywhere from its beginning on.
One for both directions is a write seek where a read seek fails. -/
def seek (stream : CursorStream α) (target : Int) (input output : Bool) :
    ContainerResult α × CursorStream α :=
  if within : (input ∧ stream.readable) ∧ 0 ≤ target ∧ target ≤ stream.array.size then
    (.position target, { stream with
      array := stream.array.moveTo target.toNat (by omega) })
  else if (output ∧ stream.writable) ∧ 0 ≤ target then
    (.position target, { stream with array := stream.array.extendTo target.toNat })
  else
    (.position (-1), stream)

/-- The character at the cursor, if the cursor is not at the end. -/
def front (stream : CursorStream α) : IntType α :=
  if stream.array.cursor < stream.array.size then
    .char (stream.array.cells stream.array.cursor)
  else
    .eof

def exec (stream : CursorStream α) : ContainerOp α → ContainerResult α × CursorStream α
  | .write source =>
      if stream.writable then
        (.count source.length, { stream with array := stream.array.write source })
      else
        (.count 0, stream)
  | .sgetn count =>
      (.chars (stream.array.peek count), { stream with array := stream.array.skip count })
  | .scopy count => (.chars (stream.array.peek count), stream)
  | .sbumpc => (.char stream.front, { stream with array := stream.array.skip 1 })
  | .sgetc => (.char stream.front, stream)
  | .seekpos position input output => stream.seek position input output
  | .seekoff offset way input output =>
      match way with
      | .beg => stream.seek offset input output
      | .cur => stream.seek (stream.array.cursor + offset) input output
      | .fin => stream.seek (stream.array.size + offset) input output
      | .other => (.position (-1), stream)
  | .close input output =>
      (.none, { stream with
        readable := stream.readable && !input
        writable := stream.writable && !output })

def run (stream : CursorStream α) :
    List (ContainerOp α) → List (ContainerResult α) × CursorStream α
  | [] => ([], stream)
  | op :: ops =>
      let (result, next) := stream.exec op
      (next.run ops).map (result :: ·) id

end CursorStream

/-! ### The refinement -/

namespace ContainerBuffer

variable {α : Type} [Inhabited α] {buffer : ContainerBuffer α} {stream : CursorStream α}

/-- The buffer is an implementation of the stream. -/
structure Refines (buffer : ContainerBuffer α) (stream : CursorStream α) : Prop where
  holds : stream.array.Holds buffer.data buffer.currentPosition
  readable : stream.readable = buffer.canRead
  writable : stream.writable = buffer.canWrite
  failed : buffer.failed = false

omit [Inhabited α] in
theorem assert_inRange (inside : buffer.currentPosition ≤ buffer.data.length) :
    buffer.assert buffer.inRange = buffer := by
  simp [assert, inRange, inside]

omit [Inhabited α] in
theorem updateCurrentPosition_eq {newPos : ℕ} (inside : newPos ≤ buffer.data.length) :
    buffer.updateCurrentPosition newPos = { buffer with currentPosition := newPos } := by
  rw [updateCurrentPosition]
  exact assert_inRange inside

omit [Inhabited α] in
/-- One call of `read`: the characters there are, and a position behind them. -/
theorem read_eq (inside : buffer.currentPosition ≤ buffer.data.length) (count : ℕ)
    (advance : Bool) :
    buffer.read count advance =
      ((buffer.data.drop buffer.currentPosition).take count,
        if advance then
          { buffer with
            currentPosition := min (buffer.currentPosition + count) buffer.data.length }
        else buffer) := by
  simp only [read, assert_inRange inside, canSatisfy, inAvail]
  by_cases atEnd : buffer.data.length ≤ buffer.currentPosition
  · have stays : min (buffer.currentPosition + count) buffer.data.length =
        buffer.currentPosition := by omega
    have nothing : ¬0 < buffer.data.length - buffer.currentPosition := by omega
    simp [nothing, stays, List.drop_eq_nil_of_le atEnd]
  · have some : 0 < buffer.data.length - buffer.currentPosition := by omega
    have target : buffer.currentPosition + min count (buffer.data.length - buffer.currentPosition) =
        min (buffer.currentPosition + count) buffer.data.length := by omega
    have taken : (buffer.data.drop buffer.currentPosition).take
        (min count (buffer.data.length - buffer.currentPosition)) =
          (buffer.data.drop buffer.currentPosition).take count := by
      rw [← List.length_drop, List.take_eq_take_iff]
      omega
    simp only [some, decide_true, Bool.not_true, Bool.false_eq_true, if_false, taken, target]
    rw [updateCurrentPosition_eq (Nat.min_le_right _ _)]

omit [Inhabited α] in
theorem readByte_eq (inside : buffer.currentPosition ≤ buffer.data.length) (advance : Bool) :
    buffer.readByte advance =
      (((buffer.data.drop buffer.currentPosition).head?.map IntType.char).getD .eof,
        (buffer.read 1 advance).2) := by
  rw [readByte, read_eq inside]
  cases buffer.data.drop buffer.currentPosition <;> rfl

theorem write_eq (inside : buffer.currentPosition ≤ buffer.data.length)
    (writable : buffer.canWrite = true) (source : List α) :
    buffer.write source = (source.length,
      { buffer with
        data := buffer.data.take buffer.currentPosition ++ source ++
          buffer.data.drop (buffer.currentPosition + source.length)
        currentPosition := buffer.currentPosition + source.length }) := by
  cases source with
  | nil => simp [write]
  | cons first rest =>
      have grown : (buffer.resizeForWrite (buffer.currentPosition + (first :: rest).length)) =
          { buffer with
            data := buffer.data ++ List.replicate
              (buffer.currentPosition + (first :: rest).length - buffer.data.length) default } := by
        rw [resizeForWrite]
        split
        · rfl
        · next enough =>
            have none : buffer.currentPosition + (first :: rest).length - buffer.data.length = 0 :=
              by omega
            rw [none, List.replicate_zero, List.append_nil]
      simp only [write, writable, Bool.not_true, Bool.false_or, List.length_cons,
        Nat.add_one_ne_zero, decide_false, Bool.false_eq_true, if_false] at grown ⊢
      rw [grown]
      have behind : (buffer.data ++ List.replicate
          (buffer.currentPosition + (rest.length + 1) - buffer.data.length) default).drop
            (buffer.currentPosition + (rest.length + 1)) =
          buffer.data.drop (buffer.currentPosition + (rest.length + 1)) := by
        rw [List.drop_append, List.drop_replicate]
        have none : buffer.currentPosition + (rest.length + 1) - buffer.data.length -
            (buffer.currentPosition + (rest.length + 1) - buffer.data.length) = 0 := by omega
        rw [none, List.replicate_zero, List.append_nil]
      simp only [List.take_append_of_le_length inside, behind]
      rw [updateCurrentPosition_eq]
      simp only [List.length_append, List.length_take, List.length_drop, List.length_cons]
      omega

namespace Refines

theorem read (refines : buffer.Refines stream) (count : ℕ) (advance : Bool) :
    (buffer.read count advance).1 = stream.array.peek count ∧
      (buffer.read count advance).2.Refines
        { stream with array := if advance then stream.array.skip count else stream.array } := by
  rw [read_eq refines.holds.position_le]
  refine ⟨(refines.holds.peek_eq count).symm, ?_⟩
  cases advance with
  | false => exact refines
  | true => exact ⟨refines.holds.skip count, refines.readable, refines.writable, refines.failed⟩

theorem readByte (refines : buffer.Refines stream) (advance : Bool) :
    (buffer.readByte advance).1 = stream.front ∧
      (buffer.readByte advance).2.Refines
        { stream with array := if advance then stream.array.skip 1 else stream.array } := by
  have inside := refines.holds.position_le
  rw [readByte_eq inside]
  refine ⟨?_, (refines.read 1 advance).2⟩
  rw [CursorStream.front, refines.holds.cursor, refines.holds.size, refines.holds.cells]
  split
  · next before => simp [List.head?_drop, List.getD_eq_getElem?_getD, before]
  · next atEnd => simp [List.drop_eq_nil_of_le (Nat.le_of_not_lt atEnd)]

theorem write (refines : buffer.Refines stream) (source : List α) :
    (ContainerResult.count (buffer.write source).1 : ContainerResult α) =
        (stream.exec (.write source)).1 ∧
      (buffer.write source).2.Refines (stream.exec (.write source)).2 := by
  simp only [CursorStream.exec, refines.writable]
  cases writable : buffer.canWrite with
  | false =>
      have refused : buffer.write source = (0, buffer) := by simp [ContainerBuffer.write, writable]
      rw [refused]
      exact ⟨rfl, refines⟩
  | true =>
      rw [write_eq refines.holds.position_le writable]
      exact ⟨rfl, refines.holds.write source, refines.readable, writable.symm, refines.failed⟩

theorem seekpos (refines : buffer.Refines stream) (position : Int) (input output : Bool) :
    ContainerResult.position (buffer.seekpos position input output).1 =
        (stream.seek position input output).1 ∧
      (buffer.seekpos position input output).2.Refines
        (stream.seek position input output).2 := by
  have size := refines.holds.size
  have readable := refines.readable
  have writable := refines.writable
  by_cases negative : position < 0
  · have failed : buffer.seekpos position input output = (-1, buffer) := by
      rw [ContainerBuffer.seekpos, if_neg (by omega)]
    have fails : stream.seek position input output = (.position (-1), stream) := by
      rw [CursorStream.seek, dif_neg (by omega), if_neg (by omega)]
    rw [failed, fails]
    exact ⟨rfl, refines⟩
  rcases Int.eq_ofNat_of_zero_le (Int.not_lt.mp negative) with ⟨target, rfl⟩
  rw [ContainerBuffer.seekpos, if_pos (by omega), Int.toNat_natCast]
  by_cases reads : (input = true ∧ stream.readable = true) ∧ target ≤ stream.array.size
  · have within : target ≤ buffer.data.length := size ▸ reads.2
    have spec : stream.seek target input output = (.position target, { stream with
        array := stream.array.moveTo target reads.2 }) := by
      rw [CursorStream.seek, dif_pos ⟨reads.1, by omega, by omega⟩]
      rfl
    rw [if_pos (by simp [reads.1.1, ← readable, reads.1.2, within]), spec,
      updateCurrentPosition_eq within]
    exact ⟨rfl, refines.holds.moveTo reads.2, readable, writable, refines.failed⟩
  · have notRead : ¬(input && buffer.canRead &&
        decide ((target : Int) ≤ buffer.data.length)) = true := by
      intro all
      simp only [Bool.and_eq_true, decide_eq_true_eq] at all
      exact reads ⟨⟨all.1.1, readable.trans all.1.2⟩, by omega⟩
    rw [if_neg notRead, CursorStream.seek, dif_neg fun all => reads ⟨all.1, by omega⟩]
    by_cases writes : output = true ∧ stream.writable = true
    · have grown : buffer.resizeForWrite target = { buffer with
          data := buffer.data ++ List.replicate (target - buffer.data.length) default } := by
        rw [resizeForWrite]
        split
        · rfl
        · next enough =>
            have none : target - buffer.data.length = 0 := by omega
            rw [none, List.replicate_zero, List.append_nil]
      have within : target ≤ (buffer.data ++
          List.replicate (target - buffer.data.length) default).length := by
        rw [List.length_append, List.length_replicate]
        omega
      rw [if_pos (by simp [writes.1, ← writable, writes.2]), if_pos ⟨writes, by omega⟩, grown,
        updateCurrentPosition_eq within]
      exact ⟨rfl, refines.holds.extendTo target, readable, writable, refines.failed⟩
    · rw [if_neg (by simpa [← writable] using writes), if_neg (fun both => writes both.1)]
      exact ⟨rfl, refines⟩

/-- The step lemma: an operation returns what the stream returns, and refines it afterwards. -/
theorem exec (refines : buffer.Refines stream) (op : ContainerOp α) :
    (buffer.exec op).1 = (stream.exec op).1 ∧
      (buffer.exec op).2.Refines (stream.exec op).2 := by
  cases op with
  | write source => exact refines.write source
  | sgetn count =>
      rcases refines.read count true with ⟨chars, next⟩
      exact ⟨congrArg ContainerResult.chars chars, next⟩
  | scopy count =>
      rcases refines.read count false with ⟨chars, next⟩
      exact ⟨congrArg ContainerResult.chars chars, next⟩
  | sbumpc =>
      rcases refines.readByte true with ⟨value, next⟩
      exact ⟨congrArg ContainerResult.char value, next⟩
  | sgetc =>
      rcases refines.readByte false with ⟨value, next⟩
      exact ⟨congrArg ContainerResult.char value, next⟩
  | seekpos position input output => exact refines.seekpos position input output
  | seekoff offset way input output =>
      cases way with
      | beg =>
          have target : 0 + offset = offset := Int.zero_add offset
          simp only [ContainerBuffer.exec, ContainerBuffer.seekoff, CursorStream.exec, target]
          exact refines.seekpos offset input output
      | cur =>
          simp only [ContainerBuffer.exec, ContainerBuffer.seekoff, CursorStream.exec,
            refines.holds.cursor]
          exact refines.seekpos _ input output
      | fin =>
          simp only [ContainerBuffer.exec, ContainerBuffer.seekoff, CursorStream.exec,
            refines.holds.size]
          exact refines.seekpos _ input output
      | other => exact ⟨rfl, refines⟩
  | close input output =>
      refine ⟨rfl, refines.holds, ?_, ?_, refines.failed⟩
      · exact congrArg (· && !input) refines.readable
      · exact congrArg (· && !output) refines.writable

theorem run (refines : buffer.Refines stream) (ops : List (ContainerOp α)) :
    (buffer.run ops).1 = (stream.run ops).1 ∧
      (buffer.run ops).2.Refines (stream.run ops).2 := by
  induction ops generalizing buffer stream with
  | nil => exact ⟨rfl, refines⟩
  | cons op ops ih =>
      rcases refines.exec op with ⟨result, next⟩
      rcases ih next with ⟨results, final⟩
      refine ⟨?_, final⟩
      simp only [ContainerBuffer.run, CursorStream.run, Prod.map_fst, result, results]

end Refines

end ContainerBuffer

/-- A container buffer does what a zero-filled array with one cursor does, whatever the
operations and open directions; its position never leaves the collection. -/
theorem ContainerBuffer.run_refines {α : Type} [Inhabited α] (data : List α)
    (input output : Bool) (ops : List (ContainerOp α)) :
    let after := (ContainerBuffer.start data input output).run ops
    let spec := (CursorStream.mk (CursorArray.ofList data) input output).run ops
    after.1 = spec.1 ∧ after.2.data.length = spec.2.array.size ∧
      after.2.currentPosition = spec.2.array.cursor ∧
      (∀ index, after.2.data.getD index default = spec.2.array.cells index) ∧
      after.2.currentPosition ≤ after.2.data.length ∧ after.2.failed = false := by
  have starts : (ContainerBuffer.start data input output).Refines
      (CursorStream.mk (CursorArray.ofList data) input output) :=
    ⟨CursorArray.holds_ofList data, rfl, rfl, rfl⟩
  rcases starts.run ops with ⟨results, final⟩
  exact ⟨results, final.holds.size.symm, final.holds.cursor.symm,
    fun index => (final.holds.cells index).symm, final.holds.position_le, final.failed⟩

end Snode.Streams
