import Snode.Streams.Sourcebuf

/-!
# Reading from a source

What is upcoming in a source buffer is what is unread in the window and then what the
source has left.  A read takes from it, whatever the positions are, because no window is
left open behind the characters of a refill: its positions wrap around.
-/

namespace Snode.Streams

variable {σ α : Type} [SourceImpl σ α]

/-- A source whose reads without an offset copy the next characters of what is left: some while
there are any, and never more than were asked for. -/
structure Sequential (rest : σ → List α) : Prop where
  copies : ∀ (source : σ) count, 0 < count →
    (SourceImpl.read source count (-1)).1 ++ rest (SourceImpl.read source count (-1)).2 =
      rest source
  bounded : ∀ (source : σ) count, 0 < count → (SourceImpl.read source count (-1)).1.length ≤ count
  progress : ∀ (source : σ) count, 0 < count → rest source ≠ [] →
    (SourceImpl.read source count (-1)).1 ≠ []

/-- A source of the given data.  A read with an offset greater than `-1` sets its position, and
every read copies what is there. -/
structure Honours (data : List α) (position : σ → ℕ) : Prop where
  size : ∀ source : σ, SourceImpl.size source = data.length
  size_lt : data.length < 2 ^ 64
  within : ∀ source, position source ≤ data.length
  reads : ∀ (source : σ) count (offset : Int), 0 < count → -1 ≤ offset → offset ≤ data.length →
    let start := if -1 < offset then offset.toNat else position source
    let after := SourceImpl.read source count offset
    after.1 = (data.drop start).take after.1.length ∧ after.1.length ≤ count ∧
      (start < data.length → after.1 ≠ []) ∧ position after.2 = start + after.1.length

theorem Honours.sequential {data : List α} {position : σ → ℕ} (honours : Honours data position) :
    Sequential fun source => data.drop (position source) where
  copies source count some := by
    rcases honours.reads source count (-1) some (by omega) (by omega) with ⟨chars, -, -, moved⟩
    simp only [Int.lt_irrefl, if_false] at chars moved
    rw [moved, ← List.drop_drop]
    nth_rewrite 1 [chars]
    exact List.take_append_drop _ _
  bounded source count some :=
    (honours.reads source count (-1) some (by omega) (by omega)).2.1
  progress source count some left := by
    apply (honours.reads source count (-1) some (by omega) (by omega)).2.2.1
    simp only [Int.lt_irrefl, if_false]
    by_contra atEnd
    exact left (List.drop_of_length_le (Nat.le_of_not_lt atEnd))

/-- Data in memory as a source. -/
structure MemorySource (data : List α) where
  position : ℕ
  within : position ≤ data.length

namespace MemorySource

variable {data : List α}

/-- Where a read begins. -/
def start (source : MemorySource data) (offset : Int) : ℕ :=
  if -1 < offset then min offset.toNat data.length else source.position

theorem start_le (source : MemorySource data) (offset : Int) :
    source.start offset ≤ data.length := by
  have within := source.within
  rw [start]
  split <;> omega

/-- A read goes over the characters there are. -/
def read (source : MemorySource data) (count : ℕ) (offset : Int) : List α × MemorySource data :=
  ((data.drop (source.start offset)).take count,
    { position := source.start offset + min count (data.length - source.start offset)
      within := by
        have inside := source.start_le offset
        omega })

instance (data : List α) : SourceImpl (MemorySource data) α where
  read := read
  size _ := data.length

theorem honours (small : data.length < 2 ^ 64) : Honours data (@position α data) where
  size _ := rfl
  size_lt := small
  within := within
  reads source count offset some least most := by
    have start : (if -1 < offset then offset.toNat else source.position) =
        source.start offset := by
      rw [MemorySource.start]
      split <;> omega
    simp only [start, SourceImpl.read, read, List.length_take, List.length_drop]
    refine ⟨?_, Nat.min_le_left _ _, ?_, trivial⟩
    · rw [List.take_eq_take_iff, List.length_drop]
      omega
    · intro before
      apply List.ne_nil_of_length_pos
      rw [List.length_take, List.length_drop]
      omega

end MemorySource

namespace Sourcebuf

/-- What holds of a buffer in every state reached. -/
structure Sound (buffer : Sourcebuf σ α) : Prop where
  readable : buffer.canRead = true
  rdpos_lt : buffer.info.rdpos < 2 ^ 64
  bufoff_lt : buffer.info.bufoff < 2 ^ 64
  capacity : buffer.info.buffer.length = 512
  buffill_le : buffer.info.buffill ≤ 512

/-- The unread characters of the window. -/
def buffered (buffer : Sourcebuf σ α) : List α :=
  (buffer.info.buffer.drop (buffer.info.rdpos - buffer.info.bufoff)).take buffer.inAvail

/-- What reads are to deliver, if that is what the source has left. -/
def upcoming (rest : σ → List α) (buffer : Sourcebuf σ α) : List α :=
  buffer.buffered ++ rest buffer.source

variable {buffer : Sourcebuf σ α} {rest : σ → List α}

omit [SourceImpl σ α] in
theorem sound_new [Inhabited α] (source : σ) : (new source : Sourcebuf σ α).Sound where
  readable := rfl
  rdpos_lt := Nat.two_pow_pos 64
  bufoff_lt := Nat.two_pow_pos 64
  capacity := List.length_replicate
  buffill_le := Nat.zero_le 512

omit [SourceImpl σ α] in
theorem inAvail_new [Inhabited α] (source : σ) : (new source : Sourcebuf σ α).inAvail = 0 :=
  rfl

/-! ### The window -/

omit [SourceImpl σ α] in
theorem Sound.isOpen (sound : buffer.Sound) : buffer.isOpen = true := by
  have readable := sound.readable
  rw [canRead] at readable
  rw [Sourcebuf.isOpen, readable, Bool.true_or]

omit [SourceImpl σ α] in
/-- In an open window the positions do not wrap around. -/
theorem Sound.window (sound : buffer.Sound) (some : 0 < buffer.inAvail) :
    buffer.info.bufoff ≤ buffer.info.rdpos ∧
      buffer.info.rdpos + buffer.inAvail = buffer.info.bufoff + buffer.info.buffill ∧
      buffer.info.bufoff + buffer.info.buffill < 2 ^ 64 := by
  have small := sound.rdpos_lt
  have start := sound.bufoff_lt
  have fill := sound.buffill_le
  have ends : buffer.bufend = (buffer.info.bufoff + buffer.info.buffill) % 2 ^ 64 := rfl
  rw [inAvail, sound.isOpen, Bool.not_true, if_neg Bool.false_ne_true] at some ⊢
  by_cases empty : buffer.info.buffill = 0
  · rw [if_pos empty] at some
    exact absurd some (Nat.lt_irrefl 0)
  rw [if_neg empty] at some ⊢
  by_cases outside : buffer.info.rdpos < buffer.info.bufoff ∨ buffer.bufend < buffer.info.rdpos
  · rw [if_pos outside] at some
    exact absurd some (Nat.lt_irrefl 0)
  rw [if_neg outside]
  omega

omit [SourceImpl σ α] in
/-- A window that the read position is outside of is closed. -/
theorem inAvail_of_outside (outside : buffer.info.rdpos < buffer.info.bufoff ∨
    buffer.bufend < buffer.info.rdpos) : buffer.inAvail = 0 := by
  rw [inAvail, if_pos outside]
  split
  · rfl
  · exact ite_self 0

omit [SourceImpl σ α] in
theorem length_buffered (sound : buffer.Sound) : buffer.buffered.length = buffer.inAvail := by
  have capacity := sound.capacity
  have fill := sound.buffill_le
  rw [buffered, List.length_take, List.length_drop, capacity]
  rcases Nat.eq_zero_or_pos buffer.inAvail with closed | some
  · rw [closed, Nat.zero_min]
  · have window := sound.window some
    omega

omit [SourceImpl σ α] in
theorem buffered_of_closed (closed : buffer.inAvail = 0) : buffer.buffered = [] := by
  rw [buffered, closed, List.take_zero]

omit [SourceImpl σ α] in
/-- A new buffer has the whole source before it. -/
theorem upcoming_new [Inhabited α] (source : σ) :
    (new source : Sourcebuf σ α).upcoming rest = rest source := by
  rw [upcoming, buffered_of_closed (inAvail_new source), List.nil_append]
  rfl

omit [SourceImpl σ α] in
theorem Sound.moveRdpos (sound : buffer.Sound) (count : ℕ) (advance : Bool) :
    (buffer.moveRdpos count advance).Sound := by
  cases advance with
  | false => exact sound
  | true =>
      exact ⟨sound.readable, Nat.mod_lt _ (Nat.two_pow_pos 64), sound.bufoff_lt, sound.capacity,
        sound.buffill_le⟩

omit [SourceImpl σ α] in
theorem moveRdpos_zero (sound : buffer.Sound) (advance : Bool) :
    buffer.moveRdpos 0 advance = buffer := by
  have stays : (buffer.info.rdpos + 0) % 2 ^ 64 = buffer.info.rdpos :=
    Nat.mod_eq_of_lt sound.rdpos_lt
  simp only [moveRdpos, stays, ite_self]

omit [SourceImpl σ α] in
/-- Within an open window the read position moves over characters. -/
theorem moveRdpos_window (sound : buffer.Sound) {count : ℕ} (within : count ≤ buffer.inAvail) :
    (buffer.moveRdpos count true).inAvail = buffer.inAvail - count ∧
      (buffer.moveRdpos count true).buffered = buffer.buffered.drop count := by
  rcases Nat.eq_zero_or_pos buffer.inAvail with closed | some
  · obtain rfl : count = 0 := by omega
    rw [moveRdpos_zero sound, Nat.sub_zero, List.drop_zero]
    exact ⟨rfl, rfl⟩
  · have window := sound.window some
    have position : (buffer.moveRdpos count true).info.rdpos = buffer.info.rdpos + count := by
      simp only [moveRdpos, if_true]
      exact Nat.mod_eq_of_lt (by omega)
    have offset : (buffer.moveRdpos count true).info.bufoff = buffer.info.bufoff := rfl
    have fill : (buffer.moveRdpos count true).info.buffill = buffer.info.buffill := rfl
    have avail : (buffer.moveRdpos count true).inAvail = buffer.inAvail - count := by
      have ends : (buffer.moveRdpos count true).bufend =
          buffer.info.bufoff + buffer.info.buffill := Nat.mod_eq_of_lt window.2.2
      rw [inAvail, (sound.moveRdpos count true).isOpen, Bool.not_true, if_neg Bool.false_ne_true,
        position, offset, fill, ends, if_neg (by omega), if_neg (by omega)]
      omega
    refine ⟨avail, ?_⟩
    have start : buffer.info.rdpos + count - buffer.info.bufoff =
        (buffer.info.rdpos - buffer.info.bufoff) + count := by omega
    rw [buffered, avail, position, offset, start, buffered, List.drop_take, List.drop_drop]
    rfl

/-! ### The refill -/

/-- The characters a fill copies into the buffer, and the source after it. -/
def fillRead (buffer : Sourcebuf σ α) (count : ℕ) (offset : Int) : List α × σ :=
  SourceImpl.read buffer.source (min count 512) offset

/-- Where the buffer begins after a fill. -/
def fillStart (buffer : Sourcebuf σ α) (offset : Int) : ℕ :=
  if offset = 0 then buffer.info.rdpos else toSizeType offset

omit [SourceImpl σ α] in
theorem fillStart_lt (sound : buffer.Sound) (offset : Int) :
    buffer.fillStart offset < 2 ^ 64 := by
  have small := sound.rdpos_lt
  rw [fillStart, toSizeType]
  split <;> omega

theorem fillBuffer_empty (sound : buffer.Sound) {count : ℕ} {offset : Int}
    (empty : (buffer.fillRead count offset).1 = []) :
    buffer.fillBuffer count offset = (0, { buffer with
      source := (buffer.fillRead count offset).2
      info.atend := decide (0 < min count 512) }) := by
  have countr : (if 512 < count then 512 else count) = min count 512 := by
    split <;> omega
  rw [fillRead] at empty ⊢
  simp only [fillBuffer, sound.capacity, countr, empty, List.length_nil, List.drop_zero,
    List.nil_append, if_true]

theorem fillBuffer_some (sound : buffer.Sound) {count : ℕ} {offset : Int}
    (some : (buffer.fillRead count offset).1 ≠ []) :
    buffer.fillBuffer count offset = ((buffer.fillRead count offset).1.length, { buffer with
      source := (buffer.fillRead count offset).2
      info := {
        rdpos := buffer.fillStart offset
        bufoff := buffer.fillStart offset
        buffill := (buffer.fillRead count offset).1.length
        atend := decide ((buffer.fillRead count offset).1.length < min count 512)
        buffer := (buffer.fillRead count offset).1 ++
          buffer.info.buffer.drop (buffer.fillRead count offset).1.length } }) := by
  have countr : (if 512 < count then 512 else count) = min count 512 := by
    split <;> omega
  rw [fillRead] at some ⊢
  have filled := mt List.eq_nil_of_length_eq_zero some
  simp only [fillBuffer, sound.capacity, countr, if_neg filled, fillStart]

/-- A fill keeps the buffer sound if the source copies no more than it was asked for. -/
theorem Sound.fillBuffer (sound : buffer.Sound) {count : ℕ} {offset : Int}
    (bounded : (buffer.fillRead count offset).1.length ≤ min count 512) :
    (buffer.fillBuffer count offset).2.Sound := by
  by_cases empty : (buffer.fillRead count offset).1 = []
  · rw [fillBuffer_empty sound empty]
    exact ⟨sound.readable, sound.rdpos_lt, sound.bufoff_lt, sound.capacity, sound.buffill_le⟩
  · rw [fillBuffer_some sound empty]
    refine ⟨sound.readable, fillStart_lt sound offset, fillStart_lt sound offset, ?_, ?_⟩
    · have capacity := sound.capacity
      simp only [List.length_append, List.length_drop]
      omega
    · exact Nat.le_trans bounded (Nat.min_le_right _ _)

end Sourcebuf

namespace Refill

open Sourcebuf

/-- The loop is on its way through a text, `count` characters of which were asked for. -/
structure Filling (rest : σ → List α) (text : List α) (count : ℕ) (loop : Refill σ α) : Prop where
  sound : loop.buffer.Sound
  closed : loop.buffer.inAvail = 0
  text : loop.stored ++ rest loop.buffer.source = text
  totalr : loop.stored.length = loop.totalr
  count : loop.totalr + loop.fillcount = count

variable {rest : σ → List α} {text : List α} {count : ℕ} {loop : Refill σ α}

theorem body_of_empty (sound : loop.buffer.Sound)
    (empty : (loop.buffer.fillRead loop.fillcount (-1)).1 = []) :
    loop.body true = { loop with
      buffer := (loop.buffer.fillBuffer loop.fillcount (-1)).2
      avail := 0 } := by
  rw [body, fillBuffer_empty sound empty]
  rfl

/-- What a fill copies into the buffer is copied on at once. -/
theorem body_of_some (sound : loop.buffer.Sound)
    (some : (loop.buffer.fillRead loop.fillcount (-1)).1 ≠ [])
    (bounded : (loop.buffer.fillRead loop.fillcount (-1)).1.length ≤ loop.fillcount) :
    loop.body true = {
      buffer := (loop.buffer.fillBuffer loop.fillcount (-1)).2.moveRdpos
        (loop.totalr + (loop.buffer.fillRead loop.fillcount (-1)).1.length) true
      stored := loop.stored ++ (loop.buffer.fillRead loop.fillcount (-1)).1
      totalr := loop.totalr + (loop.buffer.fillRead loop.fillcount (-1)).1.length
      fillcount := loop.fillcount - (loop.buffer.fillRead loop.fillcount (-1)).1.length
      avail := (loop.buffer.fillRead loop.fillcount (-1)).1.length } := by
  have length := List.length_pos_of_ne_nil some
  generalize copied : (loop.buffer.fillRead loop.fillcount (-1)).1.length = avail at bounded length
  have charCount : (if loop.fillcount ≤ avail then loop.fillcount else avail) = avail := by
    split <;> omega
  have left : (if avail < loop.fillcount then loop.fillcount - avail else 0) =
      loop.fillcount - avail := by
    split <;> omega
  rw [body, fillBuffer_some sound some]
  simp only [copied, if_neg (Nat.ne_of_gt length), charCount, left, List.take_left' copied]

/-- An iteration keeps the text; one that is not filled finds the source at its end. -/
theorem Filling.body (filling : loop.Filling rest text count) (sequential : Sequential rest)
    (small : count < 2 ^ 64) (more : 0 < loop.fillcount) :
    (loop.body true).Filling rest text count ∧
      ((loop.body true).avail = 0 → rest (loop.body true).buffer.source = []) := by
  have sound := filling.sound
  have request := filling.count
  have whole := filling.text
  have asked : 0 < min loop.fillcount 512 := by omega
  have copies : (loop.buffer.fillRead loop.fillcount (-1)).1 ++
      rest (loop.buffer.fillRead loop.fillcount (-1)).2 = rest loop.buffer.source :=
    sequential.copies loop.buffer.source _ asked
  have bounded : (loop.buffer.fillRead loop.fillcount (-1)).1.length ≤ min loop.fillcount 512 :=
    sequential.bounded loop.buffer.source _ asked
  have next := sound.fillBuffer bounded
  by_cases empty : (loop.buffer.fillRead loop.fillcount (-1)).1 = []
  · have ended : rest loop.buffer.source = [] := by
      by_contra left
      exact sequential.progress loop.buffer.source _ asked left empty
    rw [empty, ended, List.nil_append] at copies
    rw [body_of_empty sound empty]
    rw [fillBuffer_empty sound empty] at next ⊢
    refine ⟨⟨next, filling.closed, ?_, filling.totalr, request⟩, fun _ => copies⟩
    rw [← whole, ended]
    exact congrArg (loop.stored ++ ·) copies
  · have filled := fillBuffer_some sound empty
    have start : loop.buffer.fillStart (-1) = 2 ^ 64 - 1 := rfl
    have length := List.length_pos_of_ne_nil empty
    have moved := next.moveRdpos
      (loop.totalr + (loop.buffer.fillRead loop.fillcount (-1)).1.length) true
    rw [body_of_some sound empty (by omega)]
    rw [filled, start] at moved ⊢
    refine ⟨⟨moved, ?_, ?_, ?_, ?_⟩, fun none => (Nat.ne_of_gt length none).elim⟩
    · -- The position was set to the largest value; with `totalr` added it is below that again.
      apply inAvail_of_outside
      left
      simp only [Sourcebuf.moveRdpos, if_true]
      omega
    · rw [← whole, List.append_assoc]
      exact congrArg (loop.stored ++ ·) copies
    · rw [List.length_append, filling.totalr]
    · simp only
      omega

/-- Whatever the source does, a loop that goes on has less to read. -/
theorem fillcount_body {advance : Bool} (again : (loop.body advance).again = true) :
    (loop.body advance).fillcount < loop.fillcount := by
  simp only [Refill.again, decide_eq_true_eq] at again
  rw [Refill.body] at again ⊢
  by_cases none : (loop.buffer.fillBuffer loop.fillcount (-1)).1 = 0
  · simp [none] at again
  · simp only [if_neg none] at again ⊢
    by_cases less : (loop.buffer.fillBuffer loop.fillcount (-1)).1 < loop.fillcount
    · rw [if_pos less]
      omega
    · exact (again.1 (if_neg less)).elim

/-- The loop is left through its condition, and not because the fuel is used up. -/
theorem again_run {advance : Bool} {fuel : ℕ} (enough : loop.fillcount ≤ fuel) :
    (loop.run advance fuel).again = false := by
  induction fuel generalizing loop with
  | zero =>
      by_contra again
      have less := fillcount_body (Bool.not_eq_false _ ▸ again)
      omega
  | succ fuel ih =>
      rw [Refill.run]
      split
      · next again =>
          have less := fillcount_body again
          exact ih (by omega)
      · next left => exact Bool.not_eq_true _ ▸ left

theorem Filling.run (filling : loop.Filling rest text count) (sequential : Sequential rest)
    (small : count < 2 ^ 64) (more : 0 < loop.fillcount) {fuel : ℕ}
    (enough : loop.fillcount ≤ fuel) :
    (loop.run true fuel).Filling rest text count ∧
      ((loop.run true fuel).fillcount = 0 ∨ rest (loop.run true fuel).buffer.source = []) := by
  induction fuel generalizing loop with
  | zero => omega
  | succ fuel ih =>
      have step := filling.body sequential small more
      rw [Refill.run]
      split
      · next again =>
          have less := fillcount_body again
          simp only [Refill.again, decide_eq_true_eq] at again
          exact ih step.1 (by omega) (by omega)
      · next left =>
          simp only [Refill.again, decide_eq_true_eq, not_and_or, not_not] at left
          refine ⟨step.1, ?_⟩
          rcases left with request | none
          · exact Or.inl request
          · exact Or.inr (step.2 none)

omit [SourceImpl σ α] in
/-- When the loop is done, it has split the text. -/
theorem Filling.split (filling : loop.Filling rest text count)
    (done : loop.fillcount = 0 ∨ rest loop.buffer.source = []) :
    loop.stored = text.take count ∧ loop.buffer.upcoming rest = text.drop count := by
  have whole := filling.text
  have request := filling.count
  rw [upcoming, buffered_of_closed filling.closed, List.nil_append, ← whole]
  rcases done with none | ended
  · have length : loop.stored.length = count := by
      rw [filling.totalr]
      omega
    exact ⟨(List.take_left' length).symm, (List.drop_left' length).symm⟩
  · have within : loop.stored.length ≤ count := by
      rw [filling.totalr]
      omega
    rw [ended, List.append_nil]
    exact ⟨(List.take_of_length_le within).symm, (List.drop_of_length_le within).symm⟩

end Refill

namespace Sourcebuf

variable {buffer : Sourcebuf σ α} {rest : σ → List α}

omit [SourceImpl σ α] in
theorem take_window (sound : buffer.Sound) {count : ℕ} (within : count ≤ buffer.inAvail) :
    (buffer.info.buffer.drop
      ((buffer.info.rdpos + 2 ^ 64 - buffer.info.bufoff) % 2 ^ 64)).take count =
        buffer.buffered.take count := by
  rcases Nat.eq_zero_or_pos count with rfl | some
  · rw [List.take_zero, List.take_zero]
  · have window := sound.window (by omega)
    have small := sound.rdpos_lt
    have start : (buffer.info.rdpos + 2 ^ 64 - buffer.info.bufoff) % 2 ^ 64 =
        buffer.info.rdpos - buffer.info.bufoff := by omega
    rw [start, buffered, List.take_take, Nat.min_eq_left within]

/-- A read takes as many characters from what is upcoming as there are, whatever the window and
the number of refills. -/
theorem read_spec (sound : buffer.Sound) (sequential : Sequential rest) {count : ℕ}
    (small : count < 2 ^ 64) :
    (buffer.read count true).1 = (buffer.upcoming rest).take count ∧
      (buffer.read count true).2.Sound ∧
      (buffer.read count true).2.upcoming rest = (buffer.upcoming rest).drop count := by
  have length := length_buffered sound
  by_cases within : count ≤ buffer.inAvail
  · have moved := moveRdpos_window sound within
    have read : buffer.read count true = (buffer.buffered.take count,
        buffer.moveRdpos count true) := by
      rw [Sourcebuf.read]
      simp only [if_pos within, take_window sound within]
    rw [read, upcoming, upcoming, moved.2, List.take_append_of_le_length (by omega),
      List.drop_append_of_le_length (by omega)]
    exact ⟨rfl, sound.moveRdpos count true, rfl⟩
  · have moved := moveRdpos_window sound (Nat.le_refl buffer.inAvail)
    have taken := take_window sound (Nat.le_refl buffer.inAvail)
    rw [← length, List.take_length, length] at taken
    have filling : Refill.Filling rest (buffer.upcoming rest) count {
        buffer := buffer.moveRdpos buffer.inAvail true
        stored := buffer.buffered
        totalr := buffer.inAvail
        fillcount := count - buffer.inAvail
        avail := buffer.inAvail } := by
      refine ⟨sound.moveRdpos _ true, ?_, rfl, length, ?_⟩
      · rw [moved.1, Nat.sub_self]
      · simp only
        omega
    have read : buffer.read count true = (
        (Refill.run true (count - buffer.inAvail) ⟨buffer.moveRdpos buffer.inAvail true,
          buffer.buffered, buffer.inAvail, count - buffer.inAvail, buffer.inAvail⟩).stored,
        (Refill.run true (count - buffer.inAvail) ⟨buffer.moveRdpos buffer.inAvail true,
          buffer.buffered, buffer.inAvail, count - buffer.inAvail, buffer.inAvail⟩).buffer) := by
      rw [Sourcebuf.read]
      simp only [if_neg within, taken]
      by_cases closed : buffer.inAvail = 0
      · simp only [closed, if_true, moveRdpos_zero sound, buffered_of_closed closed]
      · simp only [if_neg closed]
    rw [read]
    have more : 0 < count - buffer.inAvail := by omega
    rcases filling.run sequential small more (Nat.le_refl _) with ⟨final, done⟩
    exact ⟨(final.split done).1, final.sound, (final.split done).2⟩

theorem readByte_spec (sound : buffer.Sound) (sequential : Sequential rest) (advance : Bool) :
    (buffer.readByte advance).1.toList = (buffer.upcoming rest).take 1 ∧
      (buffer.readByte advance).2 = (buffer.read 1 true).2 := by
  have chars := (read_spec sound sequential (Nat.one_lt_two_pow (by decide : 64 ≠ 0))).1
  have least : (buffer.read 1 true).1.length ≤ 1 := by
    rw [chars, List.length_take]
    omega
  rw [readByte]
  rcases read : buffer.read 1 true with ⟨stored, next⟩
  rw [read] at chars least
  rcases stored with _ | ⟨value, _ | ⟨other, more⟩⟩
  · exact ⟨chars, rfl⟩
  · exact ⟨chars, rfl⟩
  · simp at least

end Sourcebuf

/-! ### Sequential reads -/

/-- A read that asks for the next characters. -/
inductive SequentialRead where
  | getn (count : UInt64)
  | bumpc
  | sbumpc

/-- How many characters it asks for. -/
def SequentialRead.requested : SequentialRead → ℕ
  | getn count => count.toNat
  | bumpc => 1
  | sbumpc => 1

namespace Sourcebuf

variable {buffer : Sourcebuf σ α} {rest : σ → List α}

/-- The characters a read delivers, and the buffer after it. -/
def execRead (buffer : Sourcebuf σ α) : SequentialRead → List α × Sourcebuf σ α
  | .getn count => buffer.getn count.toNat
  | .bumpc => buffer.bumpc.map IntType.toList id
  | .sbumpc => buffer.sbumpc.map IntType.toList id

/-- The characters some reads deliver one after the other, and the buffer after them. -/
def runReads (buffer : Sourcebuf σ α) : List SequentialRead → List (List α) × Sourcebuf σ α
  | [] => ([], buffer)
  | op :: ops =>
      let (chars, next) := buffer.execRead op
      (next.runReads ops).map (chars :: ·) id

theorem execRead_spec (sound : buffer.Sound) (sequential : Sequential rest)
    (op : SequentialRead) :
    (buffer.execRead op).1 = (buffer.upcoming rest).take op.requested ∧
      (buffer.execRead op).2.Sound ∧
      (buffer.execRead op).2.upcoming rest = (buffer.upcoming rest).drop op.requested := by
  have byte := read_spec sound sequential (Nat.one_lt_two_pow (by decide : 64 ≠ 0))
  have bumped := readByte_spec sound sequential true
  rw [← bumped.2] at byte
  cases op with
  | getn count => exact read_spec sound sequential count.toNat_lt
  | bumpc => exact ⟨bumped.1, byte.2⟩
  | sbumpc => exact ⟨bumped.1, byte.2⟩

/-- The run lemma: what was delivered and what is upcoming are what was upcoming before. -/
theorem runReads_spec (sound : buffer.Sound) (sequential : Sequential rest)
    (ops : List SequentialRead) :
    (buffer.runReads ops).2.Sound ∧
      (buffer.runReads ops).1.flatten ++ (buffer.runReads ops).2.upcoming rest =
        buffer.upcoming rest := by
  induction ops generalizing buffer with
  | nil => exact ⟨sound, rfl⟩
  | cons op ops ih =>
      rcases execRead_spec sound sequential op with ⟨chars, next, left⟩
      rcases ih next with ⟨final, all⟩
      refine ⟨final, ?_⟩
      simp only [runReads, Prod.map_fst, Prod.map_snd, List.flatten_cons, List.append_assoc, id]
      rw [all, chars, left, List.take_append_drop]

/-- The reads of a source deliver it from its beginning on without a gap.  A read that returns
fewer characters than it asked for has come to the end of the source, and its loop is left. -/
theorem reads_deliver_source [Inhabited α] (sequential : Sequential rest) (source : σ)
    (ops : List SequentialRead) (op : SequentialRead) :
    let before := (new source : Sourcebuf σ α).runReads ops
    let next := before.2.execRead op
    before.1.flatten ++ next.1 <+: rest source ∧
      next.1.length ≤ op.requested ∧
      (next.1.length < op.requested → before.1.flatten ++ next.1 = rest source) ∧
      ∀ loop : Refill σ α, ∀ fuel, loop.fillcount ≤ fuel → (loop.run true fuel).again = false := by
  rcases runReads_spec (sound_new source) sequential ops with ⟨sound, delivered⟩
  rcases execRead_spec sound sequential op with ⟨chars, -, left⟩
  rw [upcoming_new] at delivered
  refine ⟨?_, ?_, ?_, fun _ _ => Refill.again_run⟩
  · rw [← delivered, chars, List.prefix_append_right_inj]
    exact List.take_prefix _ _
  · rw [chars]
    exact List.length_take_le _ _
  · rw [chars, List.length_take]
    intro short
    rw [← delivered, List.take_of_length_le (by omega)]

/-- Three reads of a source of five characters, the last of which comes to its end. -/
theorem reads_deliver_source_five :
    let data : List UInt8 := [1, 2, 3, 4, 5]
    let source : MemorySource data := ⟨0, Nat.zero_le _⟩
    let before := (new source : Sourcebuf (MemorySource data) UInt8).runReads [.getn 2, .sbumpc]
    let next := before.2.execRead (.getn 7)
    before.1 = [[1, 2], [3]] ∧ next.1 = [4, 5] ∧ before.1.flatten ++ next.1 = data := by
  refine ⟨by decide +kernel, by decide +kernel, ?_⟩
  exact (reads_deliver_source (MemorySource.honours (by decide)).sequential _ _ _).2.2.1
    (by decide +kernel)

end Sourcebuf

end Snode.Streams
