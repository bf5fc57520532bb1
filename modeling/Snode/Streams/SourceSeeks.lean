import Snode.Streams.SourceReads

/-!
# Seeking in a source

The position exists twice, in the buffer and in the source.  `seekpos` moves the one of
the source only inside the window, where the other one could have been moved alone, and
outside of it only that of the buffer.  A refill, whose offset is `-1`, leaves the buffer
one character before the source.
-/

namespace Snode.Streams

/-- A read or a seek. -/
inductive SourceOp where
  | read (op : SequentialRead)
  | scopy (count : UInt64)
  | getc
  | sgetc
  | seekpos (position : Int) (input output : Bool)
  | seekoff (offset : Int) (way : SeekDir) (input output : Bool)

variable {σ α : Type} [SourceImpl σ α]

namespace Sourcebuf

/-- The buffer after an operation. -/
def exec (buffer : Sourcebuf σ α) : SourceOp → Sourcebuf σ α
  | .read op => (buffer.execRead op).2
  | .scopy count => (buffer.scopy count.toNat).2
  | .getc => buffer.getc.2
  | .sgetc => buffer.sgetc.2
  | .seekpos position input output => (buffer.seekpos position input output).2
  | .seekoff offset way input output => (buffer.seekoff offset way input output).2

/-- The next read delivers the start of a text, whatever the number of characters it asks for. -/
def Delivers (buffer : Sourcebuf σ α) (text : List α) : Prop :=
  ∀ count : UInt64, (buffer.getn count.toNat).1 = text.take count.toNat

/-- A seek by nothing tells where in the data the next read begins. -/
def Tells (buffer : Sourcebuf σ α) (data : List α) : Prop :=
  ∃ target ≤ data.length, (buffer.seekoff 0 .cur true false).1 = target ∧
    (buffer.seekoff 0 .cur true false).2.Delivers (data.drop target)

/-- A seek to a target returns it, and the next read begins there. -/
def SeeksTo (buffer : Sourcebuf σ α) (data : List α) (target : ℕ) : Prop :=
  (buffer.seekpos target true false).1 = target ∧
    (buffer.seekpos target true false).2.Delivers (data.drop target)

/-- Outside the window the source has to be at the target already.  Inside it only a fill that
finds nothing, and one from the beginning, miss the position of the buffer. -/
def Lands (buffer : Sourcebuf σ α) (data : List α) (position : σ → ℕ) (target : ℕ) : Prop :=
  if buffer.bufend < target ∨ target < buffer.info.bufoff then
    position buffer.source = target
  else if target < data.length then
    0 < target ∨ buffer.info.rdpos = 0
  else
    buffer.info.rdpos = target ∧ buffer.inAvail = 0

omit [SourceImpl σ α] in
instance (buffer : Sourcebuf σ α) (data : List α) (position : σ → ℕ) (target : ℕ) :
    Decidable (buffer.Lands data position target) :=
  inferInstanceAs (Decidable (ite _ _ (ite _ _ _)))

variable {buffer : Sourcebuf σ α} {rest : σ → List α} {data : List α} {position : σ → ℕ}

theorem delivers_iff (sound : buffer.Sound) (sequential : Sequential rest) {text : List α}
    (small : text.length < 2 ^ 63) : buffer.Delivers text ↔ buffer.upcoming rest = text := by
  constructor
  · intro delivers
    have most : (UInt64.ofNat (2 ^ 63)).toNat = 2 ^ 63 := rfl
    have whole := delivers (UInt64.ofNat (2 ^ 63))
    rw [most, getn, (read_spec sound sequential (by decide)).1,
      List.take_of_length_le (Nat.le_of_lt small)] at whole
    have length := congrArg List.length whole
    rw [List.length_take] at length
    rwa [List.take_of_length_le (by omega)] at whole
  · intro upcoming count
    rw [getn, (read_spec sound sequential count.toNat_lt).1, upcoming]

/-! ### One seek -/

/-- Where `seekpos` leaves the buffer. -/
def landed (buffer : Sourcebuf σ α) (target : ℕ) : Sourcebuf σ α :=
  if buffer.bufend < target ∨ target < buffer.info.bufoff then
    { buffer with info.rdpos := target }
  else
    (buffer.fillBuffer buffer.info.buffer.length target).2

omit [SourceImpl σ α] in
theorem toPosType_le (value : ℕ) : toPosType value ≤ value := by
  rw [toPosType]
  split <;> omega

omit [SourceImpl σ α] in
theorem toPosType_of_lt {value : ℕ} (small : value < 2 ^ 63) : toPosType value = value :=
  if_pos small

omit [SourceImpl σ α] in
theorem toPosType_inj {value target : ℕ} (bound : value < 2 ^ 64) :
    toPosType value = target ↔ value = target ∧ value < 2 ^ 63 := by
  rw [toPosType]
  split <;> omega

/-- A target that is negative or not up to the size as a `pos_type` is refused. -/
theorem seekpos_refused (honours : Honours data position) {target : Int}
    (refused : target < 0 ∨ toPosType data.length < target) (input output : Bool) :
    buffer.seekpos target input output = (-1, buffer) := by
  rw [seekpos, honours.size]
  split
  · rfl
  split
  · rw [if_neg (by omega)]
  · rfl

theorem seekpos_outside (honours : Honours data position) {target : Int}
    (outside : target < 0 ∨ data.length < target) (input output : Bool) :
    buffer.seekpos target input output = (-1, buffer) := by
  have most := toPosType_le data.length
  exact seekpos_refused honours (by omega) input output

/-- A size that does not fit `pos_type` is negative there, and every target is refused. -/
theorem seekpos_large (honours : Honours data position) (large : 2 ^ 63 ≤ data.length)
    (target : Int) (input output : Bool) :
    buffer.seekpos target input output = (-1, buffer) := by
  have size_lt := honours.size_lt
  have negative : toPosType data.length < 0 := by
    rw [toPosType, if_neg (by omega)]
    omega
  exact seekpos_refused honours (by omega) input output

theorem seekpos_inside (honours : Honours data position) (sound : buffer.Sound)
    (small : data.length < 2 ^ 63) {target : ℕ} (inside : target ≤ data.length) :
    buffer.seekpos target true false =
      (toPosType (buffer.landed target).info.rdpos, buffer.landed target) := by
  have pos : toSizeType target = target := by
    rw [toSizeType]
    omega
  rw [seekpos, honours.size, toPosType_of_lt small, sound.readable, pos]
  simp only [Bool.not_false, Bool.and_self, Bool.not_true, Bool.or_self, Bool.false_eq_true,
    if_false]
  rw [if_pos (by omega), if_pos (by omega)]
  rfl

theorem fillRead_spec (honours : Honours data position) (buffer : Sourcebuf σ α) {target : ℕ}
    (inside : target ≤ data.length) :
    (buffer.fillRead 512 target).1 =
        (data.drop target).take (buffer.fillRead 512 target).1.length ∧
      (buffer.fillRead 512 target).1.length ≤ 512 ∧
      (target < data.length → (buffer.fillRead 512 target).1 ≠ []) ∧
      position (buffer.fillRead 512 target).2 =
        target + (buffer.fillRead 512 target).1.length := by
  have reads := honours.reads buffer.source 512 target (by decide) (by omega) (by omega)
  rw [if_pos (by omega), Int.toNat_natCast] at reads
  exact reads

theorem Sound.landed (sound : buffer.Sound) (honours : Honours data position) {target : ℕ}
    (inside : target ≤ data.length) : (buffer.landed target).Sound := by
  rw [Sourcebuf.landed]
  split
  · exact ⟨sound.readable, Nat.lt_of_le_of_lt inside honours.size_lt, sound.bufoff_lt,
      sound.capacity, sound.buffill_le⟩
  · rw [sound.capacity]
    exact sound.fillBuffer (fillRead_spec honours buffer inside).2.1

/-- Outside the window, what is upcoming is what the source has left. -/
theorem landed_outside (rest : σ → List α) {target : ℕ}
    (outside : buffer.bufend < target ∨ target < buffer.info.bufoff) :
    (buffer.landed target).info.rdpos = target ∧
      (buffer.landed target).upcoming rest = rest buffer.source := by
  have landed : buffer.landed target = { buffer with info.rdpos := target } := if_pos outside
  have closed : (buffer.landed target).inAvail = 0 := by
    apply inAvail_of_outside
    rw [landed]
    exact outside.symm
  rw [upcoming, buffered_of_closed closed, List.nil_append, landed]
  exact ⟨rfl, rfl⟩

omit [SourceImpl σ α] in
/-- A window with the read position at its start is wholly unread. -/
theorem buffered_start (sound : buffer.Sound) (start : buffer.info.rdpos = buffer.info.bufoff)
    (unwrapped : buffer.info.bufoff + buffer.info.buffill < 2 ^ 64) :
    buffer.buffered = buffer.info.buffer.take buffer.info.buffill := by
  have ends : buffer.bufend = buffer.info.bufoff + buffer.info.buffill :=
    Nat.mod_eq_of_lt unwrapped
  have inWindow : ¬(buffer.info.bufoff < buffer.info.bufoff ∨
      buffer.info.bufoff + buffer.info.buffill < buffer.info.bufoff) := by omega
  have inAvail : buffer.inAvail = buffer.info.buffill := by
    rw [Sourcebuf.inAvail, sound.isOpen, Bool.not_true, if_neg Bool.false_ne_true, ends, start,
      if_neg inWindow, Nat.sub_self, Nat.sub_zero]
    split <;> omega
  rw [buffered, inAvail, start, Nat.sub_self, List.drop_zero]

/-- Inside the window the source goes to the target, and the buffer is filled from there. -/
theorem landed_before (sound : buffer.Sound) (honours : Honours data position) {target : ℕ}
    (inWindow : ¬(buffer.bufend < target ∨ target < buffer.info.bufoff))
    (before : target < data.length) :
    (buffer.landed target).info.rdpos = buffer.fillStart target ∧
      (buffer.fillStart target + 512 < 2 ^ 64 →
        (buffer.landed target).upcoming (fun source => data.drop (position source)) =
          data.drop target) := by
  rcases fillRead_spec honours buffer (Nat.le_of_lt before) with
    ⟨chars, bounded, progress, moved⟩
  have next := sound.landed honours (Nat.le_of_lt before)
  have filled := fillBuffer_some sound (progress before)
  rw [landed, if_neg inWindow, sound.capacity, filled] at next ⊢
  refine ⟨rfl, fun unwrapped => ?_⟩
  have fill := next.buffill_le
  rw [upcoming, buffered_start next rfl (by simp only at fill ⊢; omega)]
  simp only [List.take_left', moved]
  rw [← List.drop_drop]
  nth_rewrite 1 [chars]
  exact List.take_append_drop _ _

/-- At the end of the data the fill finds nothing, and the window stays. -/
theorem landed_end (sound : buffer.Sound) (honours : Honours data position) {target : ℕ}
    (inWindow : ¬(buffer.bufend < target ∨ target < buffer.info.bufoff))
    (atEnd : target = data.length) :
    (buffer.landed target).info.rdpos = buffer.info.rdpos ∧
      (buffer.landed target).upcoming (fun source => data.drop (position source)) =
        buffer.buffered := by
  rcases fillRead_spec honours buffer (Nat.le_of_eq atEnd) with ⟨chars, -, -, moved⟩
  have none : data.drop target = [] := List.drop_of_length_le (Nat.le_of_eq atEnd.symm)
  rw [none, List.take_nil] at chars
  rw [chars, List.length_nil, Nat.add_zero] at moved
  rw [landed, if_neg inWindow, sound.capacity, fillBuffer_empty sound chars]
  refine ⟨rfl, ?_⟩
  simp only [upcoming, moved, none, List.append_nil]
  rfl

theorem seeksTo_iff (honours : Honours data position) (sound : buffer.Sound) {target : ℕ}
    (inside : target ≤ data.length) :
    buffer.SeeksTo data target ↔
      data.length < 2 ^ 63 ∧ buffer.Lands data position target := by
  by_cases small : data.length < 2 ^ 63
  · have next := sound.landed honours inside
    have short : (data.drop target).length < 2 ^ 63 := by
      rw [List.length_drop]
      omega
    have delivers := delivers_iff next honours.sequential short
    have rdpos_lt := sound.rdpos_lt
    rw [SeeksTo, seekpos_inside honours sound small inside, delivers,
      toPosType_inj next.rdpos_lt, Lands]
    by_cases outside : buffer.bufend < target ∨ target < buffer.info.bufoff
    · rcases landed_outside (fun source => data.drop (position source)) outside with
        ⟨rdpos, left⟩
      rw [if_pos outside, rdpos, left]
      have within := honours.within buffer.source
      constructor
      · rintro ⟨-, same⟩
        have lengths := congrArg List.length same
        rw [List.length_drop, List.length_drop] at lengths
        exact ⟨small, by omega⟩
      · rintro ⟨-, same⟩
        rw [same]
        exact ⟨⟨rfl, by omega⟩, rfl⟩
    rw [if_neg outside]
    by_cases before : target < data.length
    · rcases landed_before sound honours outside before with ⟨rdpos, left⟩
      rw [if_pos before, rdpos]
      rw [fillStart, toSizeType] at left ⊢
      constructor
      · rintro ⟨⟨same, -⟩, -⟩
        refine ⟨small, ?_⟩
        split at same <;> omega
      · rintro ⟨-, lands⟩
        have start : (if (target : Int) = 0 then buffer.info.rdpos
            else ((target : Int) % 2 ^ 64).toNat) = target := by
          split <;> omega
        rw [start] at left ⊢
        exact ⟨⟨rfl, by omega⟩, left (by omega)⟩
    · rcases landed_end sound honours outside (by omega) with ⟨rdpos, left⟩
      have ended : data.drop target = [] := List.drop_of_length_le (by omega)
      have nothing : buffer.buffered = [] ↔ buffer.inAvail = 0 := by
        rw [← length_buffered sound, List.length_eq_zero_iff]
      rw [if_neg before, rdpos, left, ended, nothing]
      constructor
      · rintro ⟨⟨same, -⟩, closed⟩
        exact ⟨small, same, closed⟩
      · rintro ⟨-, same, closed⟩
        exact ⟨⟨same, by omega⟩, closed⟩
  · constructor
    · rintro ⟨returned, -⟩
      rw [seekpos_large honours (Nat.le_of_not_lt small)] at returned
      omega
    · rintro ⟨fits, -⟩
      exact (small fits).elim

omit [SourceImpl σ α] in
theorem fillStart_self (sound : buffer.Sound) :
    buffer.fillStart buffer.info.rdpos = buffer.info.rdpos := by
  have rdpos_lt := sound.rdpos_lt
  rw [fillStart, toSizeType]
  split <;> omega

/-- A seek to the position of the buffer leaves that where it is. -/
theorem landed_self (sound : buffer.Sound) (honours : Honours data position)
    (inside : buffer.info.rdpos ≤ data.length) :
    (buffer.landed buffer.info.rdpos).info.rdpos = buffer.info.rdpos := by
  by_cases outside : buffer.bufend < buffer.info.rdpos ∨ buffer.info.rdpos < buffer.info.bufoff
  · exact (landed_outside (fun source => data.drop (position source)) outside).1
  by_cases before : buffer.info.rdpos < data.length
  · rw [(landed_before sound honours outside before).1, fillStart_self sound]
  · exact (landed_end sound honours outside (by omega)).1

theorem seekoff_cur (sound : buffer.Sound) :
    buffer.seekoff 0 .cur true false =
      buffer.seekpos (toPosType buffer.info.rdpos) true false := by
  rw [seekoff, sound.readable]
  simp only [seekBase, Int.add_zero]
  rfl

theorem tells_iff (honours : Honours data position) (sound : buffer.Sound) :
    buffer.Tells data ↔
      data.length < 2 ^ 63 ∧ buffer.info.rdpos ≤ data.length ∧
        buffer.Lands data position buffer.info.rdpos := by
  rw [Tells, seekoff_cur sound]
  constructor
  · rintro ⟨target, -, returned, delivers⟩
    have small : data.length < 2 ^ 63 := by
      by_contra large
      rw [seekpos_large honours (Nat.le_of_not_lt large)] at returned
      omega
    have inside : buffer.info.rdpos ≤ data.length ∧ buffer.info.rdpos < 2 ^ 63 := by
      by_contra outside
      have most := toPosType_of_lt small
      have refused : toPosType buffer.info.rdpos < 0 ∨
          toPosType data.length < toPosType buffer.info.rdpos := by
        have rdpos_lt := sound.rdpos_lt
        rw [most, toPosType]
        split <;> omega
      rw [seekpos_refused honours refused] at returned
      omega
    rw [toPosType_of_lt inside.2] at returned delivers
    have same := returned
    rw [seekpos_inside honours sound small inside.1, landed_self sound honours inside.1,
      toPosType_of_lt inside.2] at same
    obtain rfl : buffer.info.rdpos = target := by omega
    exact ⟨small, inside.1, ((seeksTo_iff honours sound inside.1).mp ⟨returned, delivers⟩).2⟩
  · rintro ⟨small, inside, lands⟩
    rw [toPosType_of_lt (by omega)]
    exact ⟨buffer.info.rdpos, inside, (seeksTo_iff honours sound inside).mpr ⟨small, lands⟩⟩

/-- A relative seek to a target outside the data is refused as well. -/
theorem seekoff_outside (honours : Honours data position) {offset : Int} {way : SeekDir}
    (outside : ∀ base ∈ buffer.seekBase way, base + offset < 0 ∨ data.length < base + offset)
    (input output : Bool) : buffer.seekoff offset way input output = (-1, buffer) := by
  rw [seekoff]
  split
  · rfl
  rcases known : buffer.seekBase way with _ | base
  · rfl
  · exact seekpos_outside honours (outside base known) input output

/-! ### Whole runs -/

theorem Sound.seekpos (sound : buffer.Sound) (honours : Honours data position) (target : Int)
    (input output : Bool) : (buffer.seekpos target input output).2.Sound := by
  have most := toPosType_le data.length
  rw [Sourcebuf.seekpos, honours.size]
  split
  · exact sound
  split
  · next positive =>
      split
      · next within =>
          have pos : toSizeType target = target.toNat := by
            have size_lt := honours.size_lt
            rw [toSizeType]
            omega
          rw [pos]
          exact sound.landed honours (by omega)
      · exact sound
  · exact sound

theorem Sound.exec (sound : buffer.Sound) (honours : Honours data position) (op : SourceOp) :
    (buffer.exec op).Sound := by
  have byte : ∀ advance, (buffer.readByte advance).2.Sound := by
    intro advance
    rw [(readByte_spec sound honours.sequential advance).2]
    exact (read_spec sound honours.sequential (Nat.one_lt_two_pow (by decide))).2.1
  cases op with
  | read op => exact (execRead_spec sound honours.sequential op).2.1
  | scopy count => exact (read_spec sound honours.sequential count.toNat_lt).2.1
  | getc => exact byte true
  | sgetc => exact byte false
  | seekpos target input output => exact sound.seekpos honours target input output
  | seekoff offset way input output =>
      rw [Sourcebuf.exec, seekoff]
      split
      · exact sound
      rcases buffer.seekBase way with _ | base
      · exact sound
      · exact sound.seekpos honours _ input output

theorem sound_run (sound : buffer.Sound) (honours : Honours data position)
    (ops : List SourceOp) : (ops.foldl Sourcebuf.exec buffer).Sound := by
  induction ops generalizing buffer with
  | nil => exact sound
  | cons op ops ih => exact ih (sound.exec honours op)

/-- After any reads and seeks, the position that is told is that of the next read, and a seek to a
target goes there, exactly when the position of the source is the right one, or the buffer can
be filled at it; and what is outside the data is refused. -/
theorem positions_iff [Inhabited α] (honours : Honours data position) (source : σ)
    (ops : List SourceOp) :
    let buffer := ops.foldl exec (new source : Sourcebuf σ α)
    (buffer.Tells data ↔ data.length < 2 ^ 63 ∧ buffer.info.rdpos ≤ data.length ∧
        buffer.Lands data position buffer.info.rdpos) ∧
      (∀ target, target ≤ data.length → (buffer.SeeksTo data target ↔
        data.length < 2 ^ 63 ∧ buffer.Lands data position target)) ∧
      (∀ (target : Int) input output, target < 0 ∨ data.length < target →
        buffer.seekpos target input output = (-1, buffer)) ∧
      ∀ offset way input output,
        (∀ base ∈ buffer.seekBase way, base + offset < 0 ∨ data.length < base + offset) →
        buffer.seekoff offset way input output = (-1, buffer) := by
  have sound := sound_run (sound_new source) honours ops
  exact ⟨tells_iff honours sound, fun _ inside => seeksTo_iff honours sound inside,
    fun _ input output outside => seekpos_outside honours outside input output,
    fun _ _ input output outside => seekoff_outside honours outside input output⟩

/-- After one read of three bytes the position told is 0, and after a seek to 2 a read begins
at 1. -/
theorem not_tells_after_read :
    let data : List UInt8 := [1, 2, 3]
    let source : MemorySource data := ⟨0, Nat.zero_le _⟩
    let buffer := (new source : Sourcebuf (MemorySource data) UInt8).exec (.read (.getn 1))
    ((buffer.seekoff 0 .cur true false).1 = 0 ∧ (buffer.getn 1).1 = [2] ∧ ¬buffer.Tells data) ∧
      (buffer.seekpos 2 true false).1 = 2 ∧ ((buffer.seekpos 2 true false).2.getn 1).1 = [2] ∧
      ¬buffer.SeeksTo data 2 := by
  intro data source buffer
  have told : (buffer.seekoff 0 .cur true false).1 = 0 := by decide +kernel
  have read : ((buffer.seekoff 0 .cur true false).2.getn 1).1 = [2] := by decide +kernel
  have sought : ((buffer.seekpos 2 true false).2.getn 1).1 = [2] := by decide +kernel
  refine ⟨⟨told, by decide +kernel, ?_⟩, by decide +kernel, sought, ?_⟩
  · rintro ⟨target, -, returned, delivers⟩
    obtain rfl : target = 0 := by omega
    have first := delivers 1
    exact absurd (read.symm.trans first) (by decide)
  · rintro ⟨-, delivers⟩
    have first := delivers 1
    exact absurd (sought.symm.trans first) (by decide)

/-- With a window that was filled from the beginning, one read later. -/
theorem positions_iff_window :
    let data : List UInt8 := [1, 2, 3]
    let source : MemorySource data := ⟨0, Nat.zero_le _⟩
    let buffer := [.seekpos 0 true false, .read (.getn 1)].foldl exec
      (new source : Sourcebuf (MemorySource data) UInt8)
    buffer.Tells data ∧ buffer.SeeksTo data 2 := by
  intro data source buffer
  have small : data.length < 2 ^ 63 := by decide
  have honours : Honours data MemorySource.position := MemorySource.honours (by decide)
  have positions := positions_iff honours source [.seekpos 0 true false, .read (.getn 1)]
  constructor
  · apply positions.1.mpr
    exact ⟨small, by decide +kernel, by decide +kernel⟩
  · apply (positions.2.1 2 (by decide)).mpr
    exact ⟨small, by decide +kernel⟩

end Sourcebuf

end Snode.Streams
