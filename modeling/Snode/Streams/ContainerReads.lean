import Snode.Streams.ContainerBuffer

/-!
# Character reads with a handler

`bumpc`, `getc` and `nextc` of `container_buffer`.  They keep what they read in a
variable of the character type before they hand it to their handler, so that an
end of the collection is narrowed to a character and widened again.
-/

namespace Snode.Streams

/-- The conversion of an `int_type` to the character type. -/
class CharNarrowing (α : Type) [CharTraits α] where
  toCharType : Int → α
  toCharType_toIntType : ∀ character : α, toCharType (CharTraits.toIntType character) = character

instance : CharNarrowing UInt8 where
  toCharType value := UInt8.ofNat (value % 256).toNat
  toCharType_toIntType character := by
    have small := character.toNat_lt
    have same : ((character.toNat : Int) % 256).toNat = character.toNat := by omega
    simp only [CharTraits.toIntType, same, UInt8.ofNat_toNat]

instance : CharNarrowing Int8 where
  toCharType value := Int8.ofInt value
  toCharType_toIntType character := by
    simp [CharTraits.toIntType]

/-- What a handler is given for the result of `read_byte`. -/
def narrowed {α : Type} [CharTraits α] [CharNarrowing α] (result : IntType α) : Int :=
  CharTraits.toIntType (CharNarrowing.toCharType result.val : α)

namespace ContainerBuffer

variable {α : Type} [CharTraits α] [CharNarrowing α]

def bumpc (buffer : ContainerBuffer α) : Int × ContainerBuffer α :=
  let (res, buffer) := buffer.readByte true
  (narrowed res, buffer)

def getc (buffer : ContainerBuffer α) : Int × ContainerBuffer α :=
  let (res, buffer) := buffer.readByte false
  (narrowed res, buffer)

/-- Advance the position first, then read. -/
def nextc (buffer : ContainerBuffer α) : Int × ContainerBuffer α :=
  let (_, buffer) := buffer.readByte true
  let (res, buffer) := buffer.readByte false
  (narrowed res, buffer)

end ContainerBuffer

/-- A read with a handler delivers what the synchronous one returns, which is `eof` if and only
if there is no character at the position read. -/
structure ReadsAgree {α : Type} [CharTraits α] (delivered : Int) (returned : IntType α)
    (available : Option α) : Prop where
  same : delivered = returned.val
  atEnd : delivered = CharTraits.eof α ↔ available = none

section Agreement

variable {α : Type} [CharTraits α] [CharNarrowing α]

/-- What `read_byte` makes of the character there. -/
def byteAt (available : Option α) : IntType α :=
  (available.map IntType.char).getD .eof

/-- The value delivered tells whether there is a character, which is delivered as it is. -/
def Distinguished : Option α → Prop
  | some character => CharTraits.toIntType character ≠ CharTraits.eof α
  | none => narrowed (.eof : IntType α) = CharTraits.eof α

theorem readsAgree_iff (available : Option α) :
    ReadsAgree (narrowed (byteAt available)) (byteAt available) available ↔
      Distinguished available := by
  cases available with
  | none =>
      constructor
      · intro agree
        exact agree.same
      · intro same
        exact ⟨same, iff_of_true same rfl⟩
  | some character =>
      have kept : narrowed (byteAt (some character)) = CharTraits.toIntType character := by
        simp [narrowed, byteAt, IntType.val, CharNarrowing.toCharType_toIntType]
      constructor
      · intro agree atEnd
        have nothing := agree.atEnd.mp (kept.trans atEnd)
        simp at nothing
      · intro notEnd
        refine ⟨kept, iff_of_false ?_ (by simp)⟩
        rw [kept]
        exact notEnd

end Agreement

/-- There is no byte that is taken for the end, but the end is taken for a byte. -/
theorem distinguished_uint8 (available : Option UInt8) :
    Distinguished available ↔ available ≠ none := by
  cases available with
  | none =>
      refine iff_of_false ?_ (fun some => some rfl)
      change ¬narrowed (.eof : IntType UInt8) = CharTraits.eof UInt8
      decide
  | some character =>
      refine iff_of_true ?_ (by simp)
      have small := character.toNat_lt
      change (character.toNat : Int) ≠ 2 ^ 64 - 1
      omega

/-- The character `-1` is taken for the end. -/
theorem distinguished_int8 (available : Option Int8) :
    Distinguished available ↔ available ≠ some (-1) := by
  cases available with
  | none =>
      refine iff_of_true ?_ (by simp)
      change narrowed (.eof : IntType Int8) = CharTraits.eof Int8
      decide
  | some character =>
      change character.toInt ≠ -1 ↔ some character ≠ some (-1)
      rw [ne_eq, ne_eq, Option.some.injEq, not_iff_not]
      have value : (-1 : Int8).toInt = -1 := by decide
      rw [← value]
      exact Int8.toInt_inj

namespace ContainerBuffer

variable {α : Type} {buffer : ContainerBuffer α}

/-- The position that `nextc` reads at, which is behind the one that is left. -/
theorem readByte_twice (inside : buffer.currentPosition ≤ buffer.data.length) :
    ((buffer.readByte true).2.readByte false).1 =
      byteAt buffer.data[buffer.currentPosition + 1]? := by
  have moved : (buffer.readByte true).2 =
      { buffer with
        currentPosition := min (buffer.currentPosition + 1) buffer.data.length } := by
    rw [readByte_eq inside, read_eq inside]
    rfl
  have insideAfter : (buffer.readByte true).2.currentPosition ≤
      (buffer.readByte true).2.data.length := by
    rw [moved]
    exact Nat.min_le_right _ _
  rw [readByte_eq insideAfter, moved, List.head?_drop]
  by_cases last : buffer.currentPosition + 1 ≤ buffer.data.length
  · rw [Nat.min_eq_left last]
    rfl
  · have behind : buffer.data.length ≤ buffer.currentPosition + 1 := by omega
    rw [Nat.min_eq_right behind, List.getElem?_eq_none (Nat.le_refl _),
      List.getElem?_eq_none behind]
    rfl

theorem readByte_once (inside : buffer.currentPosition ≤ buffer.data.length) (advance : Bool) :
    (buffer.readByte advance).1 = byteAt buffer.data[buffer.currentPosition]? := by
  rw [readByte_eq inside, List.head?_drop]
  rfl

variable [CharTraits α] [CharNarrowing α]

/-- Each of the three reads agrees with its synchronous counterpart exactly when the character
at its position is told from the end. -/
theorem reads_agree_iff (inside : buffer.currentPosition ≤ buffer.data.length) :
    (ReadsAgree buffer.bumpc.1 buffer.sbumpc.1 buffer.data[buffer.currentPosition]? ↔
        Distinguished buffer.data[buffer.currentPosition]?) ∧
      (ReadsAgree buffer.getc.1 buffer.sgetc.1 buffer.data[buffer.currentPosition]? ↔
        Distinguished buffer.data[buffer.currentPosition]?) ∧
      (ReadsAgree buffer.nextc.1 buffer.sbumpc.2.sgetc.1
          buffer.data[buffer.currentPosition + 1]? ↔
        Distinguished buffer.data[buffer.currentPosition + 1]?) := by
  refine ⟨?_, ?_, ?_⟩
  · rw [← readsAgree_iff, ← readByte_once inside true]
    rfl
  · rw [← readsAgree_iff, ← readByte_once inside false]
    rfl
  · rw [← readsAgree_iff, ← readByte_twice inside]
    rfl

/-- Bytes agree where there is one to be read.  Plain characters agree but for one that is
all ones, which is returned and delivered as the end. -/
theorem charReads_agree_iff (bytes : ContainerBuffer UInt8) (chars : ContainerBuffer Int8)
    (bytesInside : bytes.currentPosition ≤ bytes.data.length)
    (charsInside : chars.currentPosition ≤ chars.data.length) :
    ((ReadsAgree bytes.bumpc.1 bytes.sbumpc.1 bytes.data[bytes.currentPosition]? ↔
          bytes.currentPosition < bytes.data.length) ∧
        (ReadsAgree bytes.getc.1 bytes.sgetc.1 bytes.data[bytes.currentPosition]? ↔
          bytes.currentPosition < bytes.data.length) ∧
        (ReadsAgree bytes.nextc.1 bytes.sbumpc.2.sgetc.1
            bytes.data[bytes.currentPosition + 1]? ↔
          bytes.currentPosition + 1 < bytes.data.length)) ∧
      (ReadsAgree chars.bumpc.1 chars.sbumpc.1 chars.data[chars.currentPosition]? ↔
          chars.data[chars.currentPosition]? ≠ some (-1)) ∧
        (ReadsAgree chars.getc.1 chars.sgetc.1 chars.data[chars.currentPosition]? ↔
          chars.data[chars.currentPosition]? ≠ some (-1)) ∧
        (ReadsAgree chars.nextc.1 chars.sbumpc.2.sgetc.1
            chars.data[chars.currentPosition + 1]? ↔
          chars.data[chars.currentPosition + 1]? ≠ some (-1)) := by
  constructor
  · have available (position : ℕ) :
        bytes.data[position]? ≠ none ↔ position < bytes.data.length := by
      rw [ne_eq, List.getElem?_eq_none_iff, not_le]
    have agree := reads_agree_iff bytesInside
    simpa only [distinguished_uint8, available] using agree
  · have agree := reads_agree_iff charsInside
    simpa only [distinguished_int8] using agree

theorem charReads_agree_iff_two :
    ReadsAgree (start [1, 2] true false : ContainerBuffer UInt8).bumpc.1
        (IntType.char (1 : UInt8)) (some 1) ∧
      ReadsAgree (start [65] true false : ContainerBuffer Int8).nextc.1
        (IntType.eof : IntType Int8) none := by
  have agree := charReads_agree_iff (start [1, 2] true false) (start [65] true false)
    (by decide) (by decide)
  exact ⟨agree.1.1.mpr (by decide), agree.2.2.2.mpr (by decide)⟩

/-- At the end a handler gets the byte `255`, and a character that is all ones reads as the
end. -/
theorem not_readsAgree_end :
    ¬ReadsAgree (start [] true false : ContainerBuffer UInt8).bumpc.1
        (start [] true false : ContainerBuffer UInt8).sbumpc.1 none ∧
      ¬ReadsAgree (start [-1] true false : ContainerBuffer Int8).bumpc.1
        (start [-1] true false : ContainerBuffer Int8).sbumpc.1 (some (-1)) := by
  constructor
  · intro agree
    have same := agree.same
    revert same
    decide +kernel
  · intro agree
    have taken : (start [-1] true false : ContainerBuffer Int8).bumpc.1 = CharTraits.eof Int8 := by
      decide +kernel
    have nothing := agree.atEnd.mp taken
    simp at nothing

end ContainerBuffer

end Snode.Streams
