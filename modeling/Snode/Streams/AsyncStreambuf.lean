import Mathlib.Algebra.Ring.Int.Defs
import Mathlib.Algebra.Ring.Nat
import Mathlib.Data.List.Basic

/-!
# Character traits and the stream buffer base class

The part of `async_streams.h` every stream buffer shares: the character
traits, the result kinds of a completed operation, the directions of a seek and the
flags of `async_streambuf`.
-/

namespace Snode.Streams

/-- `char_traits`: how a character is widened to `int_type`, and the value of `eof()`, which
is `-1` as an `int_type` of whatever width. -/
class CharTraits (α : Type) where
  toIntType : α → Int
  eof : Int
  eof_size : eof % 2 ^ 64 = 2 ^ 64 - 1

namespace CharTraits

/-- `requires_async()`, the value next to `eof()`. -/
def requiresAsync (α : Type) [CharTraits α] : Int :=
  eof α - 1

/-- `(size_t)traits::requires_async()`, as the bulk reads return it. -/
def requiresAsyncSize (α : Type) [CharTraits α] : ℕ :=
  (requiresAsync α % 2 ^ 64).toNat

theorem requiresAsyncSize_eq (α : Type) [CharTraits α] :
    requiresAsyncSize α = 2 ^ 64 - 2 := by
  have eofSize : eof α % 2 ^ 64 = 2 ^ 64 - 1 := eof_size
  simp only [requiresAsyncSize, requiresAsync]
  omega

end CharTraits

/-- `uint8_t`: `int_type` is `unsigned long`, so `eof()` is `2 ^ 64 - 1`. -/
instance : CharTraits UInt8 where
  toIntType character := character.toNat
  eof := 2 ^ 64 - 1
  eof_size := by decide

/-- Plain `char` on a platform where it is signed: `int_type` is `int`. -/
instance : CharTraits Int8 where
  toIntType character := character.toInt
  eof := -1
  eof_size := by decide

/-- An `int_type` expression before it is widened.  `IntType.val` is the number the
code computes; the constructors keep the character apart from the two markers it may
collide with. -/
inductive IntType (α : Type) where
  | char (character : α)
  | eof
  | requiresAsync
  deriving DecidableEq

namespace IntType

variable {α : Type}

/-- The numeric `int_type` value. -/
def val [CharTraits α] : IntType α → Int
  | char character => CharTraits.toIntType character
  | eof => CharTraits.eof α
  | requiresAsync => CharTraits.requiresAsync α

/-- The character a result carries, if it carries one. -/
def toList : IntType α → List α
  | char character => [character]
  | eof | requiresAsync => []

end IntType

/-- What a completion hands to its handler: `complete_size` or `complete_ch`. -/
inductive Completion (α : Type) where
  | size (count : ℕ)
  | ch (value : IntType α)
  deriving DecidableEq

/-- The handler is told that the end of the stream has been reached. -/
def Completion.IsEof {α : Type} : Completion α → Prop
  | size count => count = 0
  | ch value => value = .eof

/-- `std::ios_base::seekdir`. -/
inductive SeekDir where
  | beg
  | cur
  | fin
  /-- No direction `seekoff` knows. -/
  | other
  deriving DecidableEq

/-- The flags of `async_streambuf`. -/
structure AsyncStreambuf where
  streamCanRead : Bool
  streamCanWrite : Bool
  streamReadEof : Bool
  alloced : Bool

namespace AsyncStreambuf

/-- The constructor, for the I/O mode given by its two directions. -/
def new (input output : Bool) : AsyncStreambuf where
  streamCanRead := input
  streamCanWrite := output
  streamReadEof := false
  alloced := false

end AsyncStreambuf

end Snode.Streams
