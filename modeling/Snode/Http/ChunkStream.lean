import Snode.Http.ChunkLines

/-!
# Streams of chunks

What a byte stream looks like as the body of a chunked request: the positions
at which a chunk-size line is due, and when all lines due are sizes the decoder
can take.  This is said of the stream alone, not of how it arrives.
-/

namespace Snode.Http

/-- A line without `CR` whose `CRLF` has arrived has arrived itself. -/
theorem line_of_containsPattern {bytes line tail : Bytes} (noCr : cr ∉ line)
    (arrived : bytes <+: line ++ crlf ++ tail) (complete : containsPattern crlf bytes = true) :
    ∃ more, bytes = line ++ crlf ++ more ∧ more <+: tail := by
  rcases containsPattern_iff.mp complete with ⟨before, after, rfl⟩
  rcases arrived with ⟨rest, same⟩
  have long : line.length ≤ before.length := by
    by_contra shorter
    have atCr := congrArg (·[before.length]?) same
    simp only [crlf, List.append_assoc, List.cons_append, List.nil_append, Nat.le_refl,
      List.getElem?_append_right, Nat.sub_self, List.getElem?_cons_zero] at atCr
    rw [List.getElem?_append_left (by omega)] at atCr
    exact noCr (List.mem_of_getElem? atCr.symm)
  have front : (line ++ crlf) <+: before ++ crlf ++ after := by
    refine List.prefix_of_prefix_length_le (List.prefix_append _ tail) ⟨rest, same⟩ ?_
    simp only [List.length_append, crlf, List.length_cons, List.length_nil]
    omega
  rcases front with ⟨more, moreEq⟩
  refine ⟨more, moreEq.symm, rest, ?_⟩
  rw [← moreEq, List.append_assoc (line ++ crlf)] at same
  exact List.append_cancel_left same

/-- A chunk-size line after which `len + 2` is still an `int`. -/
structure GoodLine (line : Bytes) (size : ℕ) : Prop where
  numeral : ChunkSize line size
  fits : size + 2 < 2 ^ 31

/-- `AtLine stream count position body`: after `count` chunks with good size lines a further
line is due at `position`, and `body` is the data before it. -/
inductive AtLine (stream : Bytes) : ℕ → ℕ → Bytes → Prop where
  | start : AtLine stream 0 0 []
  | next {count position size : ℕ} {body line payload delimiter tail : Bytes}
      (due : AtLine stream count position body)
      (split : stream.drop position = line ++ crlf ++ (payload ++ (delimiter ++ tail)))
      (good : GoodLine line size) (nonzero : size ≠ 0) (length : payload.length = size)
      (delimited : delimiter.length = 2) :
      AtLine stream (count + 1) (position + (line.length + 2) + (size + 2)) (body ++ payload)

/-- The sums of the lengths announced by the lines up to one that is due, or with it. -/
inductive AnnouncedTotal (stream : Bytes) : ℕ → Prop where
  | before {count position : ℕ} {body : Bytes} (due : AtLine stream count position body) :
      AnnouncedTotal stream body.length
  | after {count position size : ℕ} {body line tail : Bytes}
      (due : AtLine stream count position body)
      (split : stream.drop position = line ++ crlf ++ tail) (good : GoodLine line size) :
      AnnouncedTotal stream (body.length + size)

/-- Every line that is due and complete is a good one. -/
def GoodChunks (stream : Bytes) : Prop :=
  ∀ count position body, AtLine stream count position body →
    containsPattern crlf (stream.drop position) = true →
      ∃ line size tail, GoodLine line size ∧ stream.drop position = line ++ crlf ++ tail

/-- Bytes that hold the data of a chunk and its delimiter lead to the next line. -/
theorem AtLine.take {stream body line tail buffered : Bytes} {count position size : ℕ}
    (due : AtLine stream count position body)
    (split : stream.drop position = line ++ crlf ++ tail) (good : GoodLine line size)
    (nonzero : size ≠ 0) (front : buffered <+: tail) (enough : size + 2 ≤ buffered.length) :
    AtLine stream (count + 1) (position + (line.length + 2) + (size + 2))
      (body ++ buffered.take size) := by
  rcases front with ⟨undelivered, tailSplit⟩
  have chunk : stream.drop position = line ++ crlf ++ (buffered.take size ++
      ((buffered.drop size).take 2 ++ ((buffered.drop size).drop 2 ++ undelivered))) := by
    have whole : buffered.take size ++ ((buffered.drop size).take 2 ++
        (buffered.drop size).drop 2) = buffered := by
      rw [List.take_append_drop, List.take_append_drop]
    rw [split, ← tailSplit]
    nth_rewrite 1 [← whole]
    simp only [List.append_assoc]
  apply due.next chunk good nonzero
  · rw [List.length_take]
    omega
  · rw [List.length_take, List.length_drop]
    omega

namespace GoodLine

variable {line : Bytes} {size : ℕ}

theorem noCr (good : GoodLine line size) : cr ∉ line :=
  good.numeral.not_mem hexDigit?_cr

theorem sizeT_eq (good : GoodLine line size) : sizeT size = size := by
  have fits := good.fits
  exact sizeT_of_lt (by omega)

/-- There is one way to read a good line. -/
theorem unique {line' tail tail' : Bytes} {size' : ℕ} (good : GoodLine line size)
    (numeral : ChunkSize line' size') (same : line ++ crlf ++ tail = line' ++ crlf ++ tail') :
    line = line' ∧ size = size' ∧ tail = tail' := by
  have same' : line ++ cr :: (lf :: tail) = line' ++ cr :: (lf :: tail') := by
    simpa [crlf] using same
  obtain rfl := good.numeral.prefix_unique numeral hexDigit?_cr hexDigit?_cr same'
  exact ⟨rfl, good.numeral.value_unique numeral, List.append_cancel_left same⟩

end GoodLine

end Snode.Http
