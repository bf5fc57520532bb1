import Snode.Http.ChunkedEncoding
import Snode.Http.Events
import Snode.Lib.Numeral

/-!
# Chunk-size lines

The two ends of a chunk-size line: what stream extraction makes of it, and what
`add_chunked_delimiters` emits around the data of a chunk.
-/

namespace Snode.Http

/-- A chunk-size line without its `CRLF`: hexadecimal digits and nothing else. -/
abbrev ChunkSize (line : Bytes) (size : ℕ) : Prop :=
  IsNumeral 16 hexDigit? line size

theorem hexDigit?_cr : hexDigit? cr = none := by decide

/-- The digits of a numeral are taken to its end. -/
theorem takeDigits_of_numeral {base : ℕ} {digit? : UInt8 → Option ℕ} {text rest : Bytes}
    {value : ℕ} (numeral : IsNumeral base digit? text value)
    (ends : ∀ stop ∈ rest.head?, digit? stop = none) :
    takeDigits base digit? 0 0 (text ++ rest) = (value, text.length, rest) := by
  have all (digits : List ℕ) (text : Bytes) (result count : ℕ)
      (mapped : text.map digit? = digits.map some) :
      takeDigits base digit? result count (text ++ rest) =
        (digits.foldl (fun result digit => result * base + digit) result,
          count + text.length, rest) := by
    induction digits generalizing text result count with
    | nil =>
        obtain rfl : text = [] := by simpa using mapped
        rcases rest with _ | ⟨stop, rest⟩
        · simp [takeDigits]
        · simp [takeDigits, ends stop rfl]
    | cons digit digits ih =>
        rcases text with _ | ⟨byte, text⟩
        · simp at mapped
        · simp only [List.map_cons, List.cons.injEq] at mapped
          simp only [List.cons_append, takeDigits, mapped.1, List.length_cons,
            ih text _ _ mapped.2, List.foldl_cons, Prod.mk.injEq, and_true, true_and]
          omega
  rcases numeral.digits with ⟨digits, mapped, rfl⟩
  rw [all digits text 0 0 mapped, IsNumeral.foldl_eq_ofDigits, Nat.zero_add]

theorem hexDigit?_isSome {byte : UInt8} (digit : (hexDigit? byte).isSome = true) :
    isSpace byte = false ∧ byte ≠ 45 ∧ byte ≠ 43 ∧ byte ≠ 120 ∧ byte ≠ 88 := by
  refine ⟨?_, ?_, ?_, ?_, ?_⟩
  · by_contra space
    revert digit
    simp only [Bool.not_eq_false, isSpace, Bool.or_eq_true, beq_iff_eq, Bool.and_eq_true,
      decide_eq_true_eq] at space
    simp only [hexDigit?]
    have ascii : byte.toNat = 32 ∨ (9 ≤ byte.toNat ∧ byte.toNat ≤ 13) := by
      rcases space with rfl | control
      · exact .inl rfl
      · exact .inr control
    rw [if_neg (by omega), if_neg (by omega), if_neg (by omega)]
    simp
  all_goals
    rintro rfl
    revert digit
    decide

theorem takeSign_of_digit {byte : UInt8} (rest : Bytes)
    (digit : (hexDigit? byte).isSome = true) : takeSign (byte :: rest) = (false, byte :: rest) := by
  rcases hexDigit?_isSome digit with ⟨-, notMinus, notPlus, -⟩
  simp only [takeSign]
  split
  · next minus => exact (notMinus (List.cons.inj minus).1).elim
  · next plus => exact (notPlus (List.cons.inj plus).1).elim
  · rfl

theorem takeHexPrefix_of_second {first second : UInt8} (rest : Bytes)
    (other : second ≠ 120 ∧ second ≠ 88) :
    takeHexPrefix (first :: second :: rest) = first :: second :: rest := by
  simp only [takeHexPrefix]
  split
  · next lower =>
      simp only [List.cons.injEq] at lower
      exact (other.1 lower.2.1).elim
  · next upper =>
      simp only [List.cons.injEq] at upper
      exact (other.2 upper.2.1).elim
  · rfl

/-- Extraction from a chunk-size line stops in front of its `CRLF`. -/
theorem getHexInt_chunkSize {line rest : Bytes} {size : ℕ} (chunkSize : ChunkSize line size)
    (value : Int) :
    (Istream.new (line ++ cr :: rest)).getHexInt value =
      if size < 2 ^ 31 then ((size : Int), ⟨cr :: rest, false, false⟩)
      else (2 ^ 31 - 1, ⟨cr :: rest, false, true⟩) := by
  rcases lineEq : line with _ | ⟨first, others⟩
  · exact (chunkSize.nonempty lineEq).elim
  · have firstDigit : (hexDigit? first).isSome = true := chunkSize.isSome (by simp [lineEq])
    have second : takeHexPrefix (first :: (others ++ cr :: rest)) =
        first :: (others ++ cr :: rest) := by
      rcases othersEq : others with _ | ⟨next, others⟩
      · exact takeHexPrefix_of_second rest (by decide)
      · have nextDigit : (hexDigit? next).isSome = true :=
          chunkSize.isSome (by simp [lineEq, othersEq])
        exact takeHexPrefix_of_second _ (hexDigit?_isSome nextDigit).2.2.2
    have skipped : (Istream.new (first :: others ++ cr :: rest)).sentry =
        ⟨first :: (others ++ cr :: rest), false, false⟩ := by
      simp [Istream.new, Istream.sentry, Istream.good, (hexDigit?_isSome firstDigit).1]
    have ends : ∀ stop ∈ (cr :: rest).head?, hexDigit? stop = none := by simp [hexDigit?_cr]
    have digits := takeDigits_of_numeral chunkSize ends
    rw [lineEq, List.cons_append] at digits
    have positive : others.length + 1 ≠ 0 := by omega
    have notNegative : ¬((size : Int) < -2 ^ 31) := by omega
    simp only [Istream.getHexInt, skipped, Bool.false_eq_true, if_false,
      takeSign_of_digit _ firstDigit, second, digits, List.length_cons, if_neg positive,
      if_neg notNegative, List.isEmpty_cons]
    by_cases small : size < 2 ^ 31
    · rw [if_neg (by omega), if_pos small]
    · rw [if_pos (by omega), if_neg small]

namespace ChunkedEncoding

theorem hexDigit?_hexDigit : ∀ digit < 16, hexDigit? (hexDigit digit) = some digit := by decide

theorem chunkSize_hexDigits {number : ℕ} (positive : number ≠ 0) :
    ChunkSize (hexDigits number) number :=
  IsNumeral.of_digits (by omega) hexDigit?_hexDigit positive

/-- The printed digits are upper-case and do not start with a zero. -/
theorem hexDigits_canonical {number : ℕ} (positive : number ≠ 0) :
    (∀ byte ∈ hexDigits number, 48 ≤ byte.toNat ∧ byte.toNat ≤ 57 ∨
      65 ≤ byte.toNat ∧ byte.toNat ≤ 70) ∧
      (hexDigits number).head? ≠ some 48 := by
  have upper : ∀ digit < 16, 48 ≤ (hexDigit digit).toNat ∧ (hexDigit digit).toNat ≤ 57 ∨
      65 ≤ (hexDigit digit).toNat ∧ (hexDigit digit).toNat ≤ 70 := by decide
  have leading : ∀ digit < 16, digit ≠ 0 → hexDigit digit ≠ 48 := by decide
  refine ⟨?_, ?_⟩
  · intro byte present
    simp only [hexDigits, List.mem_reverse, List.mem_map] at present
    rcases present with ⟨digit, present, rfl⟩
    exact upper digit (Nat.digits_lt_base (by omega) present)
  · rcases IsNumeral.head_of_digits 16 hexDigit positive with
      ⟨digit, present, notZero, head⟩
    rw [hexDigits, head, ne_eq, Option.some.injEq]
    exact leading digit (Nat.digits_lt_base (by omega) present) notZero

theorem length_hexDigits {number : ℕ} (short : number < 16 ^ 8) :
    (hexDigits number).length ≤ 8 := by
  simpa [hexDigits] using (Nat.digits_length_le_iff (by omega) number).mpr short

theorem printHex8_eq {number : ℕ} (positive : number ≠ 0) (short : number < 16 ^ 8) :
    printHex8 number =
      List.replicate (8 - (hexDigits number).length) 32 ++ hexDigits number := by
  have length := length_hexDigits short
  rw [printHex8, if_neg positive, List.take_of_length_le]
  simp only [List.length_append, List.length_replicate]
  omega

theorem length_printHex8 {number : ℕ} (positive : number ≠ 0) (short : number < 16 ^ 8) :
    (printHex8 number).length = 8 := by
  have length := length_hexDigits short
  rw [printHex8_eq positive short]
  simp only [List.length_append, List.length_replicate]
  omega

/-- The blanks in front of the digits, which the first digit ends. -/
theorem takeWhile_printHex8 {number : ℕ} (positive : number ≠ 0) (short : number < 16 ^ 8)
    (behind : Bytes) :
    ((printHex8 number ++ behind).takeWhile (· == 32)).length = 8 - (hexDigits number).length := by
  have numeral := chunkSize_hexDigits positive
  rcases digitsEq : hexDigits number with _ | ⟨digit, digits⟩
  · exact (numeral.nonempty digitsEq).elim
  · have digitNotBlank : (digit == 32) = false := by
      have isDigit : (hexDigit? digit).isSome = true := numeral.isSome (by simp [digitsEq])
      rw [beq_eq_false_iff_ne]
      rintro rfl
      revert isDigit
      decide
    rw [printHex8_eq positive short, digitsEq, List.append_assoc,
      List.takeWhile_append_of_pos (by simp), List.cons_append,
      List.takeWhile_cons_of_neg (by simp [digitNotBlank]), List.append_nil,
      List.length_replicate]

/-- The memory of a chunk in the pieces that are overwritten or kept. -/
theorem exists_pieces {data : Bytes} {bytesRead : ℕ} (room : bytesRead + 12 ≤ data.length) :
    ∃ field space payload tail rest : Bytes,
      data = field ++ (space ++ (payload ++ (tail ++ rest))) ∧ field.length = 8 ∧
        space.length = 2 ∧ payload.length = bytesRead ∧ tail.length = 2 := by
  refine ⟨data.take 8, (data.drop 8).take 2, (data.drop 10).take bytesRead,
    (data.drop (10 + bytesRead)).take 2, data.drop (12 + bytesRead), ?_, ?_, ?_, ?_, ?_⟩
  · have step (count next : ℕ) : data.drop count =
        (data.drop count).take next ++ data.drop (count + next) := by
      rw [← List.drop_drop, List.take_append_drop]
    conv_lhs => rw [← List.take_append_drop 8 data, step 8 2, step 10 bytesRead,
      step (10 + bytesRead) 2]
    rw [show 10 + bytesRead + 2 = 12 + bytesRead from by omega]
  all_goals
    simp only [List.length_take, List.length_drop]
    omega

/-- Stored characters replace as many old ones. -/
theorem store_append (before : Bytes) {old chars : Bytes} (after : Bytes)
    (same : old.length = chars.length) :
    store (before ++ (old ++ after)) before.length chars = before ++ (chars ++ after) := by
  simp [store, ← same]

/-- The chunk that is emitted around the bytes at `data_offset`. -/
theorem addChunkedDelimiters_pos {data : Bytes} {bufferSize bytesRead : ℕ}
    (positive : bytesRead ≠ 0) (short : bytesRead < 16 ^ 8)
    (fits : bytesRead + additionalEncodingSpace ≤ bufferSize) (room : bufferSize ≤ data.length) :
    ∃ offset after, addChunkedDelimiters data bufferSize bytesRead = .ok (offset, after) ∧
      offset ≤ 8 ∧ after.length = data.length ∧
      (after.drop offset).take (bytesRead + additionalEncodingSpace - offset) =
        hexDigits bytesRead ++ crlf ++ (data.drop dataOffset).take bytesRead ++ crlf := by
  simp only [additionalEncodingSpace, dataOffset] at fits ⊢
  have digitsLength := length_hexDigits short
  have printed := printHex8_eq positive short
  have printedLength := length_printHex8 positive short
  obtain ⟨blanks, blanksEq⟩ : ∃ blanks, blanks = 8 - (hexDigits bytesRead).length := ⟨_, rfl⟩
  have enough : bytesRead + 12 ≤ data.length := fits.trans room
  obtain ⟨field, space, payload, tail, rest, rfl, fieldLength, spaceLength, payloadLength,
    tailLength⟩ := exists_pieces enough
  have payloadEq : ((field ++ (space ++ (payload ++ (tail ++ rest)))).drop 10).take bytesRead =
      payload := by
    rw [← List.append_assoc field, List.drop_left' (by simp; omega),
      List.take_left' payloadLength]
  have first : store (field ++ (space ++ (payload ++ (tail ++ rest)))) 0 (printHex8 bytesRead) =
      printHex8 bytesRead ++ (space ++ (payload ++ (tail ++ rest))) :=
    store_append [] _ (by omega)
  have second : store (printHex8 bytesRead ++ (space ++ (payload ++ (tail ++ rest)))) 8 crlf =
      printHex8 bytesRead ++ (crlf ++ (payload ++ (tail ++ rest))) := by
    rw [← printedLength]
    exact store_append _ _ (by simpa [crlf] using spaceLength)
  have third : store (printHex8 bytesRead ++ (crlf ++ (payload ++ (tail ++ rest))))
      (10 + bytesRead) crlf = printHex8 bytesRead ++ (crlf ++ (payload ++ (crlf ++ rest))) := by
    have position : 10 + bytesRead = (printHex8 bytesRead ++ (crlf ++ payload)).length := by
      simp only [List.length_append, printedLength, payloadLength, crlf, List.length_cons,
        List.length_nil]
      omega
    rw [position]
    have sameLength : tail.length = crlf.length := tailLength
    simpa using store_append (printHex8 bytesRead ++ (crlf ++ payload)) rest sameLength
  have offsetEq := takeWhile_printHex8 positive short (space ++ (payload ++ (tail ++ rest)))
  rw [← blanksEq] at offsetEq
  refine ⟨blanks, printHex8 bytesRead ++ (crlf ++ (payload ++ (crlf ++ rest))), ?_, by omega,
    ?_, ?_⟩
  · simp only [addChunkedDelimiters, additionalEncodingSpace, if_neg positive,
      if_neg (by omega : ¬bufferSize < bytesRead + 12), first, second, third, offsetEq]
  · simp only [List.length_append, printedLength, fieldLength, spaceLength, tailLength, crlf,
      List.length_cons, List.length_nil]
  · rw [payloadEq, printed, ← blanksEq, List.append_assoc,
      List.drop_left' (List.length_replicate ..)]
    have whole : hexDigits bytesRead ++ (crlf ++ (payload ++ (crlf ++ rest))) =
        hexDigits bytesRead ++ crlf ++ payload ++ crlf ++ rest := by
      simp only [List.append_assoc]
    rw [whole, List.take_left']
    simp only [List.length_append, payloadLength, crlf, List.length_cons, List.length_nil]
    omega

theorem addChunkedDelimiters_zero {data : Bytes} {bufferSize : ℕ}
    (fits : additionalEncodingSpace ≤ bufferSize) (room : bufferSize ≤ data.length) :
    ∃ offset after, addChunkedDelimiters data bufferSize 0 = .ok (offset, after) ∧
      (after.drop offset).take (0 + additionalEncodingSpace - offset) = 48 :: crlf ++ crlf := by
  simp only [additionalEncodingSpace] at fits ⊢
  refine ⟨7, store data 7 (48 :: crlf ++ crlf), ?_, ?_⟩
  · simp [addChunkedDelimiters, additionalEncodingSpace, fits]
  · have front : (data.take 7).length = 7 := by
      simp only [List.length_take]
      omega
    rw [store, List.append_assoc, List.drop_left' front]
    exact List.take_left' rfl

end ChunkedEncoding

end Snode.Http
