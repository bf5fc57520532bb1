import Snode.Http.ChunkedReception

/-!
# Decoding what was encoded

The decoder of `http_connection` on the chunks `add_chunked_delimiters` emits:
the lines due are the ones that were printed, so each payload is appended to
the body as it was, and the total is reported once.
-/

namespace Snode.Http

open Streams ChunkedEncoding

/-- The slice that `add_chunked_delimiters` leaves for emission. -/
def emitted (data : Bytes) (bufferSize bytesRead : ℕ) : Bytes :=
  match addChunkedDelimiters data bufferSize bytesRead with
  | .ok (offset, after) => (after.drop offset).take (bytesRead + additionalEncodingSpace - offset)
  | .error _ => []

/-- A payload placed at `data_offset` of a buffer that is large enough for its delimiters. -/
structure PlacedChunk where
  payload : Bytes
  data : Bytes
  bufferSize : ℕ
  nonempty : payload ≠ []
  short : payload.length < 2 ^ 31 - 2
  fits : payload.length + additionalEncodingSpace ≤ bufferSize
  room : bufferSize ≤ data.length
  placed : (data.drop dataOffset).take payload.length = payload

namespace PlacedChunk

def emitted (chunk : PlacedChunk) : Bytes :=
  Http.emitted chunk.data chunk.bufferSize chunk.payload.length

variable (chunk : PlacedChunk)

theorem length_ne_zero : chunk.payload.length ≠ 0 := by
  simpa using chunk.nonempty

theorem emitted_eq :
    chunk.emitted = hexDigits chunk.payload.length ++ crlf ++ (chunk.payload ++ crlf) := by
  have short := chunk.short
  rcases addChunkedDelimiters_pos chunk.length_ne_zero (by omega) chunk.fits chunk.room with
    ⟨offset, after, added, -, -, slice⟩
  simp only [emitted, Http.emitted, added, slice, chunk.placed, List.append_assoc]

theorem length_emitted :
    chunk.emitted.length =
      (hexDigits chunk.payload.length).length + 2 + (chunk.payload.length + 2) := by
  simp only [chunk.emitted_eq, List.length_append, crlf, List.length_cons, List.length_nil]

theorem goodLine : GoodLine (hexDigits chunk.payload.length) chunk.payload.length where
  numeral := chunkSize_hexDigits chunk.length_ne_zero
  fits := by
    have short := chunk.short
    omega

end PlacedChunk

/-- The last chunk, emitted from a buffer that is large enough. -/
theorem emitted_zero {data : Bytes} {bufferSize : ℕ}
    (fits : additionalEncodingSpace ≤ bufferSize) (room : bufferSize ≤ data.length) :
    emitted data bufferSize 0 = [48] ++ crlf ++ crlf := by
  rcases addChunkedDelimiters_zero fits room with ⟨offset, after, added, slice⟩
  simp only [emitted, added, slice]
  rfl

theorem chunkSize_zero : ChunkSize [48] 0 :=
  ⟨List.cons_ne_nil _ _, [0], by decide, by decide⟩

/-- The emitted chunks, the last one included, and whatever follows them. -/
def encoded (chunks : List PlacedChunk) (extra : Bytes) : Bytes :=
  chunks.flatMap PlacedChunk.emitted ++ ([48] ++ crlf ++ (crlf ++ extra))

theorem encoded_cons (chunk : PlacedChunk) (chunks : List PlacedChunk) (extra : Bytes) :
    encoded (chunk :: chunks) extra = chunk.emitted ++ encoded chunks extra := by
  simp only [encoded, List.flatMap_cons, List.append_assoc]

theorem encoded_cons_split (chunk : PlacedChunk) (chunks : List PlacedChunk) (extra : Bytes) :
    encoded (chunk :: chunks) extra =
      hexDigits chunk.payload.length ++ crlf ++
        (chunk.payload ++ (crlf ++ encoded chunks extra)) := by
  simp only [encoded_cons, chunk.emitted_eq, List.append_assoc]

theorem encoded_split (chunks : List PlacedChunk) (count : ℕ) (extra : Bytes) :
    encoded chunks extra =
      (chunks.take count).flatMap PlacedChunk.emitted ++ encoded (chunks.drop count) extra := by
  conv_lhs => rw [encoded, ← List.take_append_drop count chunks, List.flatMap_append,
    List.append_assoc]
  rfl

theorem containsPattern_encoded (chunks : List PlacedChunk) (extra : Bytes) :
    crlf <:+: encoded chunks extra :=
  ⟨chunks.flatMap PlacedChunk.emitted ++ [48], crlf ++ extra, by simp [encoded]⟩

/-- A line that is due is one that was printed. -/
theorem AtLine.encoded {chunks : List PlacedChunk} {extra : Bytes} {count position : ℕ}
    {body : Bytes} (due : AtLine (encoded chunks extra) count position body) :
    count ≤ chunks.length ∧ position = ((chunks.take count).flatMap PlacedChunk.emitted).length ∧
      body = (chunks.take count).flatMap PlacedChunk.payload ∧
      (Http.encoded chunks extra).drop position = Http.encoded (chunks.drop count) extra := by
  induction due with
  | start => simp
  | @next count position size body line payload delimiter tail due split good nonzero length
      delimited ih =>
      rcases ih with ⟨countLe, positionEq, bodyEq, left⟩
      rw [left] at split
      rcases others : chunks.drop count with _ | ⟨chunk, rest⟩
      · rw [others] at split
        have zero := (good.unique chunkSize_zero split.symm).2.1
        exact (nonzero zero).elim
      · rw [others, encoded_cons_split] at split
        rcases good.unique chunk.goodLine.numeral split.symm with ⟨rfl, rfl, tails⟩
        obtain ⟨rfl, behind⟩ := List.append_inj tails length
        obtain ⟨rfl, rfl⟩ := List.append_inj behind delimited
        have more : count < chunks.length := by
          have := congrArg List.length others
          simp only [List.length_drop, List.length_cons] at this
          omega
        have taken : chunks.take (count + 1) = chunks.take count ++ [chunk] := by
          rw [List.take_add, others]
          rfl
        refine ⟨more, ?_, ?_, ?_⟩
        · rw [taken, List.flatMap_append, List.length_append, ← positionEq, Nat.add_assoc,
            ← chunk.length_emitted]
          simp
        · rw [taken, List.flatMap_append, ← bodyEq]
          simp
        · have next : chunks.drop (count + 1) = rest := by
            rw [← List.drop_drop, others]
            rfl
          rw [Nat.add_assoc, ← chunk.length_emitted, ← List.drop_drop, left, others, next,
            encoded_cons, List.drop_left' rfl]

/-- Every line that is due is a good one. -/
theorem goodChunks_encoded (chunks : List PlacedChunk) (extra : Bytes) :
    GoodChunks (encoded chunks extra) := by
  intro count position body due _
  rcases due.encoded with ⟨-, -, -, left⟩
  rw [left]
  rcases chunks.drop count with _ | ⟨chunk, rest⟩
  · exact ⟨[48], 0, crlf ++ extra, ⟨chunkSize_zero, by omega⟩, rfl⟩
  · exact ⟨_, _, _, chunk.goodLine, encoded_cons_split chunk rest extra⟩

/-- A line that is due and not zero is that of the next chunk. -/
theorem AtLine.encoded_chunk {chunks : List PlacedChunk} {extra line tail : Bytes}
    {count position size : ℕ} {body : Bytes}
    (due : AtLine (Http.encoded chunks extra) count position body)
    (split : (Http.encoded chunks extra).drop position = line ++ crlf ++ tail)
    (good : GoodLine line size) (nonzero : size ≠ 0) :
    ∃ chunk rest, chunks.drop count = chunk :: rest ∧
      line = hexDigits chunk.payload.length ∧ size = chunk.payload.length := by
  rw [due.encoded.2.2.2] at split
  rcases others : chunks.drop count with _ | ⟨chunk, rest⟩
  · rw [others] at split
    exact (nonzero (good.unique chunkSize_zero split.symm).2.1).elim
  · rw [others, encoded_cons_split] at split
    rcases good.unique chunk.goodLine.numeral split.symm with ⟨lineEq, sizeEq, -⟩
    exact ⟨chunk, rest, rfl, lineEq, sizeEq⟩

/-- A zero line that is due comes after all chunks. -/
theorem AtLine.encoded_last {chunks : List PlacedChunk} {extra line tail : Bytes}
    {count position : ℕ} {body : Bytes}
    (due : AtLine (Http.encoded chunks extra) count position body)
    (split : (Http.encoded chunks extra).drop position = line ++ crlf ++ tail)
    (last : ChunkSize line 0) :
    count = chunks.length ∧ body = chunks.flatMap PlacedChunk.payload := by
  rcases due.encoded with ⟨countLe, -, bodyEq, left⟩
  have none : chunks.drop count = [] := by
    rw [left] at split
    rcases others : chunks.drop count with _ | ⟨chunk, rest⟩
    · rfl
    · rw [others, encoded_cons_split] at split
      have zero := (chunk.goodLine.unique last split).2.1
      exact (chunk.length_ne_zero zero).elim
  have all : count = chunks.length := by
    have := congrArg List.length none
    simp only [List.length_drop, List.length_nil] at this
    omega
  exact ⟨all, by rw [bodyEq, all, List.take_length]⟩

/-- What is decoded when a line is due is a prefix of the payloads. -/
theorem AtLine.body_prefix {chunks : List PlacedChunk} {extra : Bytes} {count position : ℕ}
    {body : Bytes} (due : AtLine (Http.encoded chunks extra) count position body) :
    body <+: chunks.flatMap PlacedChunk.payload := by
  rw [due.encoded.2.2.1]
  conv_rhs => rw [← List.take_append_drop count chunks, List.flatMap_append]
  exact List.prefix_append _ _

/-- Once everything has arrived, the chunks that are still to be decoded have. -/
theorem AtLine.rest_prefix {chunks : List PlacedChunk} {extra arrived : Bytes}
    {count position : ℕ} {body : Bytes}
    (due : AtLine (Http.encoded chunks extra) count position body)
    (everything : Http.encoded chunks [] <+: arrived) :
    Http.encoded (chunks.drop count) [] <+: arrived.drop position := by
  have dropped := everything.drop position
  rwa [encoded_split chunks count [], List.drop_left' due.encoded.2.1.symm] at dropped

/-- A chunk whose line is due is one of those that were printed. -/
theorem AtLine.count_lt {chunks : List PlacedChunk} {extra line tail : Bytes}
    {count position size : ℕ} {body : Bytes}
    (due : AtLine (Http.encoded chunks extra) count position body)
    (split : (Http.encoded chunks extra).drop position = line ++ crlf ++ tail)
    (good : GoodLine line size) (nonzero : size ≠ 0) : count < chunks.length := by
  rcases due.encoded_chunk split good nonzero with ⟨chunk, rest, others, -⟩
  have lengths := congrArg List.length others
  simp only [List.length_drop, List.length_cons] at lengths
  omega

/-- Once everything has arrived, so have the data behind a line and their delimiter. -/
theorem AtLine.chunk_arrived {chunks : List PlacedChunk} {extra line tail arrived : Bytes}
    {count position size : ℕ} {body : Bytes}
    (due : AtLine (Http.encoded chunks extra) count position body)
    (split : (Http.encoded chunks extra).drop position = line ++ crlf ++ tail)
    (good : GoodLine line size) (nonzero : size ≠ 0)
    (everything : Http.encoded chunks [] <+: arrived) :
    size + 2 ≤ (arrived.drop (position + (line.length + 2))).length := by
  rcases due.encoded_chunk split good nonzero with ⟨chunk, rest, others, lineEq, sizeEq⟩
  subst lineEq sizeEq
  have buffered := (due.rest_prefix everything).drop
    ((hexDigits chunk.payload.length).length + 2)
  rw [List.drop_drop, others, encoded_cons_split,
    List.drop_left' (by simp [crlf])] at buffered
  have long := buffered.length_le
  simp only [List.length_append, crlf, List.length_cons, List.length_nil] at long
  omega

/-- A chunk that is there is emitted behind the digits of its length. -/
theorem PlacedChunk.added (chunk : PlacedChunk) :
    ∃ offset after digits,
      addChunkedDelimiters chunk.data chunk.bufferSize chunk.payload.length = .ok (offset, after) ∧
        (after.drop offset).take (chunk.payload.length + additionalEncodingSpace - offset) =
          digits ++ crlf ++ chunk.payload ++ crlf ∧
        ChunkSize digits chunk.payload.length ∧ digits.head? ≠ some 48 ∧
        ∀ byte ∈ digits, 48 ≤ byte.toNat ∧ byte.toNat ≤ 57 ∨
          65 ≤ byte.toNat ∧ byte.toNat ≤ 70 := by
  have short := chunk.short
  rcases addChunkedDelimiters_pos chunk.length_ne_zero (by omega) chunk.fits chunk.room with
    ⟨offset, after, added, -, -, slice⟩
  rcases hexDigits_canonical chunk.length_ne_zero with ⟨upper, leading⟩
  rw [chunk.placed] at slice
  exact ⟨offset, after, _, added, slice, chunkSize_hexDigits chunk.length_ne_zero, leading, upper⟩

namespace HttpConnection

/-- What is to be true of a connection when these events have happened since the dispatch of a
request whose body is fed some chunks.  What is stored is a prefix of the payloads, and once all
of them have arrived and nothing is left to do, it is all of them and their total length was
reported once. -/
structure ChunksDecoded (chunks : List PlacedChunk) (whole : Bytes) (start : HttpConnection)
    (labels : List Event) (next : HttpConnection) : Prop where
  stored : next.request.stream.stored <+: chunks.flatMap PlacedChunk.payload
  completed :
    next.log.completed = start.log.completed ∧
        (next.ready = true ∨ (∃ task ∈ next.tasks, task.receives = true) ∨
          ¬whole <+: start.requestBuf ++ received labels) ∨
      next.log.completed =
          start.log.completed ++ [sizeT (chunks.flatMap PlacedChunk.payload).length] ∧
        next.request.stream.stored = chunks.flatMap PlacedChunk.payload
  bounded : labels.countP Event.readsSocket ≤ (received labels).length + (2 * chunks.length + 1)

theorem chunksDecoded_of_decodes {start next : HttpConnection} {labels : List Event}
    {chunks : List PlacedChunk} {extra : Bytes} (healthy : ∀ ec, .readError ec ∉ labels)
    (decodes : Decodes (encoded chunks extra) start.requestBuf start.log.completed
      start.log.chunkHeaders labels next.reception) :
    ChunksDecoded chunks (encoded chunks []) start labels next := by
  rcases decodes with ⟨taken, reads, total, -, -, -, -, -, -, phase, bound⟩
  cases phase with
  | @header count position body due reading tasks completed stored within requestBuf sides =>
      change next.reading = _ at reading
      change next.requestBuf = _ at requestBuf
      refine ⟨stored ▸ due.body_prefix, .inl ⟨completed, ?_⟩, ?_⟩
      · by_cases everything : encoded chunks [] <+: start.requestBuf ++ received labels
        · have line := (containsPattern_encoded _ _).trans (due.rest_prefix everything).isInfix
          left
          simp [ready, reading, ReadCondition.met, requestBuf, containsPattern_iff.mpr line]
        · exact .inr (.inr everything)
      · have := due.encoded.1
        omega
  | @body count position size body line tail due split good nonzero reading tasks completed
      stored within requestBuf sides =>
      change next.reading = [⟨.atLeast (size + 2 - next.requestBuf.length), _⟩] at reading
      change next.requestBuf = _ at requestBuf
      have fewer := due.count_lt split good nonzero
      refine ⟨stored ▸ due.body_prefix, .inl ⟨completed, ?_⟩, by omega⟩
      by_cases everything : encoded chunks [] <+: start.requestBuf ++ received labels
      · have long := due.chunk_arrived split good nonzero everything
        have none : size + 2 - next.requestBuf.length = 0 := by
          rw [requestBuf]
          omega
        rw [none] at reading
        left
        simp only [ready, reading, List.head?_cons, Option.any_some, ReadCondition.met,
          beq_self_eq_true]
      · exact .inr (.inr everything)
  | @writing count position size body line tail due split good nonzero reading tasks completed
      stored within requestBuf enough sides =>
      change next.tasks.filter Task.receives = _ at tasks
      have fewer := due.count_lt split good nonzero
      refine ⟨stored ▸ due.body_prefix, .inl ⟨completed, .inr (.inl ?_)⟩, by omega⟩
      exact ⟨_, List.mem_filter.mp (tasks ▸ List.mem_singleton_self _)⟩
  | @complete count position body line tail due split last reading tasks completed stored =>
      rcases due.encoded_last split last with ⟨countEq, rfl⟩
      exact ⟨stored ▸ List.prefix_refl _, .inr ⟨completed, stored⟩, by omega⟩
  | failed ec _ _ _ error => exact (healthy ec error).elim

/-- Each payload is emitted behind its length in upper-case hexadecimal digits without leading
zeros.  Fed to a request of which no response ends while it arrives, the emitted chunks are
decoded, however they arrive; and in the first request of a connection no response does. -/
theorem chunks_roundTrip {getReqHandler : Bytes → Option ℕ} (request : RequestRun getReqHandler)
    {chunks : List PlacedChunk} {lastData extra : Bytes} {lastSize : ℕ}
    (lastFits : additionalEncodingSpace ≤ lastSize) (lastRoom : lastSize ≤ lastData.length)
    (chunked : request.start.chunked = true) (healthy : ∀ ec, .readError ec ∉ request.labels)
    (arrived : request.start.requestBuf ++ received request.labels <+:
      chunks.flatMap PlacedChunk.emitted ++ emitted lastData lastSize 0 ++ extra) :
    (∀ chunk ∈ chunks, ∃ offset after digits,
      addChunkedDelimiters chunk.data chunk.bufferSize chunk.payload.length = .ok (offset, after) ∧
        (after.drop offset).take (chunk.payload.length + additionalEncodingSpace - offset) =
          digits ++ crlf ++ chunk.payload ++ crlf ∧
        ChunkSize digits chunk.payload.length ∧ digits.head? ≠ some 48 ∧
        ∀ byte ∈ digits, 48 ≤ byte.toNat ∧ byte.toNat ≤ 57 ∨
          65 ≤ byte.toNat ∧ byte.toNat ≤ 70) ∧
      (request.Undisturbed → ChunksDecoded chunks
        (chunks.flatMap PlacedChunk.emitted ++ emitted lastData lastSize 0) request.start
        request.labels request.next) ∧
      (request.First → request.Undisturbed) := by
  have whole : chunks.flatMap PlacedChunk.emitted ++ emitted lastData lastSize 0 ++ extra =
      encoded chunks extra := by
    simp only [emitted_zero lastFits lastRoom, encoded, List.append_assoc]
  have all : chunks.flatMap PlacedChunk.emitted ++ emitted lastData lastSize 0 =
      encoded chunks [] := by
    simp only [emitted_zero lastFits lastRoom, encoded, List.append_assoc, List.append_nil]
  rw [whole] at arrived
  refine ⟨fun chunk _ => chunk.added, ?_, fun first => first.undisturbed⟩
  intro undisturbed
  rw [all]
  exact chunksDecoded_of_decodes healthy
    (undisturbed.decodes chunked (goodChunks_encoded chunks extra) arrived)

/-- Two bytes behind ten of space. -/
def placedHi : PlacedChunk where
  payload := ascii "hi"
  data := List.replicate 10 0 ++ ascii "hi" ++ [0, 0]
  bufferSize := 14
  nonempty := List.cons_ne_nil _ _
  short := by decide
  fits := by decide
  room := by decide
  placed := by decide

/-- The chunk arrives in two pieces. -/
def hiReceived : List Event :=
  [.receive (ascii "2" ++ crlf ++ ascii "h"), .readDone 0,
    .receive (ascii "i" ++ crlf ++ ascii "0" ++ crlf ++ crlf), .readDone 0, .runTask, .readDone 0]

theorem hiReceived_legal : LegalRequest anyHandler [] chunkedStart hiReceived := by
  decide +kernel

theorem chunks_roundTrip_hi :
    let request := chunkedRequest hiReceived_legal.run
    ChunksDecoded [placedHi]
        ([placedHi].flatMap PlacedChunk.emitted ++ emitted (List.replicate 12 0) 12 0)
        request.start request.labels request.next ∧
      request.next.log.completed = [2] ∧ request.next.request.stream.stored = ascii "hi" := by
  have start : chunkedStart.chunked = true ∧ chunkedStart.requestBuf = [] := by decide +kernel
  have next : (chunkedStart.run anyHandler hiReceived).log.completed = [2] ∧
      (chunkedStart.run anyHandler hiReceived).request.stream.stored = ascii "hi" := by
    decide +kernel
  have healthy : ∀ ec, .readError ec ∉ hiReceived := by
    simp [hiReceived]
  have arrived : chunkedStart.requestBuf ++ received hiReceived <+:
      [placedHi].flatMap PlacedChunk.emitted ++ emitted (List.replicate 12 0) 12 0 ++ [] := by
    rw [start.2]
    exact ⟨[], by decide⟩
  have all := chunks_roundTrip (chunkedRequest hiReceived_legal.run) (by decide) (by decide)
    start.1 healthy arrived
  exact ⟨all.2.1 (all.2.2 (first_chunkedRequest _)), next.1, next.2⟩

/-- On a connection that is kept open the end of another response clears the total, which is
reported as `0`. -/
theorem not_chunksDecoded_kept :
    keptChunked.start.chunked = true ∧ (∀ ec, .readError ec ∉ keptChunked.labels) ∧
      keptChunked.start.requestBuf ++ received keptChunked.labels =
        [placedHi].flatMap PlacedChunk.emitted ++ emitted (List.replicate 12 0) 12 0 ∧
      keptChunked.next.log.completed = keptChunked.start.log.completed ++ [0] ∧
      ¬ChunksDecoded [placedHi]
        ([placedHi].flatMap PlacedChunk.emitted ++ emitted (List.replicate 12 0) 12 0)
        keptChunked.start keptChunked.labels keptChunked.next := by
  have start : keptChunkedStart.chunked = true ∧ keptChunkedStart.requestBuf = [] ∧
      keptChunkedStart.log.completed = [1] := by
    decide +kernel
  have next : (keptChunkedStart.run anyHandler keptChunkedEvents).log.completed = [1, 0] := by
    decide +kernel
  have reported : keptChunked.next.log.completed = keptChunked.start.log.completed ++ [0] := by
    change (keptChunkedStart.run anyHandler keptChunkedEvents).log.completed =
      keptChunkedStart.log.completed ++ [0]
    rw [next, start.2.2]
    rfl
  refine ⟨start.1, by simp [keptChunked, keptChunkedEvents], ?_, reported, fun decoded => ?_⟩
  · change keptChunkedStart.requestBuf ++ received keptChunkedEvents = _
    rw [start.2.1]
    decide
  · rcases decoded.completed with ⟨incomplete, -⟩ | ⟨complete, -⟩
    · rw [reported] at incomplete
      simp at incomplete
    · rw [reported] at complete
      revert complete
      decide

end HttpConnection

end Snode.Http
